import UserDirectory.Requests

/-!
# Failures of the file system

What is left of the promises of `save_file` and `load_file` when calls of stdio
fail: neither looks at all the results.

* `saveFile_atomic_iff`: `save_file` ignores the results of `fwrite` and
  `fclose`, so it is atomic exactly if the file is not opened or not renamed,
  or no write is cut short.
* `loadFile_exact_iff`: `load_file` takes a failure of `fopen` for a missing
  file, and a failure of `fread` between two records for the end of the file,
  so what it loads is what the file stands for exactly if there is no such
  failure.
-/

namespace UserDirectory

open Fuel Stdio

/-! ## Saving -/

/-- `save_file` leaves the previous data file or the image of the table, the image if it
    succeeds and the previous file if it does not; and it leaves the table alone. -/
structure AtomicSave (faults : WriteFaults) (sv : Server) : Prop where
  dataFile : (sv.saveFile faults).2.dataFile = sv.dataFile ∨
    (sv.saveFile faults).2.dataFile = some (image sv.storage.authTable)
  success : (sv.saveFile faults).1.succeeded = true →
    (sv.saveFile faults).2.dataFile = some (image sv.storage.authTable)
  failure : (sv.saveFile faults).1.succeeded = false →
    (sv.saveFile faults).2.dataFile = sv.dataFile
  table : (sv.saveFile faults).2.storage.authTable = sv.storage.authTable

/-- `save_file` is atomic exactly if `fopen` or `rename` fails, or every `fwrite` takes all
    it is given and the flush of `fclose` loses nothing. -/
theorem saveFile_atomic_iff {sv : Server} (hsv : Reachable sv) (faults : WriteFaults) :
    AtomicSave faults sv ↔
      faults.fopen ∨ faults.rename ∨ faults.Complete (blocks sv.storage.authTable) := by
  have htable := congrArg MyStorage.authTable (Server.saveFile_storage faults sv)
  have hfile := Server.saveFile_dataFile faults sv
  have hresult := Server.saveFile_succeeded faults sv
  by_cases hfail : faults.fopen = true ∨ faults.rename = true
  · -- Nothing is renamed, and the failure is reported.
    rw [if_pos hfail] at hfile hresult
    refine iff_of_true ⟨.inl hfile, fun h => ?_, fun _ => hfile, htable⟩ (or_assoc.1 (.inl hfail))
    rw [hresult] at h
    cases h
  · rw [if_neg hfail] at hfile hresult
    rw [← or_assoc, or_iff_right hfail, ← saved_eq_image_iff hsv.wellFormed]
    constructor
    · intro h
      exact Option.some.inj (hfile.symm.trans (h.success (by rw [hresult])))
    · intro h
      rw [h] at hfile
      refine ⟨.inr hfile, fun _ => hfile, fun hf => ?_, htable⟩
      rw [hresult] at hf
      cases hf

/-- When nothing fails, the save of `alice` is atomic. -/
theorem saveFile_atomic_alice : AtomicSave .none aliceServer :=
  (saveFile_atomic_iff reachable_aliceServer .none).2 (.inr (.inr (WriteFaults.none_complete _)))

/-- When `fclose` flushes nothing, the save of `alice` empties the data file, and succeeds. -/
theorem saveFile_unflushed_not_atomic :
    Reachable aliceServer ∧ ¬AtomicSave ⟨false, fun _ => none, some 0, false⟩ aliceServer := by
  refine ⟨reachable_aliceServer, fun h => ?_⟩
  have hempty :
      (aliceServer.saveFile ⟨false, fun _ => none, some 0, false⟩).2.dataFile = some [] := by
    decide +kernel
  have himage := h.success (by decide +kernel)
  rw [hempty] at himage
  exact absurd himage (by decide +kernel)

/-! ## Loading -/

/-- If `load_file` reports success, the table holds the entries of the data file. -/
def ExactLoad (faults : ReadFaults) (sv : Server) : Prop :=
  ∃ r sv', Returns (fun n => sv.loadFile n faults) (r, sv') ∧
    (r.succeeded = true → FileEntries sv.dataFile sv'.storage.authTable.entries)

/-- When `load_file` is exact, what it reports to have loaded are the entries of the file. -/
theorem ExactLoad.fileEntries {faults : ReadFaults} {sv : Server} (h : ExactLoad faults sv)
    {es : List (Bytes × AuthTableEntry)} (hes : LoadedFrom faults sv.dataFile es) :
    FileEntries sv.dataFile es := by
  obtain ⟨r, sv', hr, hexact⟩ := h
  obtain ⟨r', t, hr', hsucc, rfl⟩ := Server.loadFile_loaded hes
  obtain ⟨rfl, rfl⟩ := Prod.mk.inj (hr.unique hr')
  exact hexact hsucc

/-- The entries before a position are those of the file iff the position is its end. -/
theorem Reaches.entries_self_iff {faults : ReadFaults} {bytes : Bytes} {pos : ℕ}
    {es : List (Bytes × AuthTableEntry)} (h : Reaches faults bytes pos es) :
    Entries bytes es ↔ bytes.length ≤ pos := by
  have hiff := @Reaches.entries_iff faults bytes pos es h []
  rwa [List.append_nil, entries_nil_iff, List.drop_eq_nil_iff] at hiff

/-- A file that cannot be opened is taken for one without entries. -/
theorem ExactLoad.eq_nil_of_fopen {faults : ReadFaults} {sv : Server} (h : ExactLoad faults sv)
    (hf : faults.fopen = true) {bytes : Bytes} (hbytes : sv.dataFile = some bytes) :
    bytes = [] := by
  have hes : FileEntries sv.dataFile [] := h.fileEntries (by simp only [LoadedFrom, hf, if_true])
  rw [hbytes] at hes
  exact entries_nil_iff.1 hes

/-- A position with nothing to read is taken for the end of the file. -/
theorem ExactLoad.length_le_of_fread {faults : ReadFaults} {sv : Server} (h : ExactLoad faults sv)
    (hf : ¬faults.fopen = true) {bytes : Bytes} (hbytes : sv.dataFile = some bytes) {pos : ℕ}
    {es : List (Bytes × AuthTableEntry)} (hreaches : Reaches faults bytes pos es)
    (hunread : faults.fread pos = true) : bytes.length ≤ pos := by
  have hloaded : LoadedFrom faults sv.dataFile es := by
    simp only [LoadedFrom, hf, hbytes]
    exact ⟨pos, hreaches, .inr hunread⟩
  have hes := h.fileEntries hloaded
  rw [hbytes] at hes
  exact hreaches.entries_self_iff.1 hes

/-- Without such failures, what is loaded are the entries of the file. -/
theorem LoadedFrom.fileEntries {faults : ReadFaults} {file : Option Bytes}
    {es : List (Bytes × AuthTableEntry)} (hes : LoadedFrom faults file es)
    (hopen : faults.fopen = true → ∀ bytes ∈ file, bytes = [])
    (hread : ∀ bytes ∈ file, ∀ pos es, Reaches faults bytes pos es → pos < bytes.length →
      faults.fread pos = false) : FileEntries file es := by
  rcases file with _ | bytes
  · simp only [LoadedFrom, ite_self] at hes
    exact hes
  by_cases hf : faults.fopen = true
  · -- The file is not opened, but there is nothing in it.
    simp only [LoadedFrom, hf, if_true] at hes
    rw [hes, hopen hf bytes rfl]
    exact .nil
  · simp only [LoadedFrom, hf] at hes
    obtain ⟨pos, hreaches, hend⟩ := hes
    refine hreaches.entries_self_iff.2 ?_
    rcases hend with hend | hunread
    · exact hend
    · -- Nothing could be read, so this is the end.
      by_contra hlt
      have hno := hread bytes rfl pos _ hreaches (Nat.lt_of_not_le hlt)
      exact absurd (hunread.symm.trans hno) (by decide)

/-- `load_file` is exact exactly if `fopen` does not fail on a file with something in it, and
    the byte at every position reached before the end of the file can be read. -/
theorem loadFile_exact_iff (faults : ReadFaults) (sv : Server) :
    ExactLoad faults sv ↔
      (faults.fopen = true → ∀ bytes ∈ sv.dataFile, bytes = []) ∧
      ∀ bytes ∈ sv.dataFile, ∀ pos es, Reaches faults bytes pos es → pos < bytes.length →
        faults.fread pos = false := by
  constructor
  · intro h
    refine ⟨fun hf bytes hbytes => h.eq_nil_of_fopen hf (Option.mem_def.1 hbytes),
      fun bytes hbytes pos es hreaches hlt => ?_⟩
    have hf : ¬faults.fopen = true := by
      intro hf
      rw [h.eq_nil_of_fopen hf (Option.mem_def.1 hbytes)] at hlt
      exact Nat.not_lt_zero _ hlt
    by_contra hunread
    rw [Bool.not_eq_false] at hunread
    have hle := h.length_le_of_fread hf (Option.mem_def.1 hbytes) hreaches hunread
    exact Nat.not_le.2 hlt hle
  · rintro ⟨hopen, hread⟩
    obtain ⟨r, t, hr, -, hloaded⟩ := Server.loadFile_returns faults sv
    exact ⟨r, _, hr, fun hsucc => (hloaded hsucc).fileEntries hopen hread⟩

/-- A server that starts on the data file of `alice`. -/
def startingServer : Server :=
  ⟨.new (ascii "company.dir"), fun name =>
    if name = ascii "company.dir" then some (image aliceServer.storage.authTable) else none⟩

/-- When the data file of `alice` cannot be opened, `load_file` reports success without her. -/
theorem loadFile_unopened_not_exact :
    ¬ExactLoad ⟨true, fun _ => false, fun _ => false⟩ startingServer := by
  intro h
  have hfile : startingServer.dataFile = some (image aliceServer.storage.authTable) := by
    decide +kernel
  have hes : FileEntries startingServer.dataFile [] := h.fileEntries rfl
  rw [hfile] at hes
  exact absurd (entries_nil_iff.1 hes) (by decide +kernel)

end UserDirectory
