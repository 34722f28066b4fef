import UserDirectory.Persistence

/-!
# What `load_file` does

`load_file` adds the entry of one record after the other to the table.

* `Reaches`: the positions at which it may look for a record, and the entries
  before them (`loadPass_eq_inl_iff`: what one pass of the loop loads).
* `Server.loadFile_returns`: it always returns, and if it reports success, it
  has reached a position with nothing to read (`LoadedFrom`).
* `Server.loadFile_loaded`: it reports success when there is such a position.
-/

namespace UserDirectory

open Stdio Fuel LittleEndian AssocList

/-- The record of the entry `e` comes next, and it can be read. -/
structure Loads (faults : ReadFaults) (file : Reader) (e : AuthTableEntry) : Prop where
  storable : e.Storable
  reads : file.Reads faults (record e.username e)
  fseek : 0 < paddingOf (record e.username e).length →
    faults.fseek (file.pos + (record e.username e).length) = false

/-- The entry loaded after a header is that of the record that comes next. -/
theorem loads_of_loadEntry {faults : ReadFaults} {file file' : Reader} {e : AuthTableEntry}
    (hheader : file.Reads faults authentry)
    (h : loadEntry faults (file.skip 4) = some (e, file')) :
    Loads faults file e ∧ file' = file.skip (recordSize e) := by
  simp only [loadEntry, Option.bind_eq_bind, Option.bind_eq_some_iff, Prod.exists,
    Option.ite_none_left_eq_some, Reader.freadAll_eq_some_iff, Reader.ite_freadAll,
    Reader.ite_fseek_eq_some_iff] at h
  -- The three lengths, the limits, the three fields and the padding, in the order of the reads.
  obtain ⟨ulen, _, ⟨hulen, hru, rfl⟩, plen, _, ⟨hplen, hrp, rfl⟩, clen, _, ⟨hclen, hrc, rfl⟩,
    hlim, u, _, ⟨hu, hreadu, rfl⟩, p, _, ⟨hp, hreadp, rfl⟩, c, _, ⟨hc, hreadc, rfl⟩, _,
    ⟨hseek, rfl⟩, h⟩ := h
  cases h
  have hlen := length_record u ⟨u, p, c⟩
  simp only [not_or, Nat.not_lt] at hlim
  simp only [hu, hp, hc] at hlen
  refine ⟨⟨⟨hu ▸ hlim.1, hp ▸ hlim.2.1, hc ▸ hlim.2.2⟩, ?_, ?_⟩, ?_⟩
  · -- The lengths read are those of the fields, so what was read is the record.
    simp only [record, Reader.reads_append, length_authentry, hu, hp, hc, word_decode, hulen,
      hplen, hclen]
    exact ⟨hheader, hru, hrp, hrc, hreadu, hreadp, hreadc⟩
  · intro hpad
    rw [hlen] at hpad ⊢
    rw [← hseek hpad]
    congr 1
    simp only [Reader.skip]
    omega
  · simp only [Reader.skip_skip, recordSize, hlen]

/-- When nothing fails, a record that comes next is all that is needed. -/
theorem loads_none {bytes : Bytes} {pos : ℕ} {e : AuthTableEntry} (hs : e.Storable)
    (hpre : record e.username e <+: bytes.drop pos) : Loads .none ⟨bytes, pos⟩ e where
  storable := hs
  reads := ⟨hpre, fun _ _ => rfl⟩
  fseek _ := rfl

/-- The record that comes next is loaded. -/
theorem Loads.loadEntry {faults : ReadFaults} {file : Reader} {e : AuthTableEntry}
    (h : Loads faults file e) :
    loadEntry faults (file.skip 4) = some (e, file.skip (recordSize e)) := by
  obtain ⟨hs, hr, hseek⟩ := h
  obtain ⟨u, p, c⟩ := e
  have hdu := toNat_ofNat_length hs.username
  have hdp := toNat_ofNat_length hs.password
  have hdc := toNat_ofNat_length hs.content
  have hlen := length_record u ⟨u, p, c⟩
  simp only [record, Reader.reads_append, length_word, length_authentry] at hr
  obtain ⟨-, hru, hrp, hrc, hreadu, hreadp, hreadc⟩ := hr
  simp only [UserDirectory.loadEntry, Option.bind_eq_bind, Option.bind_eq_some_iff, Prod.exists,
    Option.ite_none_left_eq_some, Reader.freadAll_eq_some_iff, Reader.ite_freadAll,
    Reader.ite_fseek_eq_some_iff]
  refine ⟨word (.ofNat u.length), _, ⟨length_word _, hru, rfl⟩, word (.ofNat p.length), _,
    ⟨length_word _, hrp, rfl⟩, word (.ofNat c.length), _, ⟨length_word _, hrc, rfl⟩, ?_⟩
  -- The words give back the lengths of the fields.
  simp only [decode_word, hdu, hdp, hdc]
  refine ⟨?_, u, _, ⟨rfl, hreadu, rfl⟩, p, _, ⟨rfl, hreadp, rfl⟩, c, _,
      ⟨rfl, hreadc, rfl⟩, _, ⟨?_, rfl⟩, ?_⟩
  · simp only [not_or, Nat.not_lt]
    exact ⟨hs.username, hs.password, hs.content⟩
  · intro hpad
    rw [hlen] at hseek
    rw [← hseek hpad]
    congr 1
    simp only [Reader.skip]
    omega
  · simp only [Reader.skip_skip, recordSize, hlen]
    rfl

/-- At most one record comes next. -/
theorem Loads.unique {faults : ReadFaults} {file : Reader} {e e' : AuthTableEntry}
    (h : Loads faults file e) (h' : Loads faults file e') : e = e' :=
  (Prod.mk.inj (Option.some.inj (h.loadEntry.symm.trans h'.loadEntry))).1

theorem Loads.pos_lt {faults : ReadFaults} {file : Reader} {e : AuthTableEntry}
    (h : Loads faults file e) : file.pos < file.bytes.length := by
  have hlen := h.reads.1.length_le
  rw [length_record, Reader.rest, List.length_drop] at hlen
  omega

theorem recordSize_pos (e : AuthTableEntry) : 0 < recordSize e := by
  rw [recordSize, length_record]
  omega

/-- A pass goes on iff it loads an entry with a new name, which it adds to the table. -/
theorem loadPass_eq_inl_iff {faults : ReadFaults} {s s' : LoadState} :
    loadPass faults s = .inl s' ↔
      ∃ e, Loads faults s.file e ∧ e.username ∉ keys s.authTable.entries ∧
        s' = ⟨s.file.skip (recordSize e), (s.authTable.insert e.username e).2⟩ := by
  have hheader := @Reader.fread_fst_eq_iff faults s.file 4 authentry rfl
  have hskip := @Reader.fread_eq faults s.file 4
  rw [loadPass]
  generalize s.file.fread faults 4 = read at hheader hskip ⊢
  obtain ⟨header, file⟩ := read
  dsimp only at hheader hskip ⊢
  by_cases h : header = authentry
  · -- The header of a record: the entry decides.
    obtain rfl : file = s.file.skip 4 := (Prod.mk.inj (hskip (by rw [h]; rfl))).2
    simp only [h, length_authentry, ne_eq, not_true_eq_false, or_self, if_false,
      OfNat.ofNat_ne_zero]
    constructor
    · intro hpass
      split at hpass
      · cases hpass
      · next e file he =>
        obtain ⟨hload, rfl⟩ := loads_of_loadEntry (hheader.1 h) he
        rw [SequentialMap.insert_fst] at hpass
        by_cases hk : e.username ∈ keys s.authTable.entries
        · simp [hk] at hpass
        · simp only [hk, not_false_eq_true, decide_true, if_true, Sum.inl.injEq] at hpass
          exact ⟨e, hload, hk, hpass.symm⟩
    · rintro ⟨e, hload, hk, rfl⟩
      rw [hload.loadEntry]
      simp [SequentialMap.insert_fst, hk]
  · -- Anything else ends the loop, and is no record.
    constructor
    · intro hpass
      split at hpass
      · cases hpass
      · rw [if_pos (.inr h)] at hpass
        cases hpass
    · rintro ⟨e, hload, -⟩
      exact absurd (hheader.2 (Reader.reads_append.1 hload.reads).1) h

/-- A pass takes the file for loaded iff there is no byte at the position, or none that
    can be read. -/
theorem loadPass_eq_loaded_iff {faults : ReadFaults} {s : LoadState}
    {t : SequentialMap Bytes AuthTableEntry} : loadPass faults s = .inr (true, t) ↔
      (s.file.bytes.length ≤ s.file.pos ∨ faults.fread s.file.pos = true) ∧ t = s.authTable := by
  rw [← Reader.fread_eq_nil_iff (n := 4) (by decide), loadPass, ← List.length_eq_zero_iff]
  obtain ⟨header, file⟩ := s.file.fread faults 4
  dsimp only
  split
  · next h => simp [h, @eq_comm _ t]
  · next h =>
    simp only [h, false_and, iff_false]
    intro hpass
    split at hpass
    · cases hpass
    · split at hpass
      · cases hpass
      · rw [SequentialMap.insert_fst] at hpass
        split at hpass <;> cases hpass

/-- A pass that ends the loop leaves the table alone. -/
theorem loadPass_table {faults : ReadFaults} {s : LoadState}
    {r : Bool × SequentialMap Bytes AuthTableEntry} (h : loadPass faults s = .inr r) :
    r.2 = s.authTable := by
  rw [loadPass] at h
  obtain ⟨header, file⟩ := s.file.fread faults 4
  dsimp only at h
  split at h
  · cases h
    rfl
  · split at h
    · cases h
      rfl
    · split at h
      · cases h
        rfl
      · next e _ _ =>
        by_cases hk : e.username ∈ keys s.authTable.entries
        · rw [SequentialMap.insert_of_mem _ hk] at h
          cases h
          rfl
        · simp [SequentialMap.insert_fst, hk] at h

/-- The entries `es` stand one after the other in the file, from its start to the position
    `pos`; their records can be read, and their names are distinct. So `load_file` looks for
    the next record at `pos`. -/
inductive Reaches (faults : ReadFaults) (bytes : Bytes) : ℕ → List (Bytes × AuthTableEntry) → Prop
  | start : Reaches faults bytes 0 []
  | next {pos : ℕ} {es : List (Bytes × AuthTableEntry)} {e : AuthTableEntry} :
    Reaches faults bytes pos es → Loads faults ⟨bytes, pos⟩ e → e.username ∉ keys es →
    Reaches faults bytes (pos + recordSize e) (es ++ [(e.username, e)])

theorem Reaches.wellFormed {faults : ReadFaults} {bytes : Bytes} {pos : ℕ}
    {es : List (Bytes × AuthTableEntry)} (h : Reaches faults bytes pos es) : WellFormed es := by
  induction h with
  | start => exact fun e he => absurd he List.not_mem_nil
  | next _ hload _ ih =>
    intro e he
    rcases List.mem_append.1 he with he | he
    · exact ih e he
    · rw [List.mem_singleton.1 he]
      exact ⟨rfl, hload.storable⟩

/-- There is nothing to read at a position, or it cannot be read. -/
def Exhausted (faults : ReadFaults) (bytes : Bytes) (pos : ℕ) : Prop :=
  bytes.length ≤ pos ∨ faults.fread pos = true

section LoadLoop

variable {faults : ReadFaults} {bytes : Bytes} {pos : ℕ}

/-- What holds at every pass. -/
def LoadInv (faults : ReadFaults) (bytes : Bytes) (s : LoadState) : Prop :=
  s.file.bytes = bytes ∧ Reaches faults bytes s.file.pos s.authTable.entries

theorem LoadInv.next {s s' : LoadState} (hs : LoadInv faults bytes s)
    (h : loadPass faults s = .inl s') : LoadInv faults bytes s' ∧
      bytes.length - s'.file.pos < bytes.length - s.file.pos := by
  obtain ⟨rfl, hr⟩ := hs
  obtain ⟨e, hload, hk, rfl⟩ := loadPass_eq_inl_iff.1 h
  refine ⟨⟨rfl, ?_⟩, Nat.sub_lt_sub_left hload.pos_lt (Nat.lt_add_of_pos_right (recordSize_pos e))⟩
  rw [SequentialMap.insert_entries _ hk]
  exact hr.next hload hk

/-- The loop of `load_file` always ends. -/
theorem loadLoop_returns (faults : ReadFaults) (bytes : Bytes) :
    ∃ r, Returns (fun n => loop (loadPass faults) n ⟨⟨bytes, 0⟩, .empty⟩) r :=
  loop_returns_of_variant (P := LoadInv faults bytes) (fun s => bytes.length - s.file.pos)
    (fun _ _ hs h => hs.next h) ⟨rfl, .start⟩

/-- What the loop has loaded is what comes before a position reached; if it takes the file for
    loaded, there is nothing to read there. -/
theorem reaches_of_loadLoop {r : Bool × SequentialMap Bytes AuthTableEntry}
    (h : Returns (fun n => loop (loadPass faults) n ⟨⟨bytes, 0⟩, .empty⟩) r) :
    ∃ pos, Reaches faults bytes pos r.2.entries ∧ (r.1 = true → Exhausted faults bytes pos) := by
  refine loop_invariant (P := LoadInv faults bytes) (Q := fun r => ∃ pos,
    Reaches faults bytes pos r.2.entries ∧ (r.1 = true → Exhausted faults bytes pos)) h
    ⟨rfl, .start⟩ (fun _ _ hs hb => (hs.next hb).1) (fun s r hs hb => ?_)
  obtain ⟨rfl, hr⟩ := hs
  rw [loadPass_table hb]
  refine ⟨s.file.pos, hr, fun hloaded => ?_⟩
  obtain ⟨loaded, t⟩ := r
  obtain rfl : loaded = true := hloaded
  exact (loadPass_eq_loaded_iff.1 hb).1

/-- The loop goes on to every position reached. -/
theorem Reaches.loop {es : List (Bytes × AuthTableEntry)} (h : Reaches faults bytes pos es) :
    ∃ t : SequentialMap Bytes AuthTableEntry, t.entries = es ∧
      ∀ r, Returns (fun n => Fuel.loop (loadPass faults) n ⟨⟨bytes, pos⟩, t⟩) r →
        Returns (fun n => Fuel.loop (loadPass faults) n ⟨⟨bytes, 0⟩, .empty⟩) r := by
  induction h with
  | start => exact ⟨.empty, rfl, fun _ => id⟩
  | @next pos es e _ hload hk ih =>
    obtain ⟨t, rfl, ht⟩ := ih
    refine ⟨(t.insert e.username e).2, SequentialMap.insert_entries _ hk, fun r hr => ht r ?_⟩
    exact (loop_returns_next (loadPass_eq_inl_iff.2 ⟨e, hload, hk, rfl⟩)).2 hr

/-- When the loop reaches a position with nothing to read, it takes the file for loaded. -/
theorem Reaches.loadLoop {es : List (Bytes × AuthTableEntry)} (h : Reaches faults bytes pos es)
    (hend : Exhausted faults bytes pos) : ∃ t : SequentialMap Bytes AuthTableEntry, t.entries = es ∧
      Returns (fun n => Fuel.loop (loadPass faults) n ⟨⟨bytes, 0⟩, .empty⟩) (true, t) := by
  obtain ⟨t, rfl, ht⟩ := h.loop
  exact ⟨t, rfl, ht _ (loop_returns_of_inr (loadPass_eq_loaded_iff.2 ⟨hend, rfl⟩))⟩

end LoadLoop

/-- The entries of a file go on after the position reached as those of the rest. -/
theorem Reaches.entries_iff {faults : ReadFaults} {bytes : Bytes} {pos : ℕ}
    {es : List (Bytes × AuthTableEntry)} (h : Reaches faults bytes pos es)
    {es' : List (Bytes × AuthTableEntry)} :
    Entries bytes (es ++ es') ↔ Entries (bytes.drop pos) es' := by
  induction h generalizing es' with
  | start => exact Iff.rfl
  | @next pos es e _ hload _ ih =>
    rw [List.append_assoc, List.singleton_append, ih, ← List.drop_drop, entries_cons_iff]
    exact ⟨fun h => h.2.2.2, fun h => ⟨rfl, hload.storable, hload.reads.1, h⟩⟩

/-- When nothing fails, `load_file` reaches the end of a file that stands for entries with
    distinct names. -/
theorem Entries.reaches {bytes : Bytes} {pos : ℕ} {es es' : List (Bytes × AuthTableEntry)}
    (hes' : Entries (bytes.drop pos) es') (h : Reaches .none bytes pos es)
    (hnodup : (keys (es ++ es')).Nodup) :
    ∃ pos', Reaches .none bytes pos' (es ++ es') ∧ bytes.length ≤ pos' := by
  induction es' generalizing pos es with
  | nil =>
    rw [List.append_nil]
    exact ⟨pos, h, List.drop_eq_nil_iff.1 (entries_nil_iff.1 hes')⟩
  | cons x es' ih =>
    obtain ⟨username, e⟩ := x
    obtain ⟨rfl, hs, hpre, hes'⟩ := entries_cons_iff.1 hes'
    -- A name that comes again would end the load.
    have hk : e.username ∉ keys es := by
      rw [keys_append, keys_cons] at hnodup
      intro hk
      exact (List.nodup_append.1 hnodup).2.2 _ hk _ List.mem_cons_self rfl
    rw [List.drop_drop] at hes'
    rw [← List.singleton_append, ← List.append_assoc] at hnodup ⊢
    exact ih hes' (h.next (loads_none hs hpre) hk) hnodup

/-! ## Loading a server -/

/-- The entries `es` stand in the file before a position with nothing to read; there are none
    if the file is missing or cannot be opened. These are what `load_file` can load with
    success. -/
def LoadedFrom (faults : ReadFaults) (file : Option Bytes) (es : List (Bytes × AuthTableEntry)) :
    Prop :=
  match if faults.fopen then none else file with
  | none => es = []
  | some bytes => ∃ pos, Reaches faults bytes pos es ∧ Exhausted faults bytes pos

namespace Server

variable {sv : Server} {faults : ReadFaults}

/-- `load_file` always returns, and changes nothing but the table. -/
theorem loadFile_returns (faults : ReadFaults) (sv : Server) :
    ∃ r t, Returns (fun n => sv.loadFile n faults) (r, sv.withTable t) ∧ WellFormed t.entries ∧
      (r.succeeded = true → LoadedFrom faults sv.dataFile t.entries) := by
  have hempty : WellFormed (SequentialMap.empty (K := Bytes) (V := AuthTableEntry)).entries :=
    fun e he => absurd he List.not_mem_nil
  simp only [loadFile, Reader.fopen, LoadedFrom, dataFile]
  cases (if faults.fopen then none else sv.files sv.storage.filename : Option Bytes) with
  | none => exact ⟨_, .empty, returns_of_forall fun _ => rfl, hempty, fun _ => rfl⟩
  | some bytes =>
    obtain ⟨⟨loaded, t⟩, hr⟩ := loadLoop_returns faults bytes
    obtain ⟨pos, hreaches, hend⟩ := reaches_of_loadLoop hr
    refine ⟨_, t, hr.map _, hreaches.wellFormed, fun hsucc => ?_⟩
    cases loaded with
    | false => cases hsucc
    | true => exact ⟨pos, hreaches, hend rfl⟩

/-- Whatever `load_file` reports, it has loaded what comes before a position reached. -/
theorem loadFile_reaches {bytes : Bytes} (hopen : faults.fopen = false)
    (hfile : sv.dataFile = some bytes) : ∃ r t pos,
      Returns (fun n => sv.loadFile n faults) (r, sv.withTable t) ∧
        Reaches faults bytes pos t.entries ∧ (r.succeeded = true → Exhausted faults bytes pos) := by
  rw [dataFile] at hfile
  simp only [loadFile, Reader.fopen, hopen, hfile]
  obtain ⟨⟨loaded, t⟩, hr⟩ := loadLoop_returns faults bytes
  obtain ⟨pos, hreaches, hend⟩ := reaches_of_loadLoop hr
  refine ⟨_, t, pos, hr.map _, hreaches, fun hsucc => hend ?_⟩
  cases loaded with
  | false => cases hsucc
  | true => rfl

/-- `load_file` reports to have loaded what it finds. -/
theorem loadFile_loaded {es : List (Bytes × AuthTableEntry)}
    (h : LoadedFrom faults sv.dataFile es) : ∃ r t,
      Returns (fun n => sv.loadFile n faults) (r, sv.withTable t) ∧ r.succeeded = true ∧
        t.entries = es := by
  simp only [LoadedFrom, dataFile] at h
  simp only [loadFile, Reader.fopen]
  cases hfile : (if faults.fopen then none else sv.files sv.storage.filename : Option Bytes) with
  | none =>
    rw [hfile] at h
    exact ⟨_, .empty, returns_of_forall fun _ => rfl, rfl, h.symm⟩
  | some bytes =>
    rw [hfile] at h
    obtain ⟨pos, hreaches, hend⟩ := h
    obtain ⟨t, ht, hr⟩ := hreaches.loadLoop hend
    exact ⟨_, t, hr.map _, rfl, ht⟩

/-- When nothing fails, `load_file` loads a file that stands for entries with distinct names. -/
theorem loadFile_none {bytes : Bytes} (hfile : sv.dataFile = some bytes)
    {es : List (Bytes × AuthTableEntry)} (hes : Entries bytes es) (hnodup : (keys es).Nodup) :
    ∃ r t, Returns (fun n => sv.loadFile n .none) (r, sv.withTable t) ∧ r.succeeded = true ∧
      t.entries = es := by
  obtain ⟨pos, hreaches, hend⟩ := @Entries.reaches bytes 0 [] es hes .start hnodup
  refine loadFile_loaded ?_
  rw [hfile]
  exact ⟨pos, hreaches, .inl hend⟩

end Server

end UserDirectory
