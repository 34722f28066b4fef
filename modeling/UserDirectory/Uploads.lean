import UserDirectory.Downloads
import UserDirectory.Library.Assertion

/-!
# Uploads

`load_entire_file` (`common/file.cc`), with which `req_set` reads the profile
that it sends, and the requests of the client that only print the response:
`req_reg`, `req_bye`, `req_sav` and `req_set` (`client/requests.cc`).

* `Terminal.loadEntireFile_eq_iff`: what is loaded is the whole file, if it can
  be read, has the size that `stat` gave, and is smaller than `2 ^ 32` bytes;
  else nothing.
* `Checked.loadEntireFile_eq`: a file that has grown in between is read past the
  end of the buffer.
-/

namespace UserDirectory

open Fuel Socket CInt LittleEndian Stdio Assertion

namespace Terminal

/-- Load a file and return its contents: nothing, on an error. Others may change the files
    between `stat` and `fopen`, to `later`. -/
def loadEntireFile (faults : ReadFaults) (later : Files Bytes) (filename : Bytes) (t : Terminal) :
    Bytes × Terminal :=
  match t.files (cStr filename) with
  | none => t.err [] (ascii "File ") (cStr filename) (ascii " not found")
  | some stat =>
    let stSize := stat.length
    let t := { t with files := later }
    match Reader.fopen faults later (cStr filename) with
    | none => t.err [] (ascii "File ") (cStr filename) (ascii " not found")
    | some f =>
      let res := List.replicate stSize 0
      -- One byte more than the vector has room for: it should not be there.
      let (read, f) := f.fread faults (stSize + 1)
      let res := (store res 0 read).take stSize
      let recd := read.length % 2 ^ 32
      if recd ≠ res.length ∨ !f.feof (stSize + 1) read then
        t.err [] (ascii "Incorrect number of bytes read from ") (cStr filename) []
      else (res, t)

end Terminal

namespace Client

/-- What the requests without data share: a request, and the response printed. -/
def request (fuel : ℕ) (cmd user pass msg : Bytes) (t : Terminal) : Option Terminal :=
  (sendCmd fuel cmd user pass msg t.conn).map fun (response, conn) =>
    let t := { t with conn := conn }
    if response ≠ [] then t.printLine response else t

/-- Register a user, with a name and a password of the right size. -/
def reqReg (fuel : ℕ) (user pass : Bytes) (t : Terminal) : Option Terminal :=
  if user.length = 0 ∨ lenUname < user.length ∨ pass.length = 0 ∨ lenPassword < pass.length then
    some (t.complain resErrReqFmt)
  else request fuel UserDirectory.reqReg user pass [] t

/-- Stop the server. -/
def reqBye (fuel : ℕ) (user pass : Bytes) : Terminal → Option Terminal :=
  request fuel UserDirectory.reqBye user pass []

/-- Have the server save its data. -/
def reqSav (fuel : ℕ) (user pass : Bytes) : Terminal → Option Terminal :=
  request fuel UserDirectory.reqSav user pass []

/-- Send the contents of the file `setfile`, unless there are none. -/
def reqSet (fuel : ℕ) (faults : ReadFaults) (later : Files Bytes) (user pass setfile : Bytes)
    (t : Terminal) : Option Terminal :=
  let (fileContents, t) := t.loadEntireFile faults later setfile
  if fileContents = [] then some t
  else request fuel UserDirectory.reqSet user pass (setMsg fileContents) t

end Client

/-! ## What is loaded -/

/-- The file can be loaded: it has the given size, which an `unsigned` holds, and each byte
    can be read. -/
def Loadable (faults : ReadFaults) (size : ℕ) (bytes : Bytes) : Prop :=
  bytes.length = size ∧ size < 2 ^ 32 ∧ ∀ i < size, faults.fread i = false

instance (faults : ReadFaults) (size : ℕ) (bytes : Bytes) :
    Decidable (Loadable faults size bytes) := inferInstanceAs (Decidable (_ ∧ _))

section Loading

variable {faults : ReadFaults} {size : ℕ} {bytes read : Bytes}

/-- A vector of the given size, after `fread`. -/
theorem length_store_take (size : ℕ) (read : Bytes) :
    ((store (List.replicate size 0) 0 read).take size).length = size := by
  rw [store, List.take_zero, List.nil_append, Nat.zero_add, List.length_take, List.length_append,
    List.length_drop, List.length_replicate]
  omega

/-- The end of the file is found after as many bytes as there is room for iff the file is
    loadable, and then they are its contents. -/
theorem loadable_iff : ((((⟨bytes, 0⟩ : Reader).fread faults (size + 1)).1.length % 2 ^ 32 = size) ∧
      ((⟨bytes, 0⟩ : Reader).fread faults (size + 1)).2.feof (size + 1)
        ((⟨bytes, 0⟩ : Reader).fread faults (size + 1)).1 = true) ↔ Loadable faults size bytes := by
  have hpre := Reader.fread_isPrefix faults ⟨bytes, 0⟩ (size + 1)
  have hle := hpre.length_le
  rw [Reader.rest, List.drop_zero] at hpre hle
  have hread : ∀ n, bytes.length ≤ n → (((⟨bytes, 0⟩ : Reader).fread faults n).1.length =
      bytes.length ↔ ∀ i < bytes.length, faults.fread i = false) := by
    intro n hn
    have h := @length_readable_eq_iff faults 0 bytes
    simp only [Nat.zero_add] at h
    simpa only [Reader.fread, List.drop_zero, List.take_of_length_le hn] using h
  simp only [Reader.feof, decide_eq_true_eq, Reader.fread, List.drop_zero,
    Nat.zero_add] at hle hread ⊢
  constructor
  · rintro ⟨hmod, hlt, hend⟩
    have hlen : bytes.length = size := by omega
    refine ⟨hlen, by omega, ?_⟩
    rw [← hlen]
    exact (hread (size + 1) (by omega)).1 (by omega)
  · rintro ⟨rfl, hlt, hall⟩
    have hlen := (hread (bytes.length + 1) (by omega)).2 hall
    omega

theorem store_read (h : Loadable faults size bytes) :
    (store (List.replicate size 0) 0 ((⟨bytes, 0⟩ : Reader).fread faults (size + 1)).1).take size =
      bytes := by
  obtain ⟨rfl, -, hall⟩ := h
  have hread : ((⟨bytes, 0⟩ : Reader).fread faults (bytes.length + 1)).1 = bytes := by
    have hlen := (@length_readable_eq_iff faults 0 bytes).2 fun i hi => by
      rw [Nat.zero_add]
      exact hall i hi
    simp only [Reader.fread, List.drop_zero, List.take_of_length_le (Nat.le_succ bytes.length)]
    exact (readable_isPrefix faults 0 bytes).eq_of_length hlen
  rw [hread, store, List.take_zero, List.nil_append, Nat.zero_add, List.take_left]

end Loading

namespace Terminal

variable {faults : ReadFaults} {later : Files Bytes} {filename : Bytes} {t : Terminal}

/-- The file that `load_entire_file` opens, after it has asked for its size. -/
def opened (faults : ReadFaults) (later : Files Bytes) (filename : Bytes) (t : Terminal) :
    Option (ℕ × Bytes) :=
  (t.files (cStr filename)).bind fun stat =>
    (if faults.fopen then none else later (cStr filename)).map fun bytes => (stat.length, bytes)

/-- Without a file to open, nothing is loaded. -/
theorem loadEntireFile_of_none (h : opened faults later filename t = none) :
    (t.loadEntireFile faults later filename).1 = [] := by
  rw [opened] at h
  rw [loadEntireFile]
  cases hstat : t.files (cStr filename) with
  | none => rfl
  | some stat =>
    rw [hstat, Option.bind_some, Option.map_eq_none_iff] at h
    simp only [Reader.fopen, h, Option.map_none]
    rfl

/-- What is loaded of a file. -/
theorem loadEntireFile_of_some {size : ℕ} {bytes : Bytes}
    (h : opened faults later filename t = some (size, bytes)) :
    t.loadEntireFile faults later filename =
      if Loadable faults size bytes then (bytes, { t with files := later })
      else ({ t with files := later } : Terminal).err []
        (ascii "Incorrect number of bytes read from ") (cStr filename) [] := by
  obtain ⟨stat, hstat, h⟩ := Option.bind_eq_some_iff.1 h
  obtain ⟨bytes', hopen, h⟩ := Option.map_eq_some_iff.1 h
  cases h
  have hiff := @loadable_iff faults stat.length bytes
  simp only [loadEntireFile, hstat, Reader.fopen, hopen, Option.map_some, length_store_take]
  by_cases hload : Loadable faults stat.length bytes
  · obtain ⟨hrecd, hfeof⟩ := hiff.2 hload
    have hgo : ¬(((⟨bytes, 0⟩ : Reader).fread faults (stat.length + 1)).1.length % 2 ^ 32 ≠
        stat.length ∨ (!((⟨bytes, 0⟩ : Reader).fread faults (stat.length + 1)).2.feof
          (stat.length + 1) ((⟨bytes, 0⟩ : Reader).fread faults (stat.length + 1)).1) = true) := by
      rw [hrecd, hfeof]
      simp
    rw [if_neg hgo, if_pos hload, store_read hload]
  · rw [if_neg hload, if_pos]
    rw [← hiff, not_and_or] at hload
    exact hload.imp id fun h => by rw [Bool.not_eq_true] at h; rw [h]; rfl

/-- `load_entire_file` returns the bytes of a file exactly if the file had as many when it was
    asked for its size, fewer than `2 ^ 32`, and each of them can be read. -/
theorem loadEntireFile_eq_iff {bytes : Bytes} (hbytes : bytes ≠ []) :
    (t.loadEntireFile faults later filename).1 = bytes ↔
      ∃ size, opened faults later filename t = some (size, bytes) ∧ Loadable faults size bytes := by
  constructor
  · intro h
    cases hopen : opened faults later filename t with
    | none =>
      rw [loadEntireFile_of_none hopen] at h
      exact absurd h.symm hbytes
    | some p =>
      obtain ⟨size, bytes'⟩ := p
      rw [loadEntireFile_of_some hopen] at h
      by_cases hload : Loadable faults size bytes'
      · rw [if_pos hload] at h
        obtain rfl : bytes' = bytes := h
        exact ⟨size, rfl, hload⟩
      · rw [if_neg hload] at h
        exact absurd h.symm hbytes
  · rintro ⟨size, hopen, hload⟩
    rw [loadEntireFile_of_some hopen, if_pos hload]

/-- A short file that nobody changes. -/
theorem loadEntireFile_eq_hello : (loadEntireFile .none (fun _ => some (ascii "hello")) (ascii "me")
    ⟨⟨[], [], .other 0, [], []⟩, fun _ => some (ascii "hello"), [], []⟩).1 = ascii "hello" :=
  (loadEntireFile_eq_iff (by decide)).2 ⟨5, rfl, by decide⟩

end Terminal

/-! ## Past the end of the buffer -/

namespace Checked

/-- Load a file and return its contents. -/
def loadEntireFile (faults : ReadFaults) (later : Files Bytes) (filename : Bytes) (t : Terminal) :
    OptionT Id (Bytes × Terminal) := do
  match t.files (cStr filename) with
  | none => return t.err [] (ascii "File ") (cStr filename) (ascii " not found")
  | some stat =>
    let stSize := stat.length
    let t := { t with files := later }
    match Reader.fopen faults later (cStr filename) with
    | none => return t.err [] (ascii "File ") (cStr filename) (ascii " not found")
    | some f =>
      let res := List.replicate stSize 0
      let (read, f) := f.fread faults (stSize + 1)
      guard (read.length ≤ res.length)
      let res := (store res 0 read).take stSize
      let recd := read.length % 2 ^ 32
      if recd ≠ res.length ∨ !f.feof (stSize + 1) read then
        return t.err [] (ascii "Incorrect number of bytes read from ") (cStr filename) []
      else return (res, t)

/-- The file has grown since it was asked for its size, and can be read up to there. -/
def Grown (faults : ReadFaults) (size : ℕ) (bytes : Bytes) : Prop :=
  size < bytes.length ∧ ∀ i ≤ size, faults.fread i = false

instance (faults : ReadFaults) (size : ℕ) (bytes : Bytes) : Decidable (Grown faults size bytes) :=
  decidable_of_iff (size < bytes.length ∧ ∀ i < size + 1, faults.fread i = false)
    (and_congr_right fun _ => forall_congr' fun _ => by rw [Nat.lt_succ_iff])

variable {faults : ReadFaults} {later : Files Bytes} {filename : Bytes} {t : Terminal}

/-- The buffer has room for what is read iff the file has not grown. -/
theorem length_fread_le_iff {size : ℕ} {bytes : Bytes} :
    ((⟨bytes, 0⟩ : Reader).fread faults (size + 1)).1.length ≤ size ↔ ¬Grown faults size bytes := by
  have hle : ((⟨bytes, 0⟩ : Reader).fread faults (size + 1)).1.length ≤ size + 1 :=
    ((readable_isPrefix _ _ _).length_le).trans (List.length_take_le _ _)
  have hiff := @Reader.length_fread_eq_iff faults ⟨bytes, 0⟩ (size + 1)
  simp only [Reader.rest, List.drop_zero, Nat.zero_add, Nat.lt_succ_iff, Nat.succ_le_iff] at hiff
  rw [Grown, ← hiff]
  omega

/-- `load_entire_file` stores bytes past the end of its vector exactly if the file has grown
    since `stat`, and can be read up to there. -/
theorem loadEntireFile_eq : (loadEntireFile faults later filename t).run =
    if ∃ p ∈ t.opened faults later filename, Grown faults p.1 p.2 then none
    else some (t.loadEntireFile faults later filename) := by
  have hnone : ¬∃ p ∈ (none : Option (ℕ × Bytes)), Grown faults p.1 p.2 := by
    rintro ⟨p, hp, -⟩
    cases hp
  rw [loadEntireFile, Terminal.loadEntireFile, Terminal.opened]
  cases t.files (cStr filename) with
  | none => exact (if_neg hnone).symm
  | some stat =>
    simp only [Reader.fopen, Option.bind_some]
    cases (if faults.fopen then none else later (cStr filename) : Option Bytes) with
    | none => exact (if_neg hnone).symm
    | some bytes =>
      simp only [Option.map_some, Option.mem_some_iff, exists_eq_left']
      by_cases hgrown : Grown faults stat.length bytes
      · have hout : ¬((⟨bytes, 0⟩ : Reader).fread faults (stat.length + 1)).1.length ≤
            (List.replicate stat.length (0 : UInt8)).length := by
          rw [List.length_replicate, length_fread_le_iff, not_not]
          exact hgrown
        rw [if_pos hgrown]
        simp only [guard, if_neg hout]
        rfl
      · have hin : ((⟨bytes, 0⟩ : Reader).fread faults (stat.length + 1)).1.length ≤
            (List.replicate stat.length (0 : UInt8)).length := by
          rw [List.length_replicate, length_fread_le_iff]
          exact hgrown
        rw [if_neg hgrown, guard_bind hin]
        split <;> rfl

end Checked

/-- What was written in full is loaded, if nobody else changes it. -/
theorem loadEntireFile_of_written {t : Terminal} {filename data : Bytes}
    (hfile : t.files (cStr filename) = some data) (hlen : data.length < 2 ^ 32) :
    t.loadEntireFile .none t.files filename = (data, t) := by
  have hopen : t.opened .none t.files filename = some (data.length, data) := by
    rw [Terminal.opened, hfile]
    rfl
  rw [Terminal.loadEntireFile_of_some hopen, if_pos ⟨rfl, hlen, fun _ _ => rfl⟩]

end UserDirectory
