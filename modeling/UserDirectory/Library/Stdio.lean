import Mathlib.Data.List.Basic
import Mathlib.Order.Basic

/-!
# Buffered files

The calls of a C program on the files of a directory (`Files`), each of which
may fail.

A file is written through a stream (`Writer`): `fwrite` adds bytes to it, and
may stop early; `fclose` flushes it to the file, and may lose its end. What
fails is given in advance (`WriteFaults`). A write is `Complete` if every
`fwrite` takes all it is given and the flush loses nothing; `flushed_eq_iff`:
exactly then does the file hold what was written.

A file is read at a position (`Reader`): `fread` stops early at the end of the
file, and where a byte cannot be read; it does not tell the two apart. Since
a single pass over a file reads no byte twice, what fails is given by the
position (`ReadFaults`). `fseek` may move past the end of the file.
-/

namespace Stdio

/-- The files of a directory, by name: `none` if there is no such file. -/
abbrev Files (Name : Type*) := Name → Option (List UInt8)

/-- `rename` replaces the file `new` by the file `old`. -/
def rename {Name : Type*} [DecidableEq Name] (files : Files Name) (old new : Name) : Files Name :=
  fun n => if n = new then files old else if n = old then none else files n

theorem rename_of_ne {Name : Type*} [DecidableEq Name] (files : Files Name) {old new n : Name}
    (hold : n ≠ old) (hnew : n ≠ new) : rename files old new n = files n := by
  rw [rename, if_neg hnew, if_neg hold]

/-- A file that is written under another name, and renamed. -/
theorem rename_update {Name : Type*} [DecidableEq Name] (files : Files Name) {old new : Name}
    (h : old ≠ new) (content : Option (List UInt8)) :
    rename (Function.update files old content) old new =
      Function.update (Function.update files new content) old none := by
  funext n
  rw [rename, Function.update_self]
  rcases eq_or_ne n new with rfl | hnew
  · rw [if_pos rfl, Function.update_of_ne h.symm, Function.update_self]
  rcases eq_or_ne n old with rfl | hold
  · rw [if_neg hnew, if_pos rfl, Function.update_self]
  · rw [if_neg hnew, if_neg hold, Function.update_of_ne hold, Function.update_of_ne hold,
      Function.update_of_ne hnew]

/-! ## Writing -/

/-- What fails when a file is written and renamed. -/
structure WriteFaults where
  /-- `fopen` returns a null pointer. -/
  fopen : Bool
  /-- The call `k` of `fwrite` stops after so many bytes. -/
  fwrite : ℕ → Option ℕ
  /-- `fclose` only flushes so many bytes of the stream. -/
  fclose : Option ℕ
  /-- `rename` fails. -/
  rename : Bool

/-- Nothing fails. -/
def WriteFaults.none : WriteFaults := ⟨false, fun _ => .none, .none, false⟩

/-- A stream being written: its bytes, and the calls of `fwrite` so far. -/
structure Writer where
  bytes : List UInt8
  calls : ℕ

/-- A stream just opened. -/
def Writer.empty : Writer := ⟨[], 0⟩

/-- The front of `bs` up to a limit, if there is one. -/
def upTo : Option ℕ → List UInt8 → List UInt8
  | none, bs => bs
  | some k, bs => bs.take k

/-- `fwrite` of the bytes `bs`: the number of bytes written. -/
def Writer.fwrite (faults : WriteFaults) (w : Writer) (bs : List UInt8) : ℕ × Writer :=
  let written := upTo (faults.fwrite w.calls) bs
  (written.length, ⟨w.bytes ++ written, w.calls + 1⟩)

/-- What `fclose` leaves in the file. -/
def Writer.flushed (faults : WriteFaults) (w : Writer) : List UInt8 := upTo faults.fclose w.bytes

/-- The blocks `bss` written one after the other. -/
def Writer.fwriteAll (faults : WriteFaults) (w : Writer) (bss : List (List UInt8)) : Writer :=
  bss.foldl (fun w bs => (w.fwrite faults bs).2) w

/-- Every `fwrite` of the blocks `bss` takes all it is given, and the flush loses nothing. -/
def WriteFaults.Complete (faults : WriteFaults) (bss : List (List UInt8)) : Prop :=
  (∀ k (hk : k < bss.length), ∀ n ∈ faults.fwrite k, bss[k].length ≤ n) ∧
    ∀ n ∈ faults.fclose, bss.flatten.length ≤ n

theorem length_upTo_le (lim : Option ℕ) (bs : List UInt8) : (upTo lim bs).length ≤ bs.length := by
  cases lim with
  | none => exact Nat.le_refl _
  | some k => exact List.length_take_le' k bs

/-- A limit leaves the bytes alone iff it is not below their number. -/
theorem length_upTo_eq_iff {lim : Option ℕ} {bs : List UInt8} :
    (upTo lim bs).length = bs.length ↔ ∀ n ∈ lim, bs.length ≤ n := by
  cases lim with
  | none => simp [upTo]
  | some k =>
    simp only [upTo, List.length_take, Option.mem_some_iff, forall_eq']
    omega

theorem upTo_eq_iff {lim : Option ℕ} {bs : List UInt8} :
    upTo lim bs = bs ↔ ∀ n ∈ lim, bs.length ≤ n := by
  rw [← length_upTo_eq_iff]
  refine ⟨congrArg List.length, fun h => ?_⟩
  cases lim with
  | none => rfl
  | some k => exact (List.take_prefix k bs).eq_of_length h

@[simp] theorem Writer.fwriteAll_nil (faults : WriteFaults) (w : Writer) :
    w.fwriteAll faults [] = w := rfl

theorem Writer.fwriteAll_cons (faults : WriteFaults) (w : Writer) (bs : List UInt8)
    (bss : List (List UInt8)) :
    w.fwriteAll faults (bs :: bss) = (w.fwrite faults bs).2.fwriteAll faults bss := rfl

theorem Writer.fwriteAll_append (faults : WriteFaults) (w : Writer) (l₁ l₂ : List (List UInt8)) :
    w.fwriteAll faults (l₁ ++ l₂) = (w.fwriteAll faults l₁).fwriteAll faults l₂ :=
  List.foldl_append

/-- The blocks from the call `n` on are written in full. -/
def WriteFaults.CompleteFrom (faults : WriteFaults) (n : ℕ) (bss : List (List UInt8)) : Prop :=
  ∀ k (hk : k < bss.length), ∀ m ∈ faults.fwrite (n + k), bss[k].length ≤ m

theorem WriteFaults.completeFrom_cons {faults : WriteFaults} {n : ℕ} {bs : List UInt8}
    {bss : List (List UInt8)} : faults.CompleteFrom n (bs :: bss) ↔
      (∀ m ∈ faults.fwrite n, bs.length ≤ m) ∧ faults.CompleteFrom (n + 1) bss := by
  constructor
  · intro h
    refine ⟨h 0 (Nat.succ_pos _), fun k hk => ?_⟩
    have hnk : n + 1 + k = n + (k + 1) := by omega
    rw [hnk]
    exact h (k + 1) (Nat.succ_lt_succ hk)
  · rintro ⟨h0, h⟩ k hk
    cases k with
    | zero => exact h0
    | succ k =>
      have hnk : n + (k + 1) = n + 1 + k := by omega
      rw [hnk]
      exact h k (Nat.lt_of_succ_lt_succ hk)

/-- Blocks written in full follow each other in the stream. -/
theorem Writer.fwriteAll_bytes {faults : WriteFaults} {w : Writer} {bss : List (List UInt8)}
    (h : faults.CompleteFrom w.calls bss) :
    (w.fwriteAll faults bss).bytes = w.bytes ++ bss.flatten := by
  induction bss generalizing w with
  | nil => rw [fwriteAll_nil, List.flatten_nil, List.append_nil]
  | cons bs bss ih =>
    obtain ⟨h0, h⟩ := WriteFaults.completeFrom_cons.1 h
    rw [fwriteAll_cons, ih h]
    simp only [fwrite]
    rw [upTo_eq_iff.2 h0, List.flatten_cons, List.append_assoc]

/-- A stream never holds more than the blocks written, and holds less unless all
    are written in full. -/
theorem Writer.length_fwriteAll (faults : WriteFaults) (w : Writer) (bss : List (List UInt8)) :
    (w.fwriteAll faults bss).bytes.length ≤ w.bytes.length + bss.flatten.length ∧
      ((w.fwriteAll faults bss).bytes.length = w.bytes.length + bss.flatten.length →
        faults.CompleteFrom w.calls bss) := by
  induction bss generalizing w with
  | nil =>
    rw [fwriteAll_nil, List.flatten_nil]
    exact ⟨Nat.le_add_right _ _, fun _ k hk => absurd hk (Nat.not_lt_zero k)⟩
  | cons bs bss ih =>
    obtain ⟨hle, heq⟩ := ih (w.fwrite faults bs).2
    have hbs := length_upTo_le (faults.fwrite w.calls) bs
    rw [fwriteAll_cons]
    simp only [fwrite, List.length_append, List.flatten_cons] at hle heq ⊢
    refine ⟨by omega, fun h => WriteFaults.completeFrom_cons.2 ⟨?_, heq (by omega)⟩⟩
    exact length_upTo_eq_iff.1 (by omega)

/-- The file holds the blocks written iff nothing was cut short. -/
theorem Writer.flushed_eq_iff (faults : WriteFaults) (bss : List (List UInt8)) :
    (Writer.empty.fwriteAll faults bss).flushed faults = bss.flatten ↔ faults.Complete bss := by
  have hfrom : faults.CompleteFrom Writer.empty.calls bss ↔
      ∀ k (hk : k < bss.length), ∀ n ∈ faults.fwrite k, bss[k].length ≤ n := by
    simp [WriteFaults.CompleteFrom, Writer.empty]
  obtain ⟨hle, heq⟩ := Writer.length_fwriteAll faults Writer.empty bss
  simp only [Writer.empty, List.length_nil, Nat.zero_add] at hle heq
  constructor
  · intro h
    -- Neither the writes nor the flush can make up for what the other lost.
    have hlen := congrArg List.length h
    have hup := length_upTo_le faults.fclose (Writer.empty.fwriteAll faults bss).bytes
    simp only [Writer.flushed, Writer.empty] at h hlen hup
    have hw : faults.CompleteFrom 0 bss := heq (by omega)
    refine ⟨hfrom.1 hw, ?_⟩
    have hbytes := Writer.fwriteAll_bytes (w := Writer.empty) hw
    simp only [Writer.empty, List.nil_append] at hbytes
    rw [hbytes] at h
    exact upTo_eq_iff.1 h
  · rintro ⟨hw, hc⟩
    rw [Writer.flushed, Writer.fwriteAll_bytes (hfrom.2 hw)]
    exact upTo_eq_iff.2 hc

theorem WriteFaults.none_complete (bss : List (List UInt8)) : WriteFaults.none.Complete bss :=
  ⟨fun _ _ _ h => absurd h (Option.not_mem_none _), fun _ h => absurd h (Option.not_mem_none _)⟩

/-! ## Reading -/

/-- What fails when a file is read. -/
structure ReadFaults where
  /-- `fopen` returns a null pointer for a file that is there. -/
  fopen : Bool
  /-- The byte at this position cannot be read. -/
  fread : ℕ → Bool
  /-- `fseek` fails at this position. -/
  fseek : ℕ → Bool

/-- Nothing fails. -/
def ReadFaults.none : ReadFaults := ⟨false, fun _ => false, fun _ => false⟩

/-- A file being read: its bytes and the position. -/
structure Reader where
  bytes : List UInt8
  pos : ℕ

/-- The front of `bs`, which starts at the position `pos`, up to a byte that cannot be read. -/
def readable (faults : ReadFaults) : ℕ → List UInt8 → List UInt8
  | _, [] => []
  | pos, b :: bs => if faults.fread pos then [] else b :: readable faults (pos + 1) bs

/-- `fread` of `n` bytes: the bytes read. -/
def Reader.fread (faults : ReadFaults) (r : Reader) (n : ℕ) : List UInt8 × Reader :=
  let read := readable faults r.pos ((r.bytes.drop r.pos).take n)
  (read, { r with pos := r.pos + read.length })

/-- `feof` after an `fread` of `n` bytes that gave the bytes `read`. -/
def Reader.feof (r : Reader) (n : ℕ) (read : List UInt8) : Bool :=
  decide (read.length < n ∧ r.bytes.length ≤ r.pos)

/-- The reader `n` bytes further. -/
def Reader.skip (r : Reader) (n : ℕ) : Reader := { r with pos := r.pos + n }

/-- `fread` of `n` bytes: `none` if it reads fewer. -/
def Reader.freadAll (faults : ReadFaults) (r : Reader) (n : ℕ) : Option (List UInt8 × Reader) :=
  if (r.fread faults n).1.length = n then some (r.fread faults n) else none

/-- `fseek` forward by `n` bytes: `none` if it fails. -/
def Reader.fseek (faults : ReadFaults) (r : Reader) (n : ℕ) : Option Reader :=
  if faults.fseek r.pos then none else some (r.skip n)

/-- `fopen` for reading: `none` if it fails, or if there is no such file. -/
def Reader.fopen {Name : Type*} (faults : ReadFaults) (files : Files Name) (name : Name) :
    Option Reader :=
  (if faults.fopen then none else files name).map fun bytes => ⟨bytes, 0⟩

/-- The bytes of the file from the position on. -/
def Reader.rest (r : Reader) : List UInt8 := r.bytes.drop r.pos

/-- The bytes `bs` come next, and each can be read. -/
def Reader.Reads (faults : ReadFaults) (r : Reader) (bs : List UInt8) : Prop :=
  bs <+: r.rest ∧ ∀ i < bs.length, faults.fread (r.pos + i) = false

@[simp] theorem Reader.rest_skip (r : Reader) (n : ℕ) : (r.skip n).rest = r.rest.drop n := by
  rw [rest, rest, skip, List.drop_drop]

@[simp] theorem Reader.skip_skip (r : Reader) (m n : ℕ) : (r.skip m).skip n = r.skip (m + n) := by
  rw [skip, skip, skip, Nat.add_assoc]

theorem readable_isPrefix (faults : ReadFaults) (pos : ℕ) (bs : List UInt8) :
    readable faults pos bs <+: bs := by
  induction bs generalizing pos with
  | nil => exact List.prefix_rfl
  | cons b bs ih =>
    rw [readable]
    split
    · exact List.nil_prefix
    · exact List.cons_prefix_cons.2 ⟨rfl, ih (pos + 1)⟩

/-- Bytes are read in full iff each can be read. -/
theorem length_readable_eq_iff {faults : ReadFaults} {pos : ℕ} {bs : List UInt8} :
    (readable faults pos bs).length = bs.length ↔
      ∀ i < bs.length, faults.fread (pos + i) = false := by
  induction bs generalizing pos with
  | nil => simp [readable]
  | cons b bs ih =>
    -- The first position, and those of the tail.
    have hsplit : (∀ i < (b :: bs).length, faults.fread (pos + i) = false) ↔
        faults.fread pos = false ∧ ∀ i < bs.length, faults.fread (pos + 1 + i) = false := by
      constructor
      · intro h
        refine ⟨h 0 (Nat.succ_pos _), fun i hi => ?_⟩
        rw [Nat.add_assoc, Nat.add_comm 1]
        exact h (i + 1) (Nat.succ_lt_succ hi)
      · rintro ⟨h0, h⟩ i hi
        cases i with
        | zero => exact h0
        | succ i =>
          rw [Nat.add_comm i, ← Nat.add_assoc]
          exact h i (Nat.lt_of_succ_lt_succ hi)
    rw [hsplit, ← ih, readable]
    split
    · next hb => simp [hb]
    · next hb => simp [hb]

/-- The bytes read are at the front of the rest of the file. -/
theorem Reader.fread_isPrefix (faults : ReadFaults) (r : Reader) (n : ℕ) :
    (r.fread faults n).1 <+: r.rest :=
  (readable_isPrefix _ _ _).trans (List.take_prefix _ _)

/-- `fread` reads all it is asked for iff it is there and can be read. -/
theorem Reader.length_fread_eq_iff {faults : ReadFaults} {r : Reader} {n : ℕ} :
    (r.fread faults n).1.length = n ↔
      n ≤ r.rest.length ∧ ∀ i < n, faults.fread (r.pos + i) = false := by
  have hle := (readable_isPrefix faults r.pos (r.rest.take n)).length_le
  have hiff := @length_readable_eq_iff faults r.pos (r.rest.take n)
  simp only [Reader.fread, Reader.rest, List.length_take] at hle hiff ⊢
  constructor
  · intro h
    have hn : n ≤ (r.bytes.drop r.pos).length := by omega
    rw [Nat.min_eq_left hn] at hiff
    exact ⟨hn, hiff.1 h⟩
  · rintro ⟨hn, h⟩
    rw [Nat.min_eq_left hn] at hiff
    exact hiff.2 h

/-- What `fread` reads when it reads all it is asked for, and where it stops. -/
theorem Reader.fread_eq {faults : ReadFaults} {r : Reader} {n : ℕ}
    (h : (r.fread faults n).1.length = n) :
    r.fread faults n = (r.rest.take n, ⟨r.bytes, r.pos + n⟩) := by
  have hpre := r.fread_isPrefix faults n
  have hval : (r.fread faults n).1 = r.rest.take n := by
    rw [← h, ← List.prefix_iff_eq_take.1 hpre, h]
  refine Prod.ext hval ?_
  show (⟨r.bytes, r.pos + (r.fread faults n).1.length⟩ : Reader) = _
  rw [h]

/-- `fread` reads all it is asked for iff the bytes that come next can be read. -/
theorem Reader.freadAll_eq_some_iff {faults : ReadFaults} {r r' : Reader} {n : ℕ}
    {bs : List UInt8} :
    r.freadAll faults n = some (bs, r') ↔ bs.length = n ∧ r.Reads faults bs ∧ r' = r.skip n := by
  rw [freadAll]
  constructor
  · intro h
    by_cases hn : (r.fread faults n).1.length = n
    · have hread := length_fread_eq_iff.1 hn
      rw [if_pos hn, fread_eq hn, Option.some.injEq, Prod.mk.injEq] at h
      obtain ⟨rfl, rfl⟩ := h
      rw [Reads, List.length_take, Nat.min_eq_left hread.1]
      exact ⟨rfl, ⟨List.take_prefix _ _, hread.2⟩, rfl⟩
    · rw [if_neg hn] at h
      cases h
  · rintro ⟨rfl, ⟨hpre, hread⟩, rfl⟩
    have hn := length_fread_eq_iff.2 ⟨hpre.length_le, hread⟩
    rw [if_pos hn, fread_eq hn, ← List.prefix_iff_eq_take.1 hpre, skip]

/-- `fread` reads the bytes that come next, and goes past them. -/
theorem Reader.fread_fst_eq_iff {faults : ReadFaults} {r : Reader} {n : ℕ} {bs : List UInt8}
    (hbs : bs.length = n) : (r.fread faults n).1 = bs ↔ r.Reads faults bs := by
  constructor
  · intro h
    have hn : (r.fread faults n).1.length = n := by rw [h, hbs]
    have hall : r.freadAll faults n = some (bs, (r.fread faults n).2) := by
      rw [freadAll, if_pos hn, ← h]
    exact (freadAll_eq_some_iff.1 hall).2.1
  · intro h
    have hall := freadAll_eq_some_iff.2 ⟨hbs, h, rfl⟩
    rw [freadAll, Option.ite_none_right_eq_some, Option.some.injEq] at hall
    rw [hall.2]

/-- A read of nothing may be left out. -/
theorem Reader.ite_freadAll (faults : ReadFaults) (r : Reader) (n : ℕ) :
    (if 0 < n then r.freadAll faults n else some ([], r)) = r.freadAll faults n := by
  split
  · rfl
  · next h =>
    obtain rfl := Nat.eq_zero_of_not_pos h
    have hnil : r.Reads faults [] := ⟨List.nil_prefix, fun i hi => absurd hi (Nat.not_lt_zero i)⟩
    exact (freadAll_eq_some_iff.2 ⟨rfl, hnil, rfl⟩).symm

/-- A seek that may be left out. -/
theorem Reader.ite_fseek_eq_some_iff {faults : ReadFaults} {r r' : Reader} {n : ℕ} :
    (if 0 < n then r.fseek faults n else some r) = some r' ↔
      (0 < n → faults.fseek r.pos = false) ∧ r' = r.skip n := by
  split
  · next h =>
    rw [fseek]
    split
    · next hf => simp [h, hf]
    · next hf => simp [h, hf, @eq_comm _ r']
  · next h =>
    obtain rfl := Nat.eq_zero_of_not_pos h
    simp [skip, @eq_comm _ r']

/-- Reading one piece after another. -/
theorem Reader.reads_append {faults : ReadFaults} {r : Reader} {as bs : List UInt8} :
    r.Reads faults (as ++ bs) ↔ r.Reads faults as ∧ (r.skip as.length).Reads faults bs := by
  have hpre : as ++ bs <+: r.rest ↔ as <+: r.rest ∧ bs <+: r.rest.drop as.length := by
    constructor
    · rintro ⟨t, ht⟩
      rw [← ht, List.append_assoc, List.drop_left]
      exact ⟨List.prefix_append _ _, List.prefix_append _ _⟩
    · rintro ⟨⟨t, ht⟩, h⟩
      rw [← ht, List.drop_left] at h
      rw [← ht]
      exact (List.prefix_append_right_inj as).2 h
  simp only [Reads, hpre, rest_skip, List.length_append]
  constructor
  · rintro ⟨⟨ha, hb⟩, h⟩
    refine ⟨⟨ha, fun i hi => h i (Nat.lt_add_right _ hi)⟩, hb, fun i hi => ?_⟩
    rw [skip, Nat.add_assoc]
    exact h _ (Nat.add_lt_add_left hi _)
  · rintro ⟨⟨ha, hra⟩, hb, hrb⟩
    refine ⟨⟨ha, hb⟩, fun i hi => ?_⟩
    -- A position is in the first piece, or in the second.
    by_cases hia : i < as.length
    · exact hra i hia
    · obtain ⟨j, rfl⟩ := Nat.exists_eq_add_of_le (Nat.le_of_not_lt hia)
      rw [← Nat.add_assoc]
      exact hrb j (Nat.lt_of_add_lt_add_left hi)

/-- `fread` reads nothing iff there is nothing to read, or it cannot be read. -/
theorem Reader.fread_eq_nil_iff {faults : ReadFaults} {r : Reader} {n : ℕ} (hn : n ≠ 0) :
    (r.fread faults n).1 = [] ↔ r.bytes.length ≤ r.pos ∨ faults.fread r.pos = true := by
  rw [Reader.fread, ← List.drop_eq_nil_iff]
  obtain ⟨n, rfl⟩ := Nat.exists_eq_succ_of_ne_zero hn
  cases hr : r.bytes.drop r.pos with
  | nil => simp [readable]
  | cons b bs => simp [readable]

end Stdio
