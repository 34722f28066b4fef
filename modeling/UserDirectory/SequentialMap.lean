import UserDirectory.Library.AssocList

/-!
# The sequential map

The key/value store of `server/sequentialmap.h`: a vector of pairs, searched
from the front. Its keys are distinct, which every operation keeps, so this is
part of the type.

The callbacks of the source capture variables by reference. Here a callback is
given the captured variables, of type `σ`, and returns them; one that may
modify the value also returns the value.

The operations are those of the partial function `lookup`: `insert` adds a pair
unless the key is there (`lookup_insert`), `upsert` in any case (`lookup_upsert`),
`do_with` maps the value of a key (`doWith_eq`), `do_with_readonly` reads it
(`doWithReadonly_eq`), and `remove` takes it out (`lookup_remove`).
-/

namespace UserDirectory

open AssocList

/-- A vector of key/value pairs with distinct keys. -/
@[ext] structure SequentialMap (K V : Type*) where
  entries : List (K × V)
  nodup : (keys entries).Nodup

namespace SequentialMap

variable {K V σ : Type*}

/-- An empty map. -/
def empty : SequentialMap K V := ⟨[], List.nodup_nil⟩

/-- Clear the map. -/
def clear (_ : SequentialMap K V) : SequentialMap K V := empty

/-- Apply a function to every key/value pair in the map. -/
def doAllReadonly (m : SequentialMap K V) (f : K → V → σ → σ) (st : σ) : σ :=
  m.entries.foldl (fun st e => f e.1 e.2 st) st

variable [DecidableEq K]

/-- The value of a key. -/
def lookup (m : SequentialMap K V) (key : K) : Option V := m.entries.lookup key

/-- Insert the provided key/value pair only if there is no mapping for the key yet. -/
def insert (m : SequentialMap K V) (key : K) (val : V) : Bool × SequentialMap K V :=
  if h : key ∈ keys m.entries then (false, m)
  else (true, ⟨m.entries ++ [(key, val)], nodup_keys_concat val m.nodup h⟩)

/-- The loop of `upsert`, and the `push_back` after it. -/
def upsertLoop (key : K) (val : V) : List (K × V) → Bool × List (K × V)
  | [] => (true, [(key, val)])
  | (k, v) :: es =>
    if k = key then (false, (k, val) :: es)
    else ((upsertLoop key val es).1, (k, v) :: (upsertLoop key val es).2)

theorem upsertLoop_eq (key : K) (val : V) (es : List (K × V)) :
    upsertLoop key val es = if key ∈ keys es then (false, AssocList.adjust key (fun _ => val) es)
      else (true, es ++ [(key, val)]) := by
  induction es with
  | nil => rfl
  | cons e es ih =>
    obtain ⟨k, v⟩ := e
    by_cases hk : k = key
    · -- The loop ends at the first pair of the key.
      simp [upsertLoop, AssocList.adjust, hk]
    · rw [upsertLoop, if_neg hk, ih, keys_cons, AssocList.adjust, if_neg hk]
      by_cases hmem : key ∈ keys es <;> simp [hmem, Ne.symm hk]

theorem keys_upsertLoop (key : K) (val : V) (es : List (K × V)) :
    keys (upsertLoop key val es).2 = if key ∈ keys es then keys es else keys es ++ [key] := by
  rw [upsertLoop_eq]
  split
  · exact keys_adjust _ _ _
  · rw [keys_append, keys_cons, keys_nil]

/-- Insert the pair, or replace the value of its key. -/
def upsert (m : SequentialMap K V) (key : K) (val : V) : Bool × SequentialMap K V :=
  ((upsertLoop key val m.entries).1, ⟨(upsertLoop key val m.entries).2, by
    rw [keys_upsertLoop]
    split
    · exact m.nodup
    · next h => exact List.concat_eq_append ▸ m.nodup.concat h⟩)

/-- The loop of `do_with`: whether the key was found, the entries and the captured variables. -/
def doWithLoop (key : K) (f : V → σ → V × σ) (st : σ) : List (K × V) → Bool × List (K × V) × σ
  | [] => (false, [], st)
  | (k, v) :: es =>
    if k = key then (true, (k, (f v st).1) :: es, (f v st).2)
    else
      let (found, es', st') := doWithLoop key f st es
      (found, (k, v) :: es', st')

theorem doWithLoop_eq (key : K) (f : V → σ → V × σ) (st : σ) (es : List (K × V)) :
    doWithLoop key f st es = ((es.lookup key).isSome, AssocList.adjust key (fun v => (f v st).1) es,
      (es.lookup key).elim st fun v => (f v st).2) := by
  induction es with
  | nil => rfl
  | cons e es ih =>
    obtain ⟨k, v⟩ := e
    by_cases hk : k = key
    · -- The loop ends at the first pair of the key.
      simp [doWithLoop, AssocList.adjust, hk]
    · simp [doWithLoop, AssocList.adjust, hk, ih, List.lookup_cons, beq_false_of_ne (Ne.symm hk)]

/-- Apply a function to the value associated with a given key, which it may modify. -/
def doWith (m : SequentialMap K V) (key : K) (f : V → σ → V × σ) (st : σ) :
    Bool × SequentialMap K V × σ :=
  ((doWithLoop key f st m.entries).1,
    ⟨(doWithLoop key f st m.entries).2.1, by rw [doWithLoop_eq, keys_adjust]; exact m.nodup⟩,
    (doWithLoop key f st m.entries).2.2)

/-- The loop of `do_with_readonly`. -/
def doWithReadonlyLoop (key : K) (f : V → σ → σ) (st : σ) : List (K × V) → Bool × σ
  | [] => (false, st)
  | (k, v) :: es => if k = key then (true, f v st) else doWithReadonlyLoop key f st es

/-- Apply a function to the value associated with a given key, without modifying it. -/
def doWithReadonly (m : SequentialMap K V) (key : K) (f : V → σ → σ) (st : σ) : Bool × σ :=
  doWithReadonlyLoop key f st m.entries

/-- Remove the mapping from a key to its value. -/
def remove (m : SequentialMap K V) (key : K) : Bool × SequentialMap K V :=
  (decide (key ∈ keys m.entries),
    ⟨m.entries.eraseP fun e => e.1 = key, m.nodup.sublist (List.eraseP_sublist.map Prod.fst)⟩)

/-- The map with the value of a key changed by `f`. -/
def adjust (m : SequentialMap K V) (key : K) (f : V → V) : SequentialMap K V :=
  ⟨AssocList.adjust key f m.entries, (keys_adjust key f m.entries).symm ▸ m.nodup⟩

/-! ## The operations on the partial function -/

variable {m : SequentialMap K V} {key : K}

theorem lookup_eq_none_iff : m.lookup key = none ↔ key ∉ keys m.entries :=
  AssocList.lookup_eq_none_iff

theorem isNone_lookup (m : SequentialMap K V) (key : K) :
    (m.lookup key).isNone = decide (key ∉ keys m.entries) := by
  rw [Bool.eq_iff_iff, Option.isNone_iff_eq_none, decide_eq_true_iff, lookup_eq_none_iff]

theorem isSome_lookup (m : SequentialMap K V) (key : K) :
    (m.lookup key).isSome = decide (key ∈ keys m.entries) := by
  rw [← Option.not_isNone, isNone_lookup, decide_not, Bool.not_not]

theorem insert_of_mem (val : V) (h : key ∈ keys m.entries) : m.insert key val = (false, m) := by
  rw [insert, dif_pos h]

theorem insert_fst (val : V) : (m.insert key val).1 = decide (key ∉ keys m.entries) := by
  rw [insert]
  split <;> simp [*]

theorem insert_entries (val : V) (h : key ∉ keys m.entries) :
    (m.insert key val).2.entries = m.entries ++ [(key, val)] := by
  rw [insert, dif_neg h]

/-- A new pair updates the partial function. -/
theorem lookup_insert (val : V) (h : key ∉ keys m.entries) :
    (m.insert key val).2.lookup = Function.update m.lookup key (some val) := by
  rw [← show (fun x => m.entries.lookup x) = m.lookup from rfl, ← lookup_concat val h,
    ← insert_entries val h]
  rfl

theorem doWith_eq (m : SequentialMap K V) (key : K) (f : V → σ → V × σ) (st : σ) :
    (m.doWith key f st).1 = (m.lookup key).isSome ∧
      (m.doWith key f st).2.1 = m.adjust key (fun v => (f v st).1) ∧
      (m.doWith key f st).2.2 = (m.lookup key).elim st fun v => (f v st).2 := by
  simp only [doWith, doWithLoop_eq, lookup, adjust, and_self]

/-- Changing a value maps the partial function at its key. -/
theorem lookup_adjust (f : V → V) :
    (m.adjust key f).lookup = Function.update m.lookup key ((m.lookup key).map f) :=
  AssocList.lookup_adjust key f m.entries

/-- A pair whose key is there replaces the value. -/
theorem upsert_of_mem (val : V) (h : key ∈ keys m.entries) :
    m.upsert key val = (false, m.adjust key fun _ => val) := by
  simp only [upsert, upsertLoop_eq, if_pos h, adjust]

/-- A pair whose key is not there is inserted. -/
theorem upsert_of_not_mem (val : V) (h : key ∉ keys m.entries) :
    m.upsert key val = m.insert key val := by
  rw [insert, dif_neg h]
  simp only [upsert, upsertLoop_eq, if_neg h]

/-- A pair inserted or replaced updates the partial function. -/
theorem lookup_upsert (val : V) :
    (m.upsert key val).2.lookup = Function.update m.lookup key (some val) := by
  by_cases h : key ∈ keys m.entries
  · obtain ⟨v, hv⟩ := Option.isSome_iff_exists.1 ((isSome_lookup m key).trans (decide_eq_true h))
    rw [upsert_of_mem val h, lookup_adjust, hv, Option.map_some]
  · rw [upsert_of_not_mem val h, lookup_insert val h]

/-- Removing a key updates the partial function. -/
theorem lookup_remove : (m.remove key).2.lookup = Function.update m.lookup key none :=
  lookup_eraseP m.nodup key

/-- Changes that agree on the value of the key are the same. -/
theorem adjust_congr {f g : V → V} (h : ∀ v ∈ m.lookup key, f v = g v) :
    m.adjust key f = m.adjust key g :=
  SequentialMap.ext (AssocList.adjust_congr h)

@[simp] theorem adjust_id : m.adjust key id = m := SequentialMap.ext (AssocList.adjust_id key _)

/-- A change of a value is none iff the value stays the same. -/
theorem adjust_eq_self_iff {f : V → V} : m.adjust key f = m ↔ ∀ v ∈ m.lookup key, f v = v := by
  constructor
  · intro h v hv
    have hlookup := congrFun (@lookup_adjust _ _ _ m key f) key
    rw [h, Function.update_self, Option.mem_def.1 hv] at hlookup
    exact (Option.some.inj hlookup).symm
  · intro h
    exact (adjust_congr h).trans (@adjust_id _ _ _ m key)

theorem doWithReadonly_eq (f : V → σ → σ) (st : σ) :
    m.doWithReadonly key f st =
      ((m.lookup key).isSome, (m.lookup key).elim st fun v => f v st) := by
  rw [doWithReadonly, lookup]
  induction m.entries with
  | nil => rfl
  | cons e es ih =>
    obtain ⟨k, v⟩ := e
    by_cases hk : k = key
    · simp [doWithReadonlyLoop, hk]
    · rw [doWithReadonlyLoop, if_neg hk, ih, List.lookup_cons, beq_false_of_ne (Ne.symm hk)]

end SequentialMap

end UserDirectory
