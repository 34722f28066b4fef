import Mathlib.Data.List.Nodup
import Mathlib.Logic.Function.Basic

/-!
# Lists of pairs as finite maps

A list of key/value pairs stands for the partial function `List.lookup`. When
its keys are distinct, the position of a pair is the only thing the list adds
to that function. The changes used here:

* adding a pair with a new key at the end (`lookup_concat`, `nodup_keys_concat`)
  updates the partial function at that key;
* changing the value of a key in place (`adjust`) maps the value of that key,
  and keeps the keys in order (`lookup_adjust`, `keys_adjust`);
* taking out the pair of a key leaves the rest of the partial function, and the
  order of the other keys (`lookup_eraseP`).
-/

namespace AssocList

variable {K V : Type*}

/-- The keys, in order. -/
def keys (l : List (K × V)) : List K := l.map Prod.fst

@[simp] theorem keys_nil : keys ([] : List (K × V)) = [] := rfl

@[simp] theorem keys_cons (e : K × V) (l : List (K × V)) : keys (e :: l) = e.1 :: keys l := rfl

@[simp] theorem keys_append (l₁ l₂ : List (K × V)) : keys (l₁ ++ l₂) = keys l₁ ++ keys l₂ :=
  List.map_append

/-- Distinct keys stay distinct when a new one is added. -/
theorem nodup_keys_concat {l : List (K × V)} {k : K} (v : V) (hl : (keys l).Nodup)
    (h : k ∉ keys l) : (keys (l ++ [(k, v)])).Nodup := by
  rw [keys_append]
  exact List.concat_eq_append ▸ hl.concat h

variable [DecidableEq K]

/-- The list with the value of the first pair of key `k` changed by `f`. -/
def adjust (k : K) (f : V → V) : List (K × V) → List (K × V)
  | [] => []
  | (k', v) :: l => if k' = k then (k', f v) :: l else (k', v) :: adjust k f l

/-- A list maps the keys it has. -/
theorem lookup_eq_none_iff {l : List (K × V)} {k : K} : l.lookup k = none ↔ k ∉ keys l := by
  rw [List.lookup_eq_none_iff, keys, List.mem_map, not_exists]
  refine forall_congr' fun e => ?_
  rw [bne_iff_ne, not_and]
  exact imp_congr_right fun _ => ne_comm

/-- The value of a key is a pair of the list. -/
theorem mem_keys_of_lookup {l : List (K × V)} {k : K} {v : V} (h : l.lookup k = some v) :
    k ∈ keys l := by
  by_contra hk
  rw [lookup_eq_none_iff.2 hk] at h
  cases h

theorem mem_of_lookup {l : List (K × V)} {k : K} {v : V} (h : l.lookup k = some v) :
    (k, v) ∈ l := by
  obtain ⟨l₁, l₂, rfl, -⟩ := List.lookup_eq_some_iff.1 h
  exact List.mem_append_right _ List.mem_cons_self

/-- Distinct keys map to the values they are paired with. -/
theorem mem_iff_lookup {l : List (K × V)} (hl : (keys l).Nodup) {k : K} {v : V} :
    (k, v) ∈ l ↔ l.lookup k = some v := by
  refine ⟨fun h => ?_, mem_of_lookup⟩
  obtain ⟨l₁, l₂, rfl⟩ := List.append_of_mem h
  -- The key does not come before the pair.
  refine List.lookup_eq_some_iff.2 ⟨l₁, l₂, rfl, fun e he => ?_⟩
  rw [keys_append, keys_cons] at hl
  rw [bne_iff_ne]
  rintro rfl
  exact (List.nodup_append.1 hl).2.2 _ (List.mem_map_of_mem he) _ List.mem_cons_self rfl

/-- Lists with distinct keys that stand for the same partial function differ in their order
    only. -/
theorem perm_of_lookup_eq {l₁ l₂ : List (K × V)} (h₁ : (keys l₁).Nodup) (h₂ : (keys l₂).Nodup)
    (h : ∀ k, l₁.lookup k = l₂.lookup k) : l₁.Perm l₂ := by
  refine (List.perm_ext_iff_of_nodup h₁.of_map h₂.of_map).2 fun e => ?_
  rw [mem_iff_lookup h₁, mem_iff_lookup h₂, h]

/-- A map of the values maps the partial function. -/
theorem lookup_map {W : Type*} (g : V → W) (l : List (K × V)) (k : K) :
    (l.map fun e => (e.1, g e.2)).lookup k = (l.lookup k).map g := by
  induction l with
  | nil => rfl
  | cons e l ih =>
    rw [List.map_cons, List.lookup_cons, List.lookup_cons]
    split
    · rfl
    · exact ih

/-! ## Adding a pair -/

/-- A new pair at the end updates the partial function. -/
theorem lookup_concat {l : List (K × V)} {k : K} (v : V) (h : k ∉ keys l) :
    (fun x => (l ++ [(k, v)]).lookup x) = Function.update (fun x => l.lookup x) k (some v) := by
  funext x
  rw [List.lookup_append]
  by_cases hx : x = k
  · subst hx
    rw [lookup_eq_none_iff.2 h, Function.update_self, Option.none_or, List.lookup_cons_self]
  · rw [Function.update_of_ne hx, List.lookup_cons, beq_false_of_ne hx]
    exact Option.or_none

/-! ## Changing a value -/

/-- What a change of the value does not affect is the same in the changed list. -/
theorem map_adjust {W : Type*} {k : K} {f : V → V} {g : K × V → W}
    (h : ∀ v, g (k, f v) = g (k, v)) (l : List (K × V)) : (adjust k f l).map g = l.map g := by
  induction l with
  | nil => rfl
  | cons e l ih =>
    obtain ⟨k', v⟩ := e
    rw [adjust]
    split
    · next hk => rw [List.map_cons, List.map_cons, hk, h]
    · rw [List.map_cons, List.map_cons, ih]

@[simp] theorem keys_adjust (k : K) (f : V → V) (l : List (K × V)) :
    keys (adjust k f l) = keys l :=
  map_adjust (fun _ => by rfl) l

/-- A map of the values that turns one change into another. -/
theorem map_adjust_comm {W : Type*} {k : K} {f : V → V} {f' : W → W} {g : V → W}
    (h : ∀ v, g (f v) = f' (g v)) (l : List (K × V)) :
    (adjust k f l).map (fun e => (e.1, g e.2)) = adjust k f' (l.map fun e => (e.1, g e.2)) := by
  induction l with
  | nil => rfl
  | cons e l ih =>
    rw [adjust, List.map_cons, adjust]
    split
    · rw [List.map_cons, h]
    · rw [List.map_cons, ih]

/-- A pair of the changed list is one of the list, or the one changed. -/
theorem mem_adjust {k : K} {f : V → V} {l : List (K × V)} {e : K × V} (h : e ∈ adjust k f l) :
    e ∈ l ∨ ∃ v, (k, v) ∈ l ∧ e = (k, f v) := by
  induction l with
  | nil => exact .inl h
  | cons e' l ih =>
    obtain ⟨k', v⟩ := e'
    rw [adjust] at h
    split at h
    · -- The pair of the key comes first.
      next hk =>
      rw [hk] at h ⊢
      rcases List.mem_cons.1 h with rfl | h
      · exact .inr ⟨v, List.mem_cons_self, rfl⟩
      · exact .inl (List.mem_cons_of_mem _ h)
    · rcases List.mem_cons.1 h with rfl | h
      · exact .inl List.mem_cons_self
      · rcases ih h with h | ⟨v', hv', rfl⟩
        · exact .inl (List.mem_cons_of_mem _ h)
        · exact .inr ⟨v', List.mem_cons_of_mem _ hv', rfl⟩

/-- Changes that agree on the value of the key are the same. -/
theorem adjust_congr {k : K} {f g : V → V} {l : List (K × V)} (h : ∀ v ∈ l.lookup k, f v = g v) :
    adjust k f l = adjust k g l := by
  induction l with
  | nil => rfl
  | cons e l ih =>
    obtain ⟨k', v⟩ := e
    by_cases hk : k' = k
    · subst hk
      rw [adjust, adjust, if_pos rfl, if_pos rfl, h v List.lookup_cons_self]
    · rw [List.lookup_cons, beq_false_of_ne (Ne.symm hk)] at h
      rw [adjust, adjust, if_neg hk, if_neg hk, ih h]

/-- The pair that changes may come last. -/
theorem adjust_concat {k : K} {f : V → V} {l : List (K × V)} {v : V} (h : k ∉ keys l) :
    adjust k f (l ++ [(k, v)]) = l ++ [(k, f v)] := by
  induction l with
  | nil => rw [List.nil_append, adjust, if_pos rfl, List.nil_append]
  | cons e l ih =>
    rw [keys_cons, List.mem_cons, not_or] at h
    rw [List.cons_append, adjust, if_neg (Ne.symm h.1), ih h.2, List.cons_append]

@[simp] theorem adjust_id (k : K) (l : List (K × V)) : adjust k id l = l := by
  induction l with
  | nil => rfl
  | cons e l ih => rw [adjust, ih, id, ite_self]

/-- Changing a value maps the partial function at its key. -/
theorem lookup_adjust (k : K) (f : V → V) (l : List (K × V)) :
    (fun x => (adjust k f l).lookup x) =
      Function.update (fun x => l.lookup x) k ((l.lookup k).map f) := by
  funext x
  induction l with
  | nil => by_cases hx : x = k <;> simp [adjust, hx]
  | cons e l ih =>
    obtain ⟨k', v⟩ := e
    by_cases hk : k' = k
    · -- The pair that changes.
      subst hk
      by_cases hx : x = k'
      · subst hx; simp [adjust]
      · simp [adjust, List.lookup_cons, beq_false_of_ne hx, Function.update_of_ne hx]
    · -- Another pair: by induction on the rest of the list.
      have hkk : (k == k') = false := beq_false_of_ne (Ne.symm hk)
      by_cases hx : x = k
      · subst hx
        simp only [Function.update_self] at ih
        simp [adjust, hk, List.lookup_cons, hkk, ih]
      · simp only [Function.update_of_ne hx] at ih
        simp [adjust, hk, List.lookup_cons, ih, Function.update_of_ne hx]

/-! ## Taking out a pair -/

/-- Taking out the pair of a key leaves the other keys their values. -/
theorem lookup_eraseP {l : List (K × V)} (hl : (keys l).Nodup) (k : K) :
    (fun x => (l.eraseP fun e => e.1 = k).lookup x) =
      Function.update (fun x => l.lookup x) k none := by
  funext x
  induction l with
  | nil => by_cases hx : x = k <;> simp [hx]
  | cons e l ih =>
    obtain ⟨k', v⟩ := e
    rw [keys_cons, List.nodup_cons] at hl
    by_cases hk : k' = k
    · -- The pair taken out: its key is not among the rest.
      subst hk
      have herase : ((k', v) :: l).eraseP (fun e => e.1 = k') = l :=
        List.eraseP_cons_of_pos (by simp)
      rw [herase]
      by_cases hx : x = k'
      · subst hx
        rw [Function.update_self, lookup_eq_none_iff.2 hl.1]
      · rw [Function.update_of_ne hx, List.lookup_cons, beq_false_of_ne hx]
    · have ih := ih hl.2
      rw [List.eraseP_cons_of_neg (by simpa using hk), List.lookup_cons, ih]
      by_cases hx : x = k
      · subst hx
        rw [beq_false_of_ne (Ne.symm hk), Function.update_self, Function.update_self]
      · rw [Function.update_of_ne hx, Function.update_of_ne hx, List.lookup_cons]

end AssocList
