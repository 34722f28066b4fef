import UserDirectory.Library.Machine
import UserDirectory.SequentialMap

/-!
# The sequential map as a partial function

The operations of `SequentialMap`, in any order and with any callbacks, against
what a map is for: a partial function from keys to values (`Mapping`), which
also remembers at which call each key was mapped. The calls show what they
return and what they pass to their callbacks (`Mapping.Outcome`); the callbacks
share captured variables of type `σ`.

* `Mapping.Answer`: what a call of a map shows, and the map after it. In
  particular, a call of `do_all_readonly` passes on the present mappings
  (`Mapping.Lists`), in the order in which they were first inserted.
* `run_refines`: any calls on an empty `SequentialMap` show what they show on an
  empty `Mapping`.
-/

namespace UserDirectory

open AssocList Machine

variable {K V σ : Type*}

/-- A partial function from keys to values, the number of calls so far, and for each key
    the call at which its present mapping was first inserted. -/
structure Mapping (K V : Type*) where
  map : K → Option V
  since : K → ℕ
  calls : ℕ

namespace Mapping

/-- A call of an operation of a map. A callback that may modify the value returns it. -/
inductive Call (K V σ : Type*)
  | clear
  | insert (key : K) (val : V)
  | upsert (key : K) (val : V)
  | doWith (key : K) (f : V → σ → V × σ)
  | doWithReadonly (key : K) (f : V → σ → σ)
  | remove (key : K)
  | doAllReadonly (f : K → V → σ → σ)

/-- What a call shows: the value it returns, if any, and the arguments its callback was
    called with. -/
inductive Outcome (K V : Type*)
  | cleared
  | returned (b : Bool) (passed : List V)
  | visited (passed : List (K × V))
  deriving DecidableEq

/-- No key is mapped. -/
def empty : Mapping K V := ⟨fun _ => none, fun _ => 0, 0⟩

/-- The list consists of the present mappings, in the order in which they were inserted. -/
structure Lists (a : Mapping K V) (l : List (K × V)) : Prop where
  mem_iff : ∀ key val, (key, val) ∈ l ↔ a.map key = some val
  nodup : (keys l).Nodup
  inOrder : (keys l).Pairwise fun k₁ k₂ => a.since k₁ < a.since k₂

/-- Keys that are mapped get other values, or are no longer mapped. -/
def withMap (a : Mapping K V) (map : K → Option V) : Mapping K V := ⟨map, a.since, a.calls + 1⟩

variable [DecidableEq K]

/-- A key is mapped by this call. -/
def inserted (a : Mapping K V) (key : K) (val : V) : Mapping K V :=
  ⟨Function.update a.map key (some val), Function.update a.since key a.calls, a.calls + 1⟩

/-- What a call shows, and the map and the captured variables after it. -/
inductive Answer : Mapping K V × σ → Call K V σ → Outcome K V → Mapping K V × σ → Prop
  | clear (a : Mapping K V) (st : σ) : Answer (a, st) .clear .cleared (a.withMap fun _ => none, st)
  | insert (a : Mapping K V) (st : σ) (key : K) (val : V) :
    Answer (a, st) (.insert key val) (.returned (a.map key).isNone [])
      (if (a.map key).isNone then a.inserted key val else a.withMap a.map, st)
  | upsert (a : Mapping K V) (st : σ) (key : K) (val : V) :
    Answer (a, st) (.upsert key val) (.returned (a.map key).isNone [])
      (if (a.map key).isNone then a.inserted key val
        else a.withMap (Function.update a.map key (some val)), st)
  | doWith (a : Mapping K V) (st : σ) (key : K) (f : V → σ → V × σ) :
    Answer (a, st) (.doWith key f) (.returned (a.map key).isSome (a.map key).toList)
      (a.withMap (Function.update a.map key ((a.map key).map fun v => (f v st).1)),
        (a.map key).elim st fun v => (f v st).2)
  | doWithReadonly (a : Mapping K V) (st : σ) (key : K) (f : V → σ → σ) :
    Answer (a, st) (.doWithReadonly key f) (.returned (a.map key).isSome (a.map key).toList)
      (a.withMap a.map, (a.map key).elim st fun v => f v st)
  | remove (a : Mapping K V) (st : σ) (key : K) :
    Answer (a, st) (.remove key) (.returned (a.map key).isSome [])
      (a.withMap (Function.update a.map key none), st)
  | doAllReadonly {a : Mapping K V} (st : σ) (f : K → V → σ → σ) {l : List (K × V)} : a.Lists l →
    Answer (a, st) (.doAllReadonly f) (.visited l)
      (a.withMap a.map, l.foldl (fun st e => f e.1 e.2 st) st)

omit [DecidableEq K] in
/-- There is only one list of the present mappings in their order. -/
theorem Lists.unique {a : Mapping K V} {l₁ l₂ : List (K × V)} (h₁ : a.Lists l₁)
    (h₂ : a.Lists l₂) : l₁ = l₂ := by
  have hperm : l₁.Perm l₂ := (List.perm_ext_iff_of_nodup h₁.nodup.of_map h₂.nodup.of_map).2
    fun e => (h₁.mem_iff e.1 e.2).trans (h₂.mem_iff e.1 e.2).symm
  have hsorted₁ := List.pairwise_map.1 h₁.inOrder
  have hsorted₂ := List.pairwise_map.1 h₂.inOrder
  exact hperm.eq_of_pairwise (fun e₁ e₂ _ _ hlt hgt => absurd hlt (Nat.lt_asymm hgt)) hsorted₁
    hsorted₂

/-- A call has one answer. -/
theorem Answer.unique {p p₁ p₂ : Mapping K V × σ} {call : Call K V σ} {o₁ o₂ : Outcome K V}
    (h₁ : Answer p call o₁ p₁) (h₂ : Answer p call o₂ p₂) : o₁ = o₂ ∧ p₁ = p₂ := by
  cases h₁ with
  | doAllReadonly st f hl =>
    cases h₂ with
    | doAllReadonly _ _ hl' =>
      obtain rfl := hl.unique hl'
      exact ⟨rfl, rfl⟩
  | _ =>
    cases h₂
    exact ⟨rfl, rfl⟩

end Mapping

/-! ## The sequential map -/

namespace SequentialMap

variable [DecidableEq K]

/-- A callback that records the values passed to it. -/
def recording (f : V → σ → V × σ) (v : V) (p : σ × List V) : V × (σ × List V) :=
  ((f v p.1).1, (f v p.1).2, p.2 ++ [v])

/-- What a call of an operation shows, and the map and the captured variables after it. -/
def exec (p : SequentialMap K V × σ) :
    Mapping.Call K V σ → Mapping.Outcome K V × (SequentialMap K V × σ)
  | .clear => (.cleared, p.1.clear, p.2)
  | .insert key val => (.returned (p.1.insert key val).1 [], (p.1.insert key val).2, p.2)
  | .upsert key val => (.returned (p.1.upsert key val).1 [], (p.1.upsert key val).2, p.2)
  | .doWith key f =>
    let (b, m, st, passed) := p.1.doWith key (recording f) (p.2, [])
    (.returned b passed, m, st)
  | .doWithReadonly key f =>
    let (b, st, passed) := p.1.doWithReadonly key (fun v q => (f v q.1, q.2 ++ [v])) (p.2, [])
    (.returned b passed, p.1, st)
  | .remove key => (.returned (p.1.remove key).1 [], (p.1.remove key).2, p.2)
  | .doAllReadonly f =>
    let (st, passed) := p.1.doAllReadonly (fun key v q => (f key v q.1, q.2 ++ [(key, v)]))
      (p.2, [])
    (.visited passed, p.1, st)

/-- The map stands for the partial function, with its keys in order. -/
structure Refines (m : SequentialMap K V) (a : Mapping K V) : Prop where
  lookup : m.lookup = a.map
  inOrder : (keys m.entries).Pairwise fun k₁ k₂ => a.since k₁ < a.since k₂
  since_lt : ∀ key ∈ keys m.entries, a.since key < a.calls

theorem refines_empty : Refines (empty : SequentialMap K V) .empty where
  lookup := rfl
  inOrder := .nil
  since_lt _ h := absurd h List.not_mem_nil

namespace Refines

variable {m : SequentialMap K V} {a : Mapping K V} {key : K}

/-- The entries are the list of the present mappings. -/
theorem lists (h : Refines m a) : a.Lists m.entries where
  mem_iff key val := by
    rw [← h.lookup]
    exact mem_iff_lookup m.nodup
  nodup := m.nodup
  inOrder := h.inOrder

/-- Operations that add no key keep the order of those that are left. -/
theorem withMap (h : Refines m a) {m' : SequentialMap K V} {map : K → Option V}
    (hlookup : m'.lookup = map) (hkeys : (keys m'.entries).Sublist (keys m.entries)) :
    Refines m' (a.withMap map) where
  lookup := hlookup
  inOrder := h.inOrder.sublist hkeys
  since_lt key hkey := Nat.lt_succ_of_lt (h.since_lt key (hkeys.subset hkey))

/-- A new key comes last. -/
theorem inserted (h : Refines m a) (val : V) (hkey : key ∉ keys m.entries) :
    Refines (m.insert key val).2 (a.inserted key val) := by
  have hold : ∀ k ∈ keys m.entries, Function.update a.since key a.calls k = a.since k := by
    intro k hk
    refine Function.update_of_ne ?_ _ _
    rintro rfl
    exact hkey hk
  have hkeys : keys (m.insert key val).2.entries = keys m.entries ++ [key] := by
    rw [insert_entries val hkey, keys_append, keys_cons, keys_nil]
  refine ⟨by rw [lookup_insert val hkey, h.lookup]; rfl, ?_, fun k hk => ?_⟩
  · rw [hkeys, List.pairwise_append]
    refine ⟨?_, List.pairwise_singleton _ _, fun k hk k' hk' => ?_⟩
    · refine h.inOrder.imp_of_mem fun {k₁ k₂} h₁ h₂ hlt => ?_
      simpa only [Mapping.inserted, hold k₁ h₁, hold k₂ h₂] using hlt
    · obtain rfl := List.mem_singleton.1 hk'
      simpa only [Mapping.inserted, hold k hk, Function.update_self] using h.since_lt k hk
  · rw [hkeys, List.mem_append, List.mem_singleton] at hk
    rcases hk with hk | rfl
    · simpa only [Mapping.inserted, hold k hk] using Nat.lt_succ_of_lt (h.since_lt k hk)
    · simp only [Mapping.inserted, Function.update_self, Nat.lt_succ_self]

end Refines

variable {m : SequentialMap K V} {a : Mapping K V}

theorem exec_insert (key : K) (val : V) (st : σ) : exec (m, st) (.insert key val) =
    (.returned (m.lookup key).isNone [], (m.insert key val).2, st) := by
  rw [exec, insert_fst, isNone_lookup]

theorem exec_upsert (key : K) (val : V) (st : σ) : exec (m, st) (.upsert key val) =
    (.returned (m.lookup key).isNone [], (m.upsert key val).2, st) := by
  rw [exec, isNone_lookup]
  by_cases hkey : key ∈ keys m.entries
  · simp only [upsert_of_mem val hkey, hkey, not_true_eq_false, decide_false]
  · simp only [upsert_of_not_mem val hkey, insert_fst]

theorem exec_doWith (key : K) (f : V → σ → V × σ) (st : σ) : exec (m, st) (.doWith key f) =
    (.returned (m.lookup key).isSome (m.lookup key).toList, m.adjust key (fun v => (f v st).1),
      (m.lookup key).elim st fun v => (f v st).2) := by
  obtain ⟨hfound, hmap, hpassed⟩ := m.doWith_eq key (recording f) (st, [])
  simp only [exec, hfound, hmap, hpassed]
  cases m.lookup key <;> rfl

theorem exec_doWithReadonly (key : K) (f : V → σ → σ) (st : σ) :
    exec (m, st) (.doWithReadonly key f) = (.returned (m.lookup key).isSome (m.lookup key).toList,
      m, (m.lookup key).elim st fun v => f v st) := by
  simp only [exec, doWithReadonly_eq]
  cases m.lookup key <;> rfl

theorem exec_remove (key : K) (st : σ) : exec (m, st) (.remove key) =
    (.returned (m.lookup key).isSome [], (m.remove key).2, st) := by
  rw [exec, isSome_lookup, remove]

omit [DecidableEq K] in
/-- A fold that also records the pairs. -/
theorem foldl_record (f : K → V → σ → σ) (es : List (K × V)) (st : σ) (passed : List (K × V)) :
    es.foldl (fun q e => (f e.1 e.2 q.1, q.2 ++ [(e.1, e.2)])) (st, passed) =
      (es.foldl (fun st e => f e.1 e.2 st) st, passed ++ es) := by
  induction es generalizing st passed with
  | nil => rw [List.append_nil]; rfl
  | cons e es ih => rw [List.foldl_cons, List.foldl_cons, ih, List.append_assoc]; rfl

theorem exec_doAllReadonly (f : K → V → σ → σ) (st : σ) : exec (m, st) (.doAllReadonly f) =
    (.visited m.entries, m, m.entries.foldl (fun st e => f e.1 e.2 st) st) := by
  simp only [exec, doAllReadonly, foldl_record, List.nil_append]

/-- A call of an operation shows what it shows on the partial function, and the map after it
    stands for the partial function after it. -/
theorem Refines.exec (h : Refines m a) (call : Mapping.Call K V σ) (st : σ) :
    ∃ a', Mapping.Answer (a, st) call (SequentialMap.exec (m, st) call).1
        (a', (SequentialMap.exec (m, st) call).2.2) ∧
      Refines (SequentialMap.exec (m, st) call).2.1 a' := by
  have hisNone : ∀ key, (a.map key).isNone = decide (key ∉ keys m.entries) := fun key => by
    rw [← h.lookup, isNone_lookup]
  cases call with
  | clear => exact ⟨_, .clear a st, h.withMap rfl (List.nil_sublist _)⟩
  | insert key val =>
    rw [exec_insert, h.lookup]
    refine ⟨_, .insert a st key val, ?_⟩
    rw [hisNone]
    by_cases hkey : key ∈ keys m.entries
    · simpa [insert_of_mem val hkey, hkey] using h.withMap h.lookup (List.Sublist.refl _)
    · simpa [hkey] using h.inserted val hkey
  | upsert key val =>
    rw [exec_upsert, h.lookup]
    refine ⟨_, .upsert a st key val, ?_⟩
    rw [hisNone]
    by_cases hkey : key ∈ keys m.entries
    · -- The value of the key is replaced where it is.
      have hlookup := @lookup_upsert _ _ _ m key val
      rw [h.lookup] at hlookup
      simpa [hkey] using h.withMap hlookup (by rw [upsert_of_mem val hkey, adjust, keys_adjust])
    · simpa [upsert_of_not_mem val hkey, hkey] using h.inserted val hkey
  | doWith key f =>
    rw [exec_doWith, h.lookup]
    refine ⟨_, .doWith a st key f, h.withMap ?_ (by rw [adjust, keys_adjust])⟩
    rw [lookup_adjust, h.lookup]
  | doWithReadonly key f =>
    rw [exec_doWithReadonly, h.lookup]
    exact ⟨_, .doWithReadonly a st key f, h.withMap h.lookup (List.Sublist.refl _)⟩
  | remove key =>
    rw [exec_remove, h.lookup]
    refine ⟨_, .remove a st key, h.withMap ?_ (List.eraseP_sublist.map Prod.fst)⟩
    rw [lookup_remove, h.lookup]
  | doAllReadonly f =>
    rw [exec_doAllReadonly]
    exact ⟨_, .doAllReadonly st f h.lists, h.withMap h.lookup (List.Sublist.refl _)⟩

/-- Any calls on an empty map show what they show on an empty partial function, and nothing
    else could be shown; after them, the map stands for the partial function. -/
theorem run_refines (st : σ) (calls : List (Mapping.Call K V σ)) :
    ∃ a, Runs Mapping.Answer (.empty, st) calls (run exec (empty, st) calls).1
        (a, (run exec (empty, st) calls).2.2) ∧
      (run exec (empty, st) calls).2.1.lookup = a.map ∧
      ∀ outcomes p, Runs Mapping.Answer (.empty, st) calls outcomes p →
        outcomes = (run exec (empty, st) calls).1 := by
  obtain ⟨⟨a, st'⟩, hrun, hrefines, hst⟩ := @exists_runs _ _ _ _
    (exec : SequentialMap K V × σ → _) Mapping.Answer (fun p q => Refines p.1 q.1 ∧ q.2 = p.2)
    (fun p q call hpq => by
      obtain ⟨m, st⟩ := p
      obtain ⟨a, st'⟩ := q
      obtain ⟨hm, rfl⟩ := hpq
      obtain ⟨a', hanswer, hm'⟩ := hm.exec call st'
      exact ⟨_, hanswer, hm', rfl⟩) (empty, st) (.empty, st) ⟨refines_empty, rfl⟩ calls
  simp only at hst
  subst hst
  refine ⟨a, hrun, hrefines.lookup, fun outcomes p hp => ?_⟩
  refine (Runs.unique ?_ hp hrun).1
  exact fun _ _ _ _ _ _ h₁ h₂ => h₁.unique h₂

end SequentialMap

end UserDirectory
