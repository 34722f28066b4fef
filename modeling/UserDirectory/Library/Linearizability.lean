import Mathlib.Data.List.Nodup
import Mathlib.Logic.Function.Basic
import UserDirectory.Library.Machine

/-!
# Linearizability

Operations that overlap in time. A history records when each operation is called
and when it returns; it is linearizable, with respect to a sequential
specification, if the operations can be put in an order that the specification
allows, and in which no operation comes after one that was called only after
it had returned (`Linearization`).

* `Exec.linearization`: a system in which every operation takes effect at
  one point between its call and its return is linearizable, in the order of
  these points.
* `Linearization.refines`: the order is one for every specification that the
  specification refines.
-/

namespace Linearizability

open Function Machine

variable {ι I O S T : Type*}

/-- An operation is called, or returns. -/
inductive Event (ι I O : Type*)
  | call (x : ι) (i : I)
  | ret (x : ι) (o : O)

/-- The operation `x` returns before `y` is called. -/
def Before (h : List (Event ι I O)) (x y : ι) : Prop :=
  ∃ h₁ h₂, h = h₁ ++ h₂ ∧ (∃ o, .ret x o ∈ h₁) ∧ ∃ i, .call y i ∈ h₂

/-- An operation with its input and its output. -/
structure Operation (ι I O : Type*) where
  name : ι
  input : I
  output : O

/-- An order of operations that explains a history: all that have returned, and perhaps some that
    have been called. -/
structure Linearization (spec : S → I → O → S → Prop) (s : S) (h : List (Event ι I O))
    (ops : List (Operation ι I O)) (s' : S) : Prop where
  legal : Runs spec s (ops.map Operation.input) (ops.map Operation.output) s'
  nodup : (ops.map Operation.name).Nodup
  called : ∀ x ∈ ops, .call x.name x.input ∈ h
  returned : ∀ x o, .ret x o ∈ h → ∃ i, ⟨x, i, o⟩ ∈ ops
  order : ops.Pairwise fun x y => ¬Before h y.name x.name

theorem before_concat_iff {h : List (Event ι I O)} {e : Event ι I O} {x y : ι} :
    Before (h ++ [e]) x y ↔ Before h x y ∨ (∃ o, .ret x o ∈ h) ∧ ∃ i, e = .call y i := by
  constructor
  · rintro ⟨h₁, h₂, heq, ⟨o, hret⟩, i, hcall⟩
    rcases List.eq_nil_or_concat' h₂ with rfl | ⟨h₂, e', rfl⟩
    · cases hcall
    rw [← List.append_assoc] at heq
    obtain ⟨rfl, he⟩ := List.append_inj' heq rfl
    cases he
    rcases List.mem_append.1 hcall with hcall | hcall
    · exact .inl ⟨h₁, h₂, rfl, ⟨o, hret⟩, i, hcall⟩
    · exact .inr ⟨⟨o, List.mem_append_left _ hret⟩, i, (List.mem_singleton.1 hcall).symm⟩
  · rintro (⟨h₁, h₂, rfl, hret, i, hcall⟩ | ⟨hret, i, rfl⟩)
    · exact ⟨h₁, h₂ ++ [e], List.append_assoc _ _ _, hret, i, List.mem_append_left _ hcall⟩
    · exact ⟨h, [_], rfl, hret, i, List.mem_singleton_self _⟩

/-! ## Effects at one point -/

/-- How it stands with an operation. -/
inductive Phase (I O : Type*)
  | new
  | called (i : I)
  | answered (i : I) (o : O)
  | returned (i : I) (o : O)

/-- The executions of a system in which operations take effect at one point: their histories and
    the operations in the order of their effects, with the state and the phases at their end. -/
inductive Exec [DecidableEq ι] (spec : S → I → O → S → Prop) (s : S) :
    List (Event ι I O) → List (Operation ι I O) → S → (ι → Phase I O) → Prop
  | start : Exec spec s [] [] s fun _ => .new
  | call {h : List (Event ι I O)} {ops : List (Operation ι I O)} {t : S} {phase : ι → Phase I O}
    {x : ι} {i : I} : Exec spec s h ops t phase → phase x = .new →
    Exec spec s (h ++ [.call x i]) ops t (update phase x (.called i))
  | effect {h : List (Event ι I O)} {ops : List (Operation ι I O)} {t t' : S}
    {phase : ι → Phase I O} {x : ι} {i : I} {o : O} : Exec spec s h ops t phase →
    phase x = .called i → spec t i o t' →
    Exec spec s h (ops ++ [⟨x, i, o⟩]) t' (update phase x (.answered i o))
  | ret {h : List (Event ι I O)} {ops : List (Operation ι I O)} {t : S} {phase : ι → Phase I O}
    {x : ι} {i : I} {o : O} : Exec spec s h ops t phase → phase x = .answered i o →
    Exec spec s (h ++ [.ret x o]) ops t (update phase x (.returned i o))

namespace Phase

/-- The input of an operation that has been called. -/
def input : Phase I O → Option I
  | new => none
  | called i => some i
  | answered i _ => some i
  | returned i _ => some i

/-- The input and the output of an operation that has taken effect. -/
def outcome : Phase I O → Option (I × O)
  | new => none
  | called _ => none
  | answered i o => some (i, o)
  | returned i o => some (i, o)

end Phase

/-- What the phases tell of the history and of the order. -/
structure Coherent (h : List (Event ι I O)) (ops : List (Operation ι I O)) (phase : ι → Phase I O) :
    Prop where
  outcome : ∀ x i o, ⟨x, i, o⟩ ∈ ops ↔ (phase x).outcome = some (i, o)
  call : ∀ x i, (phase x).input = some i → .call x i ∈ h
  ret : ∀ x o, .ret x o ∈ h → ∃ i, phase x = .returned i o

section Order

variable {spec : S → I → O → S → Prop} {s t : S} {h : List (Event ι I O)} {phase : ι → Phase I O}
  {ops : List (Operation ι I O)} {x : ι} {i : I} {o : O}

/-- An operation that has not taken effect has no place in the order. -/
theorem Coherent.not_mem (hc : Coherent h ops phase) (hx : (phase x).outcome = none) :
    x ∉ ops.map Operation.name := by
  intro hmem
  obtain ⟨⟨_, i, o⟩, hop, rfl⟩ := List.mem_map.1 hmem
  rw [(hc.outcome _ i o).1 hop] at hx
  cases hx

variable [DecidableEq ι]

/-- A call leaves the order as it is: nobody in it has just been called. -/
theorem Linearization.call (hl : Linearization spec s h ops t) (hc : Coherent h ops phase)
    (hx : phase x = .new) (i : I) : Linearization spec s (h ++ [.call x i]) ops t ∧
      Coherent (h ++ [.call x i]) ops (update phase x (.called i)) := by
  have hnew : x ∉ ops.map Operation.name := hc.not_mem (by rw [hx]; rfl)
  refine ⟨⟨hl.legal, hl.nodup, fun y hy => List.mem_append_left _ (hl.called y hy), ?_, ?_⟩,
    ?_, ?_, ?_⟩
  · exact fun y o hmem => hl.returned y o (by simpa using hmem)
  · refine hl.order.imp_of_mem fun {y z} hy _ hyz => ?_
    rw [before_concat_iff]
    rintro (hbefore | ⟨-, j, heq⟩)
    · exact hyz hbefore
    · cases heq
      exact hnew (List.mem_map_of_mem hy)
  · intro y j o
    rw [hc.outcome]
    rcases eq_or_ne y x with rfl | hne
    · rw [update_self, hx]
      rfl
    · rw [update_of_ne hne]
  · intro y j hinput
    rcases eq_or_ne y x with rfl | hne
    · rw [update_self] at hinput
      cases hinput
      exact List.mem_append_right _ (List.mem_singleton_self _)
    · rw [update_of_ne hne] at hinput
      exact List.mem_append_left _ (hc.call y j hinput)
  · intro y o hmem
    obtain ⟨j, hy⟩ := hc.ret y o (by simpa using hmem)
    have hne : y ≠ x := by
      rintro rfl
      rw [hx] at hy
      cases hy
    exact ⟨j, by rw [update_of_ne hne, hy]⟩

/-- An operation that takes effect comes last: it has not returned. -/
theorem Linearization.effect (hl : Linearization spec s h ops t) (hc : Coherent h ops phase)
    (hx : phase x = .called i) {t' : S} (hspec : spec t i o t') :
    Linearization spec s h (ops ++ [⟨x, i, o⟩]) t' ∧
      Coherent h (ops ++ [⟨x, i, o⟩]) (update phase x (.answered i o)) := by
  have hnew : x ∉ ops.map Operation.name := hc.not_mem (by rw [hx]; rfl)
  have hcall : .call x i ∈ h := hc.call x i (by rw [hx]; rfl)
  refine ⟨⟨?_, ?_, ?_, ?_, ?_⟩, ?_, ?_, ?_⟩
  · rw [List.map_append, List.map_append]
    exact runs_append_iff.2 ⟨_, _, t, rfl, hl.legal, .cons hspec (.nil t')⟩
  · rw [List.map_append, List.nodup_append_comm]
    exact List.nodup_cons.2 ⟨hnew, hl.nodup⟩
  · intro y hy
    rcases List.mem_append.1 hy with hy | hy
    · exact hl.called y hy
    · obtain rfl := List.mem_singleton.1 hy
      exact hcall
  · intro y o' hmem
    obtain ⟨j, hop⟩ := hl.returned y o' hmem
    exact ⟨j, List.mem_append_left _ hop⟩
  · refine List.pairwise_append.2 ⟨hl.order, List.pairwise_singleton _ _, fun y _ z hz => ?_⟩
    obtain rfl := List.mem_singleton.1 hz
    rintro ⟨h₁, h₂, rfl, ⟨o', hret⟩, -⟩
    obtain ⟨j, hret'⟩ := hc.ret x o' (List.mem_append_left _ hret)
    rw [hx] at hret'
    cases hret'
  · intro y j o'
    rw [List.mem_append, hc.outcome, List.mem_singleton]
    rcases eq_or_ne y x with rfl | hne
    · rw [update_self, hx]
      simp [Phase.outcome, eq_comm]
    · rw [update_of_ne hne]
      simp [hne]
  · intro y j hinput
    rcases eq_or_ne y x with rfl | hne
    · rw [update_self] at hinput
      cases hinput
      exact hcall
    · rw [update_of_ne hne] at hinput
      exact hc.call y j hinput
  · intro y o' hmem
    obtain ⟨j, hy⟩ := hc.ret y o' hmem
    have hne : y ≠ x := by
      rintro rfl
      rw [hx] at hy
      cases hy
    exact ⟨j, by rw [update_of_ne hne, hy]⟩

/-- A return leaves the order as it is. -/
theorem Linearization.ret (hl : Linearization spec s h ops t) (hc : Coherent h ops phase)
    (hx : phase x = .answered i o) : Linearization spec s (h ++ [.ret x o]) ops t ∧
      Coherent (h ++ [.ret x o]) ops (update phase x (.returned i o)) := by
  have hop : ⟨x, i, o⟩ ∈ ops := (hc.outcome x i o).2 (by rw [hx]; rfl)
  refine ⟨⟨hl.legal, hl.nodup, fun y hy => List.mem_append_left _ (hl.called y hy), ?_, ?_⟩,
    ?_, ?_, ?_⟩
  · intro y o' hmem
    rcases List.mem_append.1 hmem with hmem | hmem
    · exact hl.returned y o' hmem
    · cases List.mem_singleton.1 hmem
      exact ⟨i, hop⟩
  · refine hl.order.imp fun {y z} hyz => ?_
    rw [before_concat_iff]
    rintro (hbefore | ⟨-, j, heq⟩)
    · exact hyz hbefore
    · cases heq
  · intro y j o'
    rw [hc.outcome]
    rcases eq_or_ne y x with rfl | hne
    · rw [update_self, hx]
      rfl
    · rw [update_of_ne hne]
  · intro y j hinput
    refine List.mem_append_left _ (hc.call y j ?_)
    rcases eq_or_ne y x with rfl | hne
    · rw [update_self] at hinput
      rw [hx]
      exact hinput
    · rwa [update_of_ne hne] at hinput
  · intro y o' hmem
    rcases eq_or_ne y x with rfl | hne
    · rw [update_self]
      rcases List.mem_append.1 hmem with hmem | hmem
      · obtain ⟨j, hret⟩ := hc.ret y o' hmem
        rw [hx] at hret
        cases hret
      · cases List.mem_singleton.1 hmem
        exact ⟨i, rfl⟩
    · obtain ⟨j, hret⟩ := hc.ret y o' (by simpa [hne] using hmem)
      exact ⟨j, by rw [update_of_ne hne, hret]⟩

/-- The operations in the order of their effects explain the history. -/
theorem Exec.linearization (he : Exec spec s h ops t phase) :
    Linearization spec s h ops t ∧ Coherent h ops phase := by
  induction he with
  | start =>
    refine ⟨⟨.nil s, List.nodup_nil, fun _ h => absurd h List.not_mem_nil,
      fun _ _ h => absurd h List.not_mem_nil, .nil⟩, fun _ _ _ => ?_, fun _ _ h => ?_,
      fun _ _ h => absurd h List.not_mem_nil⟩
    · exact iff_of_false List.not_mem_nil (Option.some_ne_none _).symm
    · cases h
  | call _ hx ih => exact ih.1.call ih.2 hx _
  | effect _ hx hspec ih => exact ih.1.effect ih.2 hx hspec
  | ret _ hx ih => exact ih.1.ret ih.2 hx

end Order

/-- An order that a specification allows is one that every specification allows which it
    refines. -/
theorem Linearization.refines {spec : S → I → O → S → Prop} {spec' : T → I → O → T → Prop}
    {R : S → T → Prop}
    (h : ∀ s t i o s', R s t → spec s i o s' → ∃ t', spec' t i o t' ∧ R s' t') {s s' : S} {t : T}
    {hist : List (Event ι I O)} {ops : List (Operation ι I O)}
    (hl : Linearization spec s hist ops s') (hst : R s t) :
    ∃ t', Linearization spec' t hist ops t' ∧ R s' t' := by
  obtain ⟨t', hruns, hend⟩ := hl.legal.refines h hst
  exact ⟨t', ⟨hruns, hl.nodup, hl.called, hl.returned, hl.order⟩, hend⟩

end Linearizability
