import Mathlib.Control.Lawful
import UserDirectory.Library.Fuel

/-!
# Programs with assertions

A program with assertions runs in `OptionT`: it *fails*, with `none`, at the
first assertion (`guard`) that does not hold. A loop may have an assertion at
the start of every pass (`asserting`). The rules:

* `loop_asserting`: an invariant that implies the assertion of a loop makes it
  the loop without the assertion;
* `lift_bind_congr`: a program whose assertions hold is the program without
  them (`OptionT.lift`), if this is so of its parts;
* `Safe`: with no fuel does a program from a given state fail. This is shown
  part by part (`safe_lift_bind`), and so is a failure (`returns_lift_bind`).
-/

namespace Assertion

open Fuel

universe u

/-! ## Loops -/

section Loops

variable {σ ρ : Type*} (ok : σ → Prop) [DecidablePred ok] (body : σ → σ ⊕ ρ)

/-- The body of a loop with an assertion at the start of every pass. -/
def asserting (s : σ) : σ ⊕ Option ρ := if ok s then (body s).map id some else .inr none

variable {ok body} {s : σ}

theorem asserting_of_not (h : ¬ok s) : asserting ok body s = .inr none := if_neg h

/-- An assertion that an invariant implies never fails. -/
theorem loop_asserting {P : σ → Prop} (hok : ∀ s, P s → ok s)
    (hP : ∀ s s', P s → body s = .inl s' → P s') (hs : P s) (n : ℕ) :
    loop (asserting ok body) n s = (loop body n s).map some := by
  induction n generalizing s with
  | zero => rfl
  | succ n ih =>
    have hstep : asserting ok body s = (body s).map id some := if_pos (hok s hs)
    cases hb : body s with
    | inl s' =>
      rw [hb] at hstep
      rw [loop_succ_inl hb, loop_succ_inl hstep]
      exact ih (hP s s' hs hb)
    | inr r =>
      rw [hb] at hstep
      rw [loop_succ_inr hb, loop_succ_inr hstep, Option.map_some]

end Loops

/-! ## Programs -/

/-- An assertion that holds. -/
theorem guard_eq_pure {m : Type → Type*} [Monad m] {p : Prop} [Decidable p] (h : p) :
    (guard p : OptionT m Unit) = pure () := if_pos h

theorem guard_bind {m : Type → Type*} [Monad m] [LawfulMonad m] {α : Type} {p : Prop}
    [Decidable p] (h : p) (k : OptionT m α) : (guard p >>= fun _ => k) = k := by
  rw [guard_eq_pure h, pure_bind]

section Programs

variable {σ α β : Type u}

/-- A program whose parts do not fail, if what its first part gives implies this of the
    second one. -/
theorem lift_bind_congr {x : StateT σ Option α} {f : α → StateT σ Option β}
    {g : α → OptionT (StateT σ Option) β}
    (h : ∀ s a s', x s = some (a, s') → g a = OptionT.lift (f a)) :
    OptionT.lift x >>= g = OptionT.lift (x >>= f) := by
  refine OptionT.ext (funext fun s => ?_)
  rw [OptionT.run_bind_lift, OptionT.run_lift, bind_assoc]
  simp only [bindM_apply]
  cases hx : x s with
  | none => rfl
  | some p => rw [Option.bind_some, Option.bind_some, h s p.1 p.2 hx, OptionT.run_lift, bindM_apply]

/-- A first part that does not fail, and a function of what it gives. -/
theorem lift_bind_pure {x : StateT σ Option α} {f : α → β} :
    (OptionT.lift x >>= fun a => pure (f a)) = OptionT.lift (x >>= fun a => pure (f a)) :=
  lift_bind_congr fun _ _ _ _ => (OptionT.lift_pure _).symm

/-- With no fuel does the program fail. -/
def Safe (f : ℕ → OptionT (StateT σ Option) α) (s : σ) : Prop :=
  ∀ n s', (f n).run s ≠ some (none, s')

variable {x : ℕ → StateT σ Option α} {g : ℕ → α → OptionT (StateT σ Option) β} {s s' : σ} {a : α}

/-- A program whose assertions hold does not fail. -/
theorem safe_of_eq_lift {f : ℕ → OptionT (StateT σ Option) α}
    (h : ∀ n, f n = OptionT.lift (x n)) : Safe f s := by
  rintro n s' hfail
  rw [h n, OptionT.run_lift, bindM_apply] at hfail
  obtain ⟨p, -, hp⟩ := Option.bind_eq_some_iff.1 hfail
  cases hp

/-- After a first part that gives a single value, however much fuel it has. -/
theorem safe_lift_bind (hx : ∀ n, x n s = none ∨ x n s = some (a, s'))
    (hg : Safe (fun n => g n a) s') : Safe (fun n => OptionT.lift (x n) >>= g n) s := by
  rintro n s'' h
  rw [OptionT.run_bind_lift, bindM_apply] at h
  rcases hx n with hn | hn
  · rw [hn] at h
    cases h
  · rw [hn] at h
    exact hg n s'' h

/-- What a program returns after a first part that does. -/
theorem returns_lift_bind {r : Option β × σ} (hx : Returns (fun n => x n s) (a, s'))
    (hg : Returns (fun n => (g n a).run s') r) :
    Returns (fun n => (OptionT.lift (x n) >>= g n).run s) r := by
  simp only [OptionT.run_bind_lift]
  exact hx.bindM hg

/-- A program fails where its first part does. -/
theorem returns_none_bind {f : ℕ → OptionT (StateT σ Option) α}
    (hf : Returns (fun n => (f n).run s) (none, s')) :
    Returns (fun n => (f n >>= g n).run s) (none, s') := by
  simp only [OptionT.run_bind]
  exact hf.bindM (returns_of_forall fun _ => rfl)

/-- A program that returns a failure. -/
theorem not_safe_of_returns {f : ℕ → OptionT (StateT σ Option) α}
    (h : Returns (fun n => (f n).run s) (none, s')) : ¬Safe f s := by
  rintro hsafe
  obtain ⟨n, hn⟩ := h.exists
  exact hsafe n s' hn

end Programs

end Assertion
