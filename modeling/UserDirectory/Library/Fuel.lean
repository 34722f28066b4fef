import Mathlib.Order.Filter.AtTopBot.Basic

/-!
# Programs that may not return

A program that may loop for ever is a function of a *fuel*, the number of
passes its loops may take: it gives `none` when the fuel runs out. It *returns*
a value if every large enough fuel gives that value (`Returns`), and *diverges*
if no fuel is enough (`Diverges`).

A loop is given by its *body*, which maps a state either to the state of the
next pass or to the value returned (`loop`). The rules for loops:

* `loop_returns_of_exists`: what some fuel gives, every larger fuel gives;
* `loop_returns_next`, `loop_diverges_next`: a pass that goes on changes neither
  what the loop returns nor whether it returns;
* `loop_returns_of_variant`: a loop returns if, under an invariant, every pass
  going on decreases a variant;
* `loop_invariant`: an invariant of the passes gives a property of the value
  returned (`loop_total`: both at once);
* `loop_diverges_of_forall`: a loop that can always go on within a set of
  states never returns.

A program made of loops `Settles`: what some fuel gives is what it returns. So
it does not return if what follows its first part does not
(`Diverges.bind_right`).

A stateful program `Ends` if, under an invariant of its states, it returns; and
it `Leads` from each state to the related ones, as far as it returns. Both are
shown part by part.
-/

namespace Fuel

open Filter

universe u

variable {α β σ ρ : Type*}

/-- The program `f` returns `a`: every large enough fuel gives `a`. -/
def Returns (f : ℕ → Option α) (a : α) : Prop := ∀ᶠ n in atTop, f n = some a

/-- The program `f` never returns: no fuel is enough. -/
def Diverges (f : ℕ → Option α) : Prop := ∀ n, f n = none

/-- A program returns at most one value. -/
theorem Returns.unique {f : ℕ → Option α} {a b : α} (ha : Returns f a) (hb : Returns f b) :
    a = b := by
  obtain ⟨n, hna, hnb⟩ := (ha.and hb).exists
  exact Option.some.inj (hna.symm.trans hnb)

/-- A program that returns does not diverge. -/
theorem Returns.not_diverges {f : ℕ → Option α} {a : α} (ha : Returns f a) : ¬Diverges f := by
  intro hd
  obtain ⟨n, hn⟩ := ha.exists
  exact Option.some_ne_none a (hn.symm.trans (hd n))

/-- A program that gives a value whatever its fuel returns it. -/
theorem returns_of_forall {f : ℕ → Option α} {a : α} (h : ∀ n, f n = some a) : Returns f a :=
  Eventually.of_forall h

/-- A program returns what it amounts to with enough fuel. -/
theorem Returns.of_eventually_eq {f g : ℕ → Option α} {a : α} (hg : Returns g a)
    (h : ∀ᶠ n in atTop, f n = g n) : Returns f a := by
  filter_upwards [hg, h] with n hgn hfg
  rw [hfg, hgn]

/-- A program followed by another one. -/
theorem Returns.bind {f : ℕ → Option α} {g : ℕ → α → Option β} {a : α} {b : β}
    (hf : Returns f a) (hg : Returns (fun n => g n a) b) :
    Returns (fun n => (f n).bind (g n)) b := by
  filter_upwards [hf, hg] with n hfn hgn
  rw [hfn, Option.bind_some, hgn]

/-- A program followed by a function of its value. -/
theorem Returns.map {f : ℕ → Option α} {a : α} (hf : Returns f a) (g : α → β) :
    Returns (fun n => (f n).map g) (g a) := by
  filter_upwards [hf] with n hn
  rw [hn, Option.map_some]

/-- A program does not return if its first part does not. -/
theorem Diverges.bind {f : ℕ → Option α} (hf : Diverges f) (g : ℕ → α → Option β) :
    Diverges fun n => (f n).bind (g n) := fun n => by
  simp only [hf n, Option.bind_none]

theorem bindM_apply {σ α β : Type u} (x : StateT σ Option α) (k : α → StateT σ Option β) (s : σ) :
    (x >>= k) s = (x s).bind fun p => k p.1 p.2 := rfl

/-- A stateful program followed by another one returns what that one returns. -/
theorem Returns.bindM_iff {σ α β : Type u} {f : ℕ → StateT σ Option α}
    {g : ℕ → α → StateT σ Option β} {s s' : σ} {a : α} (hf : Returns (fun n => f n s) (a, s'))
    {r : β × σ} : Returns (fun n => (f n >>= g n) s) r ↔ Returns (fun n => g n a s') r := by
  refine eventually_congr ?_
  filter_upwards [hf] with n hn
  rw [bindM_apply, hn, Option.bind_some]

theorem Returns.bindM {σ α β : Type u} {f : ℕ → StateT σ Option α} {g : ℕ → α → StateT σ Option β}
    {s s' : σ} {a : α} {r : β × σ} (hf : Returns (fun n => f n s) (a, s'))
    (hg : Returns (fun n => g n a s') r) : Returns (fun n => (f n >>= g n) s) r :=
  hf.bindM_iff.2 hg

/-- A stateful program does not return if its first part does not. -/
theorem Diverges.bindM {σ α β : Type u} {f : ℕ → StateT σ Option α} {s : σ}
    (hf : Diverges fun n => f n s)
    (g : ℕ → α → StateT σ Option β) : Diverges fun n => (f n >>= g n) s := fun n => by
  have hfn : f n s = none := hf n
  simp only [bindM_apply, hfn, Option.bind_none]

/-- A stateful program does not return if its second part does not. The first part gives
    a single value, however much fuel it has. -/
theorem Diverges.bindM_right {σ α β : Type u} {f : ℕ → StateT σ Option α}
    {g : ℕ → α → StateT σ Option β} {s s' : σ} {a : α}
    (hf : ∀ n, f n s = none ∨ f n s = some (a, s')) (hg : Diverges fun n => g n a s') :
    Diverges fun n => (f n >>= g n) s := fun n => by
  rcases hf n with hn | hn
  · simp only [bindM_apply, hn, Option.bind_none]
  · simp only [bindM_apply, hn, Option.bind_some]
    exact hg n

/-! ## Programs that settle -/

/-- What some fuel gives, the program returns. -/
def Settles (f : ℕ → Option α) : Prop := ∀ n a, f n = some a → Returns f a

/-- A program that needs no fuel. -/
theorem settles_const (o : Option α) : Settles fun _ => o := fun _ _ h =>
  returns_of_forall fun _ => h

theorem Settles.bind {f : ℕ → Option α} {g : ℕ → α → Option β} (hf : Settles f)
    (hg : ∀ a, Settles fun n => g n a) : Settles fun n => (f n).bind (g n) := by
  intro n b h
  obtain ⟨a, hfa, hga⟩ := Option.bind_eq_some_iff.1 h
  exact (hf n a hfa).bind (hg a n b hga)

theorem Settles.map {f : ℕ → Option α} (hf : Settles f) (g : α → β) :
    Settles fun n => (f n).map g := by
  intro n b h
  obtain ⟨a, hfa, rfl⟩ := Option.map_eq_some_iff.1 h
  exact (hf n a hfa).map g

theorem Settles.bindM {σ α β : Type u} {f : ℕ → StateT σ Option α} {g : ℕ → α → StateT σ Option β}
    {s : σ} (hf : Settles fun n => f n s) (hg : ∀ a s', Settles fun n => g n a s') :
    Settles fun n => (f n >>= g n) s := by
  simp only [bindM_apply]
  exact hf.bind fun p => hg p.1 p.2

/-- A program that settles does not return if what follows the value it returns does not. -/
theorem Diverges.bind_right {f : ℕ → Option α} {g : ℕ → α → Option β} {a : α} (hf : Settles f)
    (ha : Returns f a) (hg : Diverges fun n => g n a) : Diverges fun n => (f n).bind (g n) := by
  intro n
  cases hfn : f n with
  | none => simp only [hfn, Option.bind_none]
  | some a' =>
    obtain rfl := ha.unique (hf n a' hfn)
    simp only [hfn, Option.bind_some]
    exact hg n

/-! ## Stateful programs -/

section Stateful

variable {σ α β : Type u} {P : σ → Prop} {R : σ → σ → Prop}

/-- Started in a state with `P`, the program returns, in a state with `P`. -/
def Ends (P : σ → Prop) (f : ℕ → StateT σ Option α) : Prop :=
  ∀ s, P s → ∃ a s', Returns (fun n => f n s) (a, s') ∧ P s'

/-- If the program returns, it has led from its state to a related one. -/
def Leads (R : σ → σ → Prop) (f : StateT σ Option α) : Prop :=
  ∀ s a s', f s = some (a, s') → R s s'

theorem Ends.pure (P : σ → Prop) (a : α) : Ends P fun _ => (Pure.pure a : StateT σ Option α) :=
  fun s hs => ⟨a, s, returns_of_forall fun _ => rfl, hs⟩

theorem Ends.bind {f : ℕ → StateT σ Option α} {g : ℕ → α → StateT σ Option β} (hf : Ends P f)
    (hg : ∀ a, Ends P fun n => g n a) : Ends P fun n => f n >>= g n := by
  intro s hs
  obtain ⟨a, s₁, h₁, hs₁⟩ := hf s hs
  obtain ⟨b, s₂, h₂, hs₂⟩ := hg a s₁ hs₁
  exact ⟨b, s₂, h₁.bindM h₂, hs₂⟩

theorem Ends.ite {p : Prop} [Decidable p] {f g : ℕ → StateT σ Option α} (hf : Ends P f)
    (hg : Ends P g) : Ends P fun n => if p then f n else g n := by
  by_cases h : p
  · simpa only [if_pos h] using hf
  · simpa only [if_neg h] using hg

theorem Leads.pure (hrefl : ∀ s, R s s) (a : α) : Leads R (Pure.pure a : StateT σ Option α) := by
  intro s a' s' h
  cases h
  exact hrefl s

theorem Leads.bind (htrans : ∀ s₁ s₂ s₃, R s₁ s₂ → R s₂ s₃ → R s₁ s₃) {f : StateT σ Option α}
    {g : α → StateT σ Option β} (hf : Leads R f) (hg : ∀ a, Leads R (g a)) :
    Leads R (f >>= g) := by
  intro s b s' h
  obtain ⟨⟨a, s₁⟩, h₁, h₂⟩ := Option.bind_eq_some_iff.1 h
  exact htrans _ _ _ (hf s a s₁ h₁) (hg a s₁ b s' h₂)

theorem Leads.ite {p : Prop} [Decidable p] {f g : StateT σ Option α} (hf : Leads R f)
    (hg : Leads R g) : Leads R (if p then f else g) := by
  split
  · exact hf
  · exact hg

end Stateful

/-! ## Loops -/

/-- The loop with the given body, from the state `s`: the body goes on with
    the state of the next pass, or ends the loop with its value. -/
def loop (body : σ → σ ⊕ ρ) : ℕ → σ → Option ρ
  | 0, _ => none
  | n + 1, s =>
    match body s with
    | .inl s' => loop body n s'
    | .inr r => some r

variable {body : σ → σ ⊕ ρ} {s s' : σ} {r : ρ}

theorem loop_zero : loop body 0 s = none := rfl

theorem loop_succ_inl (h : body s = .inl s') (n : ℕ) :
    loop body (n + 1) s = loop body n s' := by
  rw [loop, h]

theorem loop_succ_inr (h : body s = .inr r) (n : ℕ) : loop body (n + 1) s = some r := by
  rw [loop, h]

/-- What some fuel gives, every larger fuel gives. -/
theorem loop_mono {n m : ℕ} (h : loop body n s = some r) (hnm : n ≤ m) :
    loop body m s = some r := by
  induction n generalizing s m with
  | zero => rw [loop_zero] at h; cases h
  | succ n ih =>
    have hm : m ≠ 0 := Nat.ne_of_gt (Nat.lt_of_lt_of_le n.succ_pos hnm)
    obtain ⟨m, rfl⟩ := Nat.exists_eq_succ_of_ne_zero hm
    cases hb : body s with
    | inl s' =>
      rw [loop_succ_inl hb] at h ⊢
      exact ih h (Nat.le_of_succ_le_succ hnm)
    | inr r' => rwa [loop_succ_inr hb] at h ⊢

/-- A loop returns what some fuel gives. -/
theorem loop_returns_of_exists {n : ℕ} (h : loop body n s = some r) :
    Returns (fun n => loop body n s) r :=
  eventually_atTop.2 ⟨n, fun _ hm => loop_mono h hm⟩

theorem settles_loop (body : σ → σ ⊕ ρ) (s : σ) : Settles fun n => loop body n s := fun _ _ h =>
  loop_returns_of_exists h

/-- A loop gives the value it returns or runs out of fuel. -/
theorem Returns.loop_eq (h : Returns (fun n => loop body n s) r) (n : ℕ) :
    loop body n s = none ∨ loop body n s = some r := by
  cases hn : loop body n s with
  | none => exact .inl rfl
  | some r' => exact .inr (by rw [(loop_returns_of_exists hn).unique h])

/-- A pass that ends the loop. -/
theorem loop_returns_of_inr (h : body s = .inr r) : Returns (fun n => loop body n s) r :=
  loop_returns_of_exists (loop_succ_inr h 0)

/-- A pass that goes on does not change what the loop returns. -/
theorem loop_returns_next (h : body s = .inl s') :
    Returns (fun n => loop body n s) r ↔ Returns (fun n => loop body n s') r := by
  constructor
  · intro hr
    obtain ⟨n, hn⟩ := hr.exists
    cases n with
    | zero => exact absurd (loop_zero.symm.trans hn) (Option.some_ne_none r).symm
    | succ n => exact loop_returns_of_exists ((loop_succ_inl h n).symm.trans hn)
  · intro hr
    obtain ⟨n, hn⟩ := hr.exists
    exact loop_returns_of_exists ((loop_succ_inl h n).trans hn)

/-- A loop returns if, under the invariant `P`, the passes that go on decrease
    the variant `v`. -/
theorem loop_returns_of_variant {P : σ → Prop} (v : σ → ℕ)
    (hP : ∀ s s', P s → body s = .inl s' → P s' ∧ v s' < v s) (hs : P s) :
    ∃ r, Returns (fun n => loop body n s) r := by
  induction hv : v s using Nat.strong_induction_on generalizing s with
  | _ k ih =>
    cases hb : body s with
    | inl s' =>
      obtain ⟨hs', hlt⟩ := hP s s' hs hb
      obtain ⟨r, hr⟩ := ih (v s') (hv ▸ hlt) hs' rfl
      exact ⟨r, (loop_returns_next hb).2 hr⟩
    | inr r => exact ⟨r, loop_returns_of_inr hb⟩

/-- A property of the value returned, from an invariant of the passes. -/
theorem loop_invariant {P : σ → Prop} {Q : ρ → Prop}
    (h : Returns (fun n => loop body n s) r) (hs : P s)
    (hP : ∀ s s', P s → body s = .inl s' → P s') (hQ : ∀ s r, P s → body s = .inr r → Q r) :
    Q r := by
  obtain ⟨n, hn⟩ := h.exists
  simp only at hn
  -- By induction on a fuel that suffices.
  induction n generalizing s with
  | zero => rw [loop_zero] at hn; cases hn
  | succ n ih =>
    cases hb : body s with
    | inl s' =>
      rw [loop_succ_inl hb] at hn
      exact ih ((loop_returns_next hb).1 h) (hP s s' hs hb) hn
    | inr r' =>
      rw [loop_succ_inr hb] at hn
      exact Option.some.inj hn ▸ hQ s r' hs hb

/-- A loop returns, and what it returns has the property `Q`, if under the invariant `P` the
    passes that go on decrease the variant `v`, and the passes that end it give `Q`. -/
theorem loop_total {P : σ → Prop} {Q : ρ → Prop} (v : σ → ℕ)
    (hP : ∀ s s', P s → body s = .inl s' → P s' ∧ v s' < v s)
    (hQ : ∀ s r, P s → body s = .inr r → Q r) (hs : P s) :
    ∃ r, Returns (fun n => loop body n s) r ∧ Q r := by
  obtain ⟨r, hr⟩ := loop_returns_of_variant v hP hs
  exact ⟨r, hr, loop_invariant hr hs (fun s s' hs hb => (hP s s' hs hb).1) hQ⟩

/-- A loop that can always go on within `P` never returns. -/
theorem loop_diverges_of_forall {P : σ → Prop}
    (hP : ∀ s, P s → ∃ s', body s = .inl s' ∧ P s') (hs : P s) :
    Diverges fun n => loop body n s := by
  intro n
  induction n generalizing s with
  | zero => exact loop_zero
  | succ n ih =>
    obtain ⟨s', hb, hs'⟩ := hP s hs
    exact (loop_succ_inl hb n).trans (ih hs')

end Fuel
