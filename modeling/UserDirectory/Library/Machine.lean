import Mathlib.Data.List.Basic

/-!
# Machines

A machine takes inputs one after the other: each step gives an output and the
next state (`run`). The rules for its runs:

* `run_invariant`: an invariant of the steps holds after every run, and a
  property of the outputs of the steps holds of all outputs;
* `run_related`: two machines in lockstep, whose steps keep the states related
  and give the same outputs, give the same outputs over whole runs;
* `exists_runs`: a machine refines a specification, which is a relation of
  steps (`Runs`), if its steps keep the states related;
* `runUntil`: a run up to the first output that ends it; invariants and lockstep
  carry over (`runUntil_invariant`, `runUntil_related`), and inputs may be
  repeated if this only changes their outputs (`runUntil_repeated`);
* `run_past`: an input that is independent of others may be moved past them;
* `run_interleaved`: an interleaving of two sequences of inputs that are
  independent of each other gives every input the output that it gets when one
  sequence is run after the other, and an equivalent state.

An interleaving of two sequences is a list tagged by `Sum` (`lefts`, `rights`),
and so are the outputs of its run, which are thus told apart.
-/

namespace Machine

variable {S T I O : Type*}

/-- The outputs for a list of inputs, and the state after them. -/
def run (step : S → I → O × S) : S → List I → List O × S
  | s, [] => ([], s)
  | s, i :: is => ((step s i).1 :: (run step (step s i).2 is).1, (run step (step s i).2 is).2)

section Run

variable {step : S → I → O × S}

@[simp] theorem run_nil (s : S) : run step s [] = ([], s) := rfl

theorem run_cons (s : S) (i : I) (is : List I) : run step s (i :: is) =
    ((step s i).1 :: (run step (step s i).2 is).1, (run step (step s i).2 is).2) := rfl

theorem run_append (s : S) (is js : List I) : run step s (is ++ js) =
    ((run step s is).1 ++ (run step (run step s is).2 js).1,
      (run step (run step s is).2 js).2) := by
  induction is generalizing s with
  | nil => rfl
  | cons i is ih => rw [List.cons_append, run_cons, ih, run_cons, List.cons_append]

/-- An invariant of the steps, and a property of their outputs. -/
theorem run_invariant {P : S → Prop} {Q : O → Prop} {is : List I}
    (h : ∀ i ∈ is, ∀ s, P s → Q (step s i).1 ∧ P (step s i).2) {s : S} (hs : P s) :
    (∀ o ∈ (run step s is).1, Q o) ∧ P (run step s is).2 := by
  induction is generalizing s with
  | nil => exact ⟨fun _ ho => absurd ho List.not_mem_nil, hs⟩
  | cons i is ih =>
    obtain ⟨ho, hs'⟩ := h i List.mem_cons_self s hs
    obtain ⟨hos, hend⟩ := ih (fun j hj => h j (List.mem_cons_of_mem _ hj)) hs'
    exact ⟨List.forall_mem_cons.2 ⟨ho, hos⟩, hend⟩

end Run

/-- Two machines in lockstep. -/
theorem run_related {step₁ : S → I → O × S} {step₂ : T → I → O × T} {R : S → T → Prop} {is : List I}
    (h : ∀ i ∈ is, ∀ s t, R s t → (step₁ s i).1 = (step₂ t i).1 ∧ R (step₁ s i).2 (step₂ t i).2)
    {s : S} {t : T} (hst : R s t) :
    (run step₁ s is).1 = (run step₂ t is).1 ∧ R (run step₁ s is).2 (run step₂ t is).2 := by
  induction is generalizing s t with
  | nil => exact ⟨rfl, hst⟩
  | cons i is ih =>
    obtain ⟨ho, hst'⟩ := h i List.mem_cons_self s t hst
    obtain ⟨hos, hend⟩ := ih (fun j hj => h j (List.mem_cons_of_mem _ hj)) hst'
    refine ⟨?_, hend⟩
    rw [run_cons, run_cons, ho, hos]

/-! ## Runs that end -/

section Until

variable {stop : O → Bool} {step : S → I → O × S}

/-- The outputs up to the first one that ends the run, and the state after it. -/
def runUntil (stop : O → Bool) (step : S → I → O × S) : S → List I → List O × S
  | s, [] => ([], s)
  | s, i :: is =>
    if stop (step s i).1 then ([(step s i).1], (step s i).2)
    else ((step s i).1 :: (runUntil stop step (step s i).2 is).1,
      (runUntil stop step (step s i).2 is).2)

theorem runUntil_cons_of_stop {s : S} {i : I} (h : stop (step s i).1 = true) (is : List I) :
    runUntil stop step s (i :: is) = ([(step s i).1], (step s i).2) :=
  if_pos h

theorem runUntil_cons_of_not_stop {s : S} {i : I} (h : stop (step s i).1 = false) (is : List I) :
    runUntil stop step s (i :: is) = ((step s i).1 :: (runUntil stop step (step s i).2 is).1,
      (runUntil stop step (step s i).2 is).2) :=
  if_neg (by rw [h]; exact Bool.false_ne_true)

theorem runUntil_invariant {P : S → Prop} {is : List I} (h : ∀ i ∈ is, ∀ s, P s → P (step s i).2)
    {s : S} (hs : P s) : P (runUntil stop step s is).2 := by
  induction is generalizing s with
  | nil => exact hs
  | cons i is ih =>
    rw [List.forall_mem_cons] at h
    rw [runUntil]
    split
    · exact h.1 s hs
    · exact ih h.2 (h.1 s hs)

/-- Two machines in lockstep, until an output ends both. -/
theorem runUntil_related {J Q : Type*} {stop' : Q → Bool} {step' : T → J → Q × T}
    {R : S → T → Prop} {f : I → J} {g : Q → O} (hstop : ∀ q, stop (g q) = stop' q) {is : List I}
    (h : ∀ i ∈ is, ∀ s t, R s t →
      (step s i).1 = g (step' t (f i)).1 ∧ R (step s i).2 (step' t (f i)).2)
    {s : S} {t : T} (hst : R s t) :
    (runUntil stop step s is).1 = (runUntil stop' step' t (is.map f)).1.map g ∧
      R (runUntil stop step s is).2 (runUntil stop' step' t (is.map f)).2 := by
  induction is generalizing s t with
  | nil => exact ⟨rfl, hst⟩
  | cons i is ih =>
    obtain ⟨ho, hst'⟩ := h i List.mem_cons_self s t hst
    obtain ⟨hos, hend⟩ := ih (fun j hj => h j (List.mem_cons_of_mem _ hj)) hst'
    have hends : stop (step s i).1 = stop' (step' t (f i)).1 := by rw [ho, hstop]
    rw [List.map_cons]
    cases hstops : stop' (step' t (f i)).1 with
    | true =>
      rw [runUntil_cons_of_stop (hends.trans hstops), runUntil_cons_of_stop hstops]
      exact ⟨congrArg (fun o => [o]) ho, hst'⟩
    | false =>
      rw [runUntil_cons_of_not_stop (hends.trans hstops), runUntil_cons_of_not_stop hstops, ho,
        hos]
      exact ⟨rfl, hend⟩

/-- Inputs, each of which is repeated a number of times. -/
def repeated (xs : List (ℕ × I)) : List I := xs.flatMap fun x => List.replicate (x.1 + 1) x.2

/-- An input that is repeated, if this changes the output only. -/
theorem runUntil_replicate {i : I} {s : S} {o : O} (hstep : step (step s i).2 i = (o, (step s i).2))
    (ho : stop o = false) (n : ℕ) (is : List I) :
    runUntil stop step (step s i).2 (List.replicate n i ++ is) =
      (List.replicate n o ++ (runUntil stop step (step s i).2 is).1,
        (runUntil stop step (step s i).2 is).2) := by
  induction n with
  | zero => rfl
  | succ n ih =>
    rw [List.replicate_succ, List.cons_append, runUntil_cons_of_not_stop (by rwa [hstep]), hstep,
      ih, List.replicate_succ, List.cons_append]

/-- If repeating an input changes the output only, to `again`, then repetitions leave the states
    of a run as they are. -/
theorem runUntil_repeated {again : I → O → O}
    (hstep : ∀ s i, step (step s i).2 i = (again i (step s i).1, (step s i).2))
    (hstop : ∀ i o, stop o = false → stop (again i o) = false) (s : S) (xs : List (ℕ × I)) :
    runUntil stop step s (repeated xs) =
      ((xs.zip (runUntil stop step s (xs.map Prod.snd)).1).flatMap fun x =>
        x.2 :: if stop x.2 then [] else List.replicate x.1.1 (again x.1.2 x.2),
      (runUntil stop step s (xs.map Prod.snd)).2) := by
  induction xs generalizing s with
  | nil => rfl
  | cons x xs ih =>
    rw [repeated, List.flatMap_cons, ← repeated, List.replicate_succ, List.cons_append,
      List.map_cons]
    cases hends : stop (step s x.2).1 with
    | true =>
      rw [runUntil_cons_of_stop hends, runUntil_cons_of_stop hends, List.zip_cons_cons,
        List.flatMap_cons, hends, List.zip_nil_right]
      rfl
    | false =>
      rw [runUntil_cons_of_not_stop hends, runUntil_cons_of_not_stop hends,
        runUntil_replicate (hstep s x.2) (hstop _ _ hends), ih, List.zip_cons_cons,
        List.flatMap_cons, hends]
      rfl

end Until

/-! ## Specifications -/

/-- The runs of a specification: a relation between the state, an input, the output for it
    and the next state. -/
inductive Runs (spec : T → I → O → T → Prop) : T → List I → List O → T → Prop
  | nil (t : T) : Runs spec t [] [] t
  | cons {t t' t'' : T} {i : I} {o : O} {is : List I} {os : List O} :
    spec t i o t' → Runs spec t' is os t'' → Runs spec t (i :: is) (o :: os) t''

/-- A specification whose steps are unique has unique runs. -/
theorem Runs.unique {spec : T → I → O → T → Prop}
    (h : ∀ t i o₁ o₂ t₁ t₂, spec t i o₁ t₁ → spec t i o₂ t₂ → o₁ = o₂ ∧ t₁ = t₂)
    {t t₁ t₂ : T} {is : List I} {os₁ os₂ : List O} (h₁ : Runs spec t is os₁ t₁)
    (h₂ : Runs spec t is os₂ t₂) : os₁ = os₂ ∧ t₁ = t₂ := by
  induction h₁ generalizing os₂ with
  | nil t =>
    cases h₂
    exact ⟨rfl, rfl⟩
  | cons hstep _ ih =>
    cases h₂ with
    | cons hstep' hrest =>
      obtain ⟨rfl, rfl⟩ := h _ _ _ _ _ _ hstep hstep'
      obtain ⟨rfl, rfl⟩ := ih hrest
      exact ⟨rfl, rfl⟩

/-- A machine refines a specification if its steps do. -/
theorem exists_runs {step : S → I → O × S} {spec : T → I → O → T → Prop} {R : S → T → Prop}
    (h : ∀ s t i, R s t → ∃ t', spec t i (step s i).1 t' ∧ R (step s i).2 t') {s : S} {t : T}
    (hst : R s t) (is : List I) :
    ∃ t', Runs spec t is (run step s is).1 t' ∧ R (run step s is).2 t' := by
  induction is generalizing s t with
  | nil => exact ⟨t, .nil t, hst⟩
  | cons i is ih =>
    obtain ⟨t', hstep, hst'⟩ := h s t i hst
    obtain ⟨t'', hrun, hend⟩ := ih hst'
    exact ⟨t'', .cons hstep hrun, hend⟩

theorem runs_append_iff {spec : T → I → O → T → Prop} {t t' : T} {is js : List I} {os : List O} :
    Runs spec t (is ++ js) os t' ↔ ∃ os₁ os₂ t₁, os = os₁ ++ os₂ ∧ Runs spec t is os₁ t₁ ∧
      Runs spec t₁ js os₂ t' := by
  induction is generalizing t os with
  | nil =>
    constructor
    · exact fun h => ⟨[], os, t, rfl, .nil t, h⟩
    · rintro ⟨os₁, os₂, t₁, rfl, h₁, h₂⟩
      cases h₁
      exact h₂
  | cons i is ih =>
    constructor
    · rintro (_ | ⟨hstep, hrest⟩)
      obtain ⟨os₁, os₂, t₁, rfl, h₁, h₂⟩ := ih.1 hrest
      exact ⟨_ :: os₁, os₂, t₁, rfl, .cons hstep h₁, h₂⟩
    · rintro ⟨os₁, os₂, t₁, rfl, h₁, h₂⟩
      cases h₁ with
      | cons hstep hrest => exact .cons hstep (ih.2 ⟨_, os₂, t₁, rfl, hrest, h₂⟩)

/-- The runs of a specification are runs of another one that it refines. -/
theorem Runs.refines {spec : S → I → O → S → Prop} {spec' : T → I → O → T → Prop}
    {R : S → T → Prop}
    (h : ∀ s t i o s', R s t → spec s i o s' → ∃ t', spec' t i o t' ∧ R s' t') {s s' : S} {t : T}
    {is : List I} {os : List O} (hruns : Runs spec s is os s') (hst : R s t) :
    ∃ t', Runs spec' t is os t' ∧ R s' t' := by
  induction hruns generalizing t with
  | nil => exact ⟨t, .nil t, hst⟩
  | cons hstep _ ih =>
    obtain ⟨t₁, hstep', hst'⟩ := h _ _ _ _ _ hst hstep
    obtain ⟨t', hruns', hend⟩ := ih hst'
    exact ⟨t', .cons hstep' hruns', hend⟩

/-- Two specifications that can always go on together, from related states. -/
theorem exists_runs_related {spec : S → I → O → S → Prop} {spec' : T → I → O → T → Prop}
    {R : S → T → Prop}
    (h : ∀ s t i, R s t → ∃ o s', spec s i o s' ∧ ∃ t', spec' t i o t' ∧ R s' t') {s : S} {t : T}
    (hst : R s t) (is : List I) :
    ∃ os s', Runs spec s is os s' ∧ ∃ t', Runs spec' t is os t' ∧ R s' t' := by
  induction is generalizing s t with
  | nil => exact ⟨[], s, .nil s, t, .nil t, hst⟩
  | cons i is ih =>
    obtain ⟨o, s₁, hstep, t₁, hstep', hst₁⟩ := h s t i hst
    obtain ⟨os, s', hruns, t', hruns', hst'⟩ := ih hst₁
    exact ⟨o :: os, s', .cons hstep hruns, t', .cons hstep' hruns', hst'⟩

/-! ## Interleavings -/

/-- What is tagged with the first sequence. -/
def lefts {α β : Type*} (w : List (α ⊕ β)) : List α := w.filterMap Sum.getLeft?

/-- What is tagged with the second sequence. -/
def rights {α β : Type*} (w : List (α ⊕ β)) : List β := w.filterMap Sum.getRight?

/-- The interleaving without its tags. -/
def merged {α : Type*} (w : List (α ⊕ α)) : List α := w.map (Sum.elim id id)

theorem mem_merged_of_mem_lefts {α : Type*} {w : List (α ⊕ α)} {a : α} (h : a ∈ lefts w) :
    a ∈ merged w := by
  obtain ⟨x, hx, ha⟩ := List.mem_filterMap.1 h
  exact List.mem_map.2 ⟨x, hx, by rw [Sum.getLeft?_eq_some_iff.1 ha]; rfl⟩

theorem mem_merged_of_mem_rights {α : Type*} {w : List (α ⊕ α)} {a : α} (h : a ∈ rights w) :
    a ∈ merged w := by
  obtain ⟨x, hx, ha⟩ := List.mem_filterMap.1 h
  exact List.mem_map.2 ⟨x, hx, by rw [Sum.getRight?_eq_some_iff.1 ha]; rfl⟩

/-- The machine that tags its outputs as the inputs are. -/
def tagged (step : S → I → O × S) (s : S) : I ⊕ I → (O ⊕ O) × S
  | .inl i => (.inl (step s i).1, (step s i).2)
  | .inr i => (.inr (step s i).1, (step s i).2)

variable {step : S → I → O × S}

/-- Without the tags, it is the machine. -/
theorem run_merged (s : S) (w : List (I ⊕ I)) : run step s (merged w) =
    (merged (run (tagged step) s w).1, (run (tagged step) s w).2) := by
  induction w generalizing s with
  | nil => rfl
  | cons i w ih =>
    rw [merged, List.map_cons, run_cons, ← merged, ih]
    cases i <;> rfl

/-- The outputs carry the tags of the inputs. -/
theorem isLeft_run_tagged (s : S) (w : List (I ⊕ I)) :
    (run (tagged step) s w).1.map Sum.isLeft = w.map Sum.isLeft := by
  induction w generalizing s with
  | nil => rfl
  | cons i w ih =>
    rw [run_cons, List.map_cons, List.map_cons, ih]
    cases i <;> rfl

/-- Two inputs that may be swapped: each gets the same output before and after the other,
    and the states after both are equivalent. -/
structure Independent (step : S → I → O × S) (R : S → S → Prop) (i j : I) : Prop where
  left : ∀ s, (step (step s j).2 i).1 = (step s i).1
  right : ∀ s, (step (step s i).2 j).1 = (step s j).1
  state : ∀ s, R (step (step s j).2 i).2 (step (step s i).2 j).2

section Interleaving

variable {R : S → S → Prop}

/-- An input may be moved past others that it is independent of. -/
theorem run_past (hR : Equivalence R) {is : List I} {j : I}
    (hstep : ∀ i ∈ is, ∀ s t, R s t → (step s i).1 = (step t i).1 ∧ R (step s i).2 (step t i).2)
    (h : ∀ i ∈ is, Independent step R i j) (s : S) :
    (run step (step s j).2 is).1 = (run step s is).1 ∧
      (step (run step s is).2 j).1 = (step s j).1 ∧
      R (run step (step s j).2 is).2 (step (run step s is).2 j).2 := by
  induction is generalizing s with
  | nil => exact ⟨rfl, rfl, hR.refl _⟩
  | cons i is ih =>
    have hi := h i List.mem_cons_self
    have hstep' := fun k hk => hstep k (List.mem_cons_of_mem i hk)
    obtain ⟨hos, hj, hend⟩ := ih hstep' (fun k hk => h k (List.mem_cons_of_mem i hk)) (step s i).2
    -- The first input is swapped, and the rest follows from equivalent states.
    obtain ⟨hos', hend'⟩ := run_related hstep' (hi.state s)
    refine ⟨?_, hj.trans (hi.right s), hR.trans hend' hend⟩
    rw [run_cons, run_cons, hi.left, hos', hos]

/-- An interleaving of independent sequences gives each input the output that it gets when
    the sequences are run one after the other, and an equivalent state. -/
theorem run_interleaved (hR : Equivalence R) {w : List (I ⊕ I)}
    (hstep : ∀ i ∈ merged w, ∀ s t, R s t →
      (step s i).1 = (step t i).1 ∧ R (step s i).2 (step t i).2)
    (h : ∀ i ∈ lefts w, ∀ j ∈ rights w, Independent step R i j) (s : S) :
    (run step s (lefts w)).1 = lefts (run (tagged step) s w).1 ∧
      (run step (run step s (lefts w)).2 (rights w)).1 = rights (run (tagged step) s w).1 ∧
      R (run (tagged step) s w).2 (run step (run step s (lefts w)).2 (rights w)).2 := by
  induction w generalizing s with
  | nil => exact ⟨rfl, rfl, hR.refl s⟩
  | cons i w ih =>
    rw [merged, List.map_cons, List.forall_mem_cons, ← merged] at hstep
    cases i with
    | inl i =>
      -- Both runs start with this input.
      obtain ⟨hl, hr, hend⟩ := ih hstep.2
        (fun k hk j hj => h k (List.mem_cons_of_mem i hk) j hj) (step s i).2
      exact ⟨congrArg ((step s i).1 :: ·) hl, hr, hend⟩
    | inr j =>
      obtain ⟨hl, hr, hend⟩ := ih hstep.2
        (fun i hi k hk => h i hi k (List.mem_cons_of_mem j hk)) (step s j).2
      -- The input is moved past those of the first sequence.
      obtain ⟨hl', hj, hpast⟩ := run_past hR
        (fun i hi => hstep.2 i (mem_merged_of_mem_lefts hi))
        (fun i hi => h i hi j List.mem_cons_self) s
      obtain ⟨hr', hend'⟩ := run_related
        (fun i hi => hstep.2 i (mem_merged_of_mem_rights hi)) hpast
      exact ⟨hl'.symm.trans hl, congrArg₂ List.cons hj (hr'.symm.trans hr), hR.trans hend hend'⟩

end Interleaving

end Machine
