import Mathlib.Data.List.Basic

/-!
# Command lines

`getopt`, as it permutes the arguments of a program: operands may stand between
the options, and `--` ends these. What it returns, call after call, is a list of
`Item`s: an option with its argument, if it takes one, or an error (`bad`).

A command line is made of *words* (`Word`): a flag, an option with its argument
in the same element or in the next one, or an operand.

* `getopt_render`: of a command line made of words, the options are returned in
  their order, whatever stands in their arguments;
* `exists_render`: if only options with arguments are returned, then the command
  line is made of such words and operands, up to its end or to `--`.

A program that takes its settings from the options, one after the other, and
gives up on an error or a flag, takes them from such a command line
(`foldlM_getopt_iff`), and ends with the last argument of each option
(`field_of_foldlM`).
-/

namespace Getopt

/-- What a call of `getopt` returns: an option with its argument, or an error. -/
inductive Item
  | option (c : UInt8) (optarg : Option (List UInt8))
  | bad
  deriving DecidableEq, Repr

/-- The character `-`. -/
def dash : UInt8 := 45

/-- The character `:`, which follows the options with an argument. -/
def colon : UInt8 := 58

/-- Whether a character stands for an option, and then whether it takes an argument. -/
def table (optstring : List UInt8) (c : UInt8) : Option Bool :=
  if c = colon then none
  else match optstring.dropWhile (· ≠ c) with
    | [] => none
    | _ :: rest => some (rest.head? = some colon)

/-- The options in one element, after its dash: with the last one, if its argument is the
    next element. -/
def cluster (table : UInt8 → Option Bool) : List UInt8 → List Item × Option UInt8
  | [] => ([], none)
  | c :: cs =>
    match table c with
    | none => (.bad :: (cluster table cs).1, (cluster table cs).2)
    | some false => (.option c none :: (cluster table cs).1, (cluster table cs).2)
    | some true => if cs = [] then ([], some c) else ([.option c (some cs)], none)

/-- What the calls of `getopt` return, if `pending` is an option that waits for its
    argument. -/
def getopt (table : UInt8 → Option Bool) : Option UInt8 → List (List UInt8) → List Item
  | none, [] => []
  | some _, [] => [.bad]
  | some c, arg :: args => .option c (some arg) :: getopt table none args
  | none, arg :: args =>
    if arg = [dash, dash] then []
    else match arg with
      | d :: c :: cs =>
        if d = dash then
          (cluster table (c :: cs)).1 ++ getopt table (cluster table (c :: cs)).2 args
        else getopt table none args
      -- An operand, or a single dash.
      | _ => getopt table none args

/-- The words of a command line. -/
inductive Word
  | flag (c : UInt8)
  | joined (c : UInt8) (optarg : List UInt8)
  | separate (c : UInt8) (optarg : List UInt8)
  | operand (arg : List UInt8)
  deriving DecidableEq, Repr

namespace Word

/-- The elements of a word. -/
def render : Word → List (List UInt8)
  | flag c => [[dash, c]]
  | joined c optarg => [dash :: c :: optarg]
  | separate c optarg => [[dash, c], optarg]
  | operand arg => [arg]

/-- What `getopt` returns for a word. -/
def item : Word → Option Item
  | flag c => some (.option c none)
  | joined c optarg => some (.option c (some optarg))
  | separate c optarg => some (.option c (some optarg))
  | operand _ => none

/-- The word is well-formed. -/
def Valid (table : UInt8 → Option Bool) : Word → Prop
  | flag c => table c = some false ∧ c ≠ dash
  | joined c optarg => table c = some true ∧ optarg ≠ []
  | separate c _ => table c = some true ∧ c ≠ dash
  | operand arg => arg.head? ≠ some dash ∨ arg = [dash]

/-- The word is an option with an argument, or an operand. -/
def NotFlag : Word → Prop
  | flag _ => False
  | _ => True

end Word

variable {table : UInt8 → Option Bool} {c : UInt8} {args : List (List UInt8)}

theorem cluster_flag (h : table c = some false) (cs : List UInt8) : cluster table (c :: cs) =
    (.option c none :: (cluster table cs).1, (cluster table cs).2) := by
  rw [cluster, h]

theorem cluster_bad (h : table c = none) (cs : List UInt8) : cluster table (c :: cs) =
    (.bad :: (cluster table cs).1, (cluster table cs).2) := by
  rw [cluster, h]

theorem cluster_pending (h : table c = some true) : cluster table [c] = ([], some c) := by
  rw [cluster, h]
  rfl

theorem cluster_joined (h : table c = some true) {cs : List UInt8} (hcs : cs ≠ []) :
    cluster table (c :: cs) = ([.option c (some cs)], none) := by
  rw [cluster, h]
  exact if_neg hcs

/-- An element with options. -/
theorem getopt_cluster {cs : List UInt8} (h : c :: cs ≠ [dash]) (args : List (List UInt8)) :
    getopt table none ((dash :: c :: cs) :: args) =
      (cluster table (c :: cs)).1 ++ getopt table (cluster table (c :: cs)).2 args := by
  have hend : ¬(dash :: c :: cs) = [dash, dash] := fun heq => h (List.cons.inj heq).2
  rw [getopt, if_neg hend, if_pos rfl]

theorem getopt_operand {arg : List UInt8} (h : arg.head? ≠ some dash ∨ arg = [dash])
    (args : List (List UInt8)) : getopt table none (arg :: args) = getopt table none args := by
  have hend : ¬arg = [dash, dash] := by
    rintro rfl
    rcases h with h | h
    · exact h rfl
    · cases h
  rcases arg with _ | ⟨d, _ | ⟨c, cs⟩⟩
  · exact if_neg hend
  · exact if_neg hend
  · have hd : d ≠ dash := by
      rintro rfl
      rcases h with h | h
      · exact h rfl
      · cases h
    exact (if_neg hend).trans (if_neg hd)

/-- An element ends the options, is an operand, or has options. -/
theorem element_cases (arg : List UInt8) : arg = [dash, dash] ∨
    (arg.head? ≠ some dash ∨ arg = [dash]) ∨ ∃ c cs, arg = dash :: c :: cs ∧ c :: cs ≠ [dash] := by
  rcases arg with _ | ⟨d, _ | ⟨c, cs⟩⟩
  · exact .inr (.inl (.inl (Option.some_ne_none dash).symm))
  · by_cases hd : d = dash
    · exact .inr (.inl (.inr (congrArg (fun d => [d]) hd)))
    · exact .inr (.inl (.inl fun h => hd (Option.some.inj h)))
  · by_cases hd : d = dash
    · subst hd
      by_cases hend : c :: cs = [dash]
      · exact .inl (congrArg (dash :: ·) hend)
      · exact .inr (.inr ⟨c, cs, rfl, hend⟩)
    · exact .inr (.inl (.inl fun h => hd (Option.some.inj h)))

theorem getopt_end (args : List (List UInt8)) :
    getopt table none ([dash, dash] :: args) = [] := if_pos rfl

theorem getopt_word {w : Word} (hw : w.Valid table) (args : List (List UInt8)) :
    getopt table none (w.render ++ args) = w.item.toList ++ getopt table none args := by
  cases w with
  | flag c =>
    have hc : [c] ≠ [dash] := fun h => hw.2 (List.cons.inj h).1
    rw [Word.render, List.singleton_append, getopt_cluster hc, cluster_flag hw.1]
    rfl
  | joined c optarg =>
    have hc : c :: optarg ≠ [dash] := fun h => hw.2 (List.cons.inj h).2
    rw [Word.render, List.singleton_append, getopt_cluster hc, cluster_joined hw.1 hw.2]
    rfl
  | separate c optarg =>
    have hc : [c] ≠ [dash] := fun h => hw.2 (List.cons.inj h).1
    show getopt table none ([dash, c] :: optarg :: args) = _
    rw [getopt_cluster hc, cluster_pending hw.1]
    rfl
  | operand arg => exact getopt_operand hw args

/-- The options of a command line made of words. -/
theorem getopt_render {ws : List Word} (hws : ∀ w ∈ ws, w.Valid table)
    (args : List (List UInt8)) : getopt table none (ws.flatMap Word.render ++ args) =
      ws.filterMap Word.item ++ getopt table none args := by
  induction ws with
  | nil => rfl
  | cons w ws ih =>
    rw [List.forall_mem_cons] at hws
    rw [List.flatMap_cons, List.append_assoc, getopt_word hws.1, ih hws.2]
    cases hitem : w.item with
    | none => rw [List.filterMap_cons_none hitem]; rfl
    | some i => rw [List.filterMap_cons_some hitem]; rfl

/-- The item is an option with an argument. -/
def Item.HasArg : Item → Prop
  | option _ optarg => optarg.isSome
  | bad => False

/-- An element whose options have arguments: there is one, and its argument follows in the
    element or is the next one. -/
theorem cluster_hasArg {cs : List UInt8} (h : ∀ i ∈ (cluster table (c :: cs)).1, i.HasArg) :
    table c = some true := by
  cases htable : table c with
  | none =>
    rw [cluster_bad htable, List.forall_mem_cons] at h
    exact h.1.elim
  | some b =>
    cases b with
    | true => rfl
    | false =>
      rw [cluster_flag htable, List.forall_mem_cons] at h
      cases h.1

/-- A command line whose options all have arguments is made of words, up to its end or to
    `--`. -/
theorem exists_render (hdash : table dash = none) {args : List (List UInt8)}
    (h : ∀ i ∈ getopt table none args, i.HasArg) :
    ∃ (ws : List Word) (rest : List (List UInt8)), args = ws.flatMap Word.render ++ rest ∧
      (rest = [] ∨ rest.head? = some [dash, dash]) ∧ ∀ w ∈ ws, w.Valid table ∧ w.NotFlag := by
  -- By induction on the number of elements, since a word may have two.
  induction hn : args.length using Nat.strongRecOn generalizing args with
  | _ n ih =>
    rcases args with _ | ⟨arg, args⟩
    · exact ⟨[], [], rfl, .inl rfl, fun _ hw => absurd hw List.not_mem_nil⟩
    have hcons : ∀ {w : Word} {args' : List (List UInt8)}, arg :: args = w.render ++ args' →
        args'.length < n → w.Valid table → w.NotFlag →
        (∀ i ∈ getopt table none args', i.HasArg) →
        ∃ (ws : List Word) (rest : List (List UInt8)),
          arg :: args = ws.flatMap Word.render ++ rest ∧
          (rest = [] ∨ rest.head? = some [dash, dash]) ∧ ∀ w ∈ ws, w.Valid table ∧ w.NotFlag := by
      intro w args' heq hlt hvalid hflag h'
      obtain ⟨ws, rest, rfl, hrest, hws⟩ := ih _ hlt h' rfl
      refine ⟨w :: ws, rest, ?_, hrest, List.forall_mem_cons.2 ⟨⟨hvalid, hflag⟩, hws⟩⟩
      rw [List.flatMap_cons, List.append_assoc, heq]
    have hlen : args.length < n := by
      rw [← hn]
      exact Nat.lt_succ_self _
    rcases element_cases arg with rfl | hoperand | ⟨c, cs, rfl, hne⟩
    · exact ⟨[], _ :: args, rfl, .inr rfl, fun _ hw => absurd hw List.not_mem_nil⟩
    · rw [getopt_operand hoperand] at h
      exact hcons (w := .operand arg) rfl hlen hoperand trivial h
    · rw [getopt_cluster hne] at h
      have htable : table c = some true :=
        cluster_hasArg fun i hi => h i (List.mem_append_left _ hi)
      have hc : c ≠ dash := by
        rintro rfl
        exact Option.some_ne_none _ (htable.symm.trans hdash)
      by_cases hcs : cs = []
      · -- The argument is the next element, which must be there.
        subst hcs
        rw [cluster_pending htable] at h
        rcases args with _ | ⟨optarg, args⟩
        · exact (h .bad (List.mem_singleton.2 rfl)).elim
        · refine hcons (w := .separate c optarg) rfl ?_ ⟨htable, hc⟩ trivial fun i hi =>
            h i (List.mem_cons_of_mem _ hi)
          exact Nat.lt_of_succ_lt hlen
      · rw [cluster_joined htable hcs] at h
        exact hcons (w := .joined c cs) rfl hlen ⟨htable, hcs⟩ trivial fun i hi =>
          h i (List.mem_cons_of_mem _ hi)

/-! ## Settings -/

/-- The argument of the option `c`, if the item is one. -/
def Item.argOf (c : UInt8) : Item → Option (List UInt8)
  | option c' optarg => if c' = c then optarg else none
  | bad => none

/-- The last argument given to an option. -/
def lastArg (c : UInt8) (items : List Item) : Option (List UInt8) :=
  (items.filterMap (Item.argOf c)).getLast?

variable {σ β : Type*}

/-- A program that takes its settings from the options one after the other: a field that is
    set by one option only ends with the last argument of it, or as it was. -/
theorem field_of_foldlM {set : σ → Item → Option σ} {f : σ → β} {g : List UInt8 → β}
    (h : ∀ a i a', set a i = some a' → f a' = ((i.argOf c).map g).getD (f a))
    {items : List Item} {a a' : σ} (hfold : items.foldlM set a = some a') :
    f a' = ((lastArg c items).map g).getD (f a) := by
  induction items generalizing a with
  | nil =>
    cases hfold
    rfl
  | cons i items ih =>
    rw [List.foldlM_cons] at hfold
    obtain ⟨a₁, hset, hrest⟩ := Option.bind_eq_some_iff.1 hfold
    rw [ih hrest, h a i a₁ hset, lastArg, lastArg, List.filterMap_cons]
    cases i.argOf c with
    | none => rfl
    | some v =>
      rw [List.getLast?_cons]
      cases (items.filterMap (Item.argOf c)).getLast? <;> rfl

/-- A fold of a function that is defined on all the items. -/
theorem exists_foldlM {set : σ → Item → Option σ} {items : List Item}
    (h : ∀ i ∈ items, ∀ a, ∃ a', set a i = some a') (a : σ) :
    ∃ a', items.foldlM set a = some a' := by
  induction items generalizing a with
  | nil => exact ⟨a, rfl⟩
  | cons i items ih =>
    rw [List.forall_mem_cons] at h
    obtain ⟨a₁, ha₁⟩ := h.1 a
    obtain ⟨a', ha'⟩ := ih h.2 a₁
    refine ⟨a', ?_⟩
    rw [List.foldlM_cons, ha₁]
    exact ha'

theorem forall_of_foldlM {set : σ → Item → Option σ} {P : Item → Prop}
    (h : ∀ a i a', set a i = some a' → P i) {items : List Item} {a a' : σ}
    (hfold : items.foldlM set a = some a') : ∀ i ∈ items, P i := by
  induction items generalizing a with
  | nil => exact fun _ hi => absurd hi List.not_mem_nil
  | cons i items ih =>
    rw [List.foldlM_cons] at hfold
    obtain ⟨a₁, hset, hrest⟩ := Option.bind_eq_some_iff.1 hfold
    exact List.forall_mem_cons.2 ⟨h a i a₁ hset, ih hrest⟩

/-- The command line is made of the words, up to its end or to `--`. -/
structure MadeOf (table : UInt8 → Option Bool) (args : List (List UInt8)) (ws : List Word) :
    Prop where
  render : ∃ rest, args = ws.flatMap Word.render ++ rest ∧
    (rest = [] ∨ rest.head? = some [dash, dash])
  valid : ∀ w ∈ ws, w.Valid table ∧ w.NotFlag

theorem MadeOf.getopt_eq {ws : List Word} (h : MadeOf table args ws) :
    getopt table none args = ws.filterMap Word.item := by
  obtain ⟨⟨rest, rfl, hrest⟩, hws⟩ := h
  have hnil : getopt table none rest = [] := by
    rcases hrest with rfl | hrest
    · rfl
    · rcases rest with _ | ⟨arg, rest⟩
      · cases hrest
      · obtain rfl : arg = [dash, dash] := Option.some.inj hrest
        exact getopt_end rest
  rw [getopt_render fun w hw => (hws w hw).1, hnil, List.append_nil]

/-- The settings of a program that takes those options that have an argument: they are those
    of the words of its command line. -/
theorem foldlM_getopt_iff {set : σ → Item → Option σ} (hdash : table dash = none)
    (hset : ∀ a i a', set a i = some a' → i.HasArg) {a a' : σ} :
    (getopt table none args).foldlM set a = some a' ↔
      ∃ ws, MadeOf table args ws ∧ (ws.filterMap Word.item).foldlM set a = some a' := by
  constructor
  · intro h
    obtain ⟨ws, rest, hargs, hrest, hws⟩ := exists_render hdash (forall_of_foldlM hset h)
    have hmade : MadeOf table args ws := ⟨⟨rest, hargs, hrest⟩, hws⟩
    exact ⟨ws, hmade, hmade.getopt_eq ▸ h⟩
  · rintro ⟨ws, hmade, h⟩
    rwa [hmade.getopt_eq]

/-- The options of the words of a command line have arguments. -/
theorem MadeOf.forall_item {ws : List Word} (h : MadeOf table args ws) {P : Item → Prop}
    (hP : ∀ c optarg, table c = some true → P (.option c (some optarg))) :
    ∀ i ∈ ws.filterMap Word.item, P i := by
  intro i hi
  obtain ⟨w, hw, hitem⟩ := List.mem_filterMap.1 hi
  obtain ⟨hvalid, hflag⟩ := h.valid w hw
  cases w with
  | flag => exact hflag.elim
  | joined c optarg =>
    cases hitem
    exact hP c optarg hvalid.1
  | separate c optarg =>
    cases hitem
    exact hP c optarg hvalid.1
  | operand => cases hitem

end Getopt
