import Mathlib.Data.Finset.Basic

/-!
# Descriptors

The descriptors that a program opens and closes, as a list of events. The kernel
only opens descriptors that are not open, and a program should only close those
that are: `after` keeps the books, and gives `none` as soon as one of the two
does otherwise.

* `after_append`: the books are kept piece by piece;
* `after_scope`: a scope that closes the descriptor with which it starts leaves
  the others as they were;
* `after_closed_of_not_mem`: a descriptor that is not open cannot be closed.
-/

namespace Descriptors

variable {α : Type*}

/-- A descriptor is opened, or closed. -/
inductive Event (α : Type*)
  | opened (fd : α)
  | closed (fd : α)
  deriving DecidableEq, Repr

variable [DecidableEq α]

/-- The descriptors open after the events, if none was opened that was open, or closed
    that was not. -/
def after : Finset α → List (Event α) → Option (Finset α)
  | fds, [] => some fds
  | fds, .opened fd :: es => if fd ∈ fds then none else after (insert fd fds) es
  | fds, .closed fd :: es => if fd ∈ fds then after (fds.erase fd) es else none

variable {fds : Finset α} {fd : α} {es : List (Event α)}

@[simp] theorem after_nil : after fds [] = some fds := rfl

theorem after_opened (h : fd ∉ fds) : after fds (.opened fd :: es) = after (insert fd fds) es :=
  if_neg h

theorem after_closed (h : fd ∈ fds) : after fds (.closed fd :: es) = after (fds.erase fd) es :=
  if_pos h

theorem after_closed_of_not_mem (h : fd ∉ fds) : after fds (.closed fd :: es) = none := if_neg h

theorem after_append (fds : Finset α) (es es' : List (Event α)) :
    after fds (es ++ es') = (after fds es).bind fun fds' => after fds' es' := by
  induction es generalizing fds with
  | nil => rfl
  | cons e es ih =>
    cases e with
    | opened fd =>
      by_cases h : fd ∈ fds
      · rw [List.cons_append, after, if_pos h, after, if_pos h, Option.bind_none]
      · rw [List.cons_append, after_opened h, after_opened h, ih]
    | closed fd =>
      by_cases h : fd ∈ fds
      · rw [List.cons_append, after_closed h, after_closed h, ih]
      · rw [List.cons_append, after_closed_of_not_mem h, after_closed_of_not_mem h,
          Option.bind_none]

/-- A scope closes the descriptor with which it starts, and leaves the others alone. -/
theorem after_scope (h : fd ∉ fds) (hes : after (insert fd fds) es = some (insert fd fds)) :
    after fds (.opened fd :: (es ++ [.closed fd])) = some fds := by
  rw [after_opened h, after_append, hes, Option.bind_some,
    after_closed (Finset.mem_insert_self fd fds), Finset.erase_insert h, after_nil]

end Descriptors
