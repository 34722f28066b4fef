import Mathlib.Data.List.Nodup
import Mathlib.Logic.Function.Basic
import UserDirectory.Library.Machine

/-!
# Durable directories

What a directory of accounts is for, without its representation: a name is
registered once, with a secret, and whoever knows the secret may replace the
content of the account, ask for that of another one, or for all names, and have
the directory saved (`answer`, `Durable.step`). A restart, at any time, leaves
the accounts that were saved last.

* `Durable.run_grows`: the accounts saved only grow, and those at hand extend
  them, over any run; so an account that was saved keeps its name, its secret
  and its place (`Accounts.Extends`).
* `Durable.run_keeps`: it keeps its content too, unless its owner replaces it;
* `Durable.life_grows`, `Durable.life_keeps`: so it is over a life, which ends
  when the directory is stopped.
-/

namespace Directory

open Function Machine

variable {N P C : Type*}

/-- Accounts, each with a secret and a content, in the order in which they were opened. -/
@[ext] structure Accounts (N P C : Type*) where
  names : List N
  account : N → Option (P × C)
  nodup : names.Nodup
  mem_names : ∀ n, n ∈ names ↔ account n ≠ none

/-- What is asked of a directory; a request may also be unknown, or unreadable. -/
inductive Op (N P C : Type*)
  | register (n : N) (p : P)
  | post (n : N) (p : P) (c : C)
  | fetch (n : N) (p : P) (who : N)
  | list (n : N) (p : P)
  | save (n : N) (p : P)
  | stop (n : N) (p : P)
  | unreadable
  | unknown

/-- What a directory answers. -/
inductive Answer (N C : Type*)
  | done
  | stopped
  | malformed
  | taken
  | denied
  | noAccount
  | noContent
  | failed
  | content (c : C)
  | names (l : List N)
  | unreadable
  | ignored

/-- The answer after which a directory stops. -/
def Answer.stops : Answer N C → Bool
  | .stopped => true
  | _ => false

/-- What a directory admits: credentials, names that are asked for, and contents. An account
    starts with the content `blank`. -/
structure Limits (N P C : Type*) where
  credentials : N → P → Prop
  name : N → Prop
  content : C → Prop
  blank : C

namespace Accounts

/-- No accounts. -/
def empty : Accounts N P C := ⟨[], fun _ => none, List.nodup_nil, fun _ => by simp⟩

/-- The secret is that of the account. -/
def Grants (d : Accounts N P C) (n : N) (p : P) : Prop := ∃ c, d.account n = some (p, c)

section

variable [DecidableEq N]

/-- A new account. -/
def register (d : Accounts N P C) (n : N) (p : P) (c : C) (h : d.account n = none) :
    Accounts N P C where
  names := d.names ++ [n]
  account := update d.account n (some (p, c))
  nodup := by
    rw [List.nodup_append_comm]
    exact List.nodup_cons.2 ⟨fun hmem => (d.mem_names n).1 hmem h, d.nodup⟩
  mem_names m := by
    rw [List.mem_append, List.mem_singleton, d.mem_names]
    by_cases hm : m = n
    · subst hm
      simp
    · simp [hm]

/-- The content of an account replaced. -/
def post (d : Accounts N P C) (n : N) (c : C) : Accounts N P C where
  names := d.names
  account := update d.account n ((d.account n).map fun a => (a.1, c))
  nodup := d.nodup
  mem_names m := by
    rw [d.mem_names]
    by_cases hm : m = n
    · subst hm
      simp
    · simp [hm]

theorem account_register (d : Accounts N P C) (n : N) (p : P) (c : C) (h : d.account n = none) :
    (d.register n p c h).account = update d.account n (some (p, c)) := rfl

theorem account_post (d : Accounts N P C) (n : N) (c : C) :
    (d.post n c).account = update d.account n ((d.account n).map fun a => (a.1, c)) := rfl

end

/-- The accounts of `d` come first in `e`, with the same secrets. -/
structure Extends (d e : Accounts N P C) : Prop where
  names : d.names <+: e.names
  grants : ∀ n p, d.Grants n p → e.Grants n p

namespace Extends

variable {d e f : Accounts N P C}

@[refl] theorem refl (d : Accounts N P C) : Extends d d := ⟨List.prefix_rfl, fun _ _ h => h⟩

theorem trans (h : Extends d e) (h' : Extends e f) : Extends d f :=
  ⟨h.names.trans h'.names, fun n p hp => h'.grants n p (h.grants n p hp)⟩

variable [DecidableEq N]

theorem register (d : Accounts N P C) {n : N} (p : P) (c : C) (h : d.account n = none) :
    Extends d (d.register n p c h) where
  names := List.prefix_append _ _
  grants m q := by
    rintro ⟨c', hm⟩
    have hne : m ≠ n := by
      rintro rfl
      rw [h] at hm
      cases hm
    exact ⟨c', by rw [account_register, update_of_ne hne, hm]⟩

theorem post (d : Accounts N P C) (n : N) (c : C) : Extends d (d.post n c) where
  names := List.prefix_rfl
  grants m q := by
    rintro ⟨c', hm⟩
    rcases eq_or_ne m n with rfl | hne
    · exact ⟨c, by rw [account_post, update_self, hm]; rfl⟩
    · exact ⟨c', by rw [account_post, update_of_ne hne, hm]⟩

end Extends

end Accounts

open Classical in
/-- The answer to a request; `ok` tells whether the accounts can be stored. -/
noncomputable def answer (L : Limits N P C) (d : Accounts N P C) (ok : Bool) :
    Op N P C → Answer N C
  | .register n p =>
    if ¬L.credentials n p then .malformed else if d.account n ≠ none then .taken else .done
  | .post n p c =>
    if ¬(L.credentials n p ∧ L.content c) then .malformed
    else if d.Grants n p then .done else .denied
  | .fetch n p who =>
    if ¬(L.credentials n p ∧ L.name who) then .malformed
    else if ¬d.Grants n p then .denied
    else match d.account who with
      | none => .noAccount
      | some (_, c) => if c = L.blank then .noContent else .content c
  | .list n p =>
    if ¬L.credentials n p then .malformed else if d.Grants n p then .names d.names else .denied
  | .save n p =>
    if ¬L.credentials n p then .malformed
    else if d.Grants n p then (if ok then .done else .failed) else .denied
  | .stop n p =>
    if ¬L.credentials n p then .malformed else if d.Grants n p then .stopped else .denied
  | .unreadable => .unreadable
  | .unknown => .ignored

/-- A directory with the accounts at hand, and those saved. -/
@[ext] structure Durable (N P C : Type*) where
  live : Accounts N P C
  saved : Accounts N P C

/-- What may happen to a directory: a request, with whether the accounts can be stored, or a
    restart. -/
inductive Event (N P C : Type*)
  | request (ok : Bool) (op : Op N P C)
  | restart

namespace Durable

variable [DecidableEq N]

open Classical in
/-- The directory after a request. -/
noncomputable def next (L : Limits N P C) (s : Durable N P C) (ok : Bool) : Op N P C → Durable N P C
  | .register n p =>
    if h : L.credentials n p ∧ s.live.account n = none then
      { s with live := s.live.register n p L.blank h.2 }
    else s
  | .post n p c =>
    if (L.credentials n p ∧ L.content c) ∧ s.live.Grants n p then
      { s with live := s.live.post n c }
    else s
  | .save n p =>
    if L.credentials n p ∧ s.live.Grants n p ∧ ok = true then { s with saved := s.live } else s
  | _ => s

/-- The answer to a request, and the directory after what happens. -/
noncomputable def step (L : Limits N P C) (s : Durable N P C) :
    Event N P C → Option (Answer N C) × Durable N P C
  | .request ok op => (some (answer L s.live ok op), s.next L ok op)
  | .restart => (none, { s with live := s.saved })

/-- The answer to a request, with whether the accounts can be stored, and the directory after
    it. -/
noncomputable def request (L : Limits N P C) (s : Durable N P C) (r : Bool × Op N P C) :
    Answer N C × Durable N P C :=
  (answer L s.live r.1 r.2, s.next L r.1 r.2)

/-- A life of a directory: a restart, and then requests, up to one that stops it. -/
noncomputable def life (L : Limits N P C) (s : Durable N P C) (rs : List (Bool × Op N P C)) :
    List (Answer N C) × Durable N P C :=
  runUntil Answer.stops (request L) { s with live := s.saved } rs

variable {L : Limits N P C} {s : Durable N P C}

/-- The accounts at hand extend those saved. -/
def Sound (s : Durable N P C) : Prop := s.saved.Extends s.live

/-- A request only adds accounts. -/
theorem live_extends_next (s : Durable N P C) (ok : Bool) (op : Op N P C) :
    s.live.Extends (s.next L ok op).live := by
  cases op with
  | register n p =>
    rw [next]
    split
    · next h => exact .register _ _ _ h.2
    · exact .refl _
  | post n p c =>
    rw [next]
    split
    · exact .post _ _ _
    · exact .refl _
  | save n p =>
    rw [next]
    split <;> exact .refl _
  | _ => exact .refl _

/-- The accounts saved by a request are those at hand, or those saved before. -/
theorem next_saved (s : Durable N P C) (ok : Bool) (op : Op N P C) :
    (s.next L ok op).saved = s.saved ∨
      (s.next L ok op).saved = s.live ∧ (s.next L ok op).live = s.live := by
  cases op with
  | save n p =>
    rw [next]
    split
    · exact .inr ⟨rfl, rfl⟩
    · exact .inl rfl
  | register n p =>
    rw [next]
    split <;> exact .inl rfl
  | post n p c =>
    rw [next]
    split <;> exact .inl rfl
  | _ => exact .inl rfl

/-- A save that is done leaves the accounts at hand saved. -/
theorem next_save_of_done {n : N} {p : P} {ok : Bool}
    (h : answer L s.live ok (.save n p) = .done) : s.next L ok (.save n p) = ⟨s.live, s.live⟩ := by
  rw [answer] at h
  split_ifs at h with hcredentials hgrants hok
  exact if_pos ⟨hcredentials, hgrants, hok⟩

/-- Whatever happens, the accounts saved only grow. -/
theorem step_grows (h : s.Sound) (e : Event N P C) :
    s.saved.Extends (s.step L e).2.saved ∧ (s.step L e).2.Sound := by
  cases e with
  | request ok op =>
    rcases next_saved (L := L) s ok op with heq | ⟨heq, hlive⟩
    · refine ⟨?_, ?_⟩
      · show s.saved.Extends (s.next L ok op).saved
        rw [heq]
      · show (s.next L ok op).saved.Extends (s.next L ok op).live
        rw [heq]
        exact h.trans (live_extends_next s ok op)
    · refine ⟨?_, ?_⟩
      · show s.saved.Extends (s.next L ok op).saved
        rw [heq]
        exact h
      · show (s.next L ok op).saved.Extends (s.next L ok op).live
        rw [heq, hlive]
  | restart => exact ⟨.refl _, .refl _⟩

/-- Over any run, the accounts saved only grow, and those at hand extend them. -/
theorem run_grows (h : s.Sound) (es : List (Event N P C)) :
    s.saved.Extends (run (step L) s es).2.saved ∧ (run (step L) s es).2.Sound :=
  (run_invariant (Q := fun _ => True) (P := fun t : Durable N P C =>
    s.saved.Extends t.saved ∧ t.Sound)
    (fun e _ _ ht => ⟨trivial, ht.1.trans (step_grows ht.2 e).1, (step_grows ht.2 e).2⟩)
    ⟨.refl _, h⟩).2

/-- Over a life, the accounts saved only grow. -/
theorem life_grows (s : Durable N P C) (rs : List (Bool × Op N P C)) :
    s.saved.Extends (s.life L rs).2.saved := by
  have hstep : ∀ r ∈ rs, ∀ t : Durable N P C, s.saved.Extends t.saved ∧ t.Sound →
      s.saved.Extends (request L t r).2.saved ∧ (request L t r).2.Sound := by
    rintro r - t ⟨hext, hsound⟩
    obtain ⟨hext', hsound'⟩ := step_grows (L := L) hsound (.request r.1 r.2)
    exact ⟨hext.trans hext', hsound'⟩
  have hstart : s.saved.Extends s.saved ∧ ({ s with live := s.saved } : Durable N P C).Sound :=
    ⟨.refl _, .refl s.saved⟩
  exact (runUntil_invariant hstep hstart).1

/-- The account is at hand and saved. -/
def Keeps (s : Durable N P C) (n : N) (a : P × C) : Prop :=
  s.live.account n = some a ∧ s.saved.account n = some a

/-- Whatever happens, an account saved keeps its content unless its owner replaces it. -/
theorem step_keeps {n : N} {a : P × C} (h : s.Keeps n a) {e : Event N P C}
    (he : ∀ ok p c, e ≠ .request ok (.post n p c)) : (s.step L e).2.Keeps n a := by
  obtain ⟨hlive, hsaved⟩ := h
  cases e with
  | restart => exact ⟨hsaved, hsaved⟩
  | request ok op =>
    show (s.next L ok op).Keeps n a
    cases op with
    | register m p =>
      rw [next]
      split
      · next hnew =>
        have hne : n ≠ m := by
          rintro rfl
          rw [hlive] at hnew
          cases hnew.2
        exact ⟨(update_of_ne hne _ _).trans hlive, hsaved⟩
      · exact ⟨hlive, hsaved⟩
    | post m p c =>
      have hne : n ≠ m := by
        rintro rfl
        exact he ok p c rfl
      rw [next]
      split
      · exact ⟨(update_of_ne hne _ _).trans hlive, hsaved⟩
      · exact ⟨hlive, hsaved⟩
    | save m p =>
      rw [next]
      split
      · exact ⟨hlive, hlive⟩
      · exact ⟨hlive, hsaved⟩
    | _ => exact ⟨hlive, hsaved⟩

/-- Over a run in which its owner does not replace it, an account saved keeps its content. -/
theorem run_keeps {n : N} {a : P × C} (h : s.Keeps n a) {es : List (Event N P C)}
    (hes : ∀ e ∈ es, ∀ ok p c, e ≠ .request ok (.post n p c)) :
    (run (step L) s es).2.Keeps n a :=
  (run_invariant (Q := fun _ => True) (P := fun t : Durable N P C => t.Keeps n a)
    (fun e he _ ht => ⟨trivial, step_keeps ht (hes e he)⟩) h).2

/-- Over a life in which its owner does not replace it, an account saved keeps its content. -/
theorem life_keeps {n : N} {a : P × C} (h : s.saved.account n = some a)
    {rs : List (Bool × Op N P C)} (hrs : ∀ r ∈ rs, ∀ p c, r.2 ≠ .post n p c) :
    (s.life L rs).2.saved.account n = some a := by
  have hstep : ∀ r ∈ rs, ∀ t : Durable N P C, t.Keeps n a → (request L t r).2.Keeps n a := by
    intro r hr t ht
    refine step_keeps (L := L) ht (e := .request r.1 r.2) fun ok p c heq => ?_
    exact hrs r hr p c (Event.request.inj heq).2
  have hstart : ({ s with live := s.saved } : Durable N P C).Keeps n a := ⟨h, h⟩
  exact (runUntil_invariant hstep hstart).2

end Durable

end Directory
