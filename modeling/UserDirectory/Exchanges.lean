import UserDirectory.Library.Machine
import UserDirectory.Requests

/-!
# Exchanges

Runs of the server over requests that are dispatched one after the other, each
on a connection of its own (`Dispatches`). What comes of a request is its
`Outcome`: whether the server should halt, and the connection with all that was
sent on it.

Such a run is that of a machine (`dispatches_run`), and no other
(`Dispatches.eq_run`). What the machine does with a request is told by the reply
of the service.
-/

namespace UserDirectory

open Fuel Socket CInt Stdio

/-- A request to be dispatched: what fails if it saves the table, and its connection. -/
structure Exchange where
  faults : WriteFaults
  request : Request
  conn : Conn

/-- What comes of a request: whether the server should halt, and its connection afterwards. -/
structure Outcome where
  stop : Bool
  conn : Conn

/-- The dispatch of requests, one after the other. -/
inductive Dispatches : Server → List Exchange → List Outcome → Server → Prop
  | nil {sv : Server} : Dispatches sv [] [] sv
  | cons {sv sv' sv'' : Server} {x : Exchange} {xs : List Exchange} {stop : Bool} {conn : Conn}
    {os : List Outcome} :
    Returns (fun n => dispatch n x.faults x.request ⟨x.conn, sv⟩) (stop, ⟨conn, sv'⟩) →
    Dispatches sv' xs os sv'' → Dispatches sv (x :: xs) (⟨stop, conn⟩ :: os) sv''

/-- What comes of a reply on a connection. -/
noncomputable def Reply.outcome (ρ : Reply) (c : Conn) : Outcome :=
  match ρ.response with
  | none => ⟨ρ.stop, c⟩
  | some bytes => ⟨ρ.stop, (reliableSend_returns c bytes).choose_spec.choose⟩

@[simp] theorem Reply.outcome_stop (ρ : Reply) (c : Conn) : (ρ.outcome c).stop = ρ.stop := by
  rw [outcome]
  cases ρ.response <;> rfl

/-- The server as a machine, with exchanges as its inputs. -/
noncomputable def exchange (sv : Server) (x : Exchange) : Outcome × Server :=
  ((sv.serve x.faults x.request).1.outcome x.conn, (sv.serve x.faults x.request).2)

/-- The handlers do what the machine does. -/
theorem dispatch_exchange (sv : Server) (x : Exchange) :
    Returns (fun n => dispatch n x.faults x.request ⟨x.conn, sv⟩)
      ((exchange sv x).1.stop, ⟨(exchange sv x).1.conn, (exchange sv x).2⟩) := by
  simp only [dispatch_eq, exchange, Reply.outcome]
  cases (sv.serve x.faults x.request).1.response with
  | none => exact returns_of_forall fun _ => rfl
  | some bytes =>
    have hsend := (reliableSend_returns x.conn bytes).choose_spec.choose_spec.1
    exact respond_of_send (s := ⟨x.conn, (sv.serve x.faults x.request).2⟩) hsend _

/-- Exchanges are dispatched as the machine runs. -/
theorem dispatches_run (sv : Server) (xs : List Exchange) :
    Dispatches sv xs (Machine.run exchange sv xs).1 (Machine.run exchange sv xs).2 := by
  induction xs generalizing sv with
  | nil => exact .nil
  | cons x xs ih => exact .cons (dispatch_exchange sv x) (ih (exchange sv x).2)

/-- There is one way to dispatch exchanges. -/
theorem Dispatches.eq_run {sv sv' : Server} {xs : List Exchange} {os : List Outcome}
    (h : Dispatches sv xs os sv') : Machine.run exchange sv xs = (os, sv') := by
  induction h with
  | nil => rfl
  | @cons sv sv' sv'' x xs stop conn os hx _ ih =>
    obtain ⟨rfl, hs⟩ := Prod.mk.inj (hx.unique (dispatch_exchange sv x))
    obtain ⟨rfl, rfl⟩ := Session.mk.inj hs
    rw [Machine.run_cons, ih]

end UserDirectory
