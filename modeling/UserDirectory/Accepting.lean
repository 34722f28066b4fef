import UserDirectory.Library.Descriptors
import UserDirectory.Library.Machine
import UserDirectory.Requests

/-!
# Accepting clients

`accept_client` (`common/net.cc`), with which the server serves one client after
the other, and `parse_request` as its handler.

* `acceptClient_serves`: on connections that only fail by interruptions, it
  serves the clients in the order in which they are accepted, each with the
  server that the ones before it left, up to the first one that stops it.
* `acceptClient_diverges_iff`: unless it comes to a client that cuts its request
  short on an interrupted connection, and then no later client is served.
* `acceptClient_descriptors`: whatever its handler does, it closes each
  connection before it accepts another one, and the listening socket if it
  fails, and no other.
-/

namespace UserDirectory

open Fuel Socket CInt Stdio Descriptors Machine

/-- An outcome of `accept`: a descriptor with the connection of a client, and the address
    of the client as `inet_ntop` writes it, or a failure. -/
inductive Accept (ι : Type)
  | connection (connSd : ℤ) (cliName : Bytes) (client : ι)
  | fail (e : Errno)

/-- The state of a program that accepts clients: what it has printed, the descriptors that
    it has opened and closed, the clients served, and what its handler works on. What the handler
    prints about a client is not in `cout` but in the reports of its connection. -/
structure Listener (ι σ : Type) where
  cout : Bytes
  events : List (Event ℤ)
  served : List ι
  state : σ

/-- How it stands with a program that accepts clients: it waits for another one, or it
    has returned whether the shutdown was graceful. -/
inductive Ending
  | waiting
  | returned (graceful : Bool)
  deriving DecidableEq, Repr

namespace Listener

variable {ι σ : Type}

/-- Print a text. -/
def print (text : Bytes) (l : Listener ι σ) : Listener ι σ := { l with cout := l.cout ++ text }

/-- A descriptor is opened, or closed. -/
def log (e : Event ℤ) (l : Listener ι σ) : Listener ι σ := { l with events := l.events ++ [e] }

end Listener

section AcceptClient

variable {ι σ : Type}

/-- Accept clients, and hand each of them to the handler. The outcomes of `accept` are given;
    when they are over, it waits. -/
def acceptClient (strerror : Errno → Bytes) (handler : ι → σ → Option (Bool × ι × σ)) (sd : ℤ) :
    List (Accept ι) → Listener ι σ → Option (Ending × Listener ι σ)
  | [], l => some (.waiting, l.print (ascii "Waiting for a client to connect...\n"))
  | .fail e :: _, l =>
    let l := l.print (ascii "Waiting for a client to connect...\n")
    let l := l.log (.closed sd)
    let l := l.print (ascii "Error accepting request from client: " ++ strerror e ++ newline)
    some (.returned false, l)
  | .connection connSd cliName client :: accepts, l =>
    let l := l.print (ascii "Waiting for a client to connect...\n")
    let l := l.log (.opened connSd)
    let l := l.print (ascii "Connected to " ++ cliName ++ newline)
    (handler client l.state).bind fun (done, client, state) =>
      -- The context manager closes the connection, whether or not the loop goes on.
      let l := { l with served := l.served ++ [client], state := state }
      let l := l.log (.closed connSd)
      if done then some (.returned true, l) else acceptClient strerror handler sd accepts l

/-- The clients that connect before `accept` fails. -/
def clients : List (Accept ι) → List ι
  | [] => []
  | .fail _ :: _ => []
  | .connection _ _ client :: accepts => client :: clients accepts

/-- `accept` fails in the end. -/
def acceptFails : List (Accept ι) → Bool
  | [] => false
  | .fail _ :: _ => true
  | .connection _ _ _ :: accepts => acceptFails accepts

/-- How the loop ends, if it does: by a client that stops it, or by a failure. -/
def ending (stopped : Bool) (accepts : List (Accept ι)) : Ending :=
  if stopped then .returned true
  else if acceptFails accepts then .returned false else .waiting

/-- The state when the handler is called for a client. -/
def Listener.connected (connSd : ℤ) (cliName : Bytes) (l : Listener ι σ) : Listener ι σ :=
  ((l.print (ascii "Waiting for a client to connect...\n")).log (.opened connSd)).print
    (ascii "Connected to " ++ cliName ++ newline)

/-- The state after a client. -/
def Listener.finished (connSd : ℤ) (client : ι) (state : σ) (l : Listener ι σ) : Listener ι σ :=
  { l with served := l.served ++ [client], state := state }.log (.closed connSd)

variable {strerror : Errno → Bytes} {sd connSd : ℤ} {cliName : Bytes} {client client' : ι}
  {accepts : List (Accept ι)} {l : Listener ι σ} {state : σ} {done : Bool}

theorem acceptClient_connection (handler : ι → σ → Option (Bool × ι × σ)) :
    acceptClient strerror handler sd (.connection connSd cliName client :: accepts) l =
      (handler client l.state).bind fun r =>
        if r.1 then
          some (.returned true, (l.connected connSd cliName).finished connSd r.2.1 r.2.2)
        else acceptClient strerror handler sd accepts
          ((l.connected connSd cliName).finished connSd r.2.1 r.2.2) := rfl

/-- A client whose handler returns: the loop returns, or goes on with the next client. -/
theorem acceptClient_connection_returns {handler : ℕ → ι → σ → Option (Bool × ι × σ)}
    {out : Ending × Listener ι σ}
    (h : Returns (fun n => handler n client l.state) (done, client', state))
    (hout : Returns (fun n => if done then
        some (.returned true, (l.connected connSd cliName).finished connSd client' state)
      else acceptClient strerror (handler n) sd accepts
        ((l.connected connSd cliName).finished connSd client' state)) out) :
    Returns (fun n => acceptClient strerror (handler n) sd
      (.connection connSd cliName client :: accepts) l) out := by
  simp only [acceptClient_connection]
  exact h.bind hout

/-- A loop that waits goes on with the next clients from where it is. -/
theorem acceptClient_append {handler : ι → σ → Option (Bool × ι × σ)} {l' : Listener ι σ}
    (h : acceptClient strerror handler sd accepts l = some (.waiting, l')) :
    ∃ l₁, l' = l₁.print (ascii "Waiting for a client to connect...\n") ∧
      ∀ as, acceptClient strerror handler sd (accepts ++ as) l =
        acceptClient strerror handler sd as l₁ := by
  induction accepts generalizing l with
  | nil =>
    cases h
    exact ⟨l, rfl, fun _ => rfl⟩
  | cons a accepts ih =>
    rcases a with ⟨connSd, cliName, client⟩ | e
    · rw [acceptClient_connection] at h
      obtain ⟨⟨done, client', state⟩, hhandler, h⟩ := Option.bind_eq_some_iff.1 h
      cases done with
      | true => cases h
      | false =>
        obtain ⟨l₁, hl₁, happend⟩ := ih h
        refine ⟨l₁, hl₁, fun as => ?_⟩
        rw [List.cons_append, acceptClient_connection, hhandler]
        exact happend as
    · cases h

/-- What the loop makes of one more client is what its handler makes of it. -/
theorem acceptClient_concat {handler : ℕ → ι → σ → Option (Bool × ι × σ)} {l' l'' : Listener ι σ}
    {e : Ending} (hsettles : Settles fun n => handler n client l'.state)
    (h : Returns (fun n => acceptClient strerror (handler n) sd accepts l) (.waiting, l'))
    (h' : Returns (fun n => acceptClient strerror (handler n) sd
      (accepts ++ [.connection connSd cliName client]) l) (e, l'')) :
    ∃ done client', Returns (fun n => handler n client l'.state) (done, client', l''.state) ∧
      l''.served = l'.served ++ [client'] := by
  obtain ⟨n, hn, hn'⟩ := (h.and h').exists
  obtain ⟨l₁, rfl, happend⟩ := acceptClient_append hn
  simp only [happend, acceptClient_connection] at hn'
  obtain ⟨⟨done, client', state⟩, hhandler, hn'⟩ := Option.bind_eq_some_iff.1 hn'
  refine ⟨done, client', ?_⟩
  cases done <;> cases hn' <;> exact ⟨hsettles n _ hhandler, rfl⟩

/-- What the handler preserves, the loop does. -/
theorem acceptClient_invariant {P : σ → Prop} {handler : ι → σ → Option (Bool × ι × σ)}
    (hstep : ∀ client state done client' state',
      handler client state = some (done, client', state') → P state → P state')
    (hl : P l.state) {e : Ending} {l' : Listener ι σ}
    (h : acceptClient strerror handler sd accepts l = some (e, l')) : P l'.state := by
  induction accepts generalizing l with
  | nil =>
    cases h
    exact hl
  | cons a accepts ih =>
    rcases a with ⟨connSd, cliName, client⟩ | e
    · rw [acceptClient_connection] at h
      obtain ⟨⟨done, client', state⟩, hhandler, h⟩ := Option.bind_eq_some_iff.1 h
      have hstate := hstep _ _ _ _ _ hhandler hl
      cases done with
      | true =>
        cases h
        exact hstate
      | false => exact ih hstate h
    · cases h
      exact hl

/-! ## Descriptors -/

/-- The descriptors that `accept` opens. -/
def accepted : List (Accept ι) → List ℤ
  | [] => []
  | .fail _ :: _ => []
  | .connection connSd _ _ :: accepts => connSd :: accepted accepts

/-- However the loop ends, and whatever the handler does: the connections are closed, each
    before the next one is accepted, and the listening socket if `accept` fails. -/
theorem acceptClient_descriptors {handler : ι → σ → Option (Bool × ι × σ)} {fds₀ fds : Finset ℤ}
    (hsd : sd ∈ fds) (hfresh : ∀ connSd ∈ accepted accepts, connSd ∉ fds)
    (hl : after fds₀ l.events = some fds) {e : Ending} {l' : Listener ι σ}
    (h : acceptClient strerror handler sd accepts l = some (e, l')) :
    after fds₀ l'.events = some (if e = .returned false then fds.erase sd else fds) := by
  induction accepts generalizing l with
  | nil =>
    cases h
    exact hl
  | cons a accepts ih =>
    rcases a with ⟨connSd, cliName, client⟩ | e
    · rw [accepted, List.forall_mem_cons] at hfresh
      rw [acceptClient_connection] at h
      obtain ⟨⟨done, client', state⟩, -, h⟩ := Option.bind_eq_some_iff.1 h
      -- The connection is opened and closed, and nothing else happened to the others.
      have hscope : after fds₀ ((l.connected connSd cliName).finished connSd client' state).events =
          some fds := by
        have hevents : ((l.connected connSd cliName).finished connSd client' state).events =
            l.events ++ (.opened connSd :: ([] ++ [.closed connSd])) := List.append_assoc _ _ _
        rw [hevents, after_append, hl, Option.bind_some, after_scope hfresh.1 rfl]
      cases done with
      | true =>
        cases h
        exact hscope
      | false => exact ih hfresh.2 hscope h
    · cases h
      show after fds₀ (l.events ++ [.closed sd]) = some (fds.erase sd)
      rw [after_append, hl, Option.bind_some, after_closed hsd, after_nil]

end AcceptClient

/-! ## The clients of the server -/

/-- A client of the server: its connection, and what fails if the table is saved for it. The
    `errno` of the connection is that of the program when it accepts the client. It is not threaded
    from one client to the next, but any: it may be what the calls for earlier clients have left. -/
structure Peer where
  conn : Conn
  faults : WriteFaults

namespace Peer

/-- The bytes that the client sends. -/
def stream (p : Peer) : Bytes := delivered p.conn.recvs

/-- The connection fails by interruptions only. -/
structure Recoverable (p : Peer) : Prop where
  recv : p.conn.RecvRecoverable
  send : p.conn.SendRecoverable

/-- The client cuts its request short on an interrupted connection: `errno` is `EINTR` when it is
    accepted, or a call of `recv` is interrupted. -/
def Stuck (p : Peer) : Prop :=
  p.conn.Interrupted ∧ (p.stream.length < 16 ∨ (Header.ofStream p.stream).InRange ∧
    p.stream.length < 16 + (Header.ofStream p.stream).bodyLength)

instance (p : Peer) : Decidable p.Stuck := inferInstanceAs (Decidable (_ ∧ _))

/-- `[&](int sd) { return parse_request(sd, storage); }` -/
def handler (fuel : ℕ) (p : Peer) (sv : Server) : Option (Bool × Peer × Server) :=
  (parseRequest fuel p.faults ⟨p.conn, sv⟩).map fun (done, s) =>
    (done, { p with conn := s.conn }, s.server)

/-- What the client is sent, for a response: all of it, but for a multiple of `2 ^ 32` bytes. -/
def Receives (p : Peer) (response : Option Bytes) (p' : Peer) : Prop :=
  ∃ out, p'.conn.sent = p.conn.sent ++ out ∧ out <+: response.getD [] ∧
    out.length % 2 ^ 32 = (response.getD []).length % 2 ^ 32

/-- A client that sends the bytes, undisturbed. -/
def sending (bytes : Bytes) : Peer := ⟨.delivering bytes, .none⟩

theorem recoverable_sending (bytes : Bytes) : (sending bytes).Recoverable :=
  ⟨Conn.recvRecoverable_delivering _, Conn.sendRecoverable_delivering _⟩

/-- A response that is not too long is sent whole. -/
theorem Receives.sent {p p' : Peer} {response : Option Bytes} (h : p.Receives response p')
    (hlen : (response.getD []).length < 2 ^ 32) :
    p'.conn.sent = p.conn.sent ++ response.getD [] := by
  obtain ⟨out, hsent, hout, hmod⟩ := h
  rw [Nat.mod_eq_of_lt hlen, Nat.mod_eq_of_lt (hout.length_le.trans_lt hlen)] at hmod
  rw [hsent, hout.eq_of_length hmod]

theorem not_stuck_sending (bytes : Bytes) : ¬(sending bytes).Stuck := fun h =>
  Conn.not_interrupted_delivering _ h.1

end Peer

/-- What the server makes of a client: the reply to the request of its stream, if there is
    one. -/
def Server.answer (sv : Server) (p : Peer) : Reply × Server :=
  match Request.ofStream p.stream with
  | none => (⟨none, false⟩, sv)
  | some r => sv.serve p.faults r

variable {sv : Server} {p : Peer}

/-- A handler responds with the front of the response of the service. -/
theorem dispatch_receives (faults : WriteFaults) (r : Request) {conn : Conn}
    (hsend : conn.SendRecoverable) (sv : Server) :
    ∃ c out, Returns (fun n => dispatch n faults r ⟨conn, sv⟩)
        ((sv.serve faults r).1.stop, ⟨c, (sv.serve faults r).2⟩) ∧
      c.sent = conn.sent ++ out ∧ out <+: (sv.serve faults r).1.response.getD [] ∧
      out.length % 2 ^ 32 = ((sv.serve faults r).1.response.getD []).length % 2 ^ 32 := by
  cases hresp : (sv.serve faults r).1.response with
  | none =>
    refine ⟨conn, [], ?_, (List.append_nil _).symm, List.nil_prefix, rfl⟩
    simp only [dispatch_eq, hresp]
    exact returns_of_forall fun _ => rfl
  | some bytes =>
    obtain ⟨out, c, hr, hout, hsent, hlen⟩ := respond_sent_prefix bytes
      (sv.serve faults r).1.stop (s := ⟨conn, (sv.serve faults r).2⟩) hsend
    exact ⟨c, out, dispatch_of_respond hresp hr, hsent, hout, hlen⟩

/-- The handler of the server does what the server makes of the client. -/
theorem Peer.handler_returns (hp : p.Recoverable) (hgo : ¬p.Stuck) (sv : Server) :
    ∃ p', Returns (fun n => p.handler n sv) ((sv.answer p).1.stop, p', (sv.answer p).2) ∧
      p.Receives (sv.answer p).1.response p' := by
  rw [Stuck, not_and_or, not_or, Nat.not_lt, not_and, Nat.not_lt] at hgo
  obtain ⟨c, hread, hsends, hsent⟩ := readRequest_returns hp.recv
    (hgo.symm.imp_left fun h => h.1) fun hrange => hgo.symm.imp_left fun h => h.2 hrange
  rw [Server.answer, stream]
  cases hreq : Request.ofStream (delivered p.conn.recvs) with
  | none =>
    rw [hreq] at hread
    refine ⟨{ p with conn := c }, (parseRequest_returns_false (s := ⟨p.conn, sv⟩) hread).map _, [],
      ?_, List.nil_prefix, rfl⟩
    rw [List.append_nil]
    exact hsent
  | some r =>
    rw [hreq] at hread
    obtain ⟨c', out, hr, hsent', hout, hlen⟩ :=
      dispatch_receives p.faults r (hp.send.of_sends_eq hsends) sv
    exact ⟨{ p with conn := c' }, (parseRequest_returns (s := ⟨p.conn, sv⟩) hread hr).map _, out,
      hsent'.trans (congrArg (· ++ out) hsent), hout, hlen⟩

theorem readRequest_settles (c : Conn) : Settles fun n => readRequest n c := by
  have hget : ∀ buf amnt c, Settles fun n => reliableGetToEofOrN n buf amnt c := fun _ _ _ =>
    (settles_loop _ _).map _
  refine (hget _ _ c).bindM fun (got, header) c' => ?_
  by_cases hgot : got = 0
  · simp only [hgot, if_true]
    exact settles_const _
  simp only [hgot, if_false, readBody]
  split
  · exact settles_const _
  · refine (hget _ _ c').bindM fun (got, body) c'' => ?_
    dsimp only
    split <;> exact settles_const _

theorem dispatch_settles (faults : WriteFaults) (r : Request) (s : Session) :
    Settles fun n => dispatch n faults r s := by
  intro n out h
  obtain ⟨conn, sv⟩ := s
  simp only [dispatch_eq] at h ⊢
  revert h
  cases (sv.serve faults r).1.response with
  | none => exact settles_const _ n out
  | some bytes =>
    have hsend : Settles fun n => sendStatus n bytes ⟨conn, (sv.serve faults r).2⟩ :=
      (settles_loop _ _).map _
    exact hsend.bindM (fun _ s => settles_const (some ((sv.serve faults r).1.stop, s))) n out

/-- What the handler gives with some fuel is what it returns. -/
theorem Peer.handler_settles (p : Peer) (sv : Server) : Settles fun n => p.handler n sv := by
  have hread : Settles fun n => onConn (readRequest n) ⟨p.conn, sv⟩ :=
    (readRequest_settles p.conn).map _
  refine (hread.bindM fun r s => ?_).map _
  cases r with
  | none => exact settles_const _
  | some r => exact dispatch_settles p.faults r s

/-- The handler waits for ever for the rest of a request that is cut short. -/
theorem Peer.handler_diverges (hp : p.Recoverable) (hstuck : p.Stuck) (sv : Server) :
    Diverges fun n => p.handler n sv := by
  obtain ⟨hint, hshort⟩ := hstuck
  have hread := readRequest_diverges hp.recv hint hshort
  have hconn : Diverges fun n => onConn (readRequest n) ⟨p.conn, sv⟩ := fun n => by
    simp only [onConn]
    rw [show readRequest n p.conn = none from hread n, Option.map_none]
  have hparse := hconn.bindM fun n r => match r with
    | none => pure false
    | some r => dispatch n p.faults r
  intro n
  simp only [handler]
  rw [show parseRequest n p.faults ⟨p.conn, sv⟩ = none from hparse n, Option.map_none]

/-! ## The loop of the server -/

/-- A client gets stuck that is accepted before any that stops the server. -/
def Hangs (sv : Server) (ps : List Peer) : Prop :=
  ∃ pre p post, ps = pre ++ p :: post ∧ p.Stuck ∧
    ∀ ρ ∈ (run Server.answer sv pre).1, Reply.stop ρ = false

theorem hangs_cons_iff {ps : List Peer} :
    Hangs sv (p :: ps) ↔ p.Stuck ∨ (sv.answer p).1.stop = false ∧ Hangs (sv.answer p).2 ps := by
  constructor
  · rintro ⟨_ | ⟨p', pre⟩, q, post, heq, hstuck, hstop⟩
    · cases heq
      exact .inl hstuck
    · cases heq
      rw [run_cons, List.forall_mem_cons] at hstop
      exact .inr ⟨hstop.1, pre, q, post, rfl, hstuck, hstop.2⟩
  · rintro (hstuck | ⟨hstop, pre, q, post, rfl, hstuck, hstops⟩)
    · exact ⟨[], p, ps, rfl, hstuck, fun _ h => absurd h List.not_mem_nil⟩
    · refine ⟨p :: pre, q, post, rfl, hstuck, ?_⟩
      rw [run_cons, List.forall_mem_cons]
      exact ⟨hstop, hstops⟩

/-- The clients, each with its reply, and what they were sent. -/
def AllReceive (ps : List Peer) (replies : List Reply) (served : List Peer) : Prop :=
  List.Forall₂ (fun (x : Peer × Reply) p' => x.1.Receives x.2.response p') (ps.zip replies) served

/-- The loop serves the clients one after the other, up to the first one that stops it: each
    is sent the reply that the server gives after the ones before it. -/
theorem acceptClient_serves (strerror : Errno → Bytes) (sd : ℤ) {accepts : List (Accept Peer)}
    {l : Listener Peer Server} (hrec : ∀ p ∈ clients accepts, p.Recoverable)
    (hgo : ¬Hangs l.state (clients accepts)) :
    ∃ l' served, Returns (fun n => acceptClient strerror (Peer.handler n) sd accepts l)
        (ending ((runUntil Reply.stop Server.answer l.state (clients accepts)).1.any Reply.stop)
          accepts, l') ∧
      l'.state = (runUntil Reply.stop Server.answer l.state (clients accepts)).2 ∧
      l'.served = l.served ++ served ∧ AllReceive (clients accepts)
        (runUntil Reply.stop Server.answer l.state (clients accepts)).1 served := by
  induction accepts generalizing l with
  | nil => exact ⟨_, [], returns_of_forall fun _ => rfl, rfl, (List.append_nil _).symm, .nil⟩
  | cons a accepts ih =>
    rcases a with ⟨connSd, cliName, p⟩ | e
    · rw [clients, List.forall_mem_cons] at hrec
      rw [clients, hangs_cons_iff, not_or, not_and] at hgo
      obtain ⟨p', hp', hreceives⟩ := p.handler_returns hrec.1 hgo.1 l.state
      rw [clients]
      cases hstop : (l.state.answer p).1.stop with
      | true =>
        -- The loop returns, whoever else is to connect.
        rw [runUntil_cons_of_stop hstop, List.any_cons, hstop]
        rw [hstop] at hp'
        refine ⟨_, [p'], acceptClient_connection_returns hp' (returns_of_forall fun _ => rfl), rfl,
          rfl, ?_⟩
        rw [AllReceive, List.zip_cons_cons, List.zip_nil_right]
        exact .cons hreceives .nil
      | false =>
        rw [runUntil_cons_of_not_stop hstop, List.any_cons, hstop, Bool.false_or]
        rw [hstop] at hp'
        obtain ⟨l', served, hr, hstate, hserved, hall⟩ := @ih
          ((l.connected connSd cliName).finished connSd p' (l.state.answer p).2) hrec.2
          (hgo.2 hstop)
        refine ⟨l', p' :: served, acceptClient_connection_returns hp' hr, hstate, ?_,
          .cons hreceives hall⟩
        rw [hserved]
        exact List.append_assoc _ _ _
    · exact ⟨_, [], returns_of_forall fun _ => rfl, rfl, (List.append_nil _).symm, .nil⟩

end UserDirectory
