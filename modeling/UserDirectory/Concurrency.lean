import UserDirectory.Durability
import UserDirectory.Library.Linearizability

/-!
# Clients at the same time

Many clients connect to a server, and wait for their responses, while the accept
loop serves one of them after the other. The executions are the interleavings of
three kinds of steps (`Site.Exec`): a client connects; the loop goes on by one
client that is connected; a client receives its response. They tell of a client
that is served in one step, since no other one is before its connection is
closed.

* `clients_linearizable`: every interleaving looks to the clients as if a
  directory had answered each of them at once, at some time between its
  connection and its response; and these times are in the order in which the
  loop has accepted the connections.
-/

namespace UserDirectory

open Fuel Socket Stdio Directory Linearizability Function

variable {ι : Type}

/-- An accept loop and its clients: what it has accepted, how it stands with it, and how it
    stands with each client. -/
structure Site (ι : Type) where
  accepts : List (Accept Peer)
  ending : Ending
  listener : Listener Peer Server
  phase : ι → Phase Peer Peer

/-- The executions of a loop that starts with `l₀`: the histories of connections and of
    responses received, with the sites at their end. The connections of the clients fail by
    interruptions only (`Peer.Recoverable`), and a save that is cut short for one of them is
    noticed (`Reported`). -/
inductive Site.Exec [DecidableEq ι] (strerror : Errno → Bytes) (sd : ℤ)
    (l₀ : Listener Peer Server) : List (Linearizability.Event ι Peer Peer) → Site ι → Prop
  | start {e : Ending} {l : Listener Peer Server} :
    Returns (fun n => acceptClient strerror (Peer.handler n) sd [] l₀) (e, l) →
    Exec strerror sd l₀ [] ⟨[], e, l, fun _ => .new⟩
  | connect {h : List (Linearizability.Event ι Peer Peer)} {site : Site ι} {c : ι} {p : Peer} :
    Exec strerror sd l₀ h site → site.phase c = .new → p.Recoverable → Reported p.faults →
    Exec strerror sd l₀ (h ++ [.call c p]) { site with phase := update site.phase c (.called p) }
  | serve {h : List (Linearizability.Event ι Peer Peer)} {site : Site ι} {c : ι} {p p' : Peer}
    {connSd : ℤ} {cliName : Bytes} {e : Ending} {l : Listener Peer Server} :
    Exec strerror sd l₀ h site → site.ending = .waiting → site.phase c = .called p →
    Returns (fun n => acceptClient strerror (Peer.handler n) sd
      (site.accepts ++ [.connection connSd cliName p]) l₀) (e, l) →
    l.served = site.listener.served ++ [p'] →
    Exec strerror sd l₀ h ⟨site.accepts ++ [.connection connSd cliName p], e, l,
      update site.phase c (.answered p p')⟩
  | receive {h : List (Linearizability.Event ι Peer Peer)} {site : Site ι} {c : ι} {p p' : Peer} :
    Exec strerror sd l₀ h site → site.phase c = .answered p p' →
    Exec strerror sd l₀ (h ++ [.ret c p'])
      { site with phase := update site.phase c (.returned p p') }

/-- The server answers a client, and the client is sent the response. -/
def Handles (sv : Server) (p p' : Peer) (sv' : Server) : Prop :=
  Reported p.faults ∧ sv' = (sv.answer p).2 ∧ p.Receives (sv.answer p).1.response p'

/-- The directory answers a client, and the client is sent the response that tells the answer. -/
def Told (s : Durable Bytes Bytes Bytes) (p p' : Peer) (s' : Durable Bytes Bytes Bytes) : Prop :=
  s' = s.next limits (stores p.faults) p.op ∧
    p.Receives (reply (answer limits s.live (stores p.faults) p.op)).response p'

/-- The server refines the directory. -/
theorem Handles.told {sv sv' : Server} {s : Durable Bytes Bytes Bytes} {p p' : Peer}
    (hrep : Represents sv s) (h : Handles sv p p' sv') :
    ∃ s', Told s p p' s' ∧ Represents sv' s' := by
  obtain ⟨reported, rfl, hreceives⟩ := h
  obtain ⟨hreply, hrep'⟩ := hrep.answer reported
  rw [hreply] at hreceives
  exact ⟨_, ⟨rfl, hreceives⟩, hrep'⟩

/-- One more client is answered by the server as it is. -/
theorem handles_of_concat {strerror : Errno → Bytes} {sd connSd : ℤ} {cliName : Bytes}
    {accepts : List (Accept Peer)} {l₀ l l' : Listener Peer Server} {e : Ending} {p p' : Peer}
    (hrec : p.Recoverable) (reported : Reported p.faults)
    (h : Returns (fun n => acceptClient strerror (Peer.handler n) sd accepts l₀) (.waiting, l))
    (h' : Returns (fun n => acceptClient strerror (Peer.handler n) sd
      (accepts ++ [.connection connSd cliName p]) l₀) (e, l'))
    (hserved : l'.served = l.served ++ [p']) : Handles l.state p p' l'.state := by
  obtain ⟨done, p'', hr, hserved'⟩ := acceptClient_concat (p.handler_settles l.state) h h'
  obtain rfl : p' = p'' := by
    rw [hserved'] at hserved
    exact (List.singleton_inj.1 (List.append_cancel_left hserved)).symm
  have hgo : ¬p.Stuck := fun hstuck => hr.not_diverges (Peer.handler_diverges hrec hstuck l.state)
  obtain ⟨p₁, hr₁, hreceives⟩ := Peer.handler_returns hrec hgo l.state
  obtain ⟨-, h₁⟩ := Prod.mk.inj (hr.unique hr₁)
  obtain ⟨rfl, hstate⟩ := Prod.mk.inj h₁
  exact ⟨reported, hstate, hreceives⟩

section Site

variable [DecidableEq ι] {strerror : Errno → Bytes} {sd : ℤ} {l₀ : Listener Peer Server}
  {h : List (Linearizability.Event ι Peer Peer)} {site : Site ι}

/-- An execution is one of the loop, in which the clients that it has accepted take effect one
    after the other. -/
theorem Site.Exec.effects (he : Site.Exec strerror sd l₀ h site) :
    Returns (fun n => acceptClient strerror (Peer.handler n) sd site.accepts l₀)
        (site.ending, site.listener) ∧
      (∀ c p, site.phase c = .called p → p.Recoverable ∧ Reported p.faults) ∧
      ∃ ops, Linearizability.Exec Handles l₀.state h ops site.listener.state site.phase ∧
        (∀ as, clients (site.accepts ++ as) = ops.map Operation.input ++ clients as) ∧
        site.listener.served = l₀.served ++ ops.map Operation.output := by
  have hother : ∀ {phase : ι → Phase Peer Peer} {c : ι} {x : Phase Peer Peer},
      (∀ c p, phase c = .called p → p.Recoverable ∧ Reported p.faults) → (∀ p, x ≠ .called p) →
      ∀ c' p, update phase c x c' = .called p → p.Recoverable ∧ Reported p.faults := by
    intro phase c x hphase hx c' p heq
    rcases eq_or_ne c' c with rfl | hne
    · rw [update_self] at heq
      exact absurd heq (hx p)
    · rw [update_of_ne hne] at heq
      exact hphase c' p heq
  induction he with
  | start hr =>
    cases hr.unique (returns_of_forall fun _ => rfl)
    exact ⟨hr, fun _ _ h => (nomatch h), [], .start, fun _ => rfl, (List.append_nil _).symm⟩
  | @connect h site c p _ hc hrec reported ih =>
    obtain ⟨hr, hphase, ops, hexec, hclients, hserved⟩ := ih
    refine ⟨hr, fun c' p' heq => ?_, ops, hexec.call hc, hclients, hserved⟩
    dsimp only at heq
    rcases eq_or_ne c' c with rfl | hne
    · rw [update_self] at heq
      cases heq
      exact ⟨hrec, reported⟩
    · rw [update_of_ne hne] at heq
      exact hphase c' p' heq
  | @serve h site c p p' connSd cliName e l _ hwaiting hc hr' hserved' ih =>
    obtain ⟨hr, hphase, ops, hexec, hclients, hserved⟩ := ih
    obtain ⟨hrec, reported⟩ := hphase c p hc
    rw [hwaiting] at hr
    refine ⟨hr', hother hphase fun _ h => (nomatch h), ops ++ [⟨c, p, p'⟩],
      hexec.effect hc (handles_of_concat hrec reported hr hr' hserved'), fun as => ?_, ?_⟩
    · rw [List.append_assoc, hclients, List.map_append, List.append_assoc]
      rfl
    · rw [hserved', hserved, List.map_append, List.append_assoc]
      rfl
  | receive _ hc ih =>
    obtain ⟨hr, hphase, ops, hexec, hclients, hserved⟩ := ih
    exact ⟨hr, hother hphase fun _ h => (nomatch h), ops, hexec.ret hc, hclients, hserved⟩

/-- Whatever the interleaving of the clients, the directory gives each of them the response that
    it is sent, if it answers them one after the other as they are accepted; and this order is
    one in real time. -/
theorem clients_linearizable {s₀ : Durable Bytes Bytes Bytes} (h₀ : Represents l₀.state s₀)
    (he : Site.Exec strerror sd l₀ h site) : ∃ ops s, Linearization Told s₀ h ops s ∧
      Represents site.listener.state s ∧ clients site.accepts = ops.map Operation.input ∧
      site.listener.served = l₀.served ++ ops.map Operation.output := by
  obtain ⟨-, -, ops, hexec, hclients, hserved⟩ := he.effects
  obtain ⟨s, hl, hrep⟩ := hexec.linearization.1.refines
    (R := Represents) (fun _ _ _ _ _ hrep hstep => hstep.told hrep) h₀
  refine ⟨ops, s, hl, hrep, ?_, hserved⟩
  simpa [clients] using hclients []

/-- A client waits while `alice`, who comes later, is registered and receives her response. -/
theorem clients_linearizable_alice : ∃ (p' : Peer)
    (ops : List (Operation ℕ Peer Peer)) (s : Durable Bytes Bytes Bytes),
    Linearization Told ⟨.empty, .empty⟩
      [.call 0 (.sending []),
        .call 1 (.sending (Client.packet reqReg (ascii "alice") (ascii "pw") [])),
        .ret 1 p'] ops s ∧
      ops.map Operation.input =
        [.sending (Client.packet reqReg (ascii "alice") (ascii "pw") [])] := by
  have reported : Reported .none := .inr (.inr WriteFaults.none_complete)
  obtain ⟨p', hp', -⟩ := Peer.handler_returns
    (Peer.recoverable_sending (Client.packet reqReg (ascii "alice") (ascii "pw") []))
    (Peer.not_stuck_sending _) emptyServer
  rw [show (emptyServer.answer (.sending (Client.packet reqReg (ascii "alice") (ascii "pw")
    []))).1.stop = false by decide +kernel] at hp'
  have hloop := @acceptClient_connection_returns _ _ (fun _ => []) 3 4 (ascii "127.0.0.1") _ _ []
    ⟨[], [], [], emptyServer⟩ _ _ _ _ hp' (returns_of_forall fun _ => rfl)
  have hstart : @Site.Exec ℕ _ (fun _ => []) 3 ⟨[], [], [], emptyServer⟩ [] _ :=
    .start (returns_of_forall fun _ => rfl)
  have hwait := hstart.connect (c := 0) rfl (Peer.recoverable_sending []) reported
  have hconnect := hwait.connect (c := 1) rfl (Peer.recoverable_sending
    (Client.packet reqReg (ascii "alice") (ascii "pw") [])) reported
  have he := (hconnect.serve (c := 1) rfl rfl hloop rfl).receive (c := 1) rfl
  obtain ⟨ops, s, hl, -, hclients, -⟩ :=
    clients_linearizable (Represents.start (show emptyServer.files _ = none from rfl)) he
  exact ⟨p', ops, s, hl, hclients.symm⟩

end Site

end UserDirectory
