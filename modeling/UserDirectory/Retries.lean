import UserDirectory.Accepting
import UserDirectory.Conversations
import UserDirectory.Truncation

/-!
# Requests that are repeated

A client that has lost the response cannot tell whether its request was served.
It may send it again: whatever the request, the server is left as if it had been
sent once, and gives the same reply, but for a name that the client has just
registered (`Peer.again`, `retries_harmless`). So it is for the handler, and for
the accept loop, on connections that fail by interruptions only, with clients
that do not get it stuck (`acceptClient_repeated`).
-/

namespace UserDirectory

open Fuel Socket Stdio AssocList Machine

/-- The reply to a client that comes again, after the reply `ρ`. -/
def Peer.again (p : Peer) (ρ : Reply) : Reply :=
  match Request.ofStream p.stream with
  | none => ρ
  | some r =>
    if r.cmd = reqReg ∧ ρ.response = some resOk then
      ⟨some (resErrUserExists ++ newline), false⟩
    else ρ

section Again

variable {faults : WriteFaults} {r : Request} {sv : Server} {user pass : Bytes}

/-- A registered name keeps its password. -/
theorem registered_serve (h : sv.storage.Registered user pass) :
    (sv.serve faults r).2.storage.Registered user pass := by
  have hmem : user ∈ keys sv.storage.authTable.entries := by
    obtain ⟨e, he, -⟩ := h
    exact mem_keys_of_lookup he
  rw [MyStorage.registered_iff] at h ⊢
  rcases Server.serve_cases faults r sv with ⟨hreg, hsv⟩ | ⟨content, hupd, hsv⟩ | ⟨-, hsv⟩ |
    ⟨-, -, -, hsv⟩ <;> rw [hsv]
  · -- Another name is registered.
    have hne : user ≠ r.user := fun heq => hreg.2.2 (heq ▸ hmem)
    rw [MyStorage.lookup_withUser hreg.2.2, Function.update_of_ne hne]
    exact h
  · rw [MyStorage.lookup_withContent]
    by_cases heq : user = r.user
    · subst heq
      rw [Function.update_self, Option.map_map]
      exact h
    · rw [Function.update_of_ne heq]
      exact h
  · rw [Server.saveFile_storage]
    exact h
  · exact h

/-- A content that is set again. -/
theorem withContent_withContent (s : MyStorage) (user content : Bytes) :
    (s.withContent user content).withContent user content = s.withContent user content := by
  have htable : ((s.withContent user content).withContent user content).authTable =
      (s.withContent user content).authTable := by
    rw [withContent_eq_iff, MyStorage.lookup_withContent, Function.update_self]
    intro e he
    obtain ⟨e', -, rfl⟩ := Option.map_eq_some_iff.1 he
    rfl
  exact congrArg (fun t => (⟨t, s.filename⟩ : MyStorage)) htable

/-- A table that is saved again. -/
theorem saveFile_saveFile (faults : WriteFaults) (sv : Server) :
    (sv.saveFile faults).2.saveFile faults = sv.saveFile faults := by
  have hname : tempFilename sv.storage.filename ≠ sv.storage.filename := tempFilename_ne _
  simp only [Server.saveFile]
  cases faults.fopen with
  | true => rfl
  | false =>
    cases faults.rename with
    | true => simp only [Bool.false_eq_true, if_false, if_true, Function.update_idem]
    | false =>
      simp only [Bool.false_eq_true, if_false, rename_update _ hname, Function.update_idem]

/-- A registration that is answered with `OK__` is one. -/
theorem registers_of_response_ok (hcmd : r.cmd = reqReg)
    (hok : (sv.serve faults r).1.response = some resOk) : sv.Registers r := by
  rw [Server.serve_reg faults sv hcmd, MyStorage.addUser_eq] at hok
  split at hok
  · exact absurd (Option.some.inj hok) (show ¬resErrReqFmt ++ newline = resOk by decide)
  · next hsized =>
    split at hok
    · exact absurd (Option.some.inj hok) (show ¬resErrUserExists ++ newline = resOk by decide)
    · next hnew => exact ⟨hcmd, not_not.1 hsized, hnew⟩

/-- A request that is served again. -/
theorem serve_again (faults : WriteFaults) (r : Request) (sv : Server) :
    (sv.serve faults r).2.serve faults r =
      (if r.cmd = reqReg ∧ (sv.serve faults r).1.response = some resOk then
        ⟨some (resErrUserExists ++ newline), false⟩ else (sv.serve faults r).1,
      (sv.serve faults r).2) := by
  rcases Server.serve_cases faults r sv with ⟨hreg, hsv⟩ | ⟨content, hupd, hsv⟩ | ⟨hsav, hsv⟩ |
    ⟨hreg, -, -, hsv⟩
  · -- The name is taken now.
    have hmem : r.user ∈ keys (sv.storage.withUser r.user r.pass).authTable.entries := by
      rw [MyStorage.withUser, SequentialMap.insert_entries _ hreg.2.2, keys_append]
      exact List.mem_append_right _ (List.mem_singleton_self _)
    rw [Server.serve_of_registers hreg, if_pos ⟨hreg.1, rfl⟩, Server.serve_reg faults _ hreg.1,
      MyStorage.addUser_eq, if_neg (not_not.2 hreg.2.1), if_pos hmem]
    rfl
  · have hne : ¬(r.cmd = reqReg ∧ (sv.serve faults r).1.response = some resOk) := by
      rintro ⟨hcmd, -⟩
      exact absurd (hcmd.symm.trans hupd.1) (by decide)
    have hagain : ({ sv with storage := sv.storage.withContent r.user content } :
        Server).Updates r content := by
      have hstays := @registered_serve faults r sv _ _ hupd.2.1.2
      rw [hsv] at hstays
      exact ⟨hupd.1, ⟨hupd.2.1.1, hstays⟩, hupd.2.2⟩
    rw [if_neg hne, Server.serve_of_updates hupd, Server.serve_of_updates hagain]
    simp only [withContent_withContent]
  · have hne : ¬(r.cmd = reqReg ∧ (sv.serve faults r).1.response = some resOk) := by
      rintro ⟨hcmd, -⟩
      exact absurd (hcmd.symm.trans hsav.1) (by decide)
    have hagain : (sv.saveFile faults).2.Saves r := by
      refine ⟨hsav.1, ?_⟩
      rw [Server.saveFile_storage]
      exact hsav.2
    rw [if_neg hne, Server.serve_of_saves hsav, Server.serve_of_saves hagain, saveFile_saveFile]
  · have hne : ¬(r.cmd = reqReg ∧ (sv.serve faults r).1.response = some resOk) :=
      fun h => hreg (registers_of_response_ok h.1 h.2)
    rw [if_neg hne, hsv]
    exact Prod.ext rfl hsv

/-- A client that comes again. -/
theorem answer_again (sv : Server) (p : Peer) :
    (sv.answer p).2.answer p = (p.again (sv.answer p).1, (sv.answer p).2) := by
  rw [Server.answer, Server.answer, Peer.again]
  cases Request.ofStream p.stream with
  | none => rfl
  | some r => exact serve_again p.faults r sv

end Again

/-- A client that does not stop the server does not stop it later either. -/
theorem Peer.again_stop (p : Peer) {ρ : Reply} (hρ : ρ.stop = false) :
    (p.again ρ).stop = false := by
  rw [Peer.again]
  cases Request.ofStream p.stream with
  | none => exact hρ
  | some r =>
    dsimp only
    split
    · rfl
    · exact hρ

/-- However often clients repeat their requests, the server ends as if each had sent it once. Each
    client gets the reply of that run, and again, except that it hears that its name is taken
    after it has registered it. -/
theorem retries_harmless (sv : Server) (xs : List (ℕ × Peer)) :
    runUntil Reply.stop Server.answer sv (repeated xs) =
      ((xs.zip (runUntil Reply.stop Server.answer sv (xs.map Prod.snd)).1).flatMap fun x =>
        x.2 :: if x.2.stop then [] else List.replicate x.1.1 (x.1.2.again x.2),
      (runUntil Reply.stop Server.answer sv (xs.map Prod.snd)).2) :=
  runUntil_repeated answer_again (fun p _ hρ => p.again_stop hρ) sv xs

/-- So the handler leaves the server as it is when a client comes again. -/
theorem Peer.handler_again {p : Peer} (hp : p.Recoverable) (hgo : ¬p.Stuck) (sv : Server) :
    ∃ p', Returns (fun n => p.handler n (sv.answer p).2)
        ((p.again (sv.answer p).1).stop, p', (sv.answer p).2) ∧
      p.Receives (p.again (sv.answer p).1).response p' := by
  obtain ⟨p', hr, hreceives⟩ := Peer.handler_returns hp hgo (sv.answer p).2
  rw [answer_again] at hr hreceives
  exact ⟨p', hr, hreceives⟩

/-- And the accept loop leaves it as if each client had come once. -/
theorem acceptClient_repeated (strerror : Errno → Bytes) (sd : ℤ) {accepts : List (Accept Peer)}
    {l : Listener Peer Server} {xs : List (ℕ × Peer)} (hxs : clients accepts = repeated xs)
    (hrec : ∀ x ∈ xs, x.2.Recoverable) (hgo : ∀ x ∈ xs, ¬x.2.Stuck) :
    ∃ e l' served, Returns (fun n => acceptClient strerror (Peer.handler n) sd accepts l) (e, l') ∧
      l'.state = (runUntil Reply.stop Server.answer l.state (xs.map Prod.snd)).2 ∧
      l'.served = l.served ++ served ∧ AllReceive (repeated xs)
        ((xs.zip (runUntil Reply.stop Server.answer l.state (xs.map Prod.snd)).1).flatMap fun x =>
          x.2 :: if x.2.stop then [] else List.replicate x.1.1 (x.1.2.again x.2)) served := by
  have hmem : ∀ p ∈ clients accepts, ∃ x ∈ xs, x.2 = p := by
    intro p hp
    rw [hxs, repeated, List.mem_flatMap] at hp
    obtain ⟨x, hx, hp⟩ := hp
    exact ⟨x, hx, (List.eq_of_mem_replicate hp).symm⟩
  have hhangs : ¬Hangs l.state (clients accepts) := by
    rintro ⟨pre, p, post, heq, hstuck, -⟩
    obtain ⟨x, hx, rfl⟩ := hmem p (heq ▸ List.mem_append_right pre List.mem_cons_self)
    exact hgo x hx hstuck
  have hrecoverable : ∀ p ∈ clients accepts, p.Recoverable := by
    intro p hp
    obtain ⟨x, hx, rfl⟩ := hmem p hp
    exact hrec x hx
  obtain ⟨l', served, hr, hstate, hserved, hall⟩ :=
    acceptClient_serves strerror sd hrecoverable hhangs
  rw [hxs, runUntil_repeated answer_again (fun p _ hρ => p.again_stop hρ)] at hstate hall
  exact ⟨_, l', served, hr, hstate, hserved, hall⟩

end UserDirectory
