import UserDirectory.Parsing

/-!
# Serving a request

The service behind `parse_request`, without the connection: the reply to a
request, and the server after it (`Server.serve`). The handlers refine it:
`dispatch_eq`, and `parseRequest_cases` for whatever a connection does.

What a request does is told by four predicates of the request and the server:
it `Registers` a user, `Updates` the content of one, `Saves` the table or
`Stops` the server. All other requests leave the server alone
(`Server.serve_cases`).
-/

namespace UserDirectory

open Fuel Socket CInt Stdio AssocList

/-- The reply to a request: the response, if its command has a handler, and whether the
    server should halt. -/
structure Reply where
  response : Option Bytes
  stop : Bool
  deriving DecidableEq, Repr

namespace Server

/-- The reply to a request, and the server after it. -/
def serve (faults : WriteFaults) (r : Request) (sv : Server) : Reply × Server :=
  if r.cmd = reqReg then
    (⟨some (sv.storage.addUser r.user r.pass).1.status, false⟩,
      { sv with storage := (sv.storage.addUser r.user r.pass).2 })
  else if r.cmd = reqBye then
    (⟨some (sv.storage.auth r.user r.pass).status, (sv.storage.auth r.user r.pass).succeeded⟩, sv)
  else if r.cmd = reqSav then
    if (sv.storage.auth r.user r.pass).succeeded then
      (⟨some (sv.saveFile faults).1.status, false⟩, (sv.saveFile faults).2)
    else (⟨some (sv.storage.auth r.user r.pass).msg, false⟩, sv)
  else if r.cmd = reqSet then
    match unframe r.msg with
    | none => (⟨some resErrReqFmt, false⟩, sv)
    | some content => (⟨some (sv.storage.setUserData r.user r.pass content).1.status, false⟩,
        { sv with storage := (sv.storage.setUserData r.user r.pass content).2 })
  else if r.cmd = reqGet then
    match unframe r.msg with
    | none => (⟨some resErrReqFmt, false⟩, sv)
    | some who => (⟨some (sv.storage.getUserData r.user r.pass who).payload, false⟩, sv)
  else if r.cmd = reqAll then
    (⟨some (sv.storage.getAllUsers r.user r.pass).payload, false⟩, sv)
  else (⟨none, false⟩, sv)

end Server

/-- The handlers send the response of the service, if there is one. -/
theorem dispatch_eq (fuel : ℕ) (faults : WriteFaults) (r : Request) (conn : Conn) (sv : Server) :
    dispatch fuel faults r ⟨conn, sv⟩ =
      match (sv.serve faults r).1.response with
      | none => some ((sv.serve faults r).1.stop, ⟨conn, (sv.serve faults r).2⟩)
      | some bytes =>
        respond fuel bytes (sv.serve faults r).1.stop ⟨conn, (sv.serve faults r).2⟩ := by
  rw [dispatch, Server.serve]
  split
  · exact handleReg_eq fuel r.user r.pass r.msg conn sv
  split
  · exact handleBye_eq fuel r.user r.pass r.msg conn sv
  split
  · rw [handleSav_eq]
    split <;> rfl
  split
  · rw [handleSet_eq]
    cases unframe r.msg <;> rfl
  split
  · rw [handleGet_eq]
    cases unframe r.msg <;> rfl
  split
  · exact handleAll_eq fuel r.user r.pass r.msg conn sv
  · rfl

theorem respond_eq_some {fuel : ℕ} {bytes : Bytes} {stop stop' : Bool} {s s' : Session}
    (h : respond fuel bytes stop s = some (stop', s')) : stop' = stop ∧ s'.server = s.server := by
  obtain ⟨⟨_, s₁⟩, hsend, hret⟩ := Option.bind_eq_some_iff.1 h
  obtain ⟨⟨_, c⟩, -, hs₁⟩ := Option.map_eq_some_iff.1 hsend
  cases hs₁
  cases hret
  exact ⟨rfl, rfl⟩

/-- What a handler returns and does to the server, whatever becomes of its response. -/
theorem dispatch_eq_some {fuel : ℕ} {faults : WriteFaults} {r : Request} {s s' : Session}
    {stop : Bool} (h : dispatch fuel faults r s = some (stop, s')) :
    stop = (s.server.serve faults r).1.stop ∧ s'.server = (s.server.serve faults r).2 := by
  rw [dispatch_eq] at h
  cases hresp : (s.server.serve faults r).1.response with
  | none =>
    rw [hresp] at h
    cases h
    exact ⟨rfl, rfl⟩
  | some bytes =>
    rw [hresp] at h
    exact respond_eq_some h

/-- What comes of sending a response does not change what a handler returns. -/
theorem respond_of_send {bytes : Bytes} {s : Session} {b : Bool} {c : Conn}
    (h : Returns (fun n => reliableSend n bytes (int32 bytes.length) s.conn) (b, c))
    (stop : Bool) : Returns (fun n => respond n bytes stop s) (stop, ⟨c, s.server⟩) :=
  (onConn_returns h).bindM (returns_of_forall fun _ => rfl)

/-- A response is sent to the end, or not. -/
theorem respond_returns (bytes : Bytes) (stop : Bool) (s : Session) :
    ∃ c, Returns (fun n => respond n bytes stop s) (stop, ⟨c, s.server⟩) := by
  obtain ⟨b, c, hsend, -⟩ := reliableSend_returns s.conn bytes
  exact ⟨c, respond_of_send hsend stop⟩

/-- On a connection that allows it, the front of a response is sent, up to a multiple of
    `2 ^ 32` bytes. -/
theorem respond_sent_prefix (bytes : Bytes) (stop : Bool) {s : Session}
    (hs : s.conn.SendRecoverable) : ∃ out c,
      Returns (fun n => respond n bytes stop s) (stop, ⟨c, s.server⟩) ∧ out <+: bytes ∧
        c.sent = s.conn.sent ++ out ∧ out.length % 2 ^ 32 = bytes.length % 2 ^ 32 := by
  obtain ⟨out, c, hsend, hout, hsent, -, hlen⟩ := reliableSend_sent hs bytes
  exact ⟨out, c, respond_of_send hsend stop, hout, hsent, hlen⟩

/-- A response of less than `2 ^ 32` bytes is sent whole. -/
theorem respond_sent {bytes : Bytes} (hlen : bytes.length < 2 ^ 32) (stop : Bool) {s : Session}
    (hs : s.conn.SendRecoverable) :
    ∃ c, Returns (fun n => respond n bytes stop s) (stop, ⟨c, s.server⟩) ∧
      c.sent = s.conn.sent ++ bytes := by
  obtain ⟨c, hsend, hsent, -⟩ := reliableSend_sent_all hs hlen
  exact ⟨c, respond_of_send hsend stop, hsent⟩

/-- A response whose length is `0` as an `int` is not sent at all. -/
theorem respond_zero {bytes : Bytes} (hlen : bytes.length % 2 ^ 32 = 0) (stop : Bool)
    (s : Session) : Returns (fun n => respond n bytes stop s) (stop, s) :=
  respond_of_send (reliableSend_zero hlen s.conn) stop

/-- A handler always returns. -/
theorem dispatch_returns (faults : WriteFaults) (r : Request) (s : Session) :
    ∃ c, Returns (fun n => dispatch n faults r s)
      ((s.server.serve faults r).1.stop, ⟨c, (s.server.serve faults r).2⟩) := by
  obtain ⟨conn, sv⟩ := s
  simp only [dispatch_eq]
  cases (sv.serve faults r).1.response with
  | none => exact ⟨conn, returns_of_forall fun _ => rfl⟩
  | some bytes => exact respond_returns bytes _ ⟨conn, (sv.serve faults r).2⟩

/-- A handler responds with the response of the service. -/
theorem dispatch_of_respond {faults : WriteFaults} {r : Request} {conn : Conn} {sv : Server}
    {bytes : Bytes} (hresp : (sv.serve faults r).1.response = some bytes) {out : Bool × Session}
    (hout : Returns (fun n => respond n bytes (sv.serve faults r).1.stop
      ⟨conn, (sv.serve faults r).2⟩) out) :
    Returns (fun n => dispatch n faults r ⟨conn, sv⟩) out := by
  simp only [dispatch_eq, hresp]
  exact hout

/-- A handler sends its response whole on a connection that allows it. -/
theorem dispatch_sent {faults : WriteFaults} {r : Request} {conn : Conn} {sv : Server}
    (hconn : conn.SendRecoverable) {bytes : Bytes}
    (hresp : (sv.serve faults r).1.response = some bytes) (hlen : bytes.length < 2 ^ 32) :
    ∃ c, Returns (fun n => dispatch n faults r ⟨conn, sv⟩)
      ((sv.serve faults r).1.stop, ⟨c, (sv.serve faults r).2⟩) ∧ c.sent = conn.sent ++ bytes := by
  obtain ⟨c, hr, hsent⟩ := respond_sent hlen (sv.serve faults r).1.stop
    (s := ⟨conn, (sv.serve faults r).2⟩) hconn
  exact ⟨c, dispatch_of_respond hresp hr, hsent⟩

/-- `parse_request` returns what the handler of the request read returns. -/
theorem parseRequest_returns {faults : WriteFaults} {s : Session} {r : Request} {c : Conn}
    {out : Bool × Session} (hread : Returns (fun n => readRequest n s.conn) (some r, c))
    (hout : Returns (fun n => dispatch n faults r ⟨c, s.server⟩) out) :
    Returns (fun n => parseRequest n faults s) out :=
  (onConn_returns hread).bindM hout

/-- `parse_request` returns `false` if there is no request to dispatch. -/
theorem parseRequest_returns_false {faults : WriteFaults} {s : Session} {c : Conn}
    (hread : Returns (fun n => readRequest n s.conn) (none, c)) :
    Returns (fun n => parseRequest n faults s) (false, ⟨c, s.server⟩) :=
  (onConn_returns hread).bindM (returns_of_forall fun _ => rfl)

/-- What `parse_request` does to the server, told by the request read. -/
theorem server_of_readRequest {faults : WriteFaults} {s s' : Session} {o : Option Request}
    {c : Conn} {stop : Bool} (hread : Returns (fun n => readRequest n s.conn) (o, c))
    (hparse : Returns (fun n => parseRequest n faults s) (stop, s')) :
    s'.server = o.elim s.server fun r => (s.server.serve faults r).2 := by
  cases o with
  | none =>
    obtain ⟨-, rfl⟩ := Prod.mk.inj (hparse.unique (parseRequest_returns_false hread))
    rfl
  | some r =>
    obtain ⟨c', hr⟩ := dispatch_returns faults r ⟨c, s.server⟩
    obtain ⟨-, rfl⟩ := Prod.mk.inj (hparse.unique (parseRequest_returns hread hr))
    rfl

/-- Whatever a connection does, `parse_request` either dispatches nothing, and leaves the
    server alone, or serves a request. -/
theorem parseRequest_cases {fuel : ℕ} {faults : WriteFaults} {s s' : Session} {stop : Bool}
    (h : parseRequest fuel faults s = some (stop, s')) :
    (stop = false ∧ s'.server = s.server) ∨
    ∃ r, stop = (s.server.serve faults r).1.stop ∧ s'.server = (s.server.serve faults r).2 := by
  obtain ⟨⟨o, s₁⟩, hread, hret⟩ := Option.bind_eq_some_iff.1 h
  obtain ⟨⟨_, c⟩, -, hs₁⟩ := Option.map_eq_some_iff.1 hread
  cases hs₁
  cases o with
  | none =>
    cases hret
    exact .inl ⟨rfl, rfl⟩
  | some r => exact .inr ⟨r, dispatch_eq_some (s := ⟨c, s.server⟩) hret⟩

namespace Server

variable (faults : WriteFaults) {r : Request} (sv : Server)

/-! ## The service of each command -/

theorem serve_reg (h : r.cmd = reqReg) : sv.serve faults r =
    (⟨some (sv.storage.addUser r.user r.pass).1.status, false⟩,
      { sv with storage := (sv.storage.addUser r.user r.pass).2 }) := by
  rw [serve, if_pos h]

theorem serve_bye (h : r.cmd = reqBye) : sv.serve faults r =
    (⟨some (sv.storage.auth r.user r.pass).status, (sv.storage.auth r.user r.pass).succeeded⟩,
      sv) := by
  rw [serve, h]
  rfl

theorem serve_sav (h : r.cmd = reqSav) : sv.serve faults r =
    if (sv.storage.auth r.user r.pass).succeeded then
      (⟨some (sv.saveFile faults).1.status, false⟩, (sv.saveFile faults).2)
    else (⟨some (sv.storage.auth r.user r.pass).msg, false⟩, sv) := by
  rw [serve, h]
  rfl

theorem serve_set (h : r.cmd = reqSet) : sv.serve faults r =
    match unframe r.msg with
    | none => (⟨some resErrReqFmt, false⟩, sv)
    | some content => (⟨some (sv.storage.setUserData r.user r.pass content).1.status, false⟩,
        { sv with storage := (sv.storage.setUserData r.user r.pass content).2 }) := by
  rw [serve, h]
  rfl

theorem serve_get (h : r.cmd = reqGet) : sv.serve faults r =
    match unframe r.msg with
    | none => (⟨some resErrReqFmt, false⟩, sv)
    | some who => (⟨some (sv.storage.getUserData r.user r.pass who).payload, false⟩, sv) := by
  rw [serve, h]
  rfl

theorem serve_all (h : r.cmd = reqAll) : sv.serve faults r =
    (⟨some (sv.storage.getAllUsers r.user r.pass).payload, false⟩, sv) := by
  rw [serve, h]
  rfl

theorem serve_unknown (h : r.cmd ∉ commands) : sv.serve faults r = (⟨none, false⟩, sv) := by
  simp only [commands, List.mem_cons, List.not_mem_nil, or_false, not_or] at h
  obtain ⟨hreg, hbye, hsav, hset, hget, hall⟩ := h
  rw [serve, if_neg hreg, if_neg hbye, if_neg hsav, if_neg hset, if_neg hget, if_neg hall]

variable {faults sv}

/-! ## What a request does -/

/-- The request registers a user. -/
def Registers (sv : Server) (r : Request) : Prop :=
  r.cmd = reqReg ∧ WellSized r.user r.pass ∧ r.user ∉ keys sv.storage.authTable.entries

/-- The request replaces the content of its user. -/
def Updates (sv : Server) (r : Request) (content : Bytes) : Prop :=
  r.cmd = reqSet ∧ sv.storage.Valid r.user r.pass ∧ unframe r.msg = some content ∧
    content.length ≤ lenProfileFile

/-- The request saves the table. -/
def Saves (sv : Server) (r : Request) : Prop := r.cmd = reqSav ∧ sv.storage.Valid r.user r.pass

/-- The request stops the server. -/
def Stops (sv : Server) (r : Request) : Prop := r.cmd = reqBye ∧ sv.storage.Valid r.user r.pass

instance (sv : Server) (r : Request) : Decidable (sv.Registers r) :=
  inferInstanceAs (Decidable (_ ∧ _))

instance (sv : Server) (r : Request) (content : Bytes) : Decidable (sv.Updates r content) :=
  inferInstanceAs (Decidable (_ ∧ _))

instance (sv : Server) (r : Request) : Decidable (sv.Saves r) := inferInstanceAs (Decidable (_ ∧ _))

instance (sv : Server) (r : Request) : Decidable (sv.Stops r) := inferInstanceAs (Decidable (_ ∧ _))

/-- The kinds of requests exclude each other, by their commands. -/
theorem Registers.not_updates (h : sv.Registers r) (content : Bytes) : ¬sv.Updates r content :=
  fun hupd => absurd (h.1.symm.trans hupd.1) (by decide)

theorem Registers.not_saves (h : sv.Registers r) : ¬sv.Saves r :=
  fun hsav => absurd (h.1.symm.trans hsav.1) (by decide)

theorem Updates.not_saves {content : Bytes} (h : sv.Updates r content) : ¬sv.Saves r :=
  fun hsav => absurd (h.1.symm.trans hsav.1) (by decide)

theorem serve_of_registers (h : sv.Registers r) : sv.serve faults r =
    (⟨some resOk, false⟩, { sv with storage := sv.storage.withUser r.user r.pass }) := by
  obtain ⟨hcmd, hsized, hnew⟩ := h
  rw [serve_reg faults sv hcmd, MyStorage.addUser_eq, if_neg (not_not.2 hsized), if_neg hnew]
  rfl

theorem serve_of_updates {content : Bytes} (h : sv.Updates r content) : sv.serve faults r =
    (⟨some resOk, false⟩, { sv with storage := sv.storage.withContent r.user content }) := by
  obtain ⟨hcmd, ⟨hsized, hreg⟩, hmsg, hlen⟩ := h
  rw [serve_set faults sv hcmd, hmsg]
  simp only [MyStorage.setUserData_eq, hsized, hlen, hreg, and_self, not_true_eq_false, if_false,
    if_true, Result.status]

theorem serve_of_saves (h : sv.Saves r) : sv.serve faults r =
    (⟨some (sv.saveFile faults).1.status, false⟩, (sv.saveFile faults).2) := by
  rw [serve_sav faults sv h.1, MyStorage.auth_succeeded, if_pos (decide_eq_true h.2)]

/-- The server stops exactly when it is told to. -/
theorem serve_stop : (sv.serve faults r).1.stop = decide (sv.Stops r) := by
  by_cases hcmd : r.cmd = reqBye
  · rw [serve_bye faults sv hcmd, MyStorage.auth_succeeded]
    simp only [Stops, hcmd, true_and]
  · have hstop : ¬sv.Stops r := fun h => hcmd h.1
    rw [decide_eq_false hstop, serve, if_neg hcmd]
    repeat' split
    all_goals rfl

/-- A request that does nothing of the kind leaves the server alone. -/
theorem serve_otherwise (hreg : ¬sv.Registers r) (hupd : ∀ content, ¬sv.Updates r content)
    (hsav : ¬sv.Saves r) : (sv.serve faults r).2 = sv := by
  -- Only three commands can change the server, and they do not.
  by_cases hcmd : r.cmd = reqReg
  · rw [serve_reg faults sv hcmd, MyStorage.addUser_eq]
    by_cases hsized : WellSized r.user r.pass
    · have hmem : r.user ∈ keys sv.storage.authTable.entries := by
        by_contra hnew
        exact hreg ⟨hcmd, hsized, hnew⟩
      rw [if_neg (not_not.2 hsized), if_pos hmem]
    · rw [if_pos hsized]
  by_cases hcmd' : r.cmd = reqSet
  · rw [serve_set faults sv hcmd']
    cases hmsg : unframe r.msg with
    | none => rfl
    | some content =>
      simp only [MyStorage.setUserData_eq]
      by_cases hok : WellSized r.user r.pass ∧ content.length ≤ lenProfileFile
      · have hlogin : ¬sv.storage.Registered r.user r.pass := fun hr =>
          hupd content ⟨hcmd', ⟨hok.1, hr⟩, hmsg, hok.2⟩
        rw [if_neg (not_not.2 hok), if_neg hlogin]
      · rw [if_pos hok]
  by_cases hcmd'' : r.cmd = reqSav
  · have hauth : ¬(sv.storage.auth r.user r.pass).succeeded = true := by
      rw [MyStorage.auth_succeeded, decide_eq_true_iff]
      exact fun hvalid => hsav ⟨hcmd'', hvalid⟩
    rw [serve_sav faults sv hcmd'', if_neg hauth]
  · rw [serve, if_neg hcmd, if_neg hcmd', if_neg hcmd'']
    repeat' split
    all_goals rfl

/-- A request registers a user, updates a content, saves the table, or leaves the server
    alone. -/
theorem serve_cases (faults : WriteFaults) (r : Request) (sv : Server) :
    (sv.Registers r ∧
      (sv.serve faults r).2 = { sv with storage := sv.storage.withUser r.user r.pass }) ∨
    (∃ content, sv.Updates r content ∧
      (sv.serve faults r).2 = { sv with storage := sv.storage.withContent r.user content }) ∨
    (sv.Saves r ∧ (sv.serve faults r).2 = (sv.saveFile faults).2) ∨
    (¬sv.Registers r ∧ (∀ content, ¬sv.Updates r content) ∧ ¬sv.Saves r ∧
      (sv.serve faults r).2 = sv) := by
  by_cases hreg : sv.Registers r
  · exact .inl ⟨hreg, congrArg Prod.snd (serve_of_registers hreg)⟩
  by_cases hupd : ∃ content, sv.Updates r content
  · obtain ⟨content, hupd⟩ := hupd
    exact .inr (.inl ⟨content, hupd, congrArg Prod.snd (serve_of_updates hupd)⟩)
  rw [not_exists] at hupd
  by_cases hsav : sv.Saves r
  · exact .inr (.inr (.inl ⟨hsav, congrArg Prod.snd (serve_of_saves hsav)⟩))
  · exact .inr (.inr (.inr ⟨hreg, hupd, hsav, serve_otherwise hreg hupd hsav⟩))

end Server

end UserDirectory
