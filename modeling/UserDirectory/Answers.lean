import UserDirectory.Requests

/-!
# Answers

The responses of the server, and what the client makes of the errors.

* `serve_response`: the response to a command is one of the `errorTexts`, `OK__`,
  or data (`IsResponse`).
* `parseRequest_answered_iff`: the complete requests that `parse_request`
  answers, with an error where one is due. It closes the connection without a
  response on an unknown command, on lengths out of range and on an empty body.
* `sendCmd_error_iff`: the errors that `send_cmd` returns as they were sent: only
  that of a name already registered, since the client takes every error for 16
  bytes long.
-/

namespace UserDirectory

open Fuel Socket CInt Stdio AssocList

/-- The errors of the handlers and the storage. -/
def errorTexts : List Bytes :=
  [resErrReqFmt, resErrReqFmt ++ newline, resErrLogin ++ newline, resErrUserExists ++ newline,
    resErrNoUser ++ newline, resErrNoData ++ newline, resErrServer ++ newline]

/-- The data sent for a `GETP` or an `ALL_`. -/
inductive IsData (sv : Server) (r : Request) : Bytes → Prop
  | content {who : Bytes} {e : AuthTableEntry} : r.cmd = reqGet → sv.storage.Valid r.user r.pass →
    sv.storage.authTable.lookup who = some e → IsData sv r e.content
  | userList : r.cmd = reqAll → sv.storage.Valid r.user r.pass →
    IsData sv r (MyStorage.userList sv.storage.authTable)

/-- The request registers a name that is taken. -/
def NameTaken (sv : Server) (r : Request) : Prop :=
  r.cmd = reqReg ∧ WellSized r.user r.pass ∧ r.user ∈ keys sv.storage.authTable.entries

instance (sv : Server) (r : Request) : Decidable (NameTaken sv r) :=
  inferInstanceAs (Decidable (_ ∧ _))

/-- The errors sent for a request: that of a name that is taken only if it is. -/
structure IsError (sv : Server) (r : Request) (bytes : Bytes) : Prop where
  mem : bytes ∈ errorTexts
  taken : bytes = resErrUserExists ++ newline → NameTaken sv r

/-- The responses to a request: an error; or, with credentials of the right size, `OK__`,
    alone or with data. -/
inductive IsResponse (sv : Server) (r : Request) : Bytes → Prop
  | error {bytes : Bytes} : IsError sv r bytes → IsResponse sv r bytes
  | ok : WellSized r.user r.pass → IsResponse sv r resOk
  | data {data : Bytes} : IsData sv r data →
    IsResponse sv r (resOk ++ word (.ofNat data.length) ++ data)

variable {faults : WriteFaults} {r : Request} {sv : Server}

/-- Every error but that of a name that is taken may be sent for any request. -/
theorem IsResponse.of_ne {bytes : Bytes}
    (h : bytes ∈ errorTexts ∧ bytes ≠ resErrUserExists ++ newline) : IsResponse sv r bytes :=
  .error ⟨h.1, fun heq => absurd heq h.2⟩

theorem IsResponse.badMessage : IsResponse sv r resErrReqFmt := .of_ne (by decide)

theorem IsResponse.reqFmt : IsResponse sv r (resErrReqFmt ++ newline) := .of_ne (by decide)

theorem IsResponse.login : IsResponse sv r (resErrLogin ++ newline) := .of_ne (by decide)

theorem IsResponse.noUser : IsResponse sv r (resErrNoUser ++ newline) := .of_ne (by decide)

theorem IsResponse.noData : IsResponse sv r (resErrNoData ++ newline) := .of_ne (by decide)

theorem IsResponse.server : IsResponse sv r (resErrServer ++ newline) := .of_ne (by decide)

/-! ## The responses to each command -/

theorem isResponse_auth : IsResponse sv r (sv.storage.auth r.user r.pass).status := by
  rw [MyStorage.auth_eq]
  split
  · exact .reqFmt
  · next hsized =>
    split
    · exact .ok (not_not.1 hsized)
    · exact .login

theorem isResponse_addUser (hcmd : r.cmd = reqReg) :
    IsResponse sv r (sv.storage.addUser r.user r.pass).1.status := by
  rw [MyStorage.addUser_eq]
  split
  · exact .reqFmt
  · next hsized =>
    split
    · next hmem =>
      have htext : resErrUserExists ++ newline ∈ errorTexts := by decide
      exact .error ⟨htext, fun _ => ⟨hcmd, not_not.1 hsized, hmem⟩⟩
    · exact .ok (not_not.1 hsized)

theorem isResponse_saveFile (hsized : WellSized r.user r.pass) :
    IsResponse sv r (sv.saveFile faults).1.status := by
  rw [Server.saveFile_succeeded]
  split
  · exact .server
  · exact .ok hsized

theorem isResponse_setUserData (content : Bytes) :
    IsResponse sv r (sv.storage.setUserData r.user r.pass content).1.status := by
  rw [MyStorage.setUserData_eq]
  split
  · exact .reqFmt
  · next hsized =>
    split
    · exact .ok (not_not.1 hsized).1
    · exact .login

theorem isResponse_getUserData (hcmd : r.cmd = reqGet) (who : Bytes) :
    IsResponse sv r (sv.storage.getUserData r.user r.pass who).payload := by
  rw [MyStorage.getUserData_eq]
  split
  · exact .reqFmt
  · next hsized =>
    split
    · exact .login
    · next hlogin =>
      rcases he : sv.storage.authTable.lookup who with _ | e
      · exact .noUser
      · simp only
        split
        · exact .noData
        · exact .data (.content hcmd ⟨(not_not.1 hsized).1, not_not.1 hlogin⟩ he)

theorem isResponse_getAllUsers (hcmd : r.cmd = reqAll) :
    IsResponse sv r (sv.storage.getAllUsers r.user r.pass).payload := by
  rw [MyStorage.getAllUsers_eq]
  split
  · exact .reqFmt
  · next hsized =>
    split
    · next hlogin => exact .data (.userList hcmd ⟨not_not.1 hsized, hlogin⟩)
    · exact .login

/-- Every command has a response. -/
theorem serve_response (hcmd : r.cmd ∈ commands) :
    ∃ bytes, (sv.serve faults r).1.response = some bytes ∧ IsResponse sv r bytes := by
  simp only [commands, List.mem_cons, List.not_mem_nil, or_false] at hcmd
  rcases hcmd with hcmd | hcmd | hcmd | hcmd | hcmd | hcmd
  · rw [Server.serve_reg faults sv hcmd]
    exact ⟨_, rfl, isResponse_addUser hcmd⟩
  · rw [Server.serve_bye faults sv hcmd]
    exact ⟨_, rfl, isResponse_auth⟩
  · rw [Server.serve_sav faults sv hcmd]
    split
    · next hok =>
      rw [MyStorage.auth_succeeded, decide_eq_true_iff] at hok
      exact ⟨_, rfl, isResponse_saveFile hok.1⟩
    · next hfail =>
      -- A save without credentials is answered as the check of these.
      have hstatus : (sv.storage.auth r.user r.pass).status =
          (sv.storage.auth r.user r.pass).msg := if_neg hfail
      exact ⟨_, rfl, hstatus ▸ isResponse_auth⟩
  · rw [Server.serve_set faults sv hcmd]
    rcases unframe r.msg with _ | content
    · exact ⟨_, rfl, .badMessage⟩
    · exact ⟨_, rfl, isResponse_setUserData content⟩
  · rw [Server.serve_get faults sv hcmd]
    rcases unframe r.msg with _ | who
    · exact ⟨_, rfl, .badMessage⟩
    · exact ⟨_, rfl, isResponse_getUserData hcmd who⟩
  · rw [Server.serve_all faults sv hcmd]
    exact ⟨_, rfl, isResponse_getAllUsers hcmd⟩

/-! ## Every complete request is answered -/

/-- The stream has all the bytes that its header announces. -/
def Complete (stream : Bytes) : Prop :=
  16 ≤ stream.length ∧ 16 + (Header.ofStream stream).announced ≤ stream.length

instance (stream : Bytes) : Decidable (Complete stream) := inferInstanceAs (Decidable (_ ∧ _))

/-- `parse_request` sends a response before it returns; an error, if the command is
    unknown, the lengths are out of range or a credential is empty. -/
def Answered (faults : WriteFaults) (s : Session) (h : Header) : Prop :=
  ∃ stop s' resp, Returns (fun n => parseRequest n faults s) (stop, s') ∧
    s'.conn.sent = s.conn.sent ++ resp ∧ resp ≠ [] ∧
    (h.cmd ∉ commands ∨ ¬h.InRange ∨ h.ulen = 0 ∨ h.plen = 0 → ascii "ERR_" <+: resp)

/-- The list of users is sent with a length of `0` as an `int`. -/
def Overlong (sv : Server) : Prop :=
  (resOk ++ word (.ofNat (MyStorage.userList sv.storage.authTable).length) ++
    MyStorage.userList sv.storage.authTable).length % 2 ^ 32 = 0

/-- Every error starts with `ERR_`. -/
theorem err_isPrefix_of_mem {bytes : Bytes} (h : bytes ∈ errorTexts) : ascii "ERR_" <+: bytes := by
  revert bytes
  decide

theorem length_lt_of_mem {bytes : Bytes} (h : bytes ∈ errorTexts) :
    4 < bytes.length ∧ bytes.length < 2 ^ 32 := by
  revert bytes
  decide

/-- The fields of the request of a stream. -/
theorem ofStream_eq_some {stream : Bytes} (hst : Complete stream)
    (hrange : (Header.ofStream stream).InRange) (hpos : (Header.ofStream stream).announced ≠ 0) :
    ∃ r, Request.ofStream stream = some r ∧ r.cmd = (Header.ofStream stream).cmd ∧
      ((Header.ofStream stream).ulen = 0 ∨ (Header.ofStream stream).plen = 0 →
        ¬WellSized r.user r.pass) := by
  have hgo : ¬(stream.length ≤ 16 ∨ ¬(Header.ofStream stream).InRange ∨
      (Header.ofStream stream).bodyLength = 0) := by
    rw [Header.bodyLength_eq hrange, not_or, not_or, not_not]
    have hlt := Nat.lt_add_of_pos_right (n := 16) (Nat.pos_of_ne_zero hpos)
    exact ⟨Nat.not_le.2 (Nat.lt_of_lt_of_le hlt hst.2), hrange, hpos⟩
  refine ⟨_, by rw [Request.ofStream, if_neg hgo], rfl, ?_⟩
  rintro (h | h) hsized
  · exact hsized.1.1 (by simp only [Header.request, extractString, h]; rfl)
  · exact hsized.2.1 (by simp only [Header.request, extractString, h]; rfl)

/-- A request for a command is answered, unless the list of users is overlong. -/
theorem dispatch_answered (hsv : sv.WellFormed) (hcmd : r.cmd ∈ commands)
    (hover : ¬(r.cmd = reqAll ∧ sv.storage.Valid r.user r.pass ∧ Overlong sv)) {conn : Conn}
    (hsend : conn.SendRecoverable) :
    ∃ stop s' resp, Returns (fun n => dispatch n faults r ⟨conn, sv⟩) (stop, s') ∧
      s'.conn.sent = conn.sent ++ resp ∧ resp ≠ [] ∧
      (¬WellSized r.user r.pass → ascii "ERR_" <+: resp) := by
  obtain ⟨bytes, hresp, hbytes⟩ := @serve_response faults r sv hcmd
  rcases hbytes with herr | hsized | @⟨data, hdata⟩
  · obtain ⟨hpos, hlen⟩ := length_lt_of_mem herr.mem
    obtain ⟨c, hr, hsent⟩ := dispatch_sent hsend hresp hlen
    refine ⟨_, _, bytes, hr, hsent, ?_, fun _ => err_isPrefix_of_mem herr.mem⟩
    exact List.ne_nil_of_length_pos ((Nat.zero_lt_succ 3).trans hpos)
  · obtain ⟨c, hr, hsent⟩ := dispatch_sent hsend hresp (by decide)
    exact ⟨_, _, resOk, hr, hsent, by decide, fun h => absurd hsized h⟩
  · -- Some of the data is sent, unless its length is `0` as an `int`.
    obtain ⟨out, c, hr, -, hsent, hlen⟩ :=
      respond_sent_prefix (resOk ++ word (.ofNat data.length) ++ data) (sv.serve faults r).1.stop
        (s := ⟨conn, (sv.serve faults r).2⟩) hsend
    have hne : (resOk ++ word (.ofNat data.length) ++ data).length % 2 ^ 32 ≠ 0 := by
      rcases hdata with @⟨who, e, _, _, he⟩ | ⟨hall, hvalid⟩
      · have hs : e.content.length ≤ 1048576 := (hsv _ (mem_of_lookup he)).2.content
        rw [List.length_append, List.length_append, length_word, length_resOk]
        omega
      · exact fun h => hover ⟨hall, hvalid, h⟩
    have hsized : WellSized r.user r.pass := by
      rcases hdata with ⟨-, hvalid, -⟩ | ⟨-, hvalid⟩ <;> exact hvalid.1
    refine ⟨_, ⟨c, _⟩, out, dispatch_of_respond hresp hr, hsent, ?_, fun h => absurd hsized h⟩
    rintro rfl
    exact hne hlen.symm

/-- Without a response, what was sent before is all that was sent. -/
theorem not_answered_of_sent_eq {s s' : Session} {stop : Bool} {h : Header}
    (hr : Returns (fun n => parseRequest n faults s) (stop, s'))
    (hsame : s'.conn.sent = s.conn.sent) : ¬Answered faults s h := by
  rintro ⟨_, s'', resp, hr', hresp, hne, -⟩
  obtain ⟨-, rfl⟩ := Prod.mk.inj (hr.unique hr')
  exact hne (List.append_right_eq_self.1 (hresp.symm.trans hsame))

/-- The request of a complete stream is read. -/
theorem readRequest_of_complete {conn : Conn} (hrecv : conn.RecvRecoverable)
    (hst : Complete (delivered conn.recvs)) :
    ∃ c, Returns (fun n => readRequest n conn) (Request.ofStream (delivered conn.recvs), c) ∧
      c.sends = conn.sends ∧ c.sent = conn.sent :=
  readRequest_returns hrecv (.inl hst.1) fun hrange =>
    .inl (by rw [Header.bodyLength_eq hrange]; exact hst.2)

/-- A complete request that is not dispatched is not answered. -/
theorem not_answered_of_none {s : Session} (hrecv : s.conn.RecvRecoverable)
    (hst : Complete (delivered s.conn.recvs))
    (hnone : Request.ofStream (delivered s.conn.recvs) = none) (h : Header) :
    ¬Answered faults s h := by
  obtain ⟨c, hread, -, hsent⟩ := readRequest_of_complete hrecv hst
  rw [hnone] at hread
  exact not_answered_of_sent_eq (parseRequest_returns_false hread) hsent

/-- A stream with lengths out of range, or all zero, has no request. -/
theorem ofStream_eq_none {stream : Bytes}
    (h : ¬((Header.ofStream stream).InRange ∧ (Header.ofStream stream).announced ≠ 0)) :
    Request.ofStream stream = none := by
  rw [Request.ofStream, if_pos]
  by_cases hrange : (Header.ofStream stream).InRange
  · have hzero : (Header.ofStream stream).announced = 0 := by
      by_contra hpos
      exact h ⟨hrange, hpos⟩
    exact .inr (.inr ((Header.bodyLength_eq hrange).trans hzero))
  · exact .inr (.inl hrange)

/-- An unknown command has no handler. -/
theorem not_answered_of_unknown {s : Session} {c : Conn}
    (hread : Returns (fun n => readRequest n s.conn) (some r, c)) (hsent : c.sent = s.conn.sent)
    (hcmd : r.cmd ∉ commands) (h : Header) : ¬Answered faults s h := by
  have hr : Returns (fun n => dispatch n faults r ⟨c, s.server⟩) (false, ⟨c, s.server⟩) := by
    simp only [dispatch_eq, Server.serve_unknown faults s.server hcmd]
    exact returns_of_forall fun _ => rfl
  exact not_answered_of_sent_eq (parseRequest_returns hread hr) hsent

/-- Nothing is sent of an overlong list. -/
theorem not_answered_of_overlong {s : Session} {c : Conn}
    (hread : Returns (fun n => readRequest n s.conn) (some r, c)) (hsent : c.sent = s.conn.sent)
    (hall : r.cmd = reqAll) (hvalid : s.server.storage.Valid r.user r.pass)
    (hover : Overlong s.server) (h : Header) : ¬Answered faults s h := by
  obtain ⟨hsized, hlogin⟩ := hvalid
  have hresp : (s.server.serve faults r).1.response = some (resOk ++
      word (.ofNat (MyStorage.userList s.server.storage.authTable).length) ++
      MyStorage.userList s.server.storage.authTable) := by
    rw [Server.serve_all faults s.server hall, MyStorage.getAllUsers_eq, if_neg (not_not.2 hsized),
      if_pos hlogin]
    rfl
  exact not_answered_of_sent_eq (parseRequest_returns hread
    (dispatch_of_respond hresp (respond_zero hover _ _))) hsent

/-- A complete request is answered exactly if its command is known, its lengths are within
    the limits and not all zero, and it is not a request for an overlong list of users. -/
theorem parseRequest_answered_iff (faults : WriteFaults) {s : Session} (hreach : Reachable s.server)
    (hrecv : s.conn.RecvRecoverable) (hsend : s.conn.SendRecoverable)
    (hst : Complete (delivered s.conn.recvs)) :
    Answered faults s (Header.ofStream (delivered s.conn.recvs)) ↔
      (Header.ofStream (delivered s.conn.recvs)).cmd ∈ commands ∧
      (Header.ofStream (delivered s.conn.recvs)).InRange ∧
      (Header.ofStream (delivered s.conn.recvs)).announced ≠ 0 ∧
      ¬∃ r ∈ Request.ofStream (delivered s.conn.recvs), r.cmd = reqAll ∧
        s.server.storage.Valid r.user r.pass ∧ Overlong s.server := by
  obtain ⟨c, hread, hsends, hsent⟩ := readRequest_of_complete hrecv hst
  by_cases hgo : (Header.ofStream (delivered s.conn.recvs)).InRange ∧
      (Header.ofStream (delivered s.conn.recvs)).announced ≠ 0
  · obtain ⟨hrange, hpos⟩ := hgo
    obtain ⟨r, hr, hcmd, hempty⟩ := ofStream_eq_some hst hrange hpos
    simp only [hr, Option.mem_some_iff, exists_eq_left', hrange, hpos, ne_eq, not_false_eq_true,
      true_and] at hread ⊢
    rw [← hcmd]
    by_cases hknown : r.cmd ∈ commands
    · rw [and_iff_right hknown]
      by_cases hover : r.cmd = reqAll ∧ s.server.storage.Valid r.user r.pass ∧ Overlong s.server
      · refine iff_of_false ?_ (not_not.2 hover)
        exact not_answered_of_overlong hread hsent hover.1 hover.2.1 hover.2.2 _
      · refine iff_of_true ?_ hover
        obtain ⟨stop, s', resp, hr', hresp, hne, herr⟩ := @dispatch_answered faults _ _
          hreach.wellFormed hknown hover _ (hsend.of_sends_eq hsends)
        refine ⟨stop, s', resp, parseRequest_returns hread hr', by rw [hresp, hsent], hne, ?_⟩
        -- The command is known and the lengths are in range, so a credential is empty.
        rintro (h | h | h)
        · exact absurd (hcmd ▸ hknown) h
        · exact absurd hrange h
        · exact herr (hempty h)
    · exact iff_of_false (not_answered_of_unknown hread hsent hknown _) fun h => hknown h.1
  · -- The connection is closed before there is a request.
    have hnone := ofStream_eq_none hgo
    exact iff_of_false (not_answered_of_none hrecv hst hnone _) fun h => hgo ⟨h.2.1, h.2.2.1⟩

/-- A registration is answered. -/
theorem parseRequest_answered_registration :
    Answered .none ⟨.delivering (Client.packet reqReg (ascii "alice") (ascii "pw") []), emptyServer⟩
      (Header.ofStream (Client.packet reqReg (ascii "alice") (ascii "pw") [])) := by
  have hst := delivered_delivering (Client.packet reqReg (ascii "alice") (ascii "pw") [])
  have hreq : Request.ofStream (Client.packet reqReg (ascii "alice") (ascii "pw") []) =
      some ⟨reqReg, ascii "alice", ascii "pw", []⟩ := by
    decide +kernel
  have h := parseRequest_answered_iff .none (s := ⟨.delivering (Client.packet reqReg (ascii "alice")
    (ascii "pw") []), emptyServer⟩) (.start _ _) (Conn.recvRecoverable_delivering _)
    (Conn.sendRecoverable_delivering _) (by rw [hst]; decide +kernel)
  rw [hst, hreq] at h
  refine h.2 ⟨by decide +kernel, by decide +kernel, by decide +kernel, ?_⟩
  rintro ⟨r, hr, hall, -⟩
  cases hr
  exact absurd hall (by decide)

/-- A registration with an empty name and an empty password is not answered. -/
theorem parseRequest_empty_not_answered :
    Reachable emptyServer ∧ Complete (Client.packet reqReg [] [] []) ∧
      ¬Answered .none ⟨.delivering (Client.packet reqReg [] [] []), emptyServer⟩
        (Header.ofStream (Client.packet reqReg [] [] [])) := by
  have hcomplete : Complete (Client.packet reqReg [] [] []) := by decide +kernel
  refine ⟨.start _ _, hcomplete, not_answered_of_none (Conn.recvRecoverable_delivering _) ?_ ?_ _⟩
  · rwa [delivered_delivering]
  · rw [delivered_delivering]
    decide +kernel

/-! ## Errors at the client -/

section Client

variable {c : Conn} {rest : Bytes}

/-- The client takes the rest of an error for 12 bytes long, and fills it up with zeros. -/
theorem getError_returns (hc : c.RecvRecoverable)
    (hend : 12 ≤ (delivered c.recvs).length ∨ ¬c.Interrupted) (response : Bytes) :
    ∃ c', Returns (fun n => Client.getError n response c)
      (response ++ (if delivered c.recvs = [] then [] else zeroFill 12 (delivered c.recvs)),
        c') := by
  obtain ⟨c', hr, -⟩ := get_zeros_returns hc (n := 12) (by decide) hend
  refine ⟨c', hr.bindM ?_⟩
  simp only [ne_eq, length_take_eq_zero_iff, OfNat.ofNat_ne_zero, false_or]
  by_cases hnil : delivered c.recvs = []
  · simp only [hnil, not_true_eq_false, if_false, if_true, List.append_nil]
    exact returns_of_forall fun _ => rfl
  · simp only [hnil, not_false_eq_true, if_true, if_false]
    exact returns_of_forall fun _ => rfl

theorem getError_diverges (hc : c.RecvRecoverable) (hshort : (delivered c.recvs).length < 12)
    (hint : c.Interrupted) (response : Bytes) :
    Diverges fun n => Client.getError n response c :=
  (reliableGetToEofOrN_diverges hc _ (by decide) hshort hint).bindM _

/-- So it only returns the rest of an error as it was sent if this has 12 bytes. -/
theorem getError_returns_iff (hc : c.RecvRecoverable) (hdel : delivered c.recvs = rest)
    (hne : rest ≠ []) (response : Bytes) :
    (∃ c', Returns (fun n => Client.getError n response c) (response ++ rest, c')) ↔
      rest.length = 12 := by
  by_cases hend : 12 ≤ (delivered c.recvs).length ∨ ¬c.Interrupted
  · -- The whole buffer of 12 bytes is returned, whatever was received.
    obtain ⟨c', hret⟩ := getError_returns hc hend response
    rw [hdel, if_neg hne] at hret
    constructor
    · rintro ⟨c'', hr'⟩
      have heq := List.append_cancel_left (Prod.mk.inj (hret.unique hr')).1
      rw [← heq, length_zeroFill]
    · intro h12
      rw [← h12, zeroFill_self] at hret
      exact ⟨c', hret⟩
  · -- Less was sent, and the client never finds the end of it.
    rw [not_or, not_not, Nat.not_le, hdel] at hend
    refine iff_of_false ?_ (Nat.ne_of_lt hend.1)
    rintro ⟨c', hr'⟩
    exact hr'.not_diverges (getError_diverges hc (hdel ▸ hend.1) hend.2 response)

/-- `send_cmd` returns an error as it was sent iff it has 16 bytes. -/
theorem sendCmd_error_length_iff {bytes cmd user password msg : Bytes} (hsend : c.SendRecoverable)
    (hrecv : c.RecvRecoverable) (hdel : delivered c.recvs = bytes) (herr : ascii "ERR_" <+: bytes)
    (hlen : 4 < bytes.length) :
    (∃ c', Returns (fun n => Client.sendCmd n cmd user password msg c) (bytes, c')) ↔
      bytes.length = 16 := by
  obtain ⟨rest, rfl⟩ := herr
  obtain ⟨_, c₁, hsent, -, -, hrecvs, -⟩ :=
    reliableSend_sent hsend (Client.packet cmd user password msg)
  have hrecv₁ : c₁.RecvRecoverable := fun e he => hrecv e (hrecvs ▸ he)
  rw [← hrecvs] at hdel
  obtain ⟨c₂, hdel₂, hrecv₂, -, -, hiff, -⟩ :=
    getResponse_code hrecv₁ rfl (hdel ▸ List.prefix_append (ascii "ERR_") rest)
  simp only [getRest_err] at hiff
  have hdrop : (ascii "ERR_" ++ rest).drop 4 = rest := rfl
  rw [hdel, hdrop] at hdel₂
  have hne : rest ≠ [] := by
    rintro rfl
    exact absurd hlen (by decide)
  have hcmd : ∀ r, Returns (fun n => Client.sendCmd n cmd user password msg c) r ↔
      Returns (fun n => Client.getError n (ascii "ERR_") c₂) r :=
    fun r => hsent.bindM_iff.trans (hiff r)
  simp only [hcmd, getError_returns_iff hrecv₂ hdel₂ hne, List.length_append]
  exact ⟨fun h => by rw [h]; rfl,
    fun h => Nat.add_left_cancel (h.trans rfl : 4 + rest.length = 4 + 12)⟩

end Client

/-- Of the errors, only that of a name that is taken has 16 bytes. -/
theorem length_eq_iff_of_mem {bytes : Bytes} (h : bytes ∈ errorTexts) :
    bytes.length = 16 ↔ bytes = resErrUserExists ++ newline := by
  revert bytes
  decide

/-- What starts with `OK__` is not an error. -/
theorem not_err_isPrefix_of_ok {out bytes : Bytes} (hout : out <+: resOk ++ bytes) :
    ¬ascii "ERR_" <+: out := by
  intro herr
  have hpre := List.prefix_of_prefix_length_le (herr.trans hout) (List.prefix_append resOk bytes)
    (Nat.le_refl 4)
  exact absurd (hpre.eq_of_length rfl) (by decide)

/-- An error that a handler has sent is one of the errors of its request; the name is taken
    iff it has 16 bytes. -/
theorem dispatch_error {conn : Conn} (hsend : conn.SendRecoverable) {stop : Bool} {s' : Session}
    (hr : Returns (fun n => dispatch n faults r ⟨conn, sv⟩) (stop, s')) {bytes : Bytes}
    (hsent : s'.conn.sent = conn.sent ++ bytes) (herr : ascii "ERR_" <+: bytes) :
    bytes ∈ errorTexts ∧ (bytes.length = 16 ↔ NameTaken sv r) := by
  by_cases hcmd : r.cmd ∈ commands
  · obtain ⟨text, hresp, htext⟩ := @serve_response faults r sv hcmd
    obtain ⟨out, c, hr', hout, hsent', hmod⟩ := respond_sent_prefix text
      (sv.serve faults r).1.stop (s := ⟨conn, (sv.serve faults r).2⟩) hsend
    obtain ⟨-, rfl⟩ := Prod.mk.inj (hr.unique (dispatch_of_respond hresp hr'))
    obtain rfl : out = bytes := List.append_cancel_left (hsent'.symm.trans hsent)
    rcases htext with htext | _ | _
    · -- An error is short enough to be sent whole.
      obtain rfl : out = text := by
        have hlt := (length_lt_of_mem htext.mem).2
        have hle := hout.length_le
        exact hout.eq_of_length (by omega)
      refine ⟨htext.mem, (length_eq_iff_of_mem htext.mem).trans ⟨htext.taken, fun h => ?_⟩⟩
      rw [Server.serve_reg faults sv h.1, MyStorage.addUser_eq, if_neg (not_not.2 h.2.1),
        if_pos h.2.2] at hresp
      exact (Option.some.inj hresp).symm
    · exact absurd herr (not_err_isPrefix_of_ok (hout.trans (List.prefix_append resOk [])))
    · rw [List.append_assoc] at hout
      exact absurd herr (not_err_isPrefix_of_ok hout)
  · -- An unknown command has no response.
    have hnone : Returns (fun n => dispatch n faults r ⟨conn, sv⟩) (false, ⟨conn, sv⟩) := by
      simp only [dispatch_eq, Server.serve_unknown faults sv hcmd]
      exact returns_of_forall fun _ => rfl
    obtain ⟨-, rfl⟩ := Prod.mk.inj (hr.unique hnone)
    rw [List.append_right_eq_self.1 hsent.symm] at herr
    exact absurd herr (by decide)

/-- The client returns the error of a request exactly as the server sent it iff the request
    registers a name that is taken. -/
theorem sendCmd_error_iff {server : Conn} (hserver : server.SendRecoverable) {stop : Bool}
    {s' : Session} (hr : Returns (fun n => dispatch n faults r ⟨server, sv⟩) (stop, s'))
    {bytes : Bytes} (hsent : s'.conn.sent = server.sent ++ bytes) (herr : ascii "ERR_" <+: bytes)
    {client : Conn} (hsend : client.SendRecoverable) (hrecv : client.RecvRecoverable)
    (hdel : delivered client.recvs = bytes) :
    (∃ client', Returns (fun n => Client.sendCmd n r.cmd r.user r.pass r.msg client)
      (bytes, client')) ↔ NameTaken sv r := by
  obtain ⟨hmem, hiff⟩ := dispatch_error hserver hr hsent herr
  rw [← hiff]
  exact sendCmd_error_length_iff hsend hrecv hdel herr (length_lt_of_mem hmem).1

/-- The client returns the error of a second registration of `alice`. -/
theorem sendCmd_error_userExists : ∃ client',
    Returns (fun n => Client.sendCmd n reqReg (ascii "alice") (ascii "pw") []
      (.delivering (resErrUserExists ++ newline))) (resErrUserExists ++ newline, client') := by
  have hresp : (aliceServer.serve .none ⟨reqReg, ascii "alice", ascii "pw", []⟩).1.response =
      some (resErrUserExists ++ newline) := by
    decide +kernel
  obtain ⟨c, hr, hsent⟩ := dispatch_sent (Conn.sendRecoverable_delivering []) hresp (by decide)
  exact (sendCmd_error_iff (Conn.sendRecoverable_delivering []) hr hsent (by decide)
    (Conn.sendRecoverable_delivering _) (Conn.recvRecoverable_delivering _)
    (delivered_delivering _)).2 (by decide +kernel)

/-- The client does not return the error of a wrong password of `alice` as it was sent. -/
theorem sendCmd_error_login :
    Reachable aliceServer ∧
    (∃ s', Returns (fun n => dispatch n .none ⟨reqSav, ascii "alice", ascii "no", []⟩
        ⟨.delivering [], aliceServer⟩) (false, s') ∧ s'.conn.sent = resErrLogin ++ newline) ∧
    ¬∃ client', Returns (fun n => Client.sendCmd n reqSav (ascii "alice") (ascii "no") []
      (.delivering (resErrLogin ++ newline))) (resErrLogin ++ newline, client') := by
  have hserve : (aliceServer.serve .none ⟨reqSav, ascii "alice", ascii "no", []⟩).1 =
      ⟨some (resErrLogin ++ newline), false⟩ := by
    decide +kernel
  obtain ⟨c, hr, hsent⟩ := dispatch_sent (Conn.sendRecoverable_delivering [])
    (congrArg Reply.response hserve) (by decide)
  rw [hserve] at hr
  refine ⟨reachable_aliceServer, ⟨_, hr, hsent⟩, ?_⟩
  rw [sendCmd_error_length_iff (Conn.sendRecoverable_delivering _)
    (Conn.recvRecoverable_delivering _) (delivered_delivering _) (by decide) (by decide)]
  decide

end UserDirectory
