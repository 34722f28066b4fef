import UserDirectory.Requests

/-!
# Profiles

The way of a profile from the client to the table: the message of `req_set`, the
packet of `send_cmd`, the limits of `parse_request`, the handler and the storage.

`parse_request` checks the limit of a profile on the message, which has four
bytes more than the profile. `setProfile_accepted_iff`: so profiles of these last
four lengths are refused, without a response, and all others are stored.
-/

namespace UserDirectory

open Fuel Socket Stdio Client

/-- On the connection `conn`, the content `content` is stored for the user `u`, whose entry
    was `e`, and the response is `OK__`. -/
def Accepted (faults : WriteFaults) (conn : Conn) (sv : Server) (u : Bytes) (e : AuthTableEntry)
    (content : Bytes) : Prop :=
  ∃ s', Returns (fun n => parseRequest n faults ⟨conn, sv⟩) (false, s') ∧
    s'.server.storage.authTable.lookup u = some { e with content := content } ∧
    s'.conn.sent = conn.sent ++ resOk

/-- A message never wraps around the range of a length. -/
theorem length_setMsg_lt {content : Bytes} (h : content.length ≤ lenProfileFile) :
    4 + content.length < 2 ^ 32 := by
  have hbound : 4 + lenProfileFile < 2 ^ 32 := by decide
  exact lt_of_le_of_lt (Nat.add_le_add_left h 4) hbound

theorem unframe_setMsg {content : Bytes} (h : content.length ≤ lenProfileFile) :
    unframe (setMsg content) = some content :=
  unframe_eq_some_iff.2 ⟨setMsg_eq content, length_setMsg_lt h⟩

theorem length_setMsg (content : Bytes) : (setMsg content).length = 4 + content.length := by
  rw [setMsg_eq, List.length_append, length_word]

theorem content_le {u p content : Bytes} (h : Fits u p (setMsg content)) :
    content.length ≤ lenProfileFile := by
  have hmsg := h.msg
  rw [length_setMsg] at hmsg
  exact (Nat.le_add_left _ _).trans hmsg

section

variable {faults : WriteFaults} {conn : Conn} {sv : Server} {u p content : Bytes}
  {e : AuthTableEntry}

/-- A message that is too long is refused, and no response is sent. -/
theorem not_accepted_of_long (hrecv : conn.RecvRecoverable)
    (hdel : delivered conn.recvs = packet reqSet u p (setMsg content))
    (hc : content.length ≤ lenProfileFile) (hlong : lenProfileFile < 4 + content.length) :
    ¬Accepted faults conn sv u e content := by
  -- The message counts four bytes more than the profile.
  have hout : ¬(Header.ofStream (delivered conn.recvs)).InRange := by
    rw [hdel]
    refine not_inRange_packet rfl ?_ ?_ <;> rw [length_setMsg]
    · exact hlong
    · exact length_setMsg_lt hc
  have h16 : 16 ≤ (delivered conn.recvs).length := by
    rw [hdel, length_packet rfl]
    exact Nat.le_add_right _ _
  have hnone : Request.ofStream (delivered conn.recvs) = none := by
    rw [Request.ofStream, if_pos (.inr (.inl hout))]
  obtain ⟨c, hread, -, hsent⟩ := readRequest_returns hrecv (.inl h16) fun h => absurd h hout
  rw [hnone] at hread
  rintro ⟨s', hs', -, hresp⟩
  obtain ⟨-, rfl⟩ := Prod.mk.inj ((parseRequest_returns_false (s := ⟨conn, sv⟩) hread).unique hs')
  rw [hsent] at hresp
  exact absurd (List.append_right_eq_self.1 hresp.symm) (by decide)

/-- Credentials of the wrong size are refused by the storage. -/
theorem not_accepted_of_not_wellSized (hrecv : conn.RecvRecoverable) (hsend : conn.SendRecoverable)
    (hdel : delivered conn.recvs = packet reqSet u p (setMsg content))
    (hfits : Fits u p (setMsg content)) (hsized : ¬WellSized u p) :
    ¬Accepted faults conn sv u e content := by
  have hne : u ++ (p ++ setMsg content) ≠ [] := by
    intro h
    have hlen := congrArg List.length h
    rw [List.length_append, List.length_append, length_setMsg, List.length_nil] at hlen
    omega
  have hresp : (sv.serve faults ⟨reqSet, u, p, setMsg content⟩).1.response =
      some (resErrReqFmt ++ newline) := by
    rw [Server.serve_set faults sv rfl, unframe_setMsg (content_le hfits)]
    simp only [MyStorage.setUserData_eq, hsized, false_and, not_false_eq_true, if_true]
    rfl
  obtain ⟨c, hread, hsends, hsent⟩ := packet_received rfl hfits hne hrecv hdel
  obtain ⟨c', hr, hsent'⟩ := dispatch_sent (hsend.of_sends_eq hsends) hresp (by decide)
  rintro ⟨s', hs', -, hok⟩
  obtain ⟨-, rfl⟩ := Prod.mk.inj ((parseRequest_returns (s := ⟨conn, sv⟩) hread hr).unique hs')
  rw [hsent', hsent] at hok
  exact absurd (List.append_cancel_left hok) (by decide)

/-- A profile of a user is stored if its message is within the limit. -/
theorem accepted_of_fits (hrecv : conn.RecvRecoverable) (hsend : conn.SendRecoverable)
    (hdel : delivered conn.recvs = packet reqSet u p (setMsg content))
    (hfits : Fits u p (setMsg content)) (hsized : WellSized u p)
    (he : sv.storage.authTable.lookup u = some e) (hp : e.password = p) :
    Accepted faults conn sv u e content := by
  have hlen := content_le hfits
  have hne : u ++ (p ++ setMsg content) ≠ [] := by
    simp only [ne_eq, List.append_eq_nil_iff, hsized.1.1, false_and, not_false_eq_true]
  have hupd : sv.Updates ⟨reqSet, u, p, setMsg content⟩ content :=
    ⟨rfl, ⟨hsized, e, he, hp⟩, unframe_setMsg hlen, hlen⟩
  have hserve := @Server.serve_of_updates faults _ _ _ hupd
  obtain ⟨c, hread, hsends, hsent⟩ := packet_received rfl hfits hne hrecv hdel
  obtain ⟨c', hr, hsent'⟩ := dispatch_sent (hsend.of_sends_eq hsends)
    (congrArg (fun x => x.1.response) hserve) (by decide)
  rw [hserve] at hr
  refine ⟨_, parseRequest_returns hread hr, ?_, ?_⟩
  · rw [MyStorage.lookup_withContent, Function.update_self, he, Option.map_some]
  · rw [hsent', hsent]

end

/-- The request of the client for a profile of a registered user, once delivered, is accepted
    exactly if the message, with its length, is within the limit, and neither the name nor
    the password is empty. -/
theorem setProfile_accepted_iff (faults : WriteFaults) {sv : Server} (hsv : Reachable sv)
    {u p : Bytes} {e : AuthTableEntry} (he : sv.storage.authTable.lookup u = some e)
    (hp : e.password = p) {content : Bytes} (hc : content.length ≤ lenProfileFile)
    {conn : Conn} (hrecv : conn.RecvRecoverable) (hsend : conn.SendRecoverable)
    (hdel : delivered conn.recvs = packet reqSet u p (setMsg content)) :
    Accepted faults conn sv u e content ↔
      4 + content.length ≤ lenProfileFile ∧ u ≠ [] ∧ p ≠ [] := by
  obtain ⟨hkey, hs⟩ := hsv.wellFormed _ (AssocList.mem_of_lookup he)
  obtain rfl : u = e.username := hkey
  subst hp
  by_cases hlong : 4 + content.length ≤ lenProfileFile
  · -- The credentials are those of an entry, so only an empty one can be of the wrong size.
    have hfits : Fits e.username e.password (setMsg content) :=
      ⟨hs.username, hs.password, (length_setMsg content).symm ▸ hlong⟩
    have hsized : WellSized e.username e.password ↔ e.username ≠ [] ∧ e.password ≠ [] := by
      simp only [WellSized, hs.username, hs.password, and_true]
    rw [and_iff_right hlong, ← hsized]
    refine ⟨fun h => ?_, fun h => accepted_of_fits hrecv hsend hdel hfits h he rfl⟩
    by_contra hsized
    exact not_accepted_of_not_wellSized hrecv hsend hdel hfits hsized h
  · refine iff_of_false ?_ fun h => hlong h.1
    exact not_accepted_of_long hrecv hdel hc (Nat.lt_of_not_le hlong)

/-- A short profile of `alice` is stored. -/
theorem setProfile_accepted_alice :
    Accepted .none
      (.delivering (packet reqSet (ascii "alice") (ascii "pw") (setMsg (ascii "hello"))))
      aliceServer (ascii "alice") ⟨ascii "alice", ascii "pw", []⟩ (ascii "hello") :=
  (setProfile_accepted_iff .none reachable_aliceServer lookup_aliceServer rfl (by decide)
    (Conn.recvRecoverable_delivering _) (Conn.sendRecoverable_delivering _)
    (delivered_delivering _)).2 (by decide)

/-- A profile of `alice` of the largest size allowed is not stored. -/
theorem setProfile_largest_not_accepted :
    Reachable aliceServer ∧
    aliceServer.storage.authTable.lookup (ascii "alice") = some ⟨ascii "alice", ascii "pw", []⟩ ∧
    (List.replicate lenProfileFile (0 : UInt8)).length = lenProfileFile ∧
    ¬Accepted .none (.delivering (packet reqSet (ascii "alice") (ascii "pw")
        (setMsg (List.replicate lenProfileFile 0))))
      aliceServer (ascii "alice") ⟨ascii "alice", ascii "pw", []⟩
      (List.replicate lenProfileFile 0) := by
  refine ⟨reachable_aliceServer, lookup_aliceServer, List.length_replicate, ?_⟩
  have hlen : (List.replicate lenProfileFile (0 : UInt8)).length = lenProfileFile :=
    List.length_replicate
  exact not_accepted_of_long (Conn.recvRecoverable_delivering _) (delivered_delivering _) hlen.le
    (by rw [hlen]; decide)

end UserDirectory
