import UserDirectory.Reachable

/-!
# Requests of the client

`send_cmd` (`client/requests.cc`), which sends a request and takes the response
of the server, and the messages of the requests.

* `ofStream_packet`: the request of a packet is the one it was assembled from.
* `packet_received`: whatever pieces a packet is sent and received in, the
  server reads that request.
-/

namespace UserDirectory

open Fuel Socket CInt LittleEndian Stdio

namespace Client

/-- Append the size of a value, as a little-endian 4-byte value. -/
def addSize (res t : Bytes) : Bytes :=
  let size := UInt32.ofNat t.length
  res ++ [(size &&& 0xFF).toUInt8, ((size >>> 8) &&& 0xFF).toUInt8,
    ((size >>> 16) &&& 0xFF).toUInt8, ((size >>> 24) &&& 0xFF).toUInt8]

/-- Extract a 4-byte little-endian length from a buffer. -/
def extractLength (buf : Bytes) (start : ℕ) : UInt32 :=
  (List.range 4).foldl
    (fun len i => len ||| ((buf.getD (start + i) 0).toUInt32 <<< UInt32.ofNat (8 * i))) 0

/-- The packet assembled by `send_cmd`. -/
def packet (cmd user password msg : Bytes) : Bytes :=
  let packet := [] ++ cmd
  let packet := addSize packet user
  let packet := addSize packet password
  let packet := addSize packet msg
  let packet := packet ++ user
  let packet := packet ++ password
  packet ++ msg

/-- The step of `send_cmd` that takes the rest of an error. -/
def getError (fuel : ℕ) (response : Bytes) : Io Bytes := do
  let (got, errorRest) ← reliableGetToEofOrN fuel (List.replicate 12 0) 12
  -- The whole buffer is returned, however much of it was received.
  if got ≠ 0 then return response ++ errorRest
  return response

/-- The step of `send_cmd` that takes the rest of a success. -/
def getSuccess (fuel : ℕ) (response : Bytes) : Io Bytes := do
  let (got, lenBytes) ← reliableGetToEofOrN fuel (List.replicate 4 0) 4
  if got = 0 then return response
  let dataLen := extractLength lenBytes 0
  let response := response ++ lenBytes
  if 0 < dataLen then
    let data := List.replicate dataLen.toNat 0
    let (got, data) ← reliableGetToEofOrN fuel data (int32 dataLen.toNat)
    if got = 0 then return []
    return response ++ data
  return response

/-- The part of `send_cmd` that takes the response, after the packet. -/
def getResponse (fuel : ℕ) : Io Bytes := do
  let (got, response) ← reliableGetToEofOrN fuel (List.replicate 4 0) 4
  if got = 0 then return []
  if response = ascii "ERR_" then getError fuel response
  else if response = resOk then getSuccess fuel response
  else return []

/-- Send a request to the server, then take the response and return it. -/
def sendCmd (fuel : ℕ) (cmd user password msg : Bytes) : Io Bytes := do
  let sent ← reliableSend fuel (packet cmd user password msg)
    (int32 (packet cmd user password msg).length)
  if !sent then return []
  getResponse fuel

/-- The message of `req_set`, with the contents of the file. -/
def setMsg (fileContents : Bytes) : Bytes :=
  let msg := addSize [] fileContents
  msg ++ fileContents

/-- The message of `req_get`. -/
def getMsg (getname : Bytes) : Bytes :=
  let msg := addSize [] getname
  msg ++ getname

end Client

/-! ## Packets -/

open Client

theorem client_addSize_eq (res t : Bytes) :
    Client.addSize res t = res ++ word (.ofNat t.length) := by
  simp only [Client.addSize, encode_word, word]

theorem setMsg_eq (fileContents : Bytes) :
    setMsg fileContents = word (.ofNat fileContents.length) ++ fileContents := by
  rw [setMsg, client_addSize_eq, List.nil_append]

theorem packet_eq (cmd user password msg : Bytes) :
    packet cmd user password msg =
      cmd ++ (word (.ofNat user.length) ++ (word (.ofNat password.length) ++
        (word (.ofNat msg.length) ++ (user ++ (password ++ msg))))) := by
  simp only [packet, client_addSize_eq, List.nil_append, List.append_assoc]

theorem length_packet {cmd : Bytes} (hcmd : cmd.length = 4) (user password msg : Bytes) :
    (packet cmd user password msg).length = 16 + (user.length + password.length + msg.length) := by
  simp only [packet_eq, List.length_append, length_word, hcmd]
  omega

/-- A word at the iterator is extracted. -/
theorem extractSize_word (n : UInt32) (it : Bytes) : extractSize (word n ++ it) = (n, it) := by
  rw [extractSize, List.take_left' (length_word n), List.drop_left' (length_word n), decode_word,
    UInt32.ofNat_toNat]

section Packet

variable {cmd user password msg : Bytes}

/-- A packet is a header with the lengths of its fields, and the fields. -/
theorem packet_split (hcmd : cmd.length = 4) : ∃ header,
    packet cmd user password msg = header ++ (user ++ (password ++ msg)) ∧ header.length = 16 ∧
      extractHeader header =
        ⟨cmd, .ofNat user.length, .ofNat password.length, .ofNat msg.length⟩ := by
  refine ⟨cmd ++ (word (.ofNat user.length) ++ (word (.ofNat password.length) ++
    (word (.ofNat msg.length) ++ []))), ?_, ?_, ?_⟩
  · simp only [packet_eq, List.append_assoc, List.append_nil]
  · simp only [List.length_append, length_word, hcmd, List.length_nil]
  · simp only [extractHeader, extractString, List.take_left' hcmd, List.drop_left' hcmd,
      extractSize_word]

/-- The fields of a request are no longer than the limits. -/
structure Fits (user password msg : Bytes) : Prop where
  user : user.length ≤ lenUname
  password : password.length ≤ lenPassword
  msg : msg.length ≤ lenProfileFile

/-- What arrives of a packet has its header, if it is long enough. -/
theorem headerOfStream_front (hcmd : cmd.length = 4) {front : Bytes}
    (hfront : front <+: packet cmd user password msg) (h16 : 16 ≤ front.length) :
    Header.ofStream front =
      ⟨cmd, .ofNat user.length, .ofNat password.length, .ofNat msg.length⟩ := by
  obtain ⟨header, hsplit, hlen, hheader⟩ := @packet_split cmd user password msg hcmd
  have hpre : header <+: front := by
    refine List.prefix_of_prefix_length_le ?_ hfront (hlen ▸ h16)
    rw [hsplit]
    exact List.prefix_append _ _
  obtain ⟨rest, rfl⟩ := hpre
  rw [Header.ofStream, zeroFill_append hlen, hheader]

/-- A packet whose message is too long is refused. -/
theorem not_inRange_packet (hcmd : cmd.length = 4) (hlong : lenProfileFile < msg.length)
    (hmsg : msg.length < 2 ^ 32) : ¬(Header.ofStream (packet cmd user password msg)).InRange := by
  have h16 : 16 ≤ (packet cmd user password msg).length := by
    rw [length_packet hcmd]
    exact Nat.le_add_right _ _
  rw [headerOfStream_front hcmd List.prefix_rfl h16, not_inRange_iff,
    UInt32.toNat_ofNat_of_lt' hmsg]
  exact .inr (.inr hlong)

theorem packet_lt (hcmd : cmd.length = 4) (h : Fits user password msg) :
    (packet cmd user password msg).length < 2 ^ 32 := by
  have hbound : 16 + (lenUname + lenPassword + lenProfileFile) < 2 ^ 32 := by decide
  rw [length_packet hcmd]
  exact lt_of_le_of_lt (Nat.add_le_add_left
    (Nat.add_le_add (Nat.add_le_add h.user h.password) h.msg) 16) hbound

/-- The header of a packet announces the lengths of its fields. -/
theorem headerOfStream_packet (hcmd : cmd.length = 4) (h : Fits user password msg) :
    (Header.ofStream (packet cmd user password msg)).InRange ∧
      (Header.ofStream (packet cmd user password msg)).bodyLength =
        (user ++ (password ++ msg)).length := by
  obtain ⟨header, hsplit, hlen, hheader⟩ := @packet_split cmd user password msg hcmd
  have hrange : (Header.ofStream (packet cmd user password msg)).InRange ∧
      (Header.ofStream (packet cmd user password msg)).ulen.toNat = user.length ∧
      (Header.ofStream (packet cmd user password msg)).plen.toNat = password.length ∧
      (Header.ofStream (packet cmd user password msg)).mlen.toNat = msg.length := by
    rw [hsplit, Header.ofStream, zeroFill_append hlen, hheader, Header.InRange,
      toNat_ofNat_length h.user, toNat_ofNat_length h.password, toNat_ofNat_length h.msg]
    exact ⟨⟨h.user, h.password, h.msg⟩, rfl, rfl, rfl⟩
  obtain ⟨hrange, hu, hp, hm⟩ := hrange
  refine ⟨hrange, ?_⟩
  rw [Header.bodyLength_eq hrange, Header.announced, hu, hp, hm, List.length_append,
    List.length_append, Nat.add_assoc]

/-- The request of a packet is the one it was assembled from. -/
theorem ofStream_packet (hcmd : cmd.length = 4) (h : Fits user password msg)
    (hne : user ++ (password ++ msg) ≠ []) :
    Request.ofStream (packet cmd user password msg) = some ⟨cmd, user, password, msg⟩ := by
  obtain ⟨hrange, hbody⟩ := headerOfStream_packet hcmd h
  obtain ⟨header, hsplit, hlen, hheader⟩ := @packet_split cmd user password msg hcmd
  have hshort : ¬(packet cmd user password msg).length ≤ 16 := by
    have hpos := List.length_pos_of_ne_nil hne
    rw [hsplit, List.length_append]
    omega
  -- The server gets as far as the body, which is that of the packet.
  have hgo : ¬((packet cmd user password msg).length ≤ 16 ∨
      ¬(Header.ofStream (packet cmd user password msg)).InRange ∨
      (Header.ofStream (packet cmd user password msg)).bodyLength = 0) := by
    simp only [hshort, hrange, hbody, List.length_eq_zero_iff, hne, not_true_eq_false, or_self,
      not_false_eq_true]
  rw [Request.ofStream, if_neg hgo, hbody]
  rw [hsplit, Header.ofStream, zeroFill_append hlen, List.drop_left' hlen, zeroFill_self, hheader]
  simp only [Header.request, extractString, toNat_ofNat_length h.user,
    toNat_ofNat_length h.password, toNat_ofNat_length h.msg, List.take_left, List.drop_left,
    List.take_length]

/-- The server reads the request of a packet, whatever pieces it arrives in. -/
theorem packet_received (hcmd : cmd.length = 4) (h : Fits user password msg)
    (hne : user ++ (password ++ msg) ≠ []) {conn : Conn} (hconn : conn.RecvRecoverable)
    (hdel : delivered conn.recvs = packet cmd user password msg) :
    ∃ c, Returns (fun n => readRequest n conn) (some ⟨cmd, user, password, msg⟩, c) ∧
      c.sends = conn.sends ∧ c.sent = conn.sent := by
  have hlen := @length_packet cmd hcmd user password msg
  have hbody := (headerOfStream_packet hcmd h).2
  rw [← ofStream_packet hcmd h hne, ← hdel]
  refine readRequest_returns hconn (.inl ?_) fun _ => .inl ?_
  · rw [hdel, hlen]
    exact Nat.le_add_right _ _
  · rw [hdel, hlen, hbody, List.length_append, List.length_append, Nat.add_assoc]

/-- The request of a packet is served. -/
theorem parseRequest_packet (hcmd : cmd.length = 4) (h : Fits user password msg)
    (hne : user ++ (password ++ msg) ≠ []) (faults : WriteFaults) (sv : Server) : ∃ conn c c' stop,
      Returns (fun n => readRequest n conn) (some ⟨cmd, user, password, msg⟩, c) ∧
      Returns (fun n => parseRequest n faults ⟨conn, sv⟩)
        (stop, ⟨c', (sv.serve faults ⟨cmd, user, password, msg⟩).2⟩) := by
  obtain ⟨c, hread, -⟩ := packet_received hcmd h hne
    (Conn.recvRecoverable_delivering _) (delivered_delivering _)
  obtain ⟨c', hr⟩ := dispatch_returns faults ⟨cmd, user, password, msg⟩ ⟨c, sv⟩
  exact ⟨_, c, c', _, hread, parseRequest_returns (s := ⟨_, sv⟩) hread hr⟩

/-- Every request within the limits can be served. -/
theorem Reachable.serve {sv : Server} (hsv : Reachable sv) (faults : WriteFaults)
    (hcmd : cmd.length = 4) (h : Fits user password msg) (hne : user ++ (password ++ msg) ≠ []) :
    Reachable (sv.serve faults ⟨cmd, user, password, msg⟩).2 := by
  obtain ⟨conn, c, c', stop, -, hparse⟩ := parseRequest_packet hcmd h hne faults sv
  exact .parseRequest (s := ⟨conn, sv⟩) hsv hparse

end Packet

/-! ## The response -/

/-- What `send_cmd` does after the code of the response. -/
def Client.getRest (fuel : ℕ) (code : Bytes) : Io Bytes :=
  if code = ascii "ERR_" then getError fuel code
  else if code = resOk then getSuccess fuel code
  else pure []

theorem getRest_err (fuel : ℕ) : getRest fuel (ascii "ERR_") = getError fuel (ascii "ERR_") :=
  if_pos rfl

theorem getRest_ok (fuel : ℕ) : getRest fuel resOk = getSuccess fuel resOk := by
  rw [getRest, if_neg (by decide), if_pos rfl]

/-- The client receives the code of the response, and goes on with what follows. -/
theorem getResponse_code {c : Conn} (hc : c.RecvRecoverable) {code : Bytes}
    (hlen : code.length = 4) (hcode : code <+: delivered c.recvs) :
    ∃ c', delivered c'.recvs = (delivered c.recvs).drop 4 ∧ c'.RecvRecoverable ∧
      (c'.Interrupted ↔ c.Interrupted) ∧ c'.sent = c.sent ∧
      (∀ r, Returns (fun n => getResponse n c) r ↔ Returns (fun n => getRest n code c') r) ∧
      ((Diverges fun n => getRest n code c') → Diverges fun n => getResponse n c) := by
  obtain ⟨rest, hrest⟩ := hcode
  obtain ⟨c', hr, hdel, hrec, hint, -, hsent⟩ := get_zeros_returns hc (n := 4) (by decide)
    (.inl (by rw [← hrest, List.length_append, hlen]; exact Nat.le_add_right _ _))
  have hgot : ¬(((List.take 4 (delivered c.recvs)).length : ℤ) = 0) := by
    rw [← hrest, List.take_left' hlen, hlen]
    decide
  rw [← hrest, zeroFill_append hlen, hrest] at hr
  refine ⟨c', hdel, hrec, hint, hsent, fun r => hr.bindM_iff.trans ?_, fun h => ?_⟩
  · simp only [if_neg hgot]
    exact Iff.rfl
  · refine Diverges.bindM_right (reliableGetToEofOrN_eq hr) ?_
    simp only [if_neg hgot]
    exact h

/-- The request of `alice` fits. -/
theorem fits_alice : Fits (ascii "alice") (ascii "pw") [] := ⟨by decide, by decide, by decide⟩

/-- A server with the user `alice`. -/
def aliceServer : Server :=
  (emptyServer.serve .none ⟨reqReg, ascii "alice", ascii "pw", []⟩).2

theorem reachable_aliceServer : Reachable aliceServer :=
  .serve (.start _ _) .none rfl fits_alice (by decide)

theorem lookup_aliceServer : aliceServer.storage.authTable.lookup (ascii "alice") =
    some ⟨ascii "alice", ascii "pw", []⟩ := by
  decide +kernel

/-- The handler of each command. -/
def handlers (faults : WriteFaults) : List (Bytes × (ℕ → Bytes → Bytes → Bytes → Action Bool)) :=
  [(reqReg, handleReg), (reqBye, handleBye), (reqSav, fun fuel => handleSav fuel faults),
    (reqSet, handleSet), (reqGet, handleGet), (reqAll, handleAll)]

/-- A request for a command is dispatched to its handler. -/
theorem dispatch_of_mem_handlers {faults : WriteFaults} {cmd : Bytes}
    {handler : ℕ → Bytes → Bytes → Bytes → Action Bool} (h : (cmd, handler) ∈ handlers faults)
    (fuel : ℕ) (user pass msg : Bytes) :
    dispatch fuel faults ⟨cmd, user, pass, msg⟩ = handler fuel user pass msg := by
  simp only [handlers, List.mem_cons, Prod.mk.injEq, List.not_mem_nil, or_false] at h
  rcases h with ⟨rfl, rfl⟩ | ⟨rfl, rfl⟩ | ⟨rfl, rfl⟩ | ⟨rfl, rfl⟩ | ⟨rfl, rfl⟩ | ⟨rfl, rfl⟩ <;> rfl

theorem length_of_mem_handlers {faults : WriteFaults} {cmd : Bytes}
    {handler : ℕ → Bytes → Bytes → Bytes → Action Bool} (h : (cmd, handler) ∈ handlers faults) :
    cmd.length = 4 := by
  simp only [handlers, List.mem_cons, Prod.mk.injEq, List.not_mem_nil, or_false] at h
  rcases h with ⟨rfl, -⟩ | ⟨rfl, -⟩ | ⟨rfl, -⟩ | ⟨rfl, -⟩ | ⟨rfl, -⟩ | ⟨rfl, -⟩ <;> rfl

/-- However a connection cuts the packet of a request, `send_cmd` sends it whole; and however
    another connection cuts what was sent, `parse_request` calls the handler of the command
    with the fields of the request. -/
theorem request_roundTrip {faults : WriteFaults} {cmd : Bytes}
    {handler : ℕ → Bytes → Bytes → Bytes → Action Bool} (hcmd : (cmd, handler) ∈ handlers faults)
    {user pass msg : Bytes} (h : Fits user pass msg) (hne : ¬(user = [] ∧ pass = [] ∧ msg = []))
    {client : Conn} (hclient : client.SendRecoverable) :
    ∃ out client', Returns (fun n => reliableSend n (packet cmd user pass msg)
        (int32 (packet cmd user pass msg).length) client) (true, client') ∧
      client'.sent = client.sent ++ out ∧
      ∀ conn : Conn, conn.RecvRecoverable → delivered conn.recvs = out → ∀ sv : Server,
        ∃ c, c.sends = conn.sends ∧ c.sent = conn.sent ∧ ∃ result,
          Returns (fun n => handler n user pass msg ⟨c, sv⟩) result ∧
          Returns (fun n => parseRequest n faults ⟨conn, sv⟩) result := by
  have hcmd4 := length_of_mem_handlers hcmd
  have hbody : user ++ (pass ++ msg) ≠ [] := by
    simpa only [ne_eq, List.append_eq_nil_iff] using hne
  -- The client sends the packet whole, and the server reads its request.
  obtain ⟨client', hsend, hsent, -⟩ := reliableSend_sent_all hclient (packet_lt hcmd4 h)
  refine ⟨_, client', hsend, hsent, fun conn hconn hdel sv => ?_⟩
  obtain ⟨c, hread, hsends, hsent'⟩ := packet_received hcmd4 h hbody hconn hdel
  obtain ⟨c', hout⟩ := dispatch_returns faults ⟨cmd, user, pass, msg⟩ ⟨c, sv⟩
  refine ⟨c, hsends, hsent', _, ?_, parseRequest_returns hread hout⟩
  simpa only [dispatch_of_mem_handlers hcmd] using hout

/-- A registration sent in pieces of two and five bytes, with an interruption in between. -/
theorem request_roundTrip_registration : ∃ out client',
    Returns (fun n => reliableSend n (packet reqReg (ascii "alice") (ascii "pw") [])
      (int32 (packet reqReg (ascii "alice") (ascii "pw") []).length)
      ⟨[], [.accept 1, .fail .EINTR, .accept 4], .other 0, [], []⟩) (true, client') ∧
    client'.sent = out ∧
    ∀ conn : Conn, conn.RecvRecoverable → delivered conn.recvs = out →
      ∃ c, c.sends = conn.sends ∧ c.sent = conn.sent ∧ ∃ result,
        Returns (fun n => handleReg n (ascii "alice") (ascii "pw") [] ⟨c, emptyServer⟩) result ∧
        Returns (fun n => parseRequest n .none ⟨conn, emptyServer⟩) result := by
  have hcmd : (reqReg, handleReg) ∈ handlers .none := List.mem_cons_self
  have hclient :
      Conn.SendRecoverable ⟨[], [.accept 1, .fail .EINTR, .accept 4], .other 0, [], []⟩ := by
    intro s hs
    simp only [List.mem_cons, List.not_mem_nil, or_false] at hs
    rcases hs with rfl | rfl | rfl
    · exact .inl ⟨1, rfl⟩
    · exact .inr rfl
    · exact .inl ⟨4, rfl⟩
  obtain ⟨out, client', hsend, hsent, h⟩ := request_roundTrip hcmd fits_alice (by decide) hclient
  exact ⟨out, client', hsend, hsent, fun conn hconn hdel => h conn hconn hdel emptyServer⟩

end UserDirectory
