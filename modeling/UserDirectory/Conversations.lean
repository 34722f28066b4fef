import UserDirectory.Answers
import UserDirectory.Library.Machine
import UserDirectory.Profiles
import UserDirectory.Uploads

/-!
# Conversations

A request of the client and the handler of the server, run against each other:
each receives what the other one sends, cut in any way.

* `converses_of_length`: a conversation comes to what the client makes of the reply of the
  service (`Ask.concluded`), as if it had asked the storage directly; but the
  client fills up errors with zeros to 16 bytes.
* `refuses_of_not_sendable`: a request that the server does not take is closed
  without a response, which the client may notice while it is still sending.
* `profile_roundTrip`: the profile that a client sent is the one that others
  save, whatever requests come in between, unless one of them updates it.
-/

namespace UserDirectory

open Fuel Socket CInt LittleEndian Stdio Client AssocList

/-- A request of the client, and the file in which it saves the data of the response, if
    there is to be data. -/
structure Ask where
  cmd : Bytes
  user : Bytes
  pass : Bytes
  msg : Bytes
  sink : Option Bytes
  deriving DecidableEq, Repr

namespace Ask

/-- The requests of the client. -/
def reg (user pass : Bytes) : Ask := ⟨reqReg, user, pass, [], none⟩

def bye (user pass : Bytes) : Ask := ⟨reqBye, user, pass, [], none⟩

def sav (user pass : Bytes) : Ask := ⟨reqSav, user, pass, [], none⟩

def set (user pass fileContents : Bytes) : Ask := ⟨reqSet, user, pass, setMsg fileContents, none⟩

def get (user pass getname : Bytes) : Ask :=
  ⟨reqGet, user, pass, getMsg getname, some (getname ++ ascii ".file.dat")⟩

def all (user pass allfile : Bytes) : Ask := ⟨reqAll, user, pass, [], some allfile⟩

variable (a : Ask)

/-- The request as the server reads it. -/
def request : Request := ⟨a.cmd, a.user, a.pass, a.msg⟩

/-- The packet in which it is sent. -/
def packet : Bytes := Client.packet a.cmd a.user a.pass a.msg

/-- Send the request, and print the response or save its data. -/
def perform (fuel : ℕ) (faults : WriteFaults) (t : Terminal) : Option Terminal :=
  match a.sink with
  | none => Client.request fuel a.cmd a.user a.pass a.msg t
  | some filename => download fuel faults a.cmd a.user a.pass a.msg filename t

/-- The response that the client takes, of what the server sends. -/
def received : Option Bytes → Bytes
  | none => []
  | some bytes => if ascii "ERR_" <+: bytes then zeroFill 16 bytes else bytes

/-- What the client makes of a response. -/
def concluded (faults : WriteFaults) (response : Option Bytes) (t : Terminal) : Terminal :=
  match a.sink with
  | none => if received response ≠ [] then t.printLine (received response) else t
  | some filename => conclude faults (received response) filename t

/-- The command has a handler, and the fields are within the limits, but not all empty. -/
structure Sendable : Prop where
  cmd : a.cmd ∈ commands
  fits : Fits a.user a.pass a.msg
  nonempty : a.user ++ (a.pass ++ a.msg) ≠ []

end Ask

/-- No call on the connection is interrupted, or was before, and none fails. -/
structure Undisturbed (c : Conn) : Prop where
  recv : ∀ e, .fail e ∉ c.recvs
  send : ∀ s ∈ c.sends, ∃ n, s = .accept n
  errno : c.errno ≠ .EINTR

/-- The server, with what may fail if it saves its table, replies to the packet on a connection
    and goes on as `sv'`; and a client that sends the packet and is sent the response ends as
    told by `finish`, without a failure to report. So it is however the two connections cut what
    is sent. -/
def Converses (saving : WriteFaults) (sv : Server) (packet : Bytes)
    (run : ℕ → Terminal → Option Terminal) (stop : Bool) (sv' : Server)
    (finish : Terminal → Terminal) : Prop :=
  ∀ server : Conn, server.RecvRecoverable → server.SendRecoverable →
    delivered server.recvs = packet → ∃ out server',
      Returns (fun n => parseRequest n saving ⟨server, sv⟩) (stop, ⟨server', sv'⟩) ∧
      server'.sent = server.sent ++ out ∧
      ∀ t : Terminal, Undisturbed t.conn → delivered t.conn.recvs = out →
        ∃ c, Returns (fun n => run n t) (finish { t with conn := c }) ∧
          c.sent = t.conn.sent ++ packet ∧ c.reports = t.conn.reports

namespace Undisturbed

variable {c : Conn}

theorem delivering (bytes : Bytes) : Undisturbed (.delivering bytes) where
  recv _ he := absurd (fail_mem_pushBack.1 he) List.not_mem_nil
  send _ hs := absurd hs List.not_mem_nil
  errno h := Conn.not_interrupted_delivering bytes (.inl h)

theorem recvRecoverable (h : Undisturbed c) : c.RecvRecoverable := fun e he => absurd he (h.recv e)

theorem sendRecoverable (h : Undisturbed c) : c.SendRecoverable := fun s hs => .inl (h.send s hs)

theorem steady (h : Undisturbed c) : c.Steady where
  recv := h.recv _
  send hs := by
    obtain ⟨n, hn⟩ := h.send _ hs
    cases hn
  pipe hs := by
    obtain ⟨n, hn⟩ := h.send _ hs
    cases hn
  errno := h.errno

/-- A call of `send` leaves `errno` alone. -/
theorem after_send (h : Undisturbed c) (buf : Bytes) (count : ℕ) :
    Undisturbed (c.send buf count).2 := by
  obtain ⟨recvs, _ | ⟨s, ss⟩, errno, sent, reports⟩ := c
  · exact ⟨h.recv, h.send, h.errno⟩
  · obtain ⟨n, rfl⟩ := h.send s List.mem_cons_self
    exact ⟨h.recv, fun s hs => h.send s (List.mem_cons_of_mem _ hs), h.errno⟩

/-- A client that sends undisturbed receives undisturbed, and has nothing to report. -/
theorem after_reliableSend {bytes : Bytes} {c' : Conn} (h : Undisturbed c)
    (hr : Returns (fun n => reliableSend n bytes (int32 bytes.length) c) (true, c')) :
    Undisturbed c' ∧ c'.reports = c.reports := by
  rcases reliableSend_invariant (P := fun c₁ => Undisturbed c₁ ∧ c₁.reports = c.reports)
    (fun c₁ buf count h₁ => ⟨h₁.1.after_send buf count, (c₁.send_frame buf count).2.trans h₁.2⟩)
    hr ⟨h, rfl⟩ with ⟨-, h⟩ | ⟨hfalse, -⟩
  · exact h
  · cases hfalse

end Undisturbed

/-! ## What the client receives -/

section Receiving

variable {c : Conn}

theorem zeroFill_add_append (front : Bytes) (n : ℕ) (rest : Bytes) :
    zeroFill (front.length + n) (front ++ rest) = front ++ zeroFill n rest := by
  rw [zeroFill, zeroFill, List.take_length_add_append, List.length_append, Nat.add_sub_add_left,
    List.append_assoc]

/-- Taking a response reports nothing if calls fail by interruptions only. -/
theorem quiet_getResponse (fuel : ℕ) : Leads Quiet (getResponse fuel) := by
  refine .bind Quiet.trans (quiet_reliableGetToEofOrN _ _ _) ?_
  rintro ⟨got, response⟩
  refine .ite (.pure Quiet.refl _) (.ite ?_ (.ite ?_ (.pure Quiet.refl _)))
  · refine .bind Quiet.trans (quiet_reliableGetToEofOrN _ _ _) ?_
    rintro ⟨got', rest⟩
    exact .ite (.pure Quiet.refl _) (.pure Quiet.refl _)
  · refine .bind Quiet.trans (quiet_reliableGetToEofOrN _ _ _) ?_
    rintro ⟨got', lenBytes⟩
    refine .ite (.pure Quiet.refl _) (.ite ?_ (.pure Quiet.refl _))
    refine .bind Quiet.trans (quiet_reliableGetToEofOrN _ _ _) ?_
    rintro ⟨got'', data⟩
    exact .ite (.pure Quiet.refl _) (.pure Quiet.refl _)

/-- The client takes an error for 16 bytes long. -/
theorem getResponse_error (hc : c.RecvRecoverable) (hint : ¬c.Interrupted) {bytes : Bytes}
    (hdel : delivered c.recvs = bytes) (herr : ascii "ERR_" <+: bytes) (hlen : 4 < bytes.length) :
    ∃ c', Returns (fun n => getResponse n c) (zeroFill 16 bytes, c') ∧ c'.sent = c.sent := by
  obtain ⟨rest, rfl⟩ := herr
  obtain ⟨c₁, hdel₁, hrec₁, hint₁, hsent₁, hiff, -⟩ := getResponse_code hc
    (show (ascii "ERR_").length = 4 from rfl) (hdel ▸ List.prefix_append _ _)
  obtain ⟨c', hr, -, -, -, -, hsent⟩ :=
    get_zeros_returns hrec₁ (n := 12) (by decide) (.inr (hint₁.not.2 hint))
  rw [hdel, List.drop_left' (i := 4) rfl] at hdel₁
  have hrest : rest ≠ [] := by
    rintro rfl
    exact absurd hlen (by decide)
  have hgot : ¬(((rest.take 12).length : ℤ) = 0) := by
    rw [length_take_eq_zero_iff]
    simpa using hrest
  rw [hdel₁] at hr
  refine ⟨c', (hiff _).2 ?_, hsent.trans hsent₁⟩
  simp only [getRest_err]
  refine hr.bindM ?_
  have hfill : zeroFill 16 (ascii "ERR_" ++ rest) = ascii "ERR_" ++ zeroFill 12 rest :=
    zeroFill_add_append (ascii "ERR_") 12 rest
  simp only [ne_eq, hgot, not_false_eq_true, if_true, hfill]
  exact returns_of_forall fun _ => rfl

/-- What the server responds with: an error, or a success without or with data. -/
inductive IsReply : Bytes → Prop
  | error {bytes : Bytes} : bytes ∈ errorTexts → IsReply bytes
  | ok : IsReply resOk
  | data (data : Bytes) : IsReply (okResponse data)

theorem IsResponse.isReply {sv : Server} {r : Request} {bytes : Bytes}
    (h : IsResponse sv r bytes) : IsReply bytes := by
  cases h with
  | error herr => exact .error herr.mem
  | ok _ => exact .ok
  | data _ => exact .data _

/-- What the client takes of a response, if its data is not too long. -/
theorem getResponse_received {bytes : Bytes} (hresp : IsReply bytes) (hlen : bytes.length < 2 ^ 31)
    (hc : c.RecvRecoverable) (hint : ¬c.Interrupted) (hdel : delivered c.recvs = bytes) :
    ∃ c', Returns (fun n => getResponse n c) (Ask.received (some bytes), c') ∧
      c'.sent = c.sent := by
  rw [Ask.received]
  cases hresp with
  | error herr =>
    have hpre := err_isPrefix_of_mem herr
    rw [if_pos hpre]
    exact getResponse_error hc hint hdel hpre (length_lt_of_mem herr).1
  | ok =>
    have htaken : taken resOk = resOk := by decide
    rw [if_neg (not_err_isPrefix_of_ok (List.prefix_append resOk []))]
    have h := getResponse_ok_returns hc (hdel ▸ List.prefix_rfl) (.inr hint)
    rwa [hdel, htaken] at h
  | data data =>
    have hdata : data.length < 2 ^ 32 := by
      rw [length_okResponse] at hlen
      omega
    obtain ⟨hwhole, hpayload⟩ :=
      (okResponse_isPrefix_iff hdata).1 (List.prefix_refl (okResponse data))
    have hne : ¬ascii "ERR_" <+: okResponse data := by
      rw [okResponse, List.append_assoc]
      exact not_err_isPrefix_of_ok List.prefix_rfl
    rw [if_neg hne]
    have h := getResponse_ok_returns hc (hdel ▸ hwhole.1) (.inr hint)
    rwa [hdel, taken_of_whole hwhole, hpayload] at h

end Receiving

/-! ## A conversation -/

section Conversation

variable {a : Ask} {sv : Server} {saving faults : WriteFaults}

/-- The client sends its packet, and makes of the response what it takes of it. -/
theorem Ask.perform_returns {t : Terminal} (ha : a.packet.length < 2 ^ 32)
    (ht : Undisturbed t.conn) {response : Option Bytes}
    (hresp : ∀ c : Conn, c.RecvRecoverable → ¬c.Interrupted →
      delivered c.recvs = delivered t.conn.recvs → ∃ c',
        Returns (fun n => getResponse n c) (Ask.received response, c') ∧ c'.sent = c.sent) :
    ∃ c, Returns (fun n => a.perform n faults t)
        (a.concluded faults response { t with conn := c }) ∧
      c.sent = t.conn.sent ++ a.packet ∧ c.reports = t.conn.reports := by
  obtain ⟨c₁, hr₁, hsent₁, hrecvs₁⟩ := reliableSend_sent_all ht.sendRecoverable ha
  obtain ⟨hc₁, hreports₁⟩ := ht.after_reliableSend hr₁
  obtain ⟨c₂, hr₂, hsent₂⟩ :=
    hresp c₁ hc₁.recvRecoverable hc₁.steady.not_interrupted (by rw [hrecvs₁])
  have hreports₂ : c₂.reports = c₁.reports := by
    obtain ⟨n, hn⟩ := hr₂.exists
    exact (quiet_getResponse n _ _ _ hn hc₁.recvRecoverable).2
  have hcmd : Returns (fun n => sendCmd n a.cmd a.user a.pass a.msg t.conn)
      (Ask.received response, c₂) := sendCmd_returns hr₁ hr₂
  refine ⟨c₂, ?_, hsent₂.trans hsent₁, hreports₂.trans hreports₁⟩
  simp only [perform, concluded]
  cases a.sink with
  | none => exact hcmd.map _
  | some filename => exact download_returns hcmd

theorem length_of_mem_commands {cmd : Bytes} (h : cmd ∈ commands) : cmd.length = 4 := by
  revert cmd
  decide

/-- The packet of a request is short enough to be sent whole. -/
theorem Ask.Sendable.packet_lt (ha : a.Sendable) : a.packet.length < 2 ^ 32 :=
  UserDirectory.packet_lt (length_of_mem_commands ha.cmd) ha.fits

theorem converses_of_length (ha : a.Sendable) {bytes : Bytes}
    (hresp : (sv.serve saving a.request).1.response = some bytes) (hlt : bytes.length < 2 ^ 31)
    (faults : WriteFaults) :
    Converses saving sv a.packet (fun n => a.perform n faults)
      (sv.serve saving a.request).1.stop (sv.serve saving a.request).2
      (a.concluded faults (some bytes)) := by
  intro server hrecv hsend hdel
  obtain ⟨bytes', hresp', hbytes⟩ := @serve_response saving a.request sv ha.cmd
  obtain rfl : bytes' = bytes := Option.some.inj (hresp'.symm.trans hresp)
  obtain ⟨c, hread, hsends, hsent⟩ :=
    packet_received (length_of_mem_commands ha.cmd) ha.fits ha.nonempty hrecv hdel
  obtain ⟨server', hdispatch, hsent'⟩ := dispatch_sent (r := a.request) (hsend.of_sends_eq hsends)
    hresp (hlt.trans (by decide))
  refine ⟨bytes', server', parseRequest_returns hread hdispatch, by rw [hsent', hsent],
    fun t ht hout => ?_⟩
  refine Ask.perform_returns ha.packet_lt ht fun c hc hint hc' => ?_
  exact getResponse_received hbytes.isReply hlt hc hint (hc'.trans hout)

end Conversation

/-! ## The requests of the client -/

section Requests

variable (fuel : ℕ) (faults : WriteFaults) (user pass : Bytes) (t : Terminal)

/-- The client checks the name and the password before it asks for a registration. -/
theorem reqReg_eq : Client.reqReg fuel user pass t =
    if WellSized user pass then (Ask.reg user pass).perform fuel faults t
    else some (t.complain resErrReqFmt) := by
  have hsized : (user.length = 0 ∨ lenUname < user.length ∨ pass.length = 0 ∨
      lenPassword < pass.length) ↔ ¬WellSized user pass := by
    simp only [WellSized, List.length_eq_zero_iff, ne_eq, not_and_or, not_not, Nat.not_le, or_assoc]
  rw [Client.reqReg]
  by_cases h : WellSized user pass
  · rw [if_pos h, if_neg (hsized.not.2 (not_not.2 h))]
    rfl
  · rw [if_neg h, if_pos (hsized.2 h)]

/-- The client sends a profile that it has loaded, unless it is empty. -/
theorem reqSet_eq {reading : ReadFaults} {later : Files Bytes} {setfile content : Bytes}
    {t' : Terminal} (h : t.loadEntireFile reading later setfile = (content, t')) :
    Client.reqSet fuel reading later user pass setfile t =
      if content = [] then some t' else (Ask.set user pass content).perform fuel faults t' := by
  rw [Client.reqSet, h]
  rfl

end Requests

/-! ## Profiles -/

section Profiles

/-- The requests `xs`, each with what may fail if it saves the table, served one after the
    other. -/
def Server.serves (sv : Server) (xs : List (WriteFaults × Request)) : List Reply × Server :=
  Machine.run (fun sv (x : WriteFaults × Request) => sv.serve x.1 x.2) sv xs

variable {sv : Server} {saving faults : WriteFaults} {r : Request} {user pass name content : Bytes}

/-- A profile stays as it is unless its user updates it. -/
theorem lookup_serve {e : AuthTableEntry} (h : sv.storage.authTable.lookup name = some e)
    (hr : ¬(r.cmd = reqSet ∧ r.user = name)) :
    (sv.serve saving r).2.storage.authTable.lookup name = some e := by
  rcases Server.serve_cases saving r sv with ⟨hreg, hsv⟩ | ⟨content, hupd, hsv⟩ | ⟨-, hsv⟩ |
    ⟨-, -, -, hsv⟩ <;> rw [hsv]
  · have hne : name ≠ r.user := fun heq => hreg.2.2 (heq ▸ mem_keys_of_lookup h)
    rw [MyStorage.lookup_withUser hreg.2.2, Function.update_of_ne hne]
    exact h
  · have hne : name ≠ r.user := fun heq => hr ⟨hupd.1, heq.symm⟩
    rw [MyStorage.lookup_withContent, Function.update_of_ne hne]
    exact h
  · rw [Server.saveFile_storage]
    exact h
  · exact h

/-- A file that nothing fails to write holds the data. -/
theorem Terminal.writeFile_complete {filename data : Bytes} (hopen : faults.fopen = false)
    (h : faults.Complete [data]) (t : Terminal) : t.writeFile faults filename data 0 =
      (true, { t with files := Function.update t.files (cStr filename) (some data) }) := by
  have hfwrite : upTo (faults.fwrite 0) data = data := upTo_eq_iff.2 (h.1 0 Nat.one_pos)
  have hflush : upTo faults.fclose data = data := upTo_eq_iff.2 fun n hn => by
    simpa using h.2 n hn
  rw [writeFile, hopen]
  simp only [Bool.false_eq_true, if_false, List.drop_zero, Writer.fwrite, Writer.empty, hfwrite,
    Writer.flushed, List.nil_append, hflush, Nat.sub_zero, ne_eq, not_true_eq_false]

/-- The client saves the data of a response, and prints `OK__`. -/
theorem concluded_okResponse {filename data : Bytes} (hlen : data.length < 2 ^ 32)
    (hopen : faults.fopen = false) (hcomplete : faults.Complete [data]) {a : Ask}
    (ha : a.sink = some filename) (t : Terminal) :
    a.concluded faults (some (okResponse data)) t =
      ({ t with files := Function.update t.files (cStr filename) (some data) } : Terminal).printLine
        resOk := by
  have hok : resOk <+: okResponse data := ((okResponse_isPrefix_iff hlen).1 List.prefix_rfl).1.1
  have hne : ¬ascii "ERR_" <+: okResponse data := by
    rw [okResponse, List.append_assoc]
    exact not_err_isPrefix_of_ok List.prefix_rfl
  simp only [Ask.concluded, ha, Ask.received, if_neg hne]
  rw [conclude_eq hok, sendResultToFile_okResponse hlen,
    Terminal.writeFile_complete hopen hcomplete]
  rfl

/-- The requests of others leave the profile. -/
theorem lookup_serves {e : AuthTableEntry} {xs : List (WriteFaults × Request)}
    (hxs : ∀ x ∈ xs, ¬(x.2.cmd = reqSet ∧ x.2.user = name))
    (h : sv.storage.authTable.lookup name = some e) :
    (sv.serves xs).2.storage.authTable.lookup name = some e :=
  (Machine.run_invariant (Q := fun _ => True)
    (P := fun sv : Server => sv.storage.authTable.lookup name = some e)
    (fun x hx _ hsv => ⟨trivial, lookup_serve hsv (hxs x hx)⟩) h).2

/-- The response to a request for a profile. -/
theorem serve_get_content {e : AuthTableEntry} (hvalid : sv.storage.Valid user pass)
    (hname : name ≠ [] ∧ name.length ≤ lenUname)
    (he : sv.storage.authTable.lookup name = some e) (hne : e.content ≠ []) :
    sv.serve saving (Ask.get user pass name).request =
      (⟨some (okResponse e.content), false⟩, sv) := by
  rw [Server.serve_get saving sv rfl]
  simp only [Ask.request, Ask.get, (unframe_getMsg hname.2).2, MyStorage.getUserData_eq,
    hvalid.1, hname, hvalid.2, he, hne, ne_eq, not_true_eq_false, not_false_eq_true, and_self,
    if_false]
  rfl

/-- The profile that a user sends is what a client with valid credentials saves of it later on,
    whatever requests are served in between, unless one of them is a `SETP` of the user. -/
theorem profile_roundTrip (hvalid : sv.storage.Valid user pass)
    (hne : content ≠ []) (hlen : 4 + content.length ≤ lenProfileFile)
    {xs : List (WriteFaults × Request)} (hxs : ∀ x ∈ xs, ¬(x.2.cmd = reqSet ∧ x.2.user = user))
    {reader rpass : Bytes}
    (hreader : (Server.serves { sv with storage := sv.storage.withContent user content }
      xs).2.storage.Valid reader rpass)
    (hopen : faults.fopen = false) (hcomplete : faults.Complete [content]) (saving : WriteFaults) :
    Converses saving sv (Ask.set user pass content).packet
        (fun n => (Ask.set user pass content).perform n faults) false
        { sv with storage := sv.storage.withContent user content }
        (fun t => t.printLine resOk) ∧
      Converses saving
        (Server.serves { sv with storage := sv.storage.withContent user content } xs).2
        (Ask.get reader rpass user).packet (fun n => (Ask.get reader rpass user).perform n faults)
        false (Server.serves { sv with storage := sv.storage.withContent user content } xs).2
        fun t => ({ t with
          files := Function.update t.files (cStr (user ++ ascii ".file.dat")) (some content) } :
          Terminal).printLine resOk := by
  obtain ⟨hsized, e, he, -⟩ := id hvalid
  have hupd : sv.Updates (Ask.set user pass content).request content :=
    ⟨rfl, hvalid, unframe_setMsg (by omega), by omega⟩
  have hserve₁ := @Server.serve_of_updates saving _ sv _ hupd
  have hbound : content.length < 2 ^ 31 - 8 := by
    rw [lenProfileFile] at hlen
    omega
  constructor
  · -- The profile is stored.
    have ha : (Ask.set user pass content).Sendable := by
      refine ⟨show reqSet ∈ commands by decide, ⟨hsized.1.2, hsized.2.2, ?_⟩, ?_⟩
      · simp only [Ask.set]
        rwa [length_setMsg]
      · exact fun h => hsized.1.1 (List.append_eq_nil_iff.1 h).1
    have h := converses_of_length ha (congrArg (fun p => p.1.response) hserve₁) (by decide) faults
    rwa [hserve₁] at h
  · -- It stays until it is asked for.
    have hstored : ({ sv with storage := sv.storage.withContent user content } :
        Server).storage.authTable.lookup user = some { e with content := content } := by
      rw [MyStorage.lookup_withContent, Function.update_self, show _ = some e from he]
      rfl
    have hserve :=
      @serve_get_content _ saving _ _ _ _ hreader hsized.1 (lookup_serves hxs hstored) hne
    have ha : (Ask.get reader rpass user).Sendable := by
      refine ⟨show reqGet ∈ commands by decide,
        ⟨hreader.1.1.2, hreader.1.2.2, (unframe_getMsg hsized.1.2).1⟩, ?_⟩
      exact fun h => hreader.1.1.1 (List.append_eq_nil_iff.1 h).1
    have hlt : (okResponse content).length < 2 ^ 31 := by
      rw [length_okResponse]
      omega
    have h := converses_of_length ha (congrArg (fun p => p.1.response) hserve) hlt faults
    rw [hserve] at h
    have hfinish : (Ask.get reader rpass user).concluded faults (some (okResponse content)) = _ :=
      funext (concluded_okResponse (by omega) hopen hcomplete rfl)
    rwa [hfinish] at h

/-- The profile of `alice`, saved by a `bob` who registers after she has sent it. -/
theorem profile_roundTrip_alice :
    Converses .none
      (Server.serves { aliceServer with
        storage := aliceServer.storage.withContent (ascii "alice") (ascii "hello") }
        [(.none, (Ask.reg (ascii "bob") (ascii "word")).request)]).2
      (Ask.get (ascii "bob") (ascii "word") (ascii "alice")).packet
      (fun n => (Ask.get (ascii "bob") (ascii "word") (ascii "alice")).perform n .none) false
      (Server.serves { aliceServer with
        storage := aliceServer.storage.withContent (ascii "alice") (ascii "hello") }
        [(.none, (Ask.reg (ascii "bob") (ascii "word")).request)]).2
      fun t => ({ t with
        files := Function.update t.files (cStr (ascii "alice" ++ ascii ".file.dat"))
          (some (ascii "hello")) } : Terminal).printLine resOk := by
  have hvalid : aliceServer.storage.Valid (ascii "alice") (ascii "pw") := by decide +kernel
  refine (profile_roundTrip hvalid (by decide) (by decide) ?_ (by decide +kernel) rfl
    (WriteFaults.none_complete _) .none).2
  intro x hx h
  obtain rfl := List.mem_singleton.1 hx
  exact absurd h.1 (by decide)

end Profiles

end UserDirectory
