import UserDirectory.Requests

/-!
# Downloads

The requests of the client for data, `req_get` and `req_all`
(`client/requests.cc`), and `write_file` (`common/file.cc`), with which they
save it. The client is a `Terminal`: its connection, its files, and what it has
printed.

* `getResponse_ok_returns`: what `send_cmd` takes from a stream that starts with
  `OK__`. Of the data that the stream announces, what is missing at its end is
  filled up with zeros.
* `requests_roundTrip`: the file saved holds the data of the storage, however
  the connections cut what is sent.
-/

namespace UserDirectory

open Fuel Socket CInt LittleEndian Stdio

/-- What `c_str` gives of a string: the bytes before the first null character. -/
def cStr (s : Bytes) : Bytes := s.takeWhile (· ≠ 0)

/-- A client: its connection, the files of the directory that it runs in, and its output. The
    lines about calls that have failed are not in `cout` but in the reports of the connection
    (`reportLine`); they come before what is made of the response. -/
structure Terminal where
  conn : Conn
  files : Files Bytes
  cout : Bytes
  cerr : Bytes

namespace Terminal

/-- Print a line. -/
def printLine (line : Bytes) (t : Terminal) : Terminal :=
  { t with cout := t.cout ++ (line ++ newline) }

/-- Print a line on `cerr`. -/
def complain (line : Bytes) (t : Terminal) : Terminal :=
  { t with cerr := t.cerr ++ (line ++ newline) }

/-- Print an error message, and return the value `val`. -/
def err {α : Type} (val : α) (msg1 msg2 msg3 : Bytes) (t : Terminal) : α × Terminal :=
  (val, t.printLine (msg1 ++ msg2 ++ msg3))

/-- Create or truncate a file and populate it with the data, but for its first `skip` bytes:
    whether it was written in full. -/
def writeFile (faults : WriteFaults) (filename data : Bytes) (skip : ℕ) (t : Terminal) :
    Bool × Terminal :=
  if faults.fopen then
    t.err false (ascii "Unable to open '") (cStr filename) (ascii "' for writing")
  else
    let (written, file) := Writer.empty.fwrite faults (data.drop skip)
    -- The file is closed on return, and nobody asks whether it was flushed.
    let t := { t with files := Function.update t.files (cStr filename) (file.flushed faults) }
    if written ≠ data.length - skip then
      t.err false (ascii "Incorrect number of bytes written to ") (cStr filename) []
    else (true, t)

end Terminal

namespace Client

/-- Write the data of a response to a file. -/
def sendResultToFile (faults : WriteFaults) (buf filename : Bytes) (t : Terminal) : Terminal :=
  if buf.length < 8 ∨ buf.take 4 ≠ resOk then
    t.complain (ascii "Error: Response does not start with OK__")
  else
    let dataLen := extractLength buf 4
    if buf.length < (8 + dataLen).toNat then
      t.complain (ascii "Error: Buffer too small for claimed data length")
    else
      let data := (buf.drop 8).take dataLen.toNat
      let (written, t) := t.writeFile faults filename data 0
      if !written then t.complain (ascii "Error: Failed to write to file " ++ filename) else t

/-- What `req_get` and `req_all` do with the response. -/
def conclude (faults : WriteFaults) (response filename : Bytes) (t : Terminal) : Terminal :=
  if response ≠ [] ∧ response.take 4 = ascii "OK__" then
    (sendResultToFile faults response filename t).printLine resOk
  else if response ≠ [] then t.printLine response
  else t

/-- What `req_get` and `req_all` share: a request, and what becomes of the response. -/
def download (fuel : ℕ) (faults : WriteFaults) (cmd user pass msg filename : Bytes)
    (t : Terminal) : Option Terminal :=
  (sendCmd fuel cmd user pass msg t.conn).map fun (response, conn) =>
    conclude faults response filename { t with conn := conn }

/-- Request the content of the user `getname`, and save it. -/
def reqGet (fuel : ℕ) (faults : WriteFaults) (user pass getname : Bytes) :
    Terminal → Option Terminal :=
  download fuel faults UserDirectory.reqGet user pass (getMsg getname)
    (getname ++ ascii ".file.dat")

/-- Request the list of users, and save it. -/
def reqAll (fuel : ℕ) (faults : WriteFaults) (user pass allfile : Bytes) :
    Terminal → Option Terminal :=
  download fuel faults UserDirectory.reqAll user pass [] allfile

end Client

/-! ## What `send_cmd` takes from a stream -/

open Client

/-- The response with the given data. -/
def okResponse (data : Bytes) : Bytes := resOk ++ word (.ofNat data.length) ++ data

/-- The length that a stream announces after `OK__`, as the client reads it. -/
def announced (stream : Bytes) : ℕ := decode (zeroFill 4 (stream.drop 4))

/-- The stream starts with a response with all of its data. -/
def Whole (stream : Bytes) : Prop := resOk <+: stream ∧ 8 + announced stream ≤ stream.length

instance (stream : Bytes) : Decidable (Whole stream) := inferInstanceAs (Decidable (_ ∧ _))

/-- The data of a response. -/
def payload (stream : Bytes) : Bytes := (stream.drop 8).take (announced stream)

/-- What `send_cmd` takes from a stream that starts with `OK__`. -/
def taken (stream : Bytes) : Bytes :=
  if stream.length ≤ 4 then resOk
  else if announced stream ≠ 0 ∧ stream.length ≤ 8 then []
  else okResponse (zeroFill (announced stream) (stream.drop 8))

theorem announced_lt (stream : Bytes) : announced stream < 2 ^ 32 := by
  have h := decode_lt (zeroFill 4 (stream.drop 4))
  rwa [length_zeroFill] at h

theorem toNat_announced (stream : Bytes) :
    (UInt32.ofNat (announced stream)).toNat = announced stream :=
  UInt32.toNat_ofNat_of_lt' (announced_lt stream)

theorem announced_pos_iff {stream : Bytes} :
    0 < UInt32.ofNat (announced stream) ↔ announced stream ≠ 0 := by
  rw [UInt32.lt_iff_toNat_lt, toNat_announced]
  exact Nat.pos_iff_ne_zero

theorem length_okResponse (data : Bytes) : (okResponse data).length = 8 + data.length := by
  rw [okResponse, List.length_append, List.length_append, length_word, length_resOk]

/-- The word read is that of the announced length. -/
theorem word_announced (stream : Bytes) :
    word (.ofNat (announced stream)) = zeroFill 4 (stream.drop 4) :=
  word_decode (length_zeroFill _ _)

/-- A stream starts with the response with the given data iff this is its payload. -/
theorem okResponse_isPrefix_iff {data stream : Bytes} (hlen : data.length < 2 ^ 32) :
    okResponse data <+: stream ↔ Whole stream ∧ payload stream = data := by
  have h8 : (resOk ++ word (.ofNat data.length)).length = 8 := rfl
  constructor
  · rintro ⟨rest, rfl⟩
    have hann : announced (okResponse data ++ rest) = data.length := by
      rw [announced, okResponse, List.append_assoc, List.append_assoc, List.drop_left' length_resOk,
        zeroFill_append (length_word _), decode_word, UInt32.toNat_ofNat_of_lt' hlen]
    refine ⟨⟨?_, ?_⟩, ?_⟩
    · rw [okResponse, List.append_assoc, List.append_assoc]
      exact List.prefix_append _ _
    · rw [hann, List.length_append, length_okResponse]
      exact Nat.le_add_right _ _
    · rw [payload, hann, okResponse, List.append_assoc, List.drop_left' h8, List.take_left]
  · rintro ⟨⟨⟨rest, rfl⟩, hle⟩, rfl⟩
    have h4 : 4 ≤ rest.length := by
      rw [List.length_append, length_resOk] at hle
      omega
    have hword : word (.ofNat (announced (resOk ++ rest))) = rest.take 4 := by
      rw [word_announced, List.drop_left' length_resOk, zeroFill, Nat.sub_eq_zero_of_le h4,
        List.replicate_zero, List.append_nil]
    have hpayload : (payload (resOk ++ rest)).length = announced (resOk ++ rest) := by
      rw [payload, List.length_take, List.length_drop]
      omega
    have hdrop : (resOk ++ rest).drop 8 = rest.drop 4 := rfl
    have hpre := (List.prefix_append_right_inj (rest.take 4)).2
      (List.take_prefix (announced (resOk ++ rest)) (rest.drop 4))
    rw [List.take_append_drop] at hpre
    rw [okResponse, hpayload, hword, payload, hdrop, List.append_assoc]
    exact (List.prefix_append_right_inj resOk).2 hpre

/-- The client takes a whole response as it was sent. -/
theorem taken_of_whole {stream : Bytes} (h : Whole stream) :
    taken stream = okResponse (payload stream) := by
  obtain ⟨-, hle⟩ := h
  have hlong : ¬stream.length ≤ 4 := by omega
  have hdata : ¬(announced stream ≠ 0 ∧ stream.length ≤ 8) := by omega
  have hfill : announced stream - (stream.drop 8).length = 0 := by
    rw [List.length_drop]
    omega
  rw [taken, if_neg hlong, if_neg hdata, zeroFill, hfill, List.replicate_zero, List.append_nil,
    payload]

/-- The length of four bytes. -/
theorem extractLength_eq {pre bytes : Bytes} (h : bytes.length = 4) (post : Bytes) :
    extractLength (pre ++ (bytes ++ post)) pre.length = .ofNat (decode bytes) := by
  have hlt : decode bytes < 2 ^ 32 := by
    have := decode_lt bytes
    rwa [h] at this
  apply UInt32.toNat.inj
  rw [UInt32.toNat_ofNat_of_lt' hlt]
  match bytes, h with
  | [a, b, c, d], _ =>
    rw [← toNat_or_word]
    have hget : ∀ i, (pre ++ ([a, b, c, d] ++ post)).getD (pre.length + i) 0 =
        ([a, b, c, d] ++ post).getD i 0 := by
      intro i
      rw [List.getD_eq_getElem?_getD, List.getElem?_append_right (Nat.le_add_right _ _),
        Nat.add_sub_cancel_left, List.getD_eq_getElem?_getD]
    simp only [extractLength, hget, List.range, List.range.loop, List.foldl]
    rfl

section Receiving

variable {c : Conn} {stream : Bytes}

/-- The length received is the announced one. -/
theorem extractLength_zeroFill (stream : Bytes) :
    extractLength (zeroFill 4 (stream.drop 4)) 0 = .ofNat (announced stream) := by
  have h := @extractLength_eq [] _ (length_zeroFill 4 (stream.drop 4)) []
  rwa [List.append_nil] at h

/-- The client takes a success from what follows `OK__`, unless it waits for ever. -/
theorem getSuccess_returns (hc : c.RecvRecoverable) (hdel : delivered c.recvs = stream.drop 4)
    (hend : 8 + announced stream ≤ stream.length ∨ ¬c.Interrupted) :
    ∃ c', Returns (fun n => getSuccess n resOk c) (taken stream, c') ∧ c'.sent = c.sent := by
  obtain ⟨c₁, hr₁, hdel₁, hrec₁, hint₁, -, hsent₁⟩ := get_zeros_returns hc (n := 4) (by decide)
    (hend.imp_left fun h => by rw [hdel, List.length_drop]; omega)
  rw [hdel] at hr₁ hdel₁
  rw [List.drop_drop] at hdel₁
  by_cases h4 : stream.length ≤ 4
  · -- Nothing follows: the client keeps `OK__`.
    refine ⟨c₁, hr₁.bindM ?_, hsent₁⟩
    simp only [length_take_eq_zero_iff, List.drop_eq_nil_iff.2 h4, or_true, if_true, taken,
      if_pos h4]
    exact returns_of_forall fun _ => rfl
  have hgot : ¬(((List.take 4 (stream.drop 4)).length : ℤ) = 0) := by
    rw [length_take_eq_zero_iff, List.drop_eq_nil_iff]
    omega
  by_cases h0 : announced stream = 0
  · -- No data is announced.
    refine ⟨c₁, hr₁.bindM ?_, hsent₁⟩
    have htaken : taken stream = resOk ++ zeroFill 4 (stream.drop 4) := by
      have hnil := List.eq_nil_of_length_eq_zero (length_zeroFill 0 (stream.drop 8))
      rw [taken, if_neg h4, if_neg fun h => h.1 h0, okResponse, length_zeroFill, word_announced, h0,
        hnil, List.append_nil]
    simp only [if_neg hgot, extractLength_zeroFill, if_neg (announced_pos_iff.not.2 (not_not.2 h0)),
      htaken]
    exact returns_of_forall fun _ => rfl
  · obtain ⟨c₂, hr₂, -, -, -, -, hsent₂⟩ := get_zeros_int32_returns hrec₁
      (n := announced stream) (announced_lt stream)
      (hend.imp (fun h => by rw [hdel₁, List.length_drop]; omega) fun h => hint₁.not.2 h)
    refine ⟨c₂, hr₁.bindM ?_, hsent₂.trans hsent₁⟩
    have hgot₂ : int32 (List.take (announced stream) (stream.drop (4 + 4))).length = 0 ↔
        stream.length ≤ 8 := by
      have hlt := announced_lt stream
      rw [int32_eq_zero_iff, List.length_take, List.length_drop]
      omega
    rw [hdel₁] at hr₂
    simp only [if_neg hgot, extractLength_zeroFill, if_pos (announced_pos_iff.2 h0),
      toNat_announced]
    refine hr₂.bindM ?_
    simp only [hgot₂, taken, if_neg h4, h0, ne_eq, not_false_eq_true, true_and]
    split
    · exact returns_of_forall fun _ => rfl
    · rw [okResponse, length_zeroFill, word_announced]
      exact returns_of_forall fun _ => rfl

/-- The client waits for ever for the rest of a success on an interrupted connection. -/
theorem getSuccess_diverges (hc : c.RecvRecoverable) (hdel : delivered c.recvs = stream.drop 4)
    (hshort : stream.length < 8 + announced stream) (hint : c.Interrupted) :
    Diverges fun n => getSuccess n resOk c := by
  by_cases h8 : stream.length < 8
  · -- The length never ends.
    refine (reliableGetToEofOrN_diverges hc _ (n := 4) (by decide) ?_ hint).bindM _
    rw [hdel, List.length_drop]
    omega
  · -- The length is received, and then the data never ends.
    obtain ⟨c₁, hr₁, hdel₁, hrec₁, hint₁, -, -⟩ := get_zeros_returns hc (n := 4) (by decide)
      (.inl (by rw [hdel, List.length_drop]; omega))
    have hgot : ¬(((List.take 4 (stream.drop 4)).length : ℤ) = 0) := by
      rw [length_take_eq_zero_iff, List.drop_eq_nil_iff]
      omega
    have h0 : announced stream ≠ 0 := by omega
    refine Diverges.bindM_right (reliableGetToEofOrN_eq hr₁) ?_
    simp only [hdel, if_neg hgot, extractLength_zeroFill, if_pos (announced_pos_iff.2 h0),
      toNat_announced]
    refine (reliableGetToEofOrN_int32_diverges hrec₁ _ (announced_lt stream) ?_
      (hint₁.2 hint)).bindM _
    rw [hdel₁, hdel, List.drop_drop, List.length_drop]
    omega

/-- What is left of a buffer of zeros is not mistaken for a text. -/
theorem isPrefix_of_zeroFill (bytes : Bytes) (h : zeroFill bytes.length stream = bytes)
    (h0 : 0 ∉ bytes) : bytes <+: stream := by
  have hlen : bytes.length ≤ stream.length := by
    by_contra hlt
    have hmem : 0 ∈ zeroFill bytes.length stream := by
      rw [zeroFill, List.mem_append, List.mem_replicate]
      exact .inr ⟨by omega, rfl⟩
    exact h0 (h ▸ hmem)
  rw [zeroFill, Nat.sub_eq_zero_of_le hlen, List.replicate_zero, List.append_nil] at h
  rw [← h]
  exact List.take_prefix _ _

/-- What the client takes from a stream that starts with `OK__`, unless it waits for ever. -/
theorem getResponse_ok_returns (hc : c.RecvRecoverable) (hok : resOk <+: delivered c.recvs)
    (hend : Whole (delivered c.recvs) ∨ ¬c.Interrupted) : ∃ c',
    Returns (fun n => getResponse n c) (taken (delivered c.recvs), c') ∧ c'.sent = c.sent := by
  obtain ⟨c₁, hdel, hrec, hint, hsent, hiff, -⟩ := getResponse_code hc length_resOk hok
  simp only [getRest_ok] at hiff
  obtain ⟨c', hr, hsent'⟩ := getSuccess_returns hrec hdel (hend.imp (fun h => h.2) hint.not.2)
  exact ⟨c', (hiff _).2 hr, hsent'.trans hsent⟩

theorem getResponse_ok_diverges (hc : c.RecvRecoverable) (hok : resOk <+: delivered c.recvs)
    (hcut : ¬Whole (delivered c.recvs)) (hint : c.Interrupted) :
    Diverges fun n => getResponse n c := by
  obtain ⟨c₁, hdel, hrec, hint₁, -, -, hdiv⟩ := getResponse_code hc length_resOk hok
  simp only [getRest_ok] at hdiv
  refine hdiv (getSuccess_diverges hrec hdel ?_ (hint₁.2 hint))
  exact Nat.lt_of_not_le fun h => hcut ⟨hok, h⟩

/-- Once the packet is sent, the client takes the response. -/
theorem sendCmd_returns {cmd user pass msg : Bytes} {c' : Conn} {r : Bytes × Conn}
    (hsend : Returns (fun n => reliableSend n (packet cmd user pass msg)
      (int32 (packet cmd user pass msg).length) c) (true, c'))
    (hr : Returns (fun n => getResponse n c') r) :
    Returns (fun n => sendCmd n cmd user pass msg c) r :=
  hsend.bindM hr

end Receiving

/-! ## What becomes of the response -/

variable {faults : WriteFaults} {filename data : Bytes} {t : Terminal}

/-- What a write of the data leaves in a file. -/
def written (faults : WriteFaults) (data : Bytes) : Bytes :=
  (Writer.empty.fwrite faults data).2.flushed faults

theorem written_eq_iff : written faults data = data ↔ faults.Complete [data] := by
  have h := Writer.flushed_eq_iff faults [data]
  rwa [List.flatten_singleton, Writer.fwriteAll_cons, Writer.fwriteAll_nil] at h

theorem length_written_le (faults : WriteFaults) (data : Bytes) :
    (written faults data).length ≤ data.length :=
  (length_upTo_le faults.fclose _).trans (length_upTo_le (faults.fwrite 0) data)

/-- The files after a download of the data. -/
def downloaded (faults : WriteFaults) (files : Files Bytes) (filename data : Bytes) : Files Bytes :=
  if faults.fopen then files
  else Function.update files (cStr filename) (some (written faults data))

namespace Terminal

/-- All that `write_file` changes: the file, and what is printed if it fails. -/
theorem writeFile_snd (t : Terminal) : ∃ text, (t.writeFile faults filename data 0).2 =
    { t with files := downloaded faults t.files filename data, cout := t.cout ++ text } := by
  rw [writeFile, downloaded]
  split
  · exact ⟨_, rfl⟩
  · dsimp only
    split
    · exact ⟨_, rfl⟩
    · exact ⟨[], by rw [List.append_nil]; rfl⟩

end Terminal

/-- The data of a response is written to the file. -/
theorem sendResultToFile_okResponse (hlen : data.length < 2 ^ 32) :
    sendResultToFile faults (okResponse data) filename t =
      if (t.writeFile faults filename data 0).1 then (t.writeFile faults filename data 0).2
      else (t.writeFile faults filename data 0).2.complain
        (ascii "Error: Failed to write to file " ++ filename) := by
  have htake : (okResponse data).take 4 = resOk := by
    rw [okResponse, List.append_assoc, List.take_left' length_resOk]
  have hdrop : (okResponse data).drop 8 = data := List.drop_left' rfl
  have hextract : extractLength (okResponse data) 4 = .ofNat data.length := by
    have h := @extractLength_eq resOk _ (length_word (.ofNat data.length)) data
    rwa [decode_word, UInt32.ofNat_toNat, ← List.append_assoc] at h
  have hsize : (UInt32.ofNat data.length).toNat = data.length := UInt32.toNat_ofNat_of_lt' hlen
  have hfits : ¬(okResponse data).length < (8 + UInt32.ofNat data.length).toNat := by
    have hle : (8 + UInt32.ofNat data.length).toNat ≤ 8 + data.length := by
      rw [UInt32.toNat_add, hsize]
      exact Nat.mod_le _ _
    rw [length_okResponse]
    omega
  have hgo : ¬((okResponse data).length < 8 ∨ (okResponse data).take 4 ≠ resOk) := by
    rw [length_okResponse, htake, not_or, not_not]
    exact ⟨Nat.not_lt.2 (Nat.le_add_right _ _), rfl⟩
  rw [sendResultToFile, if_neg hgo]
  simp only [hextract, if_neg hfits, hsize, hdrop, List.take_length, Bool.not_eq_true']
  cases (t.writeFile faults filename data 0).1 <;> rfl

/-- The connection is left alone, and what was printed stays. -/
theorem sendResultToFile_eq (buf : Bytes) : ∃ files text cerr,
    sendResultToFile faults buf filename t = ⟨t.conn, files, t.cout ++ text, cerr⟩ := by
  have hsame : t = ⟨t.conn, t.files, t.cout ++ [], t.cerr⟩ := by rw [List.append_nil]
  rw [sendResultToFile]
  split
  · exact ⟨_, [], _, congrArg (Terminal.complain _) hsame⟩
  · dsimp only
    split
    · exact ⟨_, [], _, congrArg (Terminal.complain _) hsame⟩
    · obtain ⟨text, htext⟩ := @Terminal.writeFile_snd faults filename
        ((buf.drop 8).take (extractLength buf 4).toNat) t
      rw [htext]
      split
      · exact ⟨_, text, _, rfl⟩
      · exact ⟨_, text, _, rfl⟩

/-- A success is saved and printed. -/
theorem conclude_eq {response : Bytes} (hok : resOk <+: response) :
    conclude faults response filename t =
      (sendResultToFile faults response filename t).printLine resOk := by
  obtain ⟨rest, rfl⟩ := hok
  refine if_pos ⟨fun h => ?_, rfl⟩
  exact absurd (List.append_eq_nil_iff.1 h).1 (by decide)

theorem conclude_ok {response : Bytes} (hok : resOk <+: response) :
    (conclude faults response filename t).conn = t.conn ∧ ∃ text,
      (conclude faults response filename t).cout = t.cout ++ (text ++ (resOk ++ newline)) := by
  obtain ⟨files, text, cerr, heq⟩ := @sendResultToFile_eq faults filename t response
  rw [conclude_eq hok, heq]
  exact ⟨rfl, text, List.append_assoc _ _ _⟩

/-- The data of a response is saved. -/
theorem conclude_okResponse_files (hlen : data.length < 2 ^ 32) :
    (conclude faults (okResponse data) filename t).files =
      downloaded faults t.files filename data := by
  have hok : resOk <+: okResponse data := ((okResponse_isPrefix_iff hlen).1 List.prefix_rfl).1.1
  obtain ⟨text, hwrite⟩ := @Terminal.writeFile_snd faults filename data t
  rw [conclude_eq hok, sendResultToFile_okResponse hlen, hwrite]
  show Terminal.files (ite _ _ _) = _
  split <;> rfl

/-- A download that takes a response. -/
theorem download_returns {cmd user pass msg response : Bytes} {c : Conn}
    (h : Returns (fun n => sendCmd n cmd user pass msg t.conn) (response, c)) :
    Returns (fun n => download n faults cmd user pass msg filename t)
      (conclude faults response filename { t with conn := c }) :=
  h.map _

/-! ## The data of the storage -/

/-- The server responds to the packet with `OK__` and the data, which the request `run` saves:
    whatever pieces are sent and received, if the file can be written. -/
def Delivers (sv : Server) (packet : Bytes) (run : ℕ → WriteFaults → Terminal → Option Terminal)
    (filename data : Bytes) : Prop :=
  ∀ (saving : WriteFaults) (server : Conn), server.RecvRecoverable → server.SendRecoverable →
    delivered server.recvs = packet → ∃ out server',
      Returns (fun n => parseRequest n saving ⟨server, sv⟩) (false, ⟨server', sv⟩) ∧
      server'.sent = server.sent ++ out ∧
      ∀ (faults : WriteFaults) (t : Terminal), t.conn.RecvRecoverable → t.conn.SendRecoverable →
        delivered t.conn.recvs = out → faults.fopen = false → faults.Complete [data] →
        ∃ t', Returns (fun n => run n faults t) t' ∧ t'.conn.sent = t.conn.sent ++ packet ∧
          t'.files = Function.update t.files (cStr filename) (some data)

/-- What the server has responded is saved. -/
theorem delivers_of_serve {sv : Server} {cmd user pass msg : Bytes} (hcmd : cmd.length = 4)
    (hfits : Fits user pass msg) (hne : user ++ (pass ++ msg) ≠ [])
    (hlen : data.length < 2 ^ 31 - 8)
    (hserve : ∀ saving, sv.serve saving ⟨cmd, user, pass, msg⟩ =
      (⟨some (okResponse data), false⟩, sv)) (filename : Bytes) :
    Delivers sv (packet cmd user pass msg)
      (fun n faults => download n faults cmd user pass msg filename) filename data := by
  intro saving server hrecv hsend hdel
  have hlt : data.length < 2 ^ 32 := by omega
  -- The server reads the request, and sends the response whole.
  obtain ⟨c, hread, hsends, hsent⟩ := packet_received hcmd hfits hne hrecv hdel
  have hresp := congrArg (fun r => r.1.response) (hserve saving)
  obtain ⟨server', hdispatch, hsent'⟩ := dispatch_sent (hsend.of_sends_eq hsends) hresp
    (by rw [length_okResponse]; omega)
  rw [hserve saving] at hdispatch
  refine ⟨okResponse data, server', parseRequest_returns hread hdispatch, by rw [hsent', hsent],
    fun faults t hrecv hsend hdel hopen hcomplete => ?_⟩
  -- The client sends the packet, and takes the response whole.
  obtain ⟨c₁, hr₁, hsent₁, hrecvs₁⟩ := reliableSend_sent_all hsend (packet_lt hcmd hfits)
  have hrecv₁ : c₁.RecvRecoverable := fun e he => hrecv e (hrecvs₁ ▸ he)
  obtain ⟨hwhole, hpayload⟩ := (okResponse_isPrefix_iff hlt).1 (List.prefix_refl (okResponse data))
  have hok := hwhole.1
  rw [← hdel, ← hrecvs₁] at hwhole hpayload
  obtain ⟨c₂, hr₂, hsent₂⟩ := getResponse_ok_returns hrecv₁ hwhole.1 (.inl hwhole)
  rw [taken_of_whole hwhole, hpayload] at hr₂
  refine ⟨_, download_returns (sendCmd_returns hr₁ hr₂), ?_, ?_⟩
  · rw [(conclude_ok hok).1]
    exact hsent₂.trans hsent₁
  · rw [conclude_okResponse_files hlt, downloaded, hopen, written_eq_iff.2 hcomplete]
    rfl

/-- The message of `req_get` fits, and is taken apart. -/
theorem unframe_getMsg {getname : Bytes} (hlen : getname.length ≤ lenUname) :
    (getMsg getname).length ≤ lenProfileFile ∧ unframe (getMsg getname) = some getname := by
  have hmsg : getMsg getname = word (.ofNat getname.length) ++ getname := by
    rw [getMsg, client_addSize_eq, List.nil_append]
  have hadd := Nat.add_le_add_left hlen 4
  rw [unframe_eq_some_iff, hmsg, List.length_append, length_word]
  exact ⟨hadd.trans (by decide), rfl, lt_of_le_of_lt hadd (by decide)⟩

section Storage

variable {s : MyStorage} {user pass who : Bytes}

theorem MyStorage.getUserData_sized (h : (s.getUserData user pass who).succeeded = true) :
    WellSized user pass ∧ who ≠ [] ∧ who.length ≤ lenUname := by
  by_contra hsized
  rw [getUserData_eq, if_pos hsized] at h
  cases h

theorem MyStorage.getAllUsers_sized (h : (s.getAllUsers user pass).succeeded = true) :
    WellSized user pass := by
  by_contra hsized
  rw [getAllUsers_eq, if_pos hsized] at h
  cases h

theorem Result.payload_of_succeeded {r : Result} (h : r.succeeded = true) :
    r.payload = okResponse r.data := if_pos h

end Storage

/-- The file that `req_get` and `req_all` write holds the data that the storage gave, of less
    than `2 ^ 31 - 8` bytes. -/
theorem requests_roundTrip (sv : Server) (user pass : Bytes) :
    (∀ getname, (sv.storage.getUserData user pass getname).succeeded = true →
      (sv.storage.getUserData user pass getname).data.length < 2 ^ 31 - 8 →
      Delivers sv (packet reqGet user pass (getMsg getname))
        (fun n faults => Client.reqGet n faults user pass getname) (getname ++ ascii ".file.dat")
        (sv.storage.getUserData user pass getname).data) ∧
    (∀ allfile, (sv.storage.getAllUsers user pass).succeeded = true →
      (sv.storage.getAllUsers user pass).data.length < 2 ^ 31 - 8 →
      Delivers sv (packet reqAll user pass [])
        (fun n faults => Client.reqAll n faults user pass allfile) allfile
        (sv.storage.getAllUsers user pass).data) := by
  constructor
  · intro getname hok hlen
    obtain ⟨hsized, -, hname⟩ := MyStorage.getUserData_sized hok
    obtain ⟨hfits, hunframe⟩ := unframe_getMsg hname
    refine delivers_of_serve rfl ⟨hsized.1.2, hsized.2.2, hfits⟩ ?_ hlen (fun saving => ?_) _
    · exact fun h => hsized.1.1 (List.append_eq_nil_iff.1 h).1
    · rw [Server.serve_get saving sv rfl]
      simp only [hunframe, Result.payload_of_succeeded hok]
  · intro allfile hok hlen
    have hsized := MyStorage.getAllUsers_sized hok
    refine delivers_of_serve rfl ⟨hsized.1.2, hsized.2.2, Nat.zero_le _⟩ ?_ hlen
      (fun saving => ?_) _
    · exact fun h => hsized.1.1 (List.append_eq_nil_iff.1 h).1
    · rw [Server.serve_all saving sv rfl]
      simp only [Result.payload_of_succeeded hok]

/-- The server of `alice`, with a content. -/
def greetingServer : Server :=
  (aliceServer.serve .none ⟨reqSet, ascii "alice", ascii "pw", setMsg (ascii "hello")⟩).2

/-- The content of `alice`, and the list of users. -/
theorem requests_roundTrip_alice :
    Delivers greetingServer
      (packet reqGet (ascii "alice") (ascii "pw") (getMsg (ascii "alice")))
      (fun n faults => Client.reqGet n faults (ascii "alice") (ascii "pw") (ascii "alice"))
      (ascii "alice.file.dat") (ascii "hello") ∧
    Delivers greetingServer (packet reqAll (ascii "alice") (ascii "pw") [])
      (fun n faults => Client.reqAll n faults (ascii "alice") (ascii "pw") (ascii "all"))
      (ascii "all") (ascii "alice\n") := by
  have hget : greetingServer.storage.getUserData (ascii "alice") (ascii "pw") (ascii "alice") =
      ⟨true, resOk, ascii "hello"⟩ := by decide +kernel
  have hall : greetingServer.storage.getAllUsers (ascii "alice") (ascii "pw") =
      ⟨true, resOk, ascii "alice\n"⟩ := by decide +kernel
  obtain ⟨h₁, h₂⟩ := requests_roundTrip greetingServer (ascii "alice") (ascii "pw")
  specialize h₁ (ascii "alice") (by rw [hget]) (by rw [hget]; decide)
  specialize h₂ (ascii "all") (by rw [hall]) (by rw [hall]; decide)
  rw [hget] at h₁
  rw [hall] at h₂
  exact ⟨h₁, h₂⟩

end UserDirectory
