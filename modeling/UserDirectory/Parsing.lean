import UserDirectory.Responses

/-!
# Parsing of requests

`parse_request` (`server/parsing.cc`), which reads a request from a connection
(`readRequest`) and dispatches it to a handler (`dispatch`).

* `readRequest_returns`: on a recoverable connection, the request read is that
  of the bytes delivered (`Request.ofStream`). A header is zero-filled where the
  stream ends early, and so is a body, unless nothing of it came.
* `readRequest_diverges`: but the reader never ends when the stream is too short
  and the connection was interrupted.
-/

namespace UserDirectory

open Fuel Socket CInt LittleEndian Stdio

/-- A request, as handed to the handler of its command. -/
structure Request where
  cmd : Bytes
  user : Bytes
  pass : Bytes
  msg : Bytes
  deriving DecidableEq, Repr

/-- The header of a request. -/
structure Header where
  cmd : Bytes
  ulen : UInt32
  plen : UInt32
  mlen : UInt32
  deriving DecidableEq, Repr

/-- The first part of `parse_request`: the fields of the header. -/
def extractHeader (header : Bytes) : Header :=
  let (cmd, it) := extractString header 4
  let (ulen, it) := extractSize it
  let (plen, it) := extractSize it
  let (mlen, _) := extractSize it
  ⟨cmd, ulen, plen, mlen⟩

namespace Header

variable (h : Header)

/-- The lengths are within the limits. -/
def InRange : Prop :=
  h.ulen.toNat ≤ lenUname ∧ h.plen.toNat ≤ lenPassword ∧ h.mlen.toNat ≤ lenProfileFile

instance : Decidable h.InRange := inferInstanceAs (Decidable (_ ∧ _))

/-- The number of bytes that the header announces after it. -/
def announced : ℕ := h.ulen.toNat + h.plen.toNat + h.mlen.toNat

/-- The length of the body. -/
def bodyLength : ℕ := (h.ulen + h.plen + h.mlen).toNat

/-- The last part of `parse_request`: the fields of the body. -/
def request (body : Bytes) : Request :=
  let (user, it) := extractString body h.ulen.toNat
  let (pass, it) := extractString it h.plen.toNat
  ⟨h.cmd, user, pass, it.take h.mlen.toNat⟩

end Header

/-- The part of `parse_request` between the header and the handlers: `none` where it
    returns `false`. -/
def readBody (fuel : ℕ) (h : Header) : Io (Option Request) := do
  if lenUname < h.ulen.toNat ∨ lenPassword < h.plen.toNat ∨ lenProfileFile < h.mlen.toNat then
    return none
  let body := List.replicate h.bodyLength 0
  let (got, body) ← reliableGetToEofOrN fuel body (int32 body.length)
  if got = 0 then return none
  return some (h.request body)

/-- The part of `parse_request` that reads the request: `none` where it returns `false`. -/
def readRequest (fuel : ℕ) : Io (Option Request) := do
  let (got, header) ← reliableGetToEofOrN fuel (List.replicate 16 0) 16
  -- The number of bytes received is only tested for being zero.
  if got = 0 then return none
  readBody fuel (extractHeader header)

/-- The part of `parse_request` that dispatches the request to its handler. -/
def dispatch (fuel : ℕ) (faults : WriteFaults) (r : Request) : Action Bool :=
  if r.cmd = reqReg then handleReg fuel r.user r.pass r.msg
  else if r.cmd = reqBye then handleBye fuel r.user r.pass r.msg
  else if r.cmd = reqSav then handleSav fuel faults r.user r.pass r.msg
  else if r.cmd = reqSet then handleSet fuel r.user r.pass r.msg
  else if r.cmd = reqGet then handleGet fuel r.user r.pass r.msg
  else if r.cmd = reqAll then handleAll fuel r.user r.pass r.msg
  else return false

/-- Read a request and dispatch it: whether the server should halt. -/
def parseRequest (fuel : ℕ) (faults : WriteFaults) : Action Bool := do
  match ← onConn (readRequest fuel) with
  | none => return false
  | some r => dispatch fuel faults r

/-! ## The request of a stream -/

/-- The first `n` bytes of a stream, filled up with zeros. -/
def zeroFill (n : ℕ) (stream : Bytes) : Bytes :=
  stream.take n ++ List.replicate (n - stream.length) 0

/-- The header of a stream. -/
def Header.ofStream (stream : Bytes) : Header := extractHeader (zeroFill 16 stream)

/-- The request of a stream, if `parse_request` gets as far as dispatching it. -/
def Request.ofStream (stream : Bytes) : Option Request :=
  let h := Header.ofStream stream
  if stream.length ≤ 16 ∨ ¬h.InRange ∨ h.bodyLength = 0 then none
  else some (h.request (zeroFill h.bodyLength (stream.drop 16)))

theorem take_append_replicate (n : ℕ) (stream : Bytes) :
    stream.take n ++ (List.replicate n (0 : UInt8)).drop (stream.take n).length =
      zeroFill n stream := by
  rw [zeroFill, List.drop_replicate, List.length_take]
  congr 2
  omega

@[simp] theorem length_zeroFill (n : ℕ) (stream : Bytes) : (zeroFill n stream).length = n := by
  rw [zeroFill, List.length_append, List.length_take, List.length_replicate]
  omega

/-- Nothing is filled up when there are enough bytes. -/
theorem zeroFill_append {n : ℕ} {bytes : Bytes} (h : bytes.length = n) (rest : Bytes) :
    zeroFill n (bytes ++ rest) = bytes := by
  rw [zeroFill, List.take_left' h, List.length_append, h,
    Nat.sub_eq_zero_of_le (Nat.le_add_right _ _), List.replicate_zero, List.append_nil]

theorem zeroFill_self (bytes : Bytes) : zeroFill bytes.length bytes = bytes := by
  have h := @zeroFill_append _ bytes rfl []
  rwa [List.append_nil] at h

/-- On a recoverable connection, receiving into a buffer of zeros. -/
theorem get_zeros_int32_returns {c : Conn} (hc : c.RecvRecoverable) {n : ℕ} (hn : n < 2 ^ 32)
    (hend : n ≤ (delivered c.recvs).length ∨ ¬c.Interrupted) :
    ∃ c', Returns (fun fuel => reliableGetToEofOrN fuel (List.replicate n 0) (int32 n) c)
        ((int32 ((delivered c.recvs).take n).length, zeroFill n (delivered c.recvs)), c') ∧
      delivered c'.recvs = (delivered c.recvs).drop n ∧ c'.RecvRecoverable ∧
      (c'.Interrupted ↔ c.Interrupted) ∧ c'.sends = c.sends ∧ c'.sent = c.sent := by
  obtain ⟨total, buf, c', hr, hgot⟩ :=
    reliableGetToEofOrN_int32_returns hc (List.replicate n 0) hn hend
  have htotal := hgot.total
  have hbuf := hgot.buf
  rw [take_append_replicate] at hbuf
  simp only at htotal hbuf
  subst htotal hbuf
  exact ⟨c', hr, hgot.delivered, hgot.recoverable, hgot.interrupted, hgot.sends, hgot.sent⟩

theorem get_zeros_returns {c : Conn} (hc : c.RecvRecoverable) {n : ℕ} (hn : n < 2 ^ 31)
    (hend : n ≤ (delivered c.recvs).length ∨ ¬c.Interrupted) :
    ∃ c', Returns (fun fuel => reliableGetToEofOrN fuel (List.replicate n 0) n c)
        (((((delivered c.recvs).take n).length : ℤ), zeroFill n (delivered c.recvs)), c') ∧
      delivered c'.recvs = (delivered c.recvs).drop n ∧ c'.RecvRecoverable ∧
      (c'.Interrupted ↔ c.Interrupted) ∧ c'.sends = c.sends ∧ c'.sent = c.sent := by
  have h := get_zeros_int32_returns hc (hn.trans (by decide)) hend
  rwa [int32_natCast hn, int32_natCast (lt_of_le_of_lt (List.length_take_le n _) hn)] at h

theorem Header.bodyLength_eq {h : Header} (hr : h.InRange) :
    h.bodyLength = h.announced := by
  obtain ⟨hu, hp, hm⟩ := hr
  rw [lenUname] at hu
  rw [lenPassword] at hp
  rw [lenProfileFile] at hm
  rw [bodyLength, announced, UInt32.toNat_add, UInt32.toNat_add]
  omega

theorem Header.bodyLength_lt {h : Header} (hr : h.InRange) : h.bodyLength < 2 ^ 31 := by
  obtain ⟨hu, hp, hm⟩ := id hr
  rw [bodyLength_eq hr, announced]
  rw [lenUname] at hu
  rw [lenPassword] at hp
  rw [lenProfileFile] at hm
  omega

/-- A stream has nothing to give a body of zero bytes, and nothing past its end. -/
theorem length_take_eq_zero_iff {n : ℕ} {stream : Bytes} :
    ((stream.take n).length : ℤ) = 0 ↔ n = 0 ∨ stream = [] := by
  rw [Int.natCast_eq_zero, List.length_eq_zero_iff, List.take_eq_nil_iff]

theorem not_inRange_iff {h : Header} : ¬h.InRange ↔
    lenUname < h.ulen.toNat ∨ lenPassword < h.plen.toNat ∨ lenProfileFile < h.mlen.toNat := by
  rw [Header.InRange, not_and_or, not_and_or, Nat.not_le, Nat.not_le, Nat.not_le]

/-- The body of a header, from what a recoverable connection delivers. -/
theorem readBody_returns {c : Conn} (hc : c.RecvRecoverable) {h : Header}
    (hbody : h.InRange → h.bodyLength ≤ (delivered c.recvs).length ∨ ¬c.Interrupted) :
    ∃ c', Returns (fun fuel => readBody fuel h c)
        (if delivered c.recvs = [] ∨ ¬h.InRange ∨ h.bodyLength = 0 then none
          else some (h.request (zeroFill h.bodyLength (delivered c.recvs))), c') ∧
      c'.sends = c.sends ∧ c'.sent = c.sent := by
  simp only [readBody, ← not_inRange_iff]
  by_cases hrange : h.InRange
  · -- The body is filled up with zeros, unless nothing of it was received.
    obtain ⟨c', hr, -, -, -, hsends, hsent⟩ :=
      get_zeros_returns hc (Header.bodyLength_lt hrange) (hbody hrange)
    refine ⟨c', ?_, hsends, hsent⟩
    simp only [if_neg (not_not.2 hrange), List.length_replicate,
      int32_natCast (Header.bodyLength_lt hrange)]
    refine hr.bindM ?_
    simp only [length_take_eq_zero_iff, hrange, not_true_eq_false, false_or, or_comm]
    split <;> exact returns_of_forall fun _ => rfl
  · simp only [hrange, not_false_eq_true, true_or, or_true, if_true]
    exact ⟨c, returns_of_forall fun _ => rfl, rfl, rfl⟩

/-- The request read on a recoverable connection is that of the bytes delivered. -/
theorem readRequest_returns {c : Conn} (hc : c.RecvRecoverable)
    (hheader : 16 ≤ (delivered c.recvs).length ∨ ¬c.Interrupted)
    (hbody : (Header.ofStream (delivered c.recvs)).InRange →
      16 + (Header.ofStream (delivered c.recvs)).bodyLength ≤ (delivered c.recvs).length ∨
        ¬c.Interrupted) :
    ∃ c', Returns (fun fuel => readRequest fuel c) (Request.ofStream (delivered c.recvs), c') ∧
      c'.sends = c.sends ∧ c'.sent = c.sent := by
  obtain ⟨c₁, hr₁, hdel, hrec, hint, hsends, hsent⟩ := get_zeros_returns hc (by decide) hheader
  by_cases hnil : delivered c.recvs = []
  · -- Not a byte: this is all that the test of the header finds.
    refine ⟨c₁, hr₁.bindM ?_, hsends, hsent⟩
    simp only [hnil, List.take_nil]
    exact returns_of_forall fun _ => rfl
  · have hbody₁ : (Header.ofStream (delivered c.recvs)).InRange →
        (Header.ofStream (delivered c.recvs)).bodyLength ≤ (delivered c₁.recvs).length ∨
          ¬c₁.Interrupted := by
      intro hrange
      rw [hint, hdel, List.length_drop]
      exact (hbody hrange).imp_left fun h => by omega
    obtain ⟨c', hr', hsends', hsent'⟩ := readBody_returns hrec hbody₁
    refine ⟨c', hr₁.bindM ?_, hsends'.trans hsends, hsent'.trans hsent⟩
    simp only [hdel, List.drop_eq_nil_iff] at hr'
    simp only [length_take_eq_zero_iff, hnil, OfNat.ofNat_ne_zero, or_self, if_false]
    exact hr'

/-- The reader never ends when the stream of an interrupted connection is too short. -/
theorem readRequest_diverges {c : Conn} (hc : c.RecvRecoverable) (hint : c.Interrupted)
    (hshort : (delivered c.recvs).length < 16 ∨ (Header.ofStream (delivered c.recvs)).InRange ∧
      (delivered c.recvs).length < 16 + (Header.ofStream (delivered c.recvs)).bodyLength) :
    Diverges fun fuel => readRequest fuel c := by
  by_cases h16 : (delivered c.recvs).length < 16
  · -- The header never ends.
    exact (reliableGetToEofOrN_diverges hc _ (by decide) h16 hint).bindM _
  · -- The header is read, and then the body never ends.
    obtain ⟨hrange, hlen⟩ := hshort.resolve_left h16
    rw [Nat.not_lt] at h16
    obtain ⟨c₁, hr₁, hdel, hrec, hint₁, -, -⟩ := get_zeros_returns hc (by decide) (.inl h16)
    have hpos : ¬((((delivered c.recvs).take 16).length : ℤ) = 0) := by
      rw [List.length_take_of_le h16]
      decide
    have hrest :
        (delivered c₁.recvs).length < (Header.ofStream (delivered c.recvs)).bodyLength := by
      rw [hdel, List.length_drop]
      omega
    refine Diverges.bindM_right (reliableGetToEofOrN_eq hr₁) ?_
    simp only [if_neg hpos, readBody, ← not_inRange_iff]
    rw [Header.ofStream] at hrange hrest
    simp only [if_neg (not_not.2 hrange), List.length_replicate,
      int32_natCast (Header.bodyLength_lt hrange)]
    exact (reliableGetToEofOrN_diverges hrec _ (Header.bodyLength_lt hrange) hrest
      (hint₁.2 hint)).bindM _

end UserDirectory
