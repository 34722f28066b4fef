import UserDirectory.Bounds
import UserDirectory.Downloads

/-!
# Where the client leaves its buffers

The functions with which the client takes a response and saves its data, with
assertions as in `UserDirectory.Bounds`. The length that a server announces is
any 32-bit number; it passes through an `int` on its way to `recv`, and it is
compared with the size of the response after adding to it with 32 bits.

* `Checked.sendCmd_safe_iff`: from `2 ^ 31` on, `recv` is given a larger count
  than the space left for the data.
* `Checked.savesSafely_iff`: from `2 ^ 32 - 8` on, `send_result_to_file` reads
  past the end of a response.
-/

namespace UserDirectory

open Fuel Socket CInt LittleEndian Stdio Assertion

namespace Checked

/-- Extract a 4-byte little-endian length from a buffer. -/
def extractLength {m : Type → Type} [Monad m] (buf : Bytes) (start : ℕ) : OptionT m UInt32 := do
  guard (start + 4 ≤ buf.length)
  return Client.extractLength buf start

/-- The step of `send_cmd` that takes the rest of an error. -/
def getError (fuel : ℕ) (response : Bytes) : OptionT Io Bytes := do
  let (got, errorRest) ← reliableGetToEofOrN fuel (List.replicate 12 0) 12
  if got ≠ 0 then return response ++ errorRest
  return response

/-- The step of `send_cmd` that takes the rest of a success. -/
def getSuccess (fuel : ℕ) (response : Bytes) : OptionT Io Bytes := do
  let (got, lenBytes) ← reliableGetToEofOrN fuel (List.replicate 4 0) 4
  if got = 0 then return response
  let dataLen ← extractLength lenBytes 0
  let response := response ++ lenBytes
  if 0 < dataLen then
    let data := List.replicate dataLen.toNat 0
    let (got, data) ← reliableGetToEofOrN fuel data (int32 dataLen.toNat)
    if got = 0 then return []
    return response ++ data
  return response

/-- The part of `send_cmd` that takes the response, after the packet. -/
def getResponse (fuel : ℕ) : OptionT Io Bytes := do
  let (got, response) ← reliableGetToEofOrN fuel (List.replicate 4 0) 4
  if got = 0 then return []
  if response = ascii "ERR_" then getError fuel response
  else if response = resOk then getSuccess fuel response
  else return []

/-- Send a request to the server, then take the response and return it. -/
def sendCmd (fuel : ℕ) (cmd user password msg : Bytes) : OptionT Io Bytes := do
  let sent ← reliableSend fuel (Client.packet cmd user password msg)
    (int32 (Client.packet cmd user password msg).length)
  if !sent then return []
  getResponse fuel

/-- Write the data of a response to a file. -/
def sendResultToFile (faults : WriteFaults) (buf filename : Bytes) (t : Terminal) :
    OptionT Id Terminal := do
  if buf.length < 8 then
    return t.complain (ascii "Error: Response does not start with OK__")
  guard (4 ≤ buf.length)
  if buf.take 4 ≠ resOk then
    return t.complain (ascii "Error: Response does not start with OK__")
  let dataLen ← extractLength buf 4
  if buf.length < (8 + dataLen).toNat then
    return t.complain (ascii "Error: Buffer too small for claimed data length")
  guard (8 + dataLen.toNat ≤ buf.length)
  let data := (buf.drop 8).take dataLen.toNat
  let (written, t) := t.writeFile faults filename data 0
  return if !written then t.complain (ascii "Error: Failed to write to file " ++ filename) else t

/-! ## Receiving the data -/

section Receiving

variable {c : Conn} {rest : Bytes}

/-- Into a buffer of `2 ^ 31` bytes or more, `recv` is given a count that is too large. -/
theorem reliableGetToEofOrN_fails {buf : Bytes} {n : ℕ} (hlen : buf.length = n)
    (hlow : 2 ^ 31 ≤ n) (hhigh : n < 2 ^ 32) :
    Returns (fun fuel => (reliableGetToEofOrN fuel buf (int32 n)).run c) (none, c) := by
  have hout : ¬GetState.Within buf.length ⟨buf, 0, int32 n, 0, c⟩ := by
    rintro ⟨-, hcount⟩
    have hne : int32 n ≠ 0 := by
      rw [ne_eq, int32_eq_zero_iff]
      omega
    have hlt := lt_sizeT_int32 hlow hhigh
    have hle := hcount hne
    simp only at hle
    omega
  exact (loop_returns_of_inr (asserting_of_not hout)).map _

theorem four_ne_zero_int : ¬(4 : ℤ) = 0 := by decide

/-- The first bytes of a response are received whole. -/
theorem get_front_returns (hc : c.RecvRecoverable) {front : Bytes} (hlen : front.length = 4)
    (hfront : delivered c.recvs = front ++ rest) :
    ∃ c', c'.RecvRecoverable ∧ delivered c'.recvs = rest ∧
      Returns (fun n => UserDirectory.reliableGetToEofOrN n (List.replicate 4 0) 4 c)
        ((4, front), c') := by
  obtain ⟨c', hr, hdel, hrec, -⟩ := get_zeros_returns hc (n := 4) (by decide)
    (.inl (by rw [hfront, List.length_append, hlen]; exact Nat.le_add_right _ _))
  rw [hfront, List.take_left' hlen, hlen, zeroFill_append hlen] at hr
  rw [hfront, List.drop_left' hlen] at hdel
  exact ⟨c', hrec, hdel, hr⟩

theorem get_front_eq (fuel : ℕ) : reliableGetToEofOrN fuel (List.replicate 4 0) 4 =
    OptionT.lift (UserDirectory.reliableGetToEofOrN fuel (List.replicate 4 0) 4) :=
  reliableGetToEofOrN_eq fuel List.length_replicate (by decide)

theorem extractLength_word (D : UInt32) :
    (extractLength (word D) 0 : OptionT Io UInt32) = pure D := by
  have h := @extractLength_eq [] _ (length_word D) []
  rw [List.append_nil, decode_word, UInt32.ofNat_toNat] at h
  rw [extractLength, guard_eq_pure (by rw [length_word]), pure_bind]
  exact congrArg pure h

/-- Data of less than `2 ^ 31` bytes is received within its buffer. -/
theorem getSuccess_safe (hc : c.RecvRecoverable) {D : UInt32}
    (hstream : delivered c.recvs = word D ++ rest) (hD : D.toNat < 2 ^ 31) (response : Bytes) :
    Safe (fun n => getSuccess n response) c := by
  obtain ⟨c₁, -, -, hr⟩ := get_front_returns hc (length_word D) hstream
  simp only [getSuccess, get_front_eq]
  refine safe_lift_bind (UserDirectory.reliableGetToEofOrN_eq hr) ?_
  simp only [if_neg four_ne_zero_int, extractLength_word, pure_bind]
  by_cases hpos : 0 < D
  · have hget : ∀ n, reliableGetToEofOrN n (List.replicate D.toNat 0) (int32 D.toNat) =
        OptionT.lift (UserDirectory.reliableGetToEofOrN n (List.replicate D.toNat 0) D.toNat) := by
      intro n
      rw [int32_natCast hD]
      exact reliableGetToEofOrN_eq n List.length_replicate hD
    simp only [if_pos hpos, hget]
    refine safe_of_eq_lift (fun n => lift_bind_congr (f := fun p =>
      if p.1 = 0 then pure [] else pure (response ++ word D ++ p.2)) fun _ p _ _ => ?_)
    split <;> exact (OptionT.lift_pure _).symm
  · simp only [if_neg hpos]
    exact safe_of_eq_lift fun _ => (OptionT.lift_pure _).symm

/-- Data of `2 ^ 31` bytes or more is not. -/
theorem getSuccess_fails (hc : c.RecvRecoverable) {D : UInt32}
    (hstream : delivered c.recvs = word D ++ rest) (hD : 2 ^ 31 ≤ D.toNat) (response : Bytes) :
    ∃ c', Returns (fun n => (getSuccess n response).run c) (none, c') := by
  obtain ⟨c₁, -, -, hr⟩ := get_front_returns hc (length_word D) hstream
  have hpos : 0 < D := by
    rw [UInt32.lt_iff_toNat_lt]
    exact lt_of_lt_of_le (by decide) hD
  refine ⟨c₁, ?_⟩
  simp only [getSuccess, get_front_eq]
  refine returns_lift_bind hr ?_
  simp only [if_neg four_ne_zero_int, extractLength_word, pure_bind, if_pos hpos]
  exact returns_none_bind (reliableGetToEofOrN_fails List.length_replicate hD D.toNat_lt)

theorem getResponse_safe (hc : c.RecvRecoverable) {D : UInt32}
    (hstream : delivered c.recvs = resOk ++ (word D ++ rest)) (hD : D.toNat < 2 ^ 31) :
    Safe (fun n => getResponse n) c := by
  obtain ⟨c₁, hc₁, hdel₁, hr⟩ := get_front_returns hc length_resOk hstream
  have herr : resOk ≠ ascii "ERR_" := by decide
  simp only [getResponse, get_front_eq]
  refine safe_lift_bind (UserDirectory.reliableGetToEofOrN_eq hr) ?_
  simp only [if_neg four_ne_zero_int, if_neg herr, if_true]
  exact getSuccess_safe hc₁ hdel₁ hD resOk

theorem getResponse_fails (hc : c.RecvRecoverable) {D : UInt32}
    (hstream : delivered c.recvs = resOk ++ (word D ++ rest)) (hD : 2 ^ 31 ≤ D.toNat) :
    ∃ c', Returns (fun n => (getResponse n).run c) (none, c') := by
  obtain ⟨c₁, hc₁, hdel₁, hr⟩ := get_front_returns hc length_resOk hstream
  have herr : resOk ≠ ascii "ERR_" := by decide
  obtain ⟨c', hfail⟩ := getSuccess_fails hc₁ hdel₁ hD resOk
  refine ⟨c', ?_⟩
  simp only [getResponse, get_front_eq]
  refine returns_lift_bind hr ?_
  simp only [if_neg four_ne_zero_int, if_neg herr, if_true]
  exact hfail

/-- The bytes can be sent. -/
def Sent (c : Conn) (bytes : Bytes) : Prop :=
  ∃ c', Returns (fun n => reliableSend n bytes (int32 bytes.length) c) (true, c')

/-- With an announced length of `2 ^ 31` or more, `recv` is given a count that is too large. -/
theorem sendCmd_fails (hc : c.RecvRecoverable) {D : UInt32}
    (hstream : delivered c.recvs = resOk ++ (word D ++ rest)) {cmd user password msg : Bytes}
    (hsent : Sent c (Client.packet cmd user password msg)) (hD : 2 ^ 31 ≤ D.toNat) :
    ¬Safe (fun n => sendCmd n cmd user password msg) c := by
  obtain ⟨c₁, hr⟩ := hsent
  have hrecvs := (reliableSend_eq hr).2
  obtain ⟨c', hfail⟩ := getResponse_fails (fun e he => hc e (hrecvs ▸ he))
    (by rw [hrecvs]; exact hstream) hD
  exact not_safe_of_returns (returns_lift_bind hr hfail)

/-- Whatever follows an announced length, and however it is cut: `send_cmd` receives within its
    buffers iff the length is below `2 ^ 31`, or the request cannot be sent. -/
theorem sendCmd_safe_iff (hc : c.RecvRecoverable) {D : UInt32}
    (hstream : delivered c.recvs = resOk ++ (word D ++ rest)) (cmd user password msg : Bytes) :
    Safe (fun n => sendCmd n cmd user password msg) c ↔
      D.toNat < 2 ^ 31 ∨ ¬Sent c (Client.packet cmd user password msg) := by
  constructor
  · intro hsafe
    by_contra hcond
    rw [not_or, Nat.not_lt, not_not] at hcond
    exact sendCmd_fails hc hstream hcond.2 hcond.1 hsafe
  · intro hcond
    obtain ⟨b, c₁, hr, hrecvs⟩ := reliableSend_returns c (Client.packet cmd user password msg)
    refine safe_lift_bind (reliableSend_eq hr).1 ?_
    rcases b with _ | _
    · -- The request cannot be sent, and nothing is received.
      exact safe_of_eq_lift fun _ => (OptionT.lift_pure _).symm
    · have hD := hcond.resolve_right (not_not.2 ⟨c₁, hr⟩)
      exact getResponse_safe (fun e he => hc e (hrecvs ▸ he)) (by rw [hrecvs]; exact hstream) hD

end Receiving

/-- Two bytes of data, received one by one. -/
theorem sendCmd_safe_two : Safe (fun n => sendCmd n reqAll (ascii "alice") (ascii "pw") [])
    ⟨[.data 79 [75, 95, 95, 2, 0, 0, 0], .data 104 [], .fail .EINTR, .data 105 []], [], .other 0,
      [], []⟩ := by
  have hc : Conn.RecvRecoverable ⟨[.data 79 [75, 95, 95, 2, 0, 0, 0], .data 104 [],
      .fail .EINTR, .data 105 []], [], .other 0, [], []⟩ := fun e he => by simpa using he
  have hstream : delivered [.data 79 [75, 95, 95, 2, 0, 0, 0], .data 104 [], .fail .EINTR,
      .data 105 []] = resOk ++ (word 2 ++ ascii "hi") := by decide
  exact (sendCmd_safe_iff hc hstream _ _ _ _).2 (.inl (by decide))

/-- An announced length of `2 ^ 31`, with nothing after it. -/
theorem sendCmd_unsafe :
    ¬∀ (c : Conn) (D : UInt32) (rest cmd user password msg : Bytes), c.RecvRecoverable →
      delivered c.recvs = resOk ++ (word D ++ rest) →
      Safe (fun n => sendCmd n cmd user password msg) c := by
  intro h
  have hc := Conn.recvRecoverable_delivering (resOk ++ word 0x80000000)
  have hstream : delivered (Conn.delivering (resOk ++ word 0x80000000)).recvs =
      resOk ++ (word 0x80000000 ++ []) := by
    rw [delivered_delivering, List.append_nil]
  -- The request is sent.
  obtain ⟨c', hsend, -⟩ := reliableSend_sent_all
    (Conn.sendRecoverable_delivering (resOk ++ word 0x80000000))
    (@packet_lt reqAll _ _ _ rfl fits_alice)
  exact sendCmd_fails hc hstream ⟨c', hsend⟩ (by decide) (h _ _ _ _ _ _ _ hc hstream)

/-! ## Saving the data -/

section Saving

variable {faults : WriteFaults} {buf filename : Bytes} {t : Terminal}

/-- The length that a response claims in its bytes 4 to 7. -/
def claimed (buf : Bytes) : ℕ := decode ((buf.drop 4).take 4)

/-- Nothing outside the response is read, and either there is an error and no file changes, or
    the response has the data that it claims and these are written. -/
def SavesSafely (faults : WriteFaults) (buf filename : Bytes) (t : Terminal) : Prop :=
  ∃ t', (sendResultToFile faults buf filename t).run = some t' ∧
    ((∃ text, t'.cerr = t.cerr ++ (ascii "Error: " ++ text) ∧ t'.files = t.files) ∨
      resOk <+: buf ∧ 8 + claimed buf ≤ buf.length ∧
        t'.files = downloaded faults t.files filename ((buf.drop 8).take (claimed buf)))

theorem claimed_lt (buf : Bytes) : claimed buf < 2 ^ 32 :=
  lt_of_lt_of_le (decode_lt _) (Nat.pow_le_pow_right (by decide) (List.length_take_le _ _))

theorem resOk_prefix_iff : resOk <+: buf ↔ buf.take 4 = resOk := by
  rw [List.prefix_iff_eq_take, length_resOk, eq_comm]

theorem clientExtractLength_claimed (h8 : 8 ≤ buf.length) :
    Client.extractLength buf 4 = .ofNat (claimed buf) := by
  have hlen : ((buf.drop 4).take 4).length = 4 := by
    rw [List.length_take, List.length_drop]
    omega
  have h := @extractLength_eq (buf.take 4) _ hlen ((buf.drop 4).drop 4)
  rwa [List.take_append_drop, List.take_append_drop, List.length_take_of_le (by omega)] at h

theorem toNat_claimed (buf : Bytes) : (UInt32.ofNat (claimed buf)).toNat = claimed buf :=
  UInt32.toNat_ofNat_of_lt' (claimed_lt buf)

/-- The size that a response is compared with. -/
theorem toNat_eight_add (buf : Bytes) :
    (8 + UInt32.ofNat (claimed buf)).toNat = (8 + claimed buf) % 2 ^ 32 := by
  rw [UInt32.toNat_add, toNat_claimed]
  rfl

/-- The response passes the check of its size, but does not have the data that it claims. -/
def ReadsPast (buf : Bytes) : Prop :=
  8 ≤ buf.length ∧ resOk <+: buf ∧ (8 + claimed buf) % 2 ^ 32 ≤ buf.length ∧
    buf.length < 8 + claimed buf

instance : Decidable (ReadsPast buf) := inferInstanceAs (Decidable (_ ∧ _))

/-- The sum of the sizes wraps around. -/
theorem readsPast_iff (hlen : buf.length < 2 ^ 32) :
    ReadsPast buf ↔ 8 ≤ buf.length ∧ resOk <+: buf ∧ 2 ^ 32 - 8 ≤ claimed buf := by
  have hlt := claimed_lt buf
  refine and_congr_right fun h8 => and_congr_right fun _ => ?_
  omega

/-- The response is read within its bounds, or past its end. -/
theorem sendResultToFile_run : (sendResultToFile faults buf filename t).run =
    if ReadsPast buf then none else some (Client.sendResultToFile faults buf filename t) := by
  rw [sendResultToFile, Client.sendResultToFile]
  by_cases h8 : buf.length < 8
  · have hnot : ¬ReadsPast buf := fun h => absurd h.1 (Nat.not_le.2 h8)
    have hbad : buf.length < 8 ∨ buf.take 4 ≠ resOk := .inl h8
    rw [if_neg hnot, if_pos h8, if_pos hbad]
    rfl
  have hlen : ¬buf.length < 8 := h8
  rw [Nat.not_lt] at h8
  by_cases hok : buf.take 4 ≠ resOk
  · have hnot : ¬ReadsPast buf := fun h => hok (resOk_prefix_iff.1 h.2.1)
    have hbad : buf.length < 8 ∨ buf.take 4 ≠ resOk := .inr hok
    rw [if_neg hnot, if_neg hlen, guard_eq_pure (by omega), pure_bind, if_pos hok, if_pos hbad]
    rfl
  have hgo : ¬(buf.length < 8 ∨ buf.take 4 ≠ resOk) := not_or.2 ⟨hlen, hok⟩
  rw [if_neg hlen, guard_eq_pure (by omega), pure_bind, if_neg hok, if_neg hgo,
    extractLength, guard_eq_pure (by omega), pure_bind, clientExtractLength_claimed h8]
  simp only [pure_bind, toNat_eight_add, toNat_claimed]
  by_cases hsize : buf.length < (8 + claimed buf) % 2 ^ 32
  · have hnot : ¬ReadsPast buf := fun h => absurd h.2.2.1 (Nat.not_le.2 hsize)
    rw [if_neg hnot, if_pos hsize, if_pos hsize]
    rfl
  by_cases hfits : 8 + claimed buf ≤ buf.length
  · have hnot : ¬ReadsPast buf := fun h => absurd h.2.2.2 (Nat.not_lt.2 hfits)
    rw [if_neg hnot, if_neg hsize, if_neg hsize, guard_eq_pure hfits, pure_bind]
    rfl
  · -- The claimed data ends after the response does.
    have hpast : ReadsPast buf := ⟨h8, resOk_prefix_iff.2 (not_not.1 hok), Nat.le_of_not_lt hsize,
      Nat.lt_of_not_le hfits⟩
    rw [if_pos hpast, if_neg hsize, guard, if_neg hfits]
    rfl

/-- What is read within the bounds is an error, or data that is written. -/
theorem sendResultToFile_saves (h : ¬ReadsPast buf) :
    (∃ text, (Client.sendResultToFile faults buf filename t).cerr =
        t.cerr ++ (ascii "Error: " ++ text) ∧
      (Client.sendResultToFile faults buf filename t).files = t.files) ∨
    resOk <+: buf ∧ 8 + claimed buf ≤ buf.length ∧
      (Client.sendResultToFile faults buf filename t).files =
        downloaded faults t.files filename ((buf.drop 8).take (claimed buf)) := by
  rw [Client.sendResultToFile]
  by_cases hbad : buf.length < 8 ∨ buf.take 4 ≠ resOk
  · rw [if_pos hbad]
    exact .inl ⟨ascii "Response does not start with OK__" ++ newline, rfl, rfl⟩
  rw [if_neg hbad]
  rw [not_or, Nat.not_lt, not_not] at hbad
  have hok := resOk_prefix_iff.2 hbad.2
  simp only [clientExtractLength_claimed hbad.1, toNat_eight_add, toNat_claimed]
  by_cases hsize : buf.length < (8 + claimed buf) % 2 ^ 32
  · rw [if_pos hsize]
    exact .inl ⟨ascii "Buffer too small for claimed data length" ++ newline, rfl, rfl⟩
  · rw [if_neg hsize]
    refine .inr ⟨hok, ?_, ?_⟩
    · by_contra hpast
      exact h ⟨hbad.1, hok, Nat.le_of_not_lt hsize, Nat.lt_of_not_le hpast⟩
    · obtain ⟨text, htext⟩ := @Terminal.writeFile_snd faults filename
        ((buf.drop 8).take (claimed buf)) t
      rw [htext]
      split <;> rfl

/-- For every response of less than `2 ^ 32` bytes: `send_result_to_file` is safe iff the
    response does not claim `2 ^ 32 - 8` bytes or more, or is refused for its beginning. -/
theorem savesSafely_iff (hlen : buf.length < 2 ^ 32) :
    SavesSafely faults buf filename t ↔
      buf.length < 8 ∨ ¬resOk <+: buf ∨ claimed buf < 2 ^ 32 - 8 := by
  have hnot : ¬ReadsPast buf ↔ buf.length < 8 ∨ ¬resOk <+: buf ∨ claimed buf < 2 ^ 32 - 8 := by
    rw [readsPast_iff hlen, not_and_or, not_and_or, Nat.not_le, Nat.not_le]
  rw [← hnot, SavesSafely, sendResultToFile_run]
  constructor
  · rintro ⟨t', ht', -⟩ hpast
    rw [if_pos hpast] at ht'
    cases ht'
  · intro h
    exact ⟨_, if_neg h, sendResultToFile_saves h⟩

/-- A response with two bytes of data, and one more byte after these. -/
theorem savesSafely_two : SavesSafely .none (okResponse (ascii "hi") ++ [0]) (ascii "all")
    ⟨.delivering [], fun _ => none, [], []⟩ :=
  (savesSafely_iff (by decide)).2 (.inr (.inr (by decide)))

/-- When nothing fails on the disk, the file holds the bytes that are claimed. -/
theorem SavesSafely.written (h : SavesSafely .none buf filename t) :
    ∃ t', (sendResultToFile .none buf filename t).run = some t' ∧
      ((∃ text, t'.cerr = t.cerr ++ (ascii "Error: " ++ text) ∧ t'.files = t.files) ∨
        resOk <+: buf ∧ 8 + claimed buf ≤ buf.length ∧ t'.files =
          Function.update t.files (cStr filename) (some ((buf.drop 8).take (claimed buf)))) := by
  obtain ⟨t', hrun, herror | ⟨hok, hlen, hfiles⟩⟩ := h
  · exact ⟨t', hrun, .inl herror⟩
  · refine ⟨t', hrun, .inr ⟨hok, hlen, ?_⟩⟩
    rw [hfiles, downloaded, written_eq_iff.2 (WriteFaults.none_complete _)]
    rfl

/-- A response that claims `2 ^ 32 - 8` bytes, and has none. -/
theorem savesSafely_wrapped :
    ¬∀ (faults : WriteFaults) (buf filename : Bytes) (t : Terminal), buf.length < 2 ^ 32 →
      SavesSafely faults buf filename t := by
  intro h
  obtain ⟨t', ht', -⟩ := h .none (resOk ++ word 0xFFFFFFF8) (ascii "all")
    ⟨.delivering [], fun _ => none, [], []⟩ (by decide)
  rw [sendResultToFile_run, if_pos (by decide)] at ht'
  cases ht'

end Saving

end Checked

end UserDirectory
