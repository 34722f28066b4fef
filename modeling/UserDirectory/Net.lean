import UserDirectory.Constants
import UserDirectory.Library.CInt
import UserDirectory.Library.Fuel
import UserDirectory.Library.Socket

/-!
# Sending and receiving whole messages

The two loops of `common/net.cc` that retry `send` and `recv`. Each pass of a
loop (`sendPass`, `getPass`) is one system call and what the source does with
its result, with the `int` counters of the source; the loops need not end, so
they take a fuel. Where the source prints a line with `err`, the connection
takes a report (`Conn.report`), and `reportLine` is the line.

* `reliableSend_returns`: sending always ends, and `reliableSend_sent`: on a
  recoverable connection it sends the front of the buffer, all of it when its
  length is below `2 ^ 32`.
* `reliableGetToEofOrN_int32_returns`: on a recoverable connection, receiving
  gets the front of the stream, as much as was asked for or all there is, and
  leaves the rest of the buffer as it was.
* `reliableGetToEofOrN_diverges`: but when the stream is too short and the
  connection was interrupted, it never ends: at the end of the stream `recv`
  returns `0` and leaves the `EINTR` of an earlier call in `errno`.
-/

namespace UserDirectory

open Fuel Socket CInt

/-- A function working on a connected socket; `none` is one that does not return. -/
abbrev Io := StateT Conn Option

/-- The variables of `reliable_send`: `nextByte` is what it points to, up to the
    end of the buffer. -/
structure SendState where
  nextByte : Bytes
  remain : ℤ
  conn : Conn

/-- One pass of the loop of `reliable_send`. -/
def sendPass (s : SendState) : SendState ⊕ (Bool × Conn) :=
  if s.remain = 0 then .inr (true, s.conn)
  else
    let (sent, conn) := s.conn.send s.nextByte (sizeT s.remain)
    -- Sending 0 bytes means the peer has closed, but it is `errno` that decides.
    if sent ≤ 0 then
      if conn.errno ≠ .EINTR then .inr (false, conn.report .send)
      else .inl { s with conn := conn }
    else .inl ⟨s.nextByte.drop sent.toNat, int32 (s.remain - sent), conn⟩

/-- `reliable_send(sd, bytes, len)`, with `len` already converted to `int`. -/
def reliableSend (fuel : ℕ) (bytes : Bytes) (len : ℤ) : Io Bool := fun c =>
  loop sendPass fuel ⟨bytes, len, c⟩

/-- What holds at every pass: `remain` is the length of what is left, as an `int`,
    and what is gone was sent. -/
structure SendInv (c : Conn) (bytes : Bytes) (s : SendState) : Prop where
  remain : s.remain = int32 s.nextByte.length
  sent : ∃ out, bytes = out ++ s.nextByte ∧ s.conn.sent = c.sent ++ out
  recvs : s.conn.recvs = c.recvs
  recoverable : c.SendRecoverable → s.conn.SendRecoverable

theorem SendInv.init (c : Conn) (bytes : Bytes) :
    SendInv c bytes ⟨bytes, int32 bytes.length, c⟩ where
  remain := by simp only
  sent := ⟨[], rfl, (List.append_nil _).symm⟩
  recvs := rfl
  recoverable := id

/-- A pass ends the loop with nothing remaining, or with an error, or goes on
    with less to send or fewer outcomes of `send` to come. -/
theorem sendPass_cases {c : Conn} {bytes : Bytes} {s : SendState} (hs : SendInv c bytes s) :
    (sendPass s = .inr (true, s.conn) ∧ int32 s.nextByte.length = 0) ∨
    (∃ c', sendPass s = .inr (false, c') ∧ c'.recvs = c.recvs ∧ ¬c.SendRecoverable ∧
      ∃ out, out <+: bytes ∧ c'.sent = c.sent ++ out) ∨
    (∃ s', sendPass s = .inl s' ∧ SendInv c bytes s' ∧
      s'.nextByte.length + s'.conn.sends.length < s.nextByte.length + s.conn.sends.length) := by
  obtain ⟨next, remain, conn⟩ := s
  obtain ⟨hremain, ⟨out, rfl, hsent⟩, hrecvs, hrec⟩ := hs
  simp only at hremain hsent hrecvs hrec
  subst hremain
  by_cases h0 : int32 next.length = 0
  · -- Nothing remains, as far as an `int` can tell.
    exact .inl ⟨by rw [sendPass, if_pos h0], h0⟩
  have hne : next ≠ [] := by
    rintro rfl
    exact h0 (int32_natCast (by decide))
  rcases conn.send_cases hne (sizeT_int32_pos h0) with
    ⟨k, c', hk, hpos, hle, -, hsent', -, hrecvs', hlen, hrec'⟩ |
    ⟨r, c', hr, hr0, hsent', hrecvs', hlen, hrec'⟩
  · -- Some bytes are taken: they move from what is left to what was sent.
    refine .inr (.inr ⟨⟨next.drop k, int32 (int32 next.length - k), c'⟩, ?_, ⟨?_, ?_, ?_, ?_⟩, ?_⟩)
    · have hk0 : ¬(k : ℤ) ≤ 0 := by omega
      simp only [sendPass, if_neg h0, hk, if_neg hk0, Int.toNat_natCast]
    · simp only [int32_sub, List.length_drop, Int.ofNat_sub hle]
    · refine ⟨out ++ next.take k, ?_, ?_⟩
      · rw [List.append_assoc, List.take_append_drop]
      · rw [hsent', hsent, List.append_assoc]
    · exact hrecvs'.trans hrecvs
    · exact fun h => hrec' (hrec h)
    · simp only [List.length_drop]
      omega
  · -- Nothing is taken: `errno` decides.
    by_cases he : c'.errno = .EINTR
    · refine .inr (.inr ⟨⟨next, int32 next.length, c'⟩, ?_, ⟨rfl, ⟨out, rfl, ?_⟩, ?_, ?_⟩, ?_⟩)
      · simp only [sendPass, if_neg h0, hr, if_pos hr0, he, ne_eq, not_true_eq_false, if_false]
      · exact hsent'.trans hsent
      · exact hrecvs'.trans hrecvs
      · exact fun h => (hrec' (hrec h)).2
      · simp only
        omega
    · refine .inr (.inl ⟨c'.report .send, ?_, hrecvs'.trans hrecvs,
        fun h => he (hrec' (hrec h)).1, out, List.prefix_append _ _, hsent'.trans hsent⟩)
      simp only [sendPass, if_neg h0, hr, if_pos hr0, ne_eq, he, not_false_eq_true, if_true]

/-- The loop of `reliable_send` always ends, after sending the front of the buffer. On a
    recoverable connection it ends with `true`, and all is sent up to a multiple of `2 ^ 32`
    bytes. -/
theorem sendLoop_returns (c : Conn) (bytes : Bytes) :
    ∃ r, Returns (fun n => loop sendPass n ⟨bytes, int32 bytes.length, c⟩) r ∧
      r.2.recvs = c.recvs ∧ ∃ out, out <+: bytes ∧ r.2.sent = c.sent ++ out ∧
        (c.SendRecoverable → r.1 = true ∧ out.length % 2 ^ 32 = bytes.length % 2 ^ 32) := by
  refine loop_total (P := SendInv c bytes)
    (fun s => s.nextByte.length + s.conn.sends.length) (fun s s' hs hb => ?_) (fun s r hs hb => ?_)
    (SendInv.init c bytes)
  · rcases sendPass_cases hs with ⟨h, -⟩ | ⟨_, h, -⟩ | ⟨_, h, hs', hlt⟩ <;> rw [h] at hb <;>
      cases hb
    exact ⟨hs', hlt⟩
  · rcases sendPass_cases hs with ⟨h, h0⟩ | ⟨_, h, hrecvs, hc, out, hout, hsent⟩ | ⟨_, h, -⟩ <;>
      rw [h] at hb <;> cases hb
    · -- What is left has length `0` as an `int`.
      obtain ⟨out, hout, hsent⟩ := hs.sent
      refine ⟨hs.recvs, out, hout ▸ List.prefix_append _ _, hsent, fun _ => ⟨rfl, ?_⟩⟩
      have hlen := congrArg List.length hout
      rw [int32_eq_zero_iff] at h0
      rw [List.length_append] at hlen
      omega
    · exact ⟨hrecvs, out, hout, hsent, fun h => absurd h hc⟩

/-- Sending always ends, and receives nothing. -/
theorem reliableSend_returns (c : Conn) (bytes : Bytes) :
    ∃ b c', Returns (fun n => reliableSend n bytes (int32 bytes.length) c) (b, c') ∧
      c'.recvs = c.recvs := by
  obtain ⟨⟨b, c'⟩, hr, hrecvs, -⟩ := sendLoop_returns c bytes
  exact ⟨b, c', hr, hrecvs⟩

/-- Sending gives the value it returns or runs out of fuel, and receives nothing. -/
theorem reliableSend_eq {bytes : Bytes} {c c' : Conn} {b : Bool}
    (h : Returns (fun n => reliableSend n bytes (int32 bytes.length) c) (b, c')) :
    (∀ n, reliableSend n bytes (int32 bytes.length) c = none ∨
      reliableSend n bytes (int32 bytes.length) c = some (b, c')) ∧ c'.recvs = c.recvs := by
  obtain ⟨r, hr, hrecvs, -⟩ := sendLoop_returns c bytes
  obtain rfl := h.unique hr
  exact ⟨fun n => h.loop_eq n, hrecvs⟩

/-- What the calls of `send` keep holds when sending ends; but if it fails, there is then a
    report of that. -/
theorem reliableSend_invariant {P : Conn → Prop}
    (hP : ∀ c buf count, P c → P (c.send buf count).2) {bytes : Bytes} {len : ℤ} {c c' : Conn}
    {b : Bool} (h : Returns (fun n => reliableSend n bytes len c) (b, c')) (hc : P c) :
    b = true ∧ P c' ∨ b = false ∧ ∃ c₁, P c₁ ∧ c' = c₁.report .send := by
  refine loop_invariant (P := fun s : SendState => P s.conn)
    (Q := fun r => r.1 = true ∧ P r.2 ∨ r.1 = false ∧ ∃ c₁, P c₁ ∧ r.2 = c₁.report .send) h hc
    (fun s s' hs hb => ?_) fun s r hs hb => ?_
  · have hsend := hP s.conn s.nextByte (sizeT s.remain) hs
    rw [sendPass] at hb
    split at hb
    · cases hb
    dsimp only at hb
    split at hb
    · split at hb <;> cases hb
      exact hsend
    · cases hb
      exact hsend
  · have hsend := hP s.conn s.nextByte (sizeT s.remain) hs
    rw [sendPass] at hb
    split at hb
    · cases hb
      exact .inl ⟨rfl, hs⟩
    dsimp only at hb
    split at hb
    · split at hb <;> cases hb
      exact .inr ⟨rfl, _, hsend, rfl⟩
    · cases hb

/-- On a recoverable connection, the front of the buffer is sent, up to a multiple of
    `2 ^ 32` bytes. -/
theorem reliableSend_sent {c : Conn} (hc : c.SendRecoverable) (bytes : Bytes) :
    ∃ out c', Returns (fun n => reliableSend n bytes (int32 bytes.length) c) (true, c') ∧
      out <+: bytes ∧ c'.sent = c.sent ++ out ∧ c'.recvs = c.recvs ∧
      out.length % 2 ^ 32 = bytes.length % 2 ^ 32 := by
  obtain ⟨⟨b, c'⟩, hr, hrecvs, out, hout, hsent, h⟩ := sendLoop_returns c bytes
  obtain ⟨rfl, hlen⟩ := h hc
  exact ⟨out, c', hr, hout, hsent, hrecvs, hlen⟩

/-- On a recoverable connection, a buffer of less than `2 ^ 32` bytes is sent whole. -/
theorem reliableSend_sent_all {c : Conn} (hc : c.SendRecoverable) {bytes : Bytes}
    (hlen : bytes.length < 2 ^ 32) :
    ∃ c', Returns (fun n => reliableSend n bytes (int32 bytes.length) c) (true, c') ∧
      c'.sent = c.sent ++ bytes ∧ c'.recvs = c.recvs := by
  obtain ⟨out, c', hr, hout, hsent, hrecvs, hmod⟩ := reliableSend_sent hc bytes
  have hle := hout.length_le
  obtain rfl : out = bytes := hout.eq_of_length (by omega)
  exact ⟨c', hr, hsent, hrecvs⟩

/-- A buffer whose length is `0` as an `int` is not sent at all. -/
theorem reliableSend_zero {bytes : Bytes} (h : bytes.length % 2 ^ 32 = 0) (c : Conn) :
    Returns (fun n => reliableSend n bytes (int32 bytes.length) c) (true, c) := by
  apply loop_returns_of_inr
  rw [sendPass, if_pos (int32_eq_zero_iff.2 h)]

/-! ## `reliable_get_to_eof_or_n` -/

/-- Storing the bytes `bs` at the offset `pos` of a buffer. -/
def store (buf : Bytes) (pos : ℕ) (bs : Bytes) : Bytes :=
  buf.take pos ++ bs ++ buf.drop (pos + bs.length)

/-- The variables of `reliable_get_to_eof_or_n`: `nextByte` is an offset of the buffer. -/
structure GetState where
  buf : Bytes
  nextByte : ℕ
  remain : ℤ
  total : ℤ
  conn : Conn

/-- One pass of the loop of `reliable_get_to_eof_or_n`. -/
def getPass (s : GetState) : GetState ⊕ (ℤ × Bytes × Conn) :=
  if s.remain = 0 then .inr (s.total, s.buf, s.conn)
  else
    let (rcd, bs, conn) := s.conn.recv (sizeT s.remain)
    -- 0 bytes means the end of the stream, and -1 an error; but `errno` is
    -- tested first, in both cases.
    if rcd ≤ 0 then
      if conn.errno ≠ .EINTR then
        if rcd = 0 then .inr (s.total, s.buf, conn) else .inr (-1, s.buf, conn.report .recv)
      else .inl { s with conn := conn }
    else .inl ⟨store s.buf s.nextByte bs, s.nextByte + rcd.toNat, int32 (s.remain - rcd),
      int32 (s.total + rcd), conn⟩

/-- `reliable_get_to_eof_or_n(sd, pos, amnt)`, with `buf` the buffer behind `pos`: the
    value returned and the buffer. -/
def reliableGetToEofOrN (fuel : ℕ) (buf : Bytes) (amnt : ℤ) : Io (ℤ × Bytes) := fun c =>
  (loop getPass fuel ⟨buf, 0, amnt, 0, c⟩).map fun (n, buf, c) => ((n, buf), c)

/-- What holds at every pass, when `n` bytes are asked for: the bytes got so far are at
    the front of the buffer and of the stream. -/
structure GetInv (c : Conn) (buf : Bytes) (n : ℕ) (s : GetState) : Prop where
  got : ∃ got, delivered c.recvs = got ++ delivered s.conn.recvs ∧ got.length ≤ n ∧
    s.buf = got ++ buf.drop got.length ∧ s.nextByte = got.length ∧
    s.remain = int32 (n - got.length : ℕ) ∧ s.total = int32 got.length
  recoverable : s.conn.RecvRecoverable
  interrupted : s.conn.Interrupted ↔ c.Interrupted
  sends : s.conn.sends = c.sends
  sent : s.conn.sent = c.sent

theorem GetInv.init {c : Conn} (hc : c.RecvRecoverable) (buf : Bytes) (n : ℕ) :
    GetInv c buf n ⟨buf, 0, int32 n, 0, c⟩ where
  got := ⟨[], rfl, Nat.zero_le n, rfl, rfl, rfl, (int32_natCast (by decide)).symm⟩
  recoverable := hc
  interrupted := Iff.rfl
  sends := rfl
  sent := rfl

/-- Storing after the bytes got so far. -/
theorem store_got (got buf bs : Bytes) :
    store (got ++ buf.drop got.length) got.length bs =
      got ++ bs ++ buf.drop (got ++ bs).length := by
  rw [store, List.take_left', List.drop_append, List.drop_drop, List.length_append,
    List.drop_eq_nil_of_le (Nat.le_add_right _ _), List.nil_append]
  · congr 2
    omega
  · rfl

/-- A pass ends the loop when all is got, or at the end of the stream; goes on with less
    to receive; or, at the end of the stream of an interrupted connection, changes
    nothing. -/
theorem getPass_cases {c : Conn} {buf : Bytes} {n : ℕ} (hn : n < 2 ^ 32) {s : GetState}
    (hs : GetInv c buf n s) :
    (getPass s = .inr (s.total, s.buf, s.conn) ∧
      (s.remain = 0 ∨ delivered s.conn.recvs = [] ∧ ¬s.conn.Interrupted)) ∨
    (∃ s', getPass s = .inl s' ∧ GetInv c buf n s' ∧ s'.conn.pending < s.conn.pending) ∨
    (getPass s = .inl s ∧ s.remain ≠ 0 ∧ delivered s.conn.recvs = [] ∧ s.conn.Interrupted) := by
  obtain ⟨buf', next, remain, total, conn⟩ := s
  obtain ⟨⟨got, hdel, hle, hbuf, hnext, hremain, htotal⟩, hrec, hint, hsends, hsent⟩ := hs
  simp only at hdel hbuf hnext hremain htotal hrec hint hsends hsent
  by_cases h0 : remain = 0
  · exact .inl ⟨by rw [getPass, if_pos h0], .inl h0⟩
  have hpos : 0 < sizeT remain := by
    rw [hremain] at h0 ⊢
    exact sizeT_int32_pos h0
  rcases conn.recv_cases hrec hpos with
    ⟨hnil, hr⟩ | ⟨c', hr, he, hrec', hint', hdel', hlt, hsends', hsent'⟩ |
    ⟨chunk, c', hr, hne, hlen, hrw, hrec', hint', hdel', hlt, hsends', hsent'⟩
  · -- The end of the stream: an `EINTR` left over has the call tried again, for ever.
    by_cases he : conn.errno = .EINTR
    · refine .inr (.inr ⟨?_, h0, by simp only [hnil, delivered], .inl he⟩)
      simp only [getPass, if_neg h0, hr, he, le_refl, if_true, ne_eq, not_true_eq_false, if_false]
    · refine .inl ⟨?_, .inr ⟨by simp only [hnil, delivered], ?_⟩⟩
      rotate_left
      · simpa only [Conn.Interrupted, hnil, List.not_mem_nil, or_false] using he
      simp only [getPass, if_neg h0, hr, he, le_refl, if_true, ne_eq, not_false_eq_true]
  · -- An interruption.
    refine .inr (.inl ⟨⟨buf', next, remain, total, c'⟩, ?_, ⟨⟨got, ?_, hle, hbuf, hnext, hremain,
      htotal⟩, hrec', ?_, hsends'.trans hsends, hsent'.trans hsent⟩, hlt⟩)
    · simp only [getPass, if_neg h0, hr, he]
      rfl
    · rw [hdel, hdel']
    · exact ⟨fun _ => hint.1 hint', fun _ => .inl he⟩
  · -- A piece of the stream, stored after the bytes got so far.
    have hck : 0 < chunk.length := List.length_pos_of_ne_nil hne
    have hfits : chunk.length ≤ n - got.length := by
      rw [hremain] at hlen
      exact le_of_le_sizeT (by omega) (lt_of_le_of_lt hrw (by decide)) hlen
    refine .inr (.inl ⟨⟨store buf' next chunk, next + chunk.length,
      int32 (n - (got ++ chunk).length : ℕ), int32 (got ++ chunk).length, c'⟩, ?_,
      ⟨⟨got ++ chunk, ?_, ?_, ?_, ?_, rfl, rfl⟩, hrec', hint'.trans hint, hsends'.trans hsends,
        hsent'.trans hsent⟩, hlt⟩)
    · have hck0 : ¬(chunk.length : ℤ) ≤ 0 := by omega
      have hrem : int32 (remain - chunk.length) = int32 (n - (got ++ chunk).length : ℕ) := by
        rw [hremain, int32_sub, List.length_append]
        congr 1
        omega
      have htot : int32 (total + chunk.length) = int32 (got ++ chunk).length := by
        rw [htotal, int32_add, List.length_append, Int.natCast_add]
      simp only [getPass, if_neg h0, hr, if_neg hck0, Int.toNat_natCast, hrem, htot]
    · rw [hdel, hdel', List.append_assoc]
    · rw [List.length_append]
      omega
    · rw [hbuf, hnext, store_got]
    · rw [hnext, List.length_append]

/-- What `reliable_get_to_eof_or_n` leaves after receiving `n` bytes: the front of the
    stream, as much as was asked for or all there is. -/
structure Got (c : Conn) (buf : Bytes) (n : ℕ) (r : ℤ × Bytes × Conn) : Prop where
  total : r.1 = int32 ((delivered c.recvs).take n).length
  buf : r.2.1 = (delivered c.recvs).take n ++ buf.drop ((delivered c.recvs).take n).length
  delivered : delivered r.2.2.recvs = (delivered c.recvs).drop n
  recoverable : r.2.2.RecvRecoverable
  interrupted : r.2.2.Interrupted ↔ c.Interrupted
  sends : r.2.2.sends = c.sends
  sent : r.2.2.sent = c.sent

/-- What is left when the loop ends. -/
theorem GetInv.got_of_stop {c : Conn} {buf : Bytes} {n : ℕ} (hn : n < 2 ^ 32) {s : GetState}
    (hs : GetInv c buf n s)
    (hstop : s.remain = 0 ∨ delivered s.conn.recvs = [] ∧ ¬s.conn.Interrupted) :
    Got c buf n (s.total, s.buf, s.conn) := by
  obtain ⟨got, hgot, hle, hbuf, -, hremain, htotal⟩ := hs.got
  -- Either all `n` bytes were got, or all of the stream was.
  have htake : (delivered c.recvs).take n = got ∧
      (delivered c.recvs).drop n = delivered s.conn.recvs := by
    rcases hstop with h0 | ⟨hnil, -⟩
    · rw [hremain, int32_eq_zero_iff] at h0
      have hlen : got.length = n := by omega
      rw [hgot]
      exact ⟨List.take_left' hlen, List.drop_left' hlen⟩
    · rw [hgot, hnil, List.append_nil]
      exact ⟨List.take_of_length_le hle, List.drop_of_length_le hle⟩
  refine ⟨?_, ?_, htake.2.symm, hs.recoverable, hs.interrupted, hs.sends, hs.sent⟩
  · rw [htake.1, htotal]
  · rw [htake.1, hbuf]

/-- The loop of `reliable_get_to_eof_or_n` ends, unless the stream is too short and the
    connection interrupted. -/
theorem getLoop_returns {c : Conn} (hc : c.RecvRecoverable) (buf : Bytes) {n : ℕ}
    (hn : n < 2 ^ 32) (hend : n ≤ (delivered c.recvs).length ∨ ¬c.Interrupted) :
    ∃ r, Returns (fun fuel => loop getPass fuel ⟨buf, 0, int32 n, 0, c⟩) r ∧ Got c buf n r := by
  refine loop_total (P := GetInv c buf n) (fun s => s.conn.pending) (fun s s' hs hb => ?_)
    (fun s r hs hb => ?_) (GetInv.init hc buf n)
  · rcases getPass_cases hn hs with ⟨h, -⟩ | ⟨_, h, hs', hlt⟩ | ⟨-, hrem, hdel, hint⟩
    · rw [h] at hb
      cases hb
    · rw [h] at hb
      cases hb
      exact ⟨hs', hlt⟩
    · -- Stuck: the stream is too short, and interrupted.
      obtain ⟨got, hgot, hle, -, -, hremain, -⟩ := hs.got
      rw [hremain, ne_eq, int32_eq_zero_iff] at hrem
      rw [hdel, List.append_nil] at hgot
      rcases hend with h | h
      · rw [hgot] at h
        omega
      · exact absurd (hs.interrupted.1 hint) h
  · rcases getPass_cases hn hs with ⟨h, hstop⟩ | ⟨_, h, -⟩ | ⟨h, -⟩ <;> rw [h] at hb <;> cases hb
    exact hs.got_of_stop hn hstop

/-- On a recoverable connection, receiving `n` bytes gets the front of the stream, as much
    as was asked for or all there is, and leaves the rest of the buffer as it was; it ends
    unless the stream is too short and the connection interrupted. -/
theorem reliableGetToEofOrN_int32_returns {c : Conn} (hc : c.RecvRecoverable) (buf : Bytes) {n : ℕ}
    (hn : n < 2 ^ 32) (hend : n ≤ (delivered c.recvs).length ∨ ¬c.Interrupted) :
    ∃ total buf' c', Returns (fun fuel => reliableGetToEofOrN fuel buf (int32 n) c)
      ((total, buf'), c') ∧ Got c buf n (total, buf', c') := by
  obtain ⟨⟨total, buf', c'⟩, hr, hgot⟩ := getLoop_returns hc buf hn hend
  exact ⟨total, buf', c', hr.map _, hgot⟩

/-- Receiving gives the value it returns or runs out of fuel. -/
theorem reliableGetToEofOrN_eq {buf : Bytes} {amnt : ℤ} {c : Conn} {r : (ℤ × Bytes) × Conn}
    (h : Returns (fun fuel => reliableGetToEofOrN fuel buf amnt c) r) (fuel : ℕ) :
    reliableGetToEofOrN fuel buf amnt c = none ∨ reliableGetToEofOrN fuel buf amnt c = some r := by
  obtain ⟨n, hn⟩ := h.exists
  obtain ⟨r', hr', rfl⟩ := Option.map_eq_some_iff.1 hn
  rcases (loop_returns_of_exists hr').loop_eq fuel with hf | hf
  · exact .inl (by rw [reliableGetToEofOrN, hf, Option.map_none])
  · exact .inr (by rw [reliableGetToEofOrN, hf, Option.map_some])

/-- On an interrupted connection, receiving more than the stream has never ends. -/
theorem reliableGetToEofOrN_int32_diverges {c : Conn} (hc : c.RecvRecoverable) (buf : Bytes)
    {n : ℕ} (hn : n < 2 ^ 32) (hshort : (delivered c.recvs).length < n) (hint : c.Interrupted) :
    Diverges fun fuel => reliableGetToEofOrN fuel buf (int32 n) c := by
  have hloop : Diverges fun fuel => loop getPass fuel ⟨buf, 0, int32 n, 0, c⟩ := by
    refine loop_diverges_of_forall (P := GetInv c buf n) (fun s hs => ?_) (GetInv.init hc buf n)
    rcases getPass_cases hn hs with ⟨-, h0 | ⟨-, h⟩⟩ | ⟨s', h, hs', -⟩ | ⟨h, -⟩
    · -- All cannot be got, since the stream is too short.
      obtain ⟨got, hgot, hle, -, -, hremain, -⟩ := hs.got
      rw [hremain, int32_eq_zero_iff] at h0
      rw [hgot, List.length_append] at hshort
      omega
    · exact absurd (hs.interrupted.2 hint) h
    · exact ⟨s', h, hs'⟩
    · exact ⟨s, h, hs⟩
  intro fuel
  show (loop getPass fuel _).map _ = none
  rw [show loop getPass fuel _ = none from hloop fuel, Option.map_none]

theorem reliableGetToEofOrN_diverges {c : Conn} (hc : c.RecvRecoverable) (buf : Bytes) {n : ℕ}
    (hn : n < 2 ^ 31) (hshort : (delivered c.recvs).length < n) (hint : c.Interrupted) :
    Diverges fun fuel => reliableGetToEofOrN fuel buf n c := by
  have h := reliableGetToEofOrN_int32_diverges hc buf (hn.trans (by decide)) hshort hint
  rwa [int32_natCast hn] at h

/-- On a recoverable connection, receiving reports nothing. -/
def Quiet (c c' : Conn) : Prop :=
  c.RecvRecoverable → c'.RecvRecoverable ∧ c'.reports = c.reports

namespace Quiet

theorem refl (c : Conn) : Quiet c c := fun hc => ⟨hc, rfl⟩

theorem trans (c₁ c₂ c₃ : Conn) (h₁ : Quiet c₁ c₂) (h₂ : Quiet c₂ c₃) : Quiet c₁ c₃ := by
  intro hc
  obtain ⟨hc₂, heq₂⟩ := h₁ hc
  obtain ⟨hc₃, heq₃⟩ := h₂ hc₂
  exact ⟨hc₃, heq₃.trans heq₂⟩

end Quiet

theorem quiet_getPass (s : GetState) : Sum.elim (fun s' : GetState => Quiet s.conn s'.conn)
    (fun r : ℤ × Bytes × Conn => Quiet s.conn r.2.2) (getPass s) := by
  have hrecv : Quiet s.conn (s.conn.recv (sizeT s.remain)).2.2 := fun hc =>
    ⟨(hc.after_recv _).1, Conn.recv_reports _ _⟩
  rw [getPass]
  split
  · exact .refl _
  dsimp only
  split
  next hle =>
    split
    next herrno =>
      split
      · exact hrecv
      next hne =>
        -- A failure would be an interruption.
        intro hc
        exact absurd ((hc.after_recv _).2 (lt_of_le_of_ne hle hne)) herrno
    · exact hrecv
  · exact hrecv

theorem quiet_reliableGetToEofOrN (fuel : ℕ) (buf : Bytes) (amnt : ℤ) :
    Leads Quiet (reliableGetToEofOrN fuel buf amnt) := by
  intro c r c' h
  obtain ⟨⟨n, buf', c₁⟩, hloop, heq⟩ := Option.map_eq_some_iff.1 h
  cases heq
  refine loop_invariant (P := fun s : GetState => Quiet c s.conn)
    (Q := fun r : ℤ × Bytes × Conn => Quiet c r.2.2) (settles_loop _ _ fuel _ hloop) (.refl c)
    (fun s s' hs hb => ?_) fun s r hs hb => ?_
  · have hpass := quiet_getPass s
    rw [hb] at hpass
    exact .trans _ _ _ hs hpass
  · have hpass := quiet_getPass s
    rw [hb] at hpass
    exact .trans _ _ _ hs hpass

end UserDirectory
