import UserDirectory.Net

/-!
# Receiving to the end of the stream

When the two receiving loops of `common/net.cc` do what their comments say, for
every way of cutting the stream.

* `reliableGetToEofOrN_exact_iff`: `reliable_get_to_eof_or_n` gets the front of
  the stream unless it comes to the end of the stream with `EINTR` in `errno`.
* `reliableGetToEof_returns`: `reliable_get_to_eof` always ends, with the stream
  up to the first piece that does not fill its buffer (`untilShort`), so
  `reliableGetToEof_whole_iff`: what it returns depends on how the stream is cut.
-/

namespace UserDirectory

open Fuel Socket CInt

/-! ## `reliable_get_to_eof_or_n` -/

/-- Receiving `n` bytes ends, returns how many of them the stream has, and puts these at
    the front of the buffer. -/
def GetsExactly (c : Conn) (buf : Bytes) (n : ℕ) : Prop :=
  ∃ buf' c', Returns (fun fuel => reliableGetToEofOrN fuel buf n c)
      ((((min n (delivered c.recvs).length : ℕ) : ℤ), buf'), c') ∧
    buf'.take (min n (delivered c.recvs).length) =
      (delivered c.recvs).take (min n (delivered c.recvs).length)

/-- On a connection that fails by interruptions only, receiving gets the front of the stream,
    unless this is too short and there is an interruption. -/
theorem reliableGetToEofOrN_exact_iff {c : Conn} (hc : c.RecvRecoverable) (buf : Bytes) {n : ℕ}
    (hn : n < 2 ^ 31) :
    GetsExactly c buf n ↔ n ≤ (delivered c.recvs).length ∨ ¬c.Interrupted := by
  constructor
  · -- Otherwise the loop never ends.
    rintro ⟨buf', c', hr, -⟩
    by_contra hstuck
    rw [not_or, not_not, Nat.not_le] at hstuck
    exact hr.not_diverges (reliableGetToEofOrN_diverges hc buf hn hstuck.1 hstuck.2)
  · intro hend
    obtain ⟨total, buf', c', hr, hgot⟩ :=
      reliableGetToEofOrN_int32_returns hc buf (hn.trans (by decide)) hend
    have htotal := hgot.total
    have hbuf := hgot.buf
    have hlt : min n (delivered c.recvs).length < 2 ^ 31 := lt_of_le_of_lt (Nat.min_le_left _ _) hn
    simp only [List.length_take, int32_natCast hlt] at htotal
    rw [int32_natCast hn, htotal] at hr
    refine ⟨buf', c', hr, ?_⟩
    simp only at hbuf
    rw [hbuf, List.take_left' List.length_take, List.take_eq_take_min]

/-- A stream cut in two pieces with an interruption before each. -/
theorem reliableGetToEofOrN_exact_interrupted :
    GetsExactly ⟨[.fail .EINTR, .data 97 [98], .fail .EINTR, .data 99 []], [], .EINTR, [], []⟩
      [0, 0, 0] 3 := by
  refine (reliableGetToEofOrN_exact_iff (fun e he => ?_) _ (by decide)).2 (.inl (by decide))
  simpa using he

/-- A stream of one byte after an interruption, of which two bytes are asked for. -/
theorem reliableGetToEofOrN_stuck :
    ¬∀ (c : Conn) (buf : Bytes) (n : ℕ), c.RecvRecoverable → n < 2 ^ 31 → n ≤ buf.length →
      GetsExactly c buf n := by
  intro h
  have hc : Conn.RecvRecoverable ⟨[.fail .EINTR, .data 97 []], [], .other 0, [], []⟩ :=
    fun e he => by simpa using he
  obtain ⟨buf', c', hr, -⟩ := h _ [0, 0] 2 hc (by decide) (by decide)
  exact hr.not_diverges
    (reliableGetToEofOrN_diverges hc _ (by decide) (by decide) (.inr List.mem_cons_self))

/-! ## `reliable_get_to_eof` -/

/-- The capacity of the buffer of `reliable_get_to_eof`. -/
def bufferCapacity : ℕ := 1024

/-- The variables of `reliable_get_to_eof`: `buffer` is the memory of the buffer, which
    `clear` leaves alone. -/
structure EofState where
  buffer : Bytes
  res : Bytes
  conn : Conn

/-- One pass of the loop of `reliable_get_to_eof`. -/
def eofPass (s : EofState) : EofState ⊕ (Bytes × Conn) :=
  let (bytesReceived, bs, conn) := s.conn.recv bufferCapacity
  if bytesReceived = 0 then .inr (s.res, conn)
  else if bytesReceived < 0 then
    if conn.errno ≠ .EINTR then .inr ([], conn.report .recv) else .inl { s with conn := conn }
  else
    let buffer := store s.buffer 0 bs
    let res := s.res ++ buffer.take bytesReceived.toNat
    -- A short count ends the loop, although there may be more to come.
    if bytesReceived < bufferCapacity then .inr (res, conn) else .inl ⟨buffer, res, conn⟩

/-- `reliable_get_to_eof(sd)` -/
def reliableGetToEof (fuel : ℕ) : Io Bytes := fun c =>
  loop eofPass fuel ⟨List.replicate bufferCapacity 0, [], c⟩

/-- The stream is delivered in pieces that the buffer has room for. -/
def FitBuffer (recvs : List Recv) : Prop :=
  ∀ b bs, .data b bs ∈ recvs → (b :: bs).length ≤ bufferCapacity

/-- Every piece fills the buffer, but for the last one. -/
def FillBuffer (recvs : List Recv) : Prop :=
  ∀ pre b bs rest, recvs = pre ++ .data b bs :: rest → delivered rest ≠ [] →
    (b :: bs).length = bufferCapacity

/-- The stream up to the first piece that does not fill the buffer. -/
def untilShort : List Recv → Bytes
  | [] => []
  | .fail _ :: rs => untilShort rs
  | .data b bs :: rs => b :: bs ++ if (b :: bs).length < bufferCapacity then [] else untilShort rs

theorem fillBuffer_nil : FillBuffer [] := fun pre _ _ _ h =>
  absurd h.symm (List.append_ne_nil_of_right_ne_nil pre (List.cons_ne_nil _ _))

theorem fillBuffer_fail_cons {e : Errno} {rs : List Recv} :
    FillBuffer (.fail e :: rs) ↔ FillBuffer rs := by
  constructor
  · rintro h pre b bs rest rfl
    exact h (.fail e :: pre) b bs rest rfl
  · rintro h pre b bs rest heq
    rcases pre with _ | ⟨r, pre⟩
    · cases heq
    · rw [List.cons_append, List.cons.injEq] at heq
      exact h pre b bs rest heq.2

theorem fillBuffer_data_cons {b : UInt8} {bs : Bytes} {rs : List Recv} :
    FillBuffer (.data b bs :: rs) ↔
      (delivered rs ≠ [] → (b :: bs).length = bufferCapacity) ∧ FillBuffer rs := by
  constructor
  · rintro h
    refine ⟨h [] b bs rs rfl, fun pre b' bs' rest heq => ?_⟩
    exact h (.data b bs :: pre) b' bs' rest (congrArg (.data b bs :: ·) heq)
  · rintro ⟨hfirst, h⟩ pre b' bs' rest heq
    rcases pre with _ | ⟨r, pre⟩
    · cases heq
      exact hfirst
    · rw [List.cons_append, List.cons.injEq] at heq
      exact h pre b' bs' rest heq.2

/-- The pieces of an empty stream. -/
theorem fillBuffer_of_delivered_eq_nil {rs : List Recv} (h : delivered rs = []) :
    FillBuffer rs := by
  rintro pre b bs rest rfl
  induction pre with
  | nil => cases h
  | cons r pre ih =>
    cases r with
    | fail e => exact ih h
    | data => cases h

/-- All of the stream is received iff every piece but the last fills the buffer. -/
theorem untilShort_eq_iff {rs : List Recv} (h : FitBuffer rs) :
    untilShort rs = delivered rs ↔ FillBuffer rs := by
  induction rs with
  | nil => exact iff_of_true rfl fillBuffer_nil
  | cons r rs ih =>
    specialize ih fun b bs hr => h b bs (List.mem_cons_of_mem _ hr)
    cases r with
    | fail e => rw [untilShort, delivered, ih, fillBuffer_fail_cons]
    | data b bs =>
      have hfit := h b bs List.mem_cons_self
      rw [untilShort, delivered, List.append_cancel_left_eq, fillBuffer_data_cons]
      split
      · -- A short piece: nothing may follow it.
        next hshort =>
        rw [eq_comm]
        refine ⟨fun hnil => ⟨fun hne => absurd hnil hne, fillBuffer_of_delivered_eq_nil hnil⟩,
          fun hfill => ?_⟩
        by_contra hne
        exact absurd (hfill.1 hne) hshort.ne
      · next hfull =>
        rw [ih]
        exact (and_iff_right fun _ => Nat.le_antisymm hfit (Nat.le_of_not_lt hfull)).symm

/-- What is received in the buffer is copied from it. -/
theorem take_store_zero (buf bs : Bytes) : (store buf 0 bs).take bs.length = bs := by
  rw [store, List.take_zero, List.nil_append, List.take_left]

/-- The loop of `reliable_get_to_eof` ends, with the stream up to the first piece that does
    not fill the buffer. -/
theorem eofLoop_returns {c : Conn} (hc : c.RecvRecoverable) (hfit : FitBuffer c.recvs)
    (buffer res : Bytes) :
    ∃ c', Returns (fun n => loop eofPass n ⟨buffer, res, c⟩) (res ++ untilShort c.recvs, c') := by
  obtain ⟨recvs, sends, errno, sent, reports⟩ := c
  -- By induction on the outcomes of `recv`, one for each pass.
  induction recvs generalizing buffer res errno with
  | nil =>
    rw [untilShort, List.append_nil]
    exact ⟨_, loop_returns_of_inr rfl⟩
  | cons r rs ih =>
    have hc' : ∀ errno, Conn.RecvRecoverable ⟨rs, sends, errno, sent, reports⟩ :=
      fun _ e he => hc e (List.mem_cons_of_mem _ he)
    have hfit' : FitBuffer rs := fun b bs hr => hfit b bs (List.mem_cons_of_mem _ hr)
    cases r with
    | fail e =>
      -- An interruption: the call is tried again.
      obtain rfl : e = .EINTR := hc e List.mem_cons_self
      obtain ⟨c', hr⟩ := ih buffer res .EINTR (hc' _) hfit'
      have hpass : eofPass ⟨buffer, res, ⟨.fail .EINTR :: rs, sends, errno, sent, reports⟩⟩ =
          .inl ⟨buffer, res, ⟨rs, sends, .EINTR, sent, reports⟩⟩ := rfl
      exact ⟨c', (loop_returns_next hpass).2 hr⟩
    | data b bs =>
      have hlen : (b :: bs).length ≤ bufferCapacity := hfit b bs List.mem_cons_self
      have hmin : min bufferCapacity maxRwCount = bufferCapacity := by decide
      have hrecv : Conn.recv ⟨.data b bs :: rs, sends, errno, sent, reports⟩ bufferCapacity =
          (((b :: bs).length : ℤ), b :: bs, ⟨rs, sends, errno, sent, reports⟩) := by
        simp only [Conn.recv, hmin, List.take_of_length_le hlen, List.drop_of_length_le hlen,
          pushBack]
      have hpos : 0 < (b :: bs).length := List.length_pos_of_ne_nil (List.cons_ne_nil b bs)
      have h0 : ¬((b :: bs).length : ℤ) = 0 := by omega
      have hneg : ¬((b :: bs).length : ℤ) < 0 := by omega
      rw [untilShort, ← List.append_assoc]
      by_cases hshort : (b :: bs).length < bufferCapacity
      · -- A short count ends the loop.
        rw [if_pos hshort, List.append_nil]
        refine ⟨⟨rs, sends, errno, sent, reports⟩, loop_returns_of_inr ?_⟩
        simp only [eofPass, hrecv, if_neg h0, if_neg hneg, Int.toNat_natCast, take_store_zero,
          if_pos (Int.ofNat_lt.2 hshort)]
      · rw [if_neg hshort]
        obtain ⟨c', hr⟩ := ih (store buffer 0 (b :: bs)) (res ++ (b :: bs)) errno (hc' _) hfit'
        refine ⟨c', (loop_returns_next ?_).2 hr⟩
        simp only [eofPass, hrecv, if_neg h0, if_neg hneg, Int.toNat_natCast, take_store_zero,
          if_neg (Int.ofNat_lt.not.2 hshort)]

/-- `reliable_get_to_eof` always ends. -/
theorem reliableGetToEof_returns {c : Conn} (hc : c.RecvRecoverable) (hfit : FitBuffer c.recvs) :
    ∃ c', Returns (fun fuel => reliableGetToEof fuel c) (untilShort c.recvs, c') :=
  eofLoop_returns hc hfit _ []

/-- It returns the whole stream iff every piece but the last fills the buffer. -/
theorem reliableGetToEof_whole_iff {c : Conn} (hc : c.RecvRecoverable)
    (hfit : FitBuffer c.recvs) {stream : Bytes} (hstream : delivered c.recvs = stream) :
    (∃ c', Returns (fun fuel => reliableGetToEof fuel c) (stream, c')) ↔ FillBuffer c.recvs := by
  obtain ⟨c', hr⟩ := reliableGetToEof_returns hc hfit
  rw [← untilShort_eq_iff hfit, hstream]
  constructor
  · rintro ⟨c'', hr'⟩
    exact congrArg Prod.fst (hr.unique hr')
  · intro heq
    exact ⟨c', heq ▸ hr⟩

/-- Of two ways of cutting a stream, both have the whole stream returned iff in both every
    piece but the last fills the buffer. -/
theorem reliableGetToEof_uncut_iff {c₁ c₂ : Conn} {stream : Bytes} (hc₁ : c₁.RecvRecoverable)
    (hc₂ : c₂.RecvRecoverable) (hfit₁ : FitBuffer c₁.recvs) (hfit₂ : FitBuffer c₂.recvs)
    (hstream₁ : delivered c₁.recvs = stream) (hstream₂ : delivered c₂.recvs = stream) :
    ((∃ c', Returns (fun fuel => reliableGetToEof fuel c₁) (stream, c')) ∧
      ∃ c', Returns (fun fuel => reliableGetToEof fuel c₂) (stream, c')) ↔
    FillBuffer c₁.recvs ∧ FillBuffer c₂.recvs :=
  and_congr (reliableGetToEof_whole_iff hc₁ hfit₁ hstream₁)
    (reliableGetToEof_whole_iff hc₂ hfit₂ hstream₂)

/-- The pieces of a stream that the buffer has room for. -/
theorem fitBuffer_of_length_le {recvs : List Recv}
    (h : (delivered recvs).length ≤ bufferCapacity) : FitBuffer recvs := by
  rintro b bs hmem
  obtain ⟨pre, rest, rfl⟩ := List.append_of_mem hmem
  clear hmem
  induction pre with
  | nil =>
    rw [List.nil_append, delivered, List.length_append] at h
    exact (Nat.le_add_right _ _).trans h
  | cons r pre ih =>
    refine ih (le_trans ?_ h)
    cases r with
    | fail e => exact le_rfl
    | data b' bs' =>
      rw [List.cons_append, delivered, List.length_append]
      exact Nat.le_add_left _ _

/-- Two bytes in one piece, with and without an interruption before it. -/
theorem reliableGetToEof_uncut_interrupted :
    (∃ c', Returns (fun fuel => reliableGetToEof fuel (.delivering (ascii "ab")))
      (ascii "ab", c')) ∧
    ∃ c', Returns (fun fuel => reliableGetToEof fuel
      ⟨[.fail .EINTR, .data 97 [98]], [], .other 0, [], []⟩) (ascii "ab", c') := by
  have hfill : FillBuffer [.data 97 [98]] :=
    fillBuffer_data_cons.2 ⟨fun h => absurd rfl h, fillBuffer_nil⟩
  have hc : Conn.RecvRecoverable ⟨[.fail .EINTR, .data 97 [98]], [], .other 0, [], []⟩ :=
    fun e he => by simpa using he
  exact (reliableGetToEof_uncut_iff (Conn.recvRecoverable_delivering (ascii "ab")) hc
    (fitBuffer_of_length_le (by decide)) (fitBuffer_of_length_le (by decide))
    (delivered_delivering _) rfl).2 ⟨hfill, fillBuffer_fail_cons.2 hfill⟩

/-- Of two bytes in two pieces, only the first one is returned. -/
theorem reliableGetToEof_cut :
    ¬∀ (c₁ c₂ : Conn) (stream : Bytes), c₁.RecvRecoverable → c₂.RecvRecoverable →
      FitBuffer c₁.recvs → FitBuffer c₂.recvs → delivered c₁.recvs = stream →
      delivered c₂.recvs = stream →
      (∃ c', Returns (fun fuel => reliableGetToEof fuel c₁) (stream, c')) ∧
        ∃ c', Returns (fun fuel => reliableGetToEof fuel c₂) (stream, c') := by
  intro h
  have hc : Conn.RecvRecoverable ⟨[.data 97 [], .data 98 []], [], .other 0, [], []⟩ :=
    fun e he => by simp at he
  have hfit : FitBuffer [.data 97 [], .data 98 []] := fitBuffer_of_length_le (by decide)
  obtain ⟨-, hcut⟩ := h (.delivering (ascii "ab")) _ (ascii "ab")
    (Conn.recvRecoverable_delivering _) hc (fitBuffer_of_length_le (by decide)) hfit
    (delivered_delivering _) rfl
  have hfill := (reliableGetToEof_whole_iff hc hfit rfl).1 hcut
  exact absurd ((fillBuffer_data_cons.1 hfill).1 (List.cons_ne_nil _ _)) (by decide)

end UserDirectory
