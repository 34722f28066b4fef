import Mathlib.Algebra.Order.Group.Int
import Mathlib.Data.List.Basic

/-!
# Stream sockets

A connected stream socket, as its two system calls show it. The environment is
a list of outcomes for each call: the pieces in which the stream arrives and
the failures in between (`Recv`), the amounts the kernel takes and the failures
in between (`Send`). `errno` is left alone unless a call returns `-1`.

* When the outcomes of `recv` are over, the peer has closed: every further call
  returns `0`. A piece longer than what a call asks for is received by several
  calls, so the pieces are the ways of cutting the stream (`delivered`). A peer
  that stays silent and does not close is none of these: it blocks the call, for
  ever if it never does either.
* When the outcomes of `send` are over, every further call takes all it can. A
  call that fails with `EPIPE` also raises `SIGPIPE`, which ends a program that
  does not ignore it: what follows such a failure is for one that does.

`errno` belongs to the program, not to the socket: a connection starts with
what earlier calls have left in it. A program may report the failure of a call,
with `errno` as it is then (`Conn.report`).

`Conn.RecvRecoverable` and `Conn.SendRecoverable` rule out failures other than
`EINTR`, which the caller is meant to retry. A connection is `Interrupted` if
`errno` is `EINTR`, or will be once the outcomes of `recv` are over.
-/

namespace Socket

/-- The values of `errno`: an interrupted call, or any other error. -/
inductive Errno
  | EINTR
  | other (code : ℕ)
  deriving DecidableEq, Repr

/-- The peer has closed the connection on which something is sent. -/
def Errno.EPIPE : Errno := .other 32

/-- An outcome of `recv`: a piece of the stream (never empty), or a failure. -/
inductive Recv
  | data (b : UInt8) (bs : List UInt8)
  | fail (e : Errno)
  deriving DecidableEq, Repr

/-- An outcome of `send`: up to `n + 1` bytes are taken, none is (the peer has
    closed), or the call fails. -/
inductive Send
  | accept (n : ℕ)
  | closed
  | fail (e : Errno)
  deriving DecidableEq, Repr

/-- The calls. -/
inductive Call
  | recv
  | send
  deriving DecidableEq, Repr

/-- A connected socket: the outcomes of its calls, `errno`, what was sent, and the failures
    that the program has reported. -/
structure Conn where
  recvs : List Recv
  sends : List Send
  errno : Errno
  sent : List UInt8
  reports : List (Call × Errno)
  deriving DecidableEq, Repr

/-- The most bytes a single call transfers. -/
def maxRwCount : ℕ := 0x7ffff000

/-- What is left of a piece goes back in front of the outcomes to come. -/
def pushBack : List UInt8 → List Recv → List Recv
  | [], rs => rs
  | b :: bs, rs => .data b bs :: rs

/-- The stream delivered by the outcomes of `recv`. -/
def delivered : List Recv → List UInt8
  | [] => []
  | .data b bs :: rs => b :: bs ++ delivered rs
  | .fail _ :: rs => delivered rs

namespace Conn

/-- `recv` asking for at most `count` bytes: the value returned and the bytes stored. The peer
    is not silent for ever: it sends something, or closes. -/
def recv (c : Conn) (count : ℕ) : ℤ × List UInt8 × Conn :=
  match c.recvs with
  | [] => (0, [], c)
  | .data b bs :: rs =>
    let k := min count maxRwCount
    (((b :: bs).take k).length, (b :: bs).take k,
      { c with recvs := pushBack ((b :: bs).drop k) rs })
  | .fail e :: rs => (-1, [], { c with recvs := rs, errno := e })

/-- `send` of at most `count` bytes from the front of `buf`: the value returned. A failure with
    `EPIPE` raises `SIGPIPE` too, which the program has to ignore to see it. -/
def send (c : Conn) (buf : List UInt8) (count : ℕ) : ℤ × Conn :=
  let most := min (min count maxRwCount) buf.length
  match c.sends with
  | [] => (most, { c with sent := c.sent ++ buf.take most })
  | .accept n :: ss =>
    let k := min (n + 1) most
    (k, { c with sends := ss, sent := c.sent ++ buf.take k })
  | .closed :: ss => (0, { c with sends := ss })
  | .fail e :: ss => (-1, { c with sends := ss, errno := e })

/-- The program reports that the call has failed. -/
def report (call : Call) (c : Conn) : Conn := { c with reports := c.reports ++ [(call, c.errno)] }

/-- Every failure of `recv` is an interruption. -/
def RecvRecoverable (c : Conn) : Prop := ∀ e, .fail e ∈ c.recvs → e = .EINTR

/-- Every call of `send` takes something, or is interrupted. -/
def SendRecoverable (c : Conn) : Prop := ∀ s ∈ c.sends, (∃ n, s = .accept n) ∨ s = .fail .EINTR

/-- `errno` is `EINTR`, or will be after the outcomes of `recv`. -/
def Interrupted (c : Conn) : Prop := c.errno = .EINTR ∨ .fail .EINTR ∈ c.recvs

instance (c : Conn) : Decidable c.Interrupted := inferInstanceAs (Decidable (_ ∨ _))

/-- No call is interrupted, or was before, and none raises `SIGPIPE`. -/
structure Steady (c : Conn) : Prop where
  recv : .fail .EINTR ∉ c.recvs
  send : .fail .EINTR ∉ c.sends
  pipe : .fail .EPIPE ∉ c.sends
  errno : c.errno ≠ .EINTR

end Conn

/-- What a connection may send depends on the outcomes of `send` only. -/
theorem Conn.SendRecoverable.of_sends_eq {c c' : Conn} (h : c.SendRecoverable)
    (hsends : c'.sends = c.sends) : c'.SendRecoverable := fun s hs => h s (hsends ▸ hs)

/-- A connection that delivers the bytes at once, and on which nothing fails. -/
def Conn.delivering (bytes : List UInt8) : Conn :=
  ⟨pushBack bytes [], [], .other 0, [], []⟩

@[simp] theorem delivered_pushBack (bs : List UInt8) (rs : List Recv) :
    delivered (pushBack bs rs) = bs ++ delivered rs := by
  cases bs <;> rfl

theorem fail_mem_pushBack {e : Errno} {bs : List UInt8} {rs : List Recv} :
    .fail e ∈ pushBack bs rs ↔ .fail e ∈ rs := by
  cases bs with
  | nil => rfl
  | cons b bs => simp [pushBack]

theorem length_pushBack_le (bs : List UInt8) (rs : List Recv) :
    (pushBack bs rs).length ≤ rs.length + 1 := by
  cases bs <;> simp [pushBack]

@[simp] theorem delivered_delivering (bytes : List UInt8) :
    delivered (Conn.delivering bytes).recvs = bytes := by
  rw [Conn.delivering, delivered_pushBack, delivered, List.append_nil]

theorem Conn.recvRecoverable_delivering (bytes : List UInt8) :
    (delivering bytes).RecvRecoverable := fun _ he =>
  absurd (fail_mem_pushBack.1 he) List.not_mem_nil

theorem Conn.sendRecoverable_delivering (bytes : List UInt8) :
    (delivering bytes).SendRecoverable := fun _ hs => absurd hs List.not_mem_nil

theorem Conn.Steady.not_interrupted {c : Conn} (h : c.Steady) : ¬c.Interrupted := fun hint =>
  hint.elim h.errno h.recv

theorem Conn.not_interrupted_delivering (bytes : List UInt8) :
    ¬(delivering bytes).Interrupted := by
  rintro (h | h)
  · cases h
  · exact absurd (fail_mem_pushBack.1 h) List.not_mem_nil

/-! ## Receiving -/

/-- What is still to be received: a bound on the calls to come that change anything. -/
def Conn.pending (c : Conn) : ℕ := (delivered c.recvs).length + c.recvs.length

/-- A call of `recv` stores no more than it is asked for, as much as it says if it says so. -/
theorem Conn.recv_le (c : Conn) (count : ℕ) : (c.recv count).2.1.length ≤ count ∧
    ((c.recv count).1 ≤ 0 ∨ (c.recv count).1 = (c.recv count).2.1.length) := by
  obtain ⟨recvs, sends, errno, sent, reports⟩ := c
  rcases recvs with _ | ⟨⟨b, bs⟩ | e, rs⟩
  · exact ⟨Nat.zero_le _, .inl le_rfl⟩
  · exact ⟨(List.length_take_le _ _).trans (Nat.min_le_left _ _), .inr rfl⟩
  · exact ⟨Nat.zero_le _, .inl (show (-1 : ℤ) ≤ 0 by decide)⟩

/-- A call of `recv` on a connection with outcomes to come receives a piece of
    the stream, or is interrupted. -/
theorem Conn.recv_cases {c : Conn} (hc : c.RecvRecoverable) {count : ℕ} (hcount : 0 < count) :
    (c.recvs = [] ∧ c.recv count = (0, [], c)) ∨
    (∃ c', c.recv count = (-1, [], c') ∧ c'.errno = .EINTR ∧ c'.RecvRecoverable ∧ c.Interrupted ∧
      delivered c'.recvs = delivered c.recvs ∧ c'.pending < c.pending ∧
      c'.sends = c.sends ∧ c'.sent = c.sent) ∨
    (∃ chunk c', c.recv count = ((chunk.length : ℤ), chunk, c') ∧ chunk ≠ [] ∧
      chunk.length ≤ count ∧ chunk.length ≤ maxRwCount ∧ c'.RecvRecoverable ∧
      (c'.Interrupted ↔ c.Interrupted) ∧ delivered c.recvs = chunk ++ delivered c'.recvs ∧
      c'.pending < c.pending ∧ c'.sends = c.sends ∧ c'.sent = c.sent) := by
  obtain ⟨recvs, sends, errno, sent, reports⟩ := c
  cases recvs with
  | nil => exact .inl ⟨rfl, rfl⟩
  | cons r rs =>
    cases r with
    | fail e =>
      -- The failure is used up, and nothing of the stream is.
      obtain rfl : e = .EINTR := hc e List.mem_cons_self
      refine .inr (.inl ⟨⟨rs, sends, .EINTR, sent, reports⟩, rfl, rfl,
        fun e he => hc e (List.mem_cons_of_mem _ he), .inr List.mem_cons_self, rfl, ?_, rfl, rfl⟩)
      simp [pending, delivered]
    | data b bs =>
      -- The piece, or the front of it with the rest put back.
      have hk : 0 < min count maxRwCount := Nat.lt_min.2 ⟨hcount, by decide⟩
      have hlen : ((b :: bs).take (min count maxRwCount)).length ≤ min count maxRwCount :=
        List.length_take_le _ _
      have hne : (b :: bs).take (min count maxRwCount) ≠ [] := by
        simp [List.take_eq_nil_iff, Nat.ne_of_gt hk]
      have hpos := List.length_pos_of_ne_nil hne
      have hsplit := congrArg List.length (List.take_append_drop (min count maxRwCount) (b :: bs))
      have hback := length_pushBack_le ((b :: bs).drop (min count maxRwCount)) rs
      refine .inr (.inr ⟨(b :: bs).take (min count maxRwCount),
        ⟨pushBack ((b :: bs).drop (min count maxRwCount)) rs, sends, errno, sent, reports⟩, rfl,
        hne, hlen.trans (Nat.min_le_left _ _), hlen.trans (Nat.min_le_right _ _), ?_, ?_, ?_, ?_,
        rfl, rfl⟩)
      · intro e he
        exact hc e (List.mem_cons_of_mem _ (fail_mem_pushBack.1 he))
      · simp [Interrupted, fail_mem_pushBack]
      · rw [delivered_pushBack, ← List.append_assoc, List.take_append_drop, delivered]
      · simp only [pending, delivered, delivered_pushBack, List.length_append,
          List.length_cons] at hsplit hback ⊢
        omega

/-- A call of `recv` reports nothing. -/
theorem Conn.recv_reports (c : Conn) (count : ℕ) : (c.recv count).2.2.reports = c.reports := by
  rw [recv]
  split <;> rfl

/-- On a recoverable connection, a call of `recv` that returns `-1` is interrupted. -/
theorem Conn.RecvRecoverable.after_recv {c : Conn} (hc : c.RecvRecoverable) (count : ℕ) :
    (c.recv count).2.2.RecvRecoverable ∧
      ((c.recv count).1 < 0 → (c.recv count).2.2.errno = .EINTR) := by
  obtain ⟨recvs, sends, errno, sent, reports⟩ := c
  rcases recvs with _ | ⟨⟨b, bs⟩ | e, rs⟩
  · exact ⟨hc, fun h => absurd h (Int.lt_irrefl 0)⟩
  · exact ⟨fun e he => hc e (List.mem_cons_of_mem _ (fail_mem_pushBack.1 he)),
      fun h => absurd h (Int.not_lt.2 (Int.natCast_nonneg _))⟩
  · exact ⟨fun e' he => hc e' (List.mem_cons_of_mem _ he), fun _ => hc e List.mem_cons_self⟩

/-! ## Sending -/

/-- A call of `send` leaves the stream and the reports alone. -/
theorem Conn.send_frame (c : Conn) (buf : List UInt8) (count : ℕ) :
    (c.send buf count).2.recvs = c.recvs ∧ (c.send buf count).2.reports = c.reports := by
  rw [send]
  split <;> exact ⟨rfl, rfl⟩

theorem Conn.Steady.after_send {c : Conn} (h : c.Steady) (buf : List UInt8) (count : ℕ) :
    (c.send buf count).2.Steady := by
  obtain ⟨recvs, _ | ⟨s, ss⟩, errno, sent, reports⟩ := c
  · exact ⟨h.recv, h.send, h.pipe, h.errno⟩
  obtain ⟨hrecv, hsend, hpipe, herrno⟩ := h
  rw [List.mem_cons, not_or] at hsend hpipe
  cases s with
  | accept n => exact ⟨hrecv, hsend.2, hpipe.2, herrno⟩
  | closed => exact ⟨hrecv, hsend.2, hpipe.2, herrno⟩
  | fail e => exact ⟨hrecv, hsend.2, hpipe.2, fun h => hsend.1 (congrArg Send.fail h.symm)⟩

/-- A call of `send` with something to send takes some of it, or uses up an outcome
    without taking any: if the connection is recoverable, an interruption. -/
theorem Conn.send_cases (c : Conn) {buf : List UInt8} (hbuf : buf ≠ []) {count : ℕ}
    (hcount : 0 < count) :
    (∃ (k : ℕ) (c' : Conn), c.send buf count = ((k : ℤ), c') ∧ 0 < k ∧ k ≤ buf.length ∧
      k ≤ maxRwCount ∧ c'.sent = c.sent ++ buf.take k ∧ c'.errno = c.errno ∧ c'.recvs = c.recvs ∧
      c'.sends.length ≤ c.sends.length ∧ (c.SendRecoverable → c'.SendRecoverable)) ∨
    (∃ (r : ℤ) (c' : Conn), c.send buf count = (r, c') ∧ r ≤ 0 ∧ c'.sent = c.sent ∧
      c'.recvs = c.recvs ∧ c'.sends.length < c.sends.length ∧
      (c.SendRecoverable → c'.errno = .EINTR ∧ c'.SendRecoverable)) := by
  have hmost : 0 < min (min count maxRwCount) buf.length :=
    Nat.lt_min.2 ⟨Nat.lt_min.2 ⟨hcount, by decide⟩, List.length_pos_of_ne_nil hbuf⟩
  have hrw : min (min count maxRwCount) buf.length ≤ maxRwCount :=
    (Nat.min_le_left _ _).trans (Nat.min_le_right _ _)
  obtain ⟨recvs, sends, errno, sent, reports⟩ := c
  cases sends with
  | nil =>
    exact .inl ⟨_, _, rfl, hmost, Nat.min_le_right _ _, hrw, rfl, rfl, rfl, le_rfl, id⟩
  | cons s ss =>
    have htail : (⟨recvs, s :: ss, errno, sent, reports⟩ : Conn).SendRecoverable → ∀ t ∈ ss,
        (∃ n, t = .accept n) ∨ t = .fail .EINTR := fun h t ht => h t (List.mem_cons_of_mem _ ht)
    cases s with
    | accept n =>
      exact .inl ⟨min (n + 1) (min (min count maxRwCount) buf.length),
        ⟨recvs, ss, errno, _, reports⟩, rfl, Nat.lt_min.2 ⟨n.succ_pos, hmost⟩,
        (Nat.min_le_right _ _).trans (Nat.min_le_right _ _),
        (Nat.min_le_right _ _).trans hrw, rfl, rfl, rfl, Nat.le_succ _, htail⟩
    | closed =>
      -- On a recoverable connection the peer does not close.
      refine .inr ⟨_, _, rfl, le_rfl, rfl, rfl, Nat.lt_succ_self _, fun h => ?_⟩
      rcases h _ List.mem_cons_self with ⟨n, hn⟩ | hn <;> cases hn
    | fail e =>
      refine .inr ⟨_, _, rfl, by decide, rfl, rfl, Nat.lt_succ_self _, fun h => ⟨?_, htail h⟩⟩
      rcases h _ List.mem_cons_self with ⟨n, hn⟩ | hn <;> cases hn
      rfl

end Socket
