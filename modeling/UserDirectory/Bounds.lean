import UserDirectory.Library.Assertion
import UserDirectory.Parsing

/-!
# The server stays within its buffers

The functions with which the server receives and parses a request, with
assertions (`UserDirectory.Checked`). A function fails where it would read or
write outside a vector: where `recv` is given a larger count than the space
left in the buffer, and where bytes are extracted past the end. It also fails
where a sum of lengths wraps around, or the fields of the body are not all of
it, or the argument of a message does not end where the message does.

* `Checked.reliableGetToEofOrN_eq`: receiving below `2 ^ 31` bytes into a buffer
  of that size stays within it.
* `Checked.parseRequest_eq`: no assertion of `parse_request` and the handlers
  ever fails, so it does what it does without them.
-/

namespace UserDirectory

open Fuel Socket CInt LittleEndian Assertion

/-- The next pass stays within a buffer of `size` bytes: no more than that has been stored,
    and `recv` is given no larger a count than the space left. -/
def GetState.Within (size : ℕ) (s : GetState) : Prop :=
  s.nextByte ≤ size ∧ (s.remain ≠ 0 → sizeT s.remain ≤ size - s.nextByte)

instance (size : ℕ) : DecidablePred (GetState.Within size) := fun _ =>
  inferInstanceAs (Decidable (_ ∧ _))

namespace Checked

/-- `reliable_get_to_eof_or_n(sd, pos, amnt)`, with `buf` the buffer behind `pos`. -/
def reliableGetToEofOrN (fuel : ℕ) (buf : Bytes) (amnt : ℤ) : OptionT Io (ℤ × Bytes) :=
  OptionT.mk fun c =>
    (loop (asserting (GetState.Within buf.length) getPass) fuel ⟨buf, 0, amnt, 0, c⟩).map fun
      | none => (none, c)
      | some (n, buf, c) => (some (n, buf), c)

/-- Extract a string of `count` bytes. -/
def extractString {m : Type → Type} [Monad m] (it : Bytes) (count : ℕ) :
    OptionT m (Bytes × Bytes) := do
  guard (count ≤ it.length)
  return UserDirectory.extractString it count

/-- Extract a `uint32_t`. -/
def extractSize {m : Type → Type} [Monad m] (it : Bytes) : OptionT m (UInt32 × Bytes) := do
  guard (4 ≤ it.length)
  return UserDirectory.extractSize it

/-- Extract a vector of `count` bytes. -/
def extractVec {m : Type → Type} [Monad m] (it : Bytes) (count : ℕ) :
    OptionT m (Bytes × Bytes) := do
  guard (count ≤ it.length)
  return UserDirectory.extractVec it count

/-! ## `parse_request` -/

/-- The fields of the header. -/
def extractHeader (header : Bytes) : OptionT Io Header := do
  let (cmd, it) ← extractString header 4
  let (ulen, it) ← extractSize it
  let (plen, it) ← extractSize it
  let (mlen, _) ← extractSize it
  return ⟨cmd, ulen, plen, mlen⟩

/-- The fields of the body. -/
def request (h : Header) (body : Bytes) : OptionT Io Request := do
  let (user, it) ← extractString body h.ulen.toNat
  let (pass, it) ← extractString it h.plen.toNat
  guard (h.mlen.toNat ≤ it.length)
  let msg := it.take h.mlen.toNat
  guard (user ++ pass ++ msg = body)
  return ⟨h.cmd, user, pass, msg⟩

/-- The part of `parse_request` between the header and the handlers. -/
def readBody (fuel : ℕ) (h : Header) : OptionT Io (Option Request) := do
  if lenUname < h.ulen.toNat ∨ lenPassword < h.plen.toNat ∨ lenProfileFile < h.mlen.toNat then
    return none
  guard (h.bodyLength = h.announced)
  let body := List.replicate h.bodyLength 0
  let (got, body) ← reliableGetToEofOrN fuel body (int32 body.length)
  if got = 0 then return none
  return some (← request h body)

/-- The part of `parse_request` that reads the request. -/
def readRequest (fuel : ℕ) : OptionT Io (Option Request) := do
  let (got, header) ← reliableGetToEofOrN fuel (List.replicate 16 0) 16
  if got = 0 then return none
  readBody fuel (← extractHeader header)

/-- `handle_set` -/
def handleSet (fuel : ℕ) (u p req : Bytes) : OptionT Action Bool := do
  if req.length < 4 then
    let _ ← sendErrMsgFormat fuel
    return false
  let (contentLen, it) ← extractSize req
  if req.length ≠ (4 + contentLen).toNat then
    let _ ← sendErrMsgFormat fuel
    return false
  guard (req.length = 4 + contentLen.toNat)
  let (content, it) ← extractVec it contentLen.toNat
  guard (it = [])
  let result ← onStorage fun s => s.setUserData u p content
  let _ ← sendStatus fuel (if result.succeeded then resOk else result.msg)
  return false

/-- `handle_get` -/
def handleGet (fuel : ℕ) (u p req : Bytes) : OptionT Action Bool := do
  if req.length < 4 then
    let _ ← sendErrMsgFormat fuel
    return false
  let (whoLen, it) ← extractSize req
  if req.length ≠ (4 + whoLen).toNat then
    let _ ← sendErrMsgFormat fuel
    return false
  guard (req.length = 4 + whoLen.toNat)
  let (who, it) ← extractString it whoLen.toNat
  guard (it = [])
  let result ← askStorage fun s => s.getUserData u p who
  if result.succeeded then
    let _ ← sendData fuel resOk result.data
  else
    let _ ← sendStatus fuel result.msg
  return false

/-- The part of `parse_request` that dispatches the request to its handler. The other handlers
    leave the message alone. -/
def dispatch (fuel : ℕ) (faults : Stdio.WriteFaults) (r : Request) : OptionT Action Bool :=
  if r.cmd = reqReg then handleReg fuel r.user r.pass r.msg
  else if r.cmd = reqBye then handleBye fuel r.user r.pass r.msg
  else if r.cmd = reqSav then handleSav fuel faults r.user r.pass r.msg
  else if r.cmd = reqSet then handleSet fuel r.user r.pass r.msg
  else if r.cmd = reqGet then handleGet fuel r.user r.pass r.msg
  else if r.cmd = reqAll then handleAll fuel r.user r.pass r.msg
  else return false

/-- A function with assertions, working on the connection. -/
def onConn {α : Type} (io : OptionT Io α) : OptionT Action α :=
  OptionT.mk (UserDirectory.onConn io.run)

/-- Read a request and dispatch it. -/
def parseRequest (fuel : ℕ) (faults : Stdio.WriteFaults) : OptionT Action Bool := do
  match ← onConn (readRequest fuel) with
  | none => return false
  | some r => dispatch fuel faults r

/-! ## Receiving -/

/-- What holds at every pass, when the `n` bytes asked for are those of the buffer. -/
structure Inside (n : ℕ) (s : GetState) : Prop where
  length : s.buf.length = n
  nextByte : s.nextByte ≤ n
  remain : s.remain = (n - s.nextByte : ℕ)

theorem Inside.init {buf : Bytes} (c : Conn) :
    Inside buf.length ⟨buf, 0, (buf.length : ℤ), 0, c⟩ where
  length := rfl
  nextByte := Nat.zero_le _
  remain := by rw [Nat.sub_zero]

theorem Inside.within {n : ℕ} (hn : n < 2 ^ 31) {s : GetState} (hs : Inside n s) :
    s.Within n := by
  refine ⟨hs.nextByte, fun _ => ?_⟩
  rw [hs.remain, sizeT_natCast (by omega)]

/-- A pass stores what is received in the space left. -/
theorem Inside.getPass {n : ℕ} (hn : n < 2 ^ 31) {s s' : GetState} (hs : Inside n s)
    (hb : getPass s = .inl s') : Inside n s' := by
  obtain ⟨buf, next, remain, total, conn⟩ := s
  obtain ⟨hlength, hnext, hremain⟩ := hs
  simp only at hlength hnext hremain
  have hrecv := conn.recv_le (sizeT remain)
  rw [UserDirectory.getPass] at hb
  dsimp only at hb
  obtain ⟨⟨rcd, bs, conn'⟩, hr⟩ : ∃ r, conn.recv (sizeT remain) = r := ⟨_, rfl⟩
  rw [hr] at hb hrecv
  obtain ⟨hle, hrcd⟩ := hrecv
  rw [hremain, sizeT_natCast (by omega)] at hle
  split at hb
  · cases hb
  split at hb
  · -- Nothing is received.
    split at hb
    · split at hb <;> cases hb
    · cases hb
      exact ⟨hlength, hnext, hremain⟩
  · next hpos =>
    obtain rfl : rcd = bs.length := hrcd.resolve_left hpos
    cases hb
    refine ⟨?_, ?_, ?_⟩
    · simp only [store, List.length_append, List.length_take, List.length_drop, hlength]
      omega
    · simp only [Int.toNat_natCast]
      omega
    · have hleft : remain - bs.length = (n - (next + bs.length) : ℕ) := by omega
      simp only [Int.toNat_natCast, hleft]
      exact int32_natCast (by omega)

/-- Receiving below `2 ^ 31` bytes into a buffer of that size stays within it. -/
theorem reliableGetToEofOrN_eq (fuel : ℕ) {buf : Bytes} {n : ℕ} (hlen : buf.length = n)
    (hn : n < 2 ^ 31) : reliableGetToEofOrN fuel buf n =
      OptionT.lift (UserDirectory.reliableGetToEofOrN fuel buf n) := by
  subst hlen
  refine OptionT.ext (funext fun c => ?_)
  rw [OptionT.run_lift, bindM_apply, UserDirectory.reliableGetToEofOrN]
  have hloop := loop_asserting (fun s => Inside.within hn) (fun s s' => Inside.getPass hn)
    (Inside.init c) fuel
  show (loop (asserting (GetState.Within buf.length) getPass) fuel _).map _ = _
  rw [hloop]
  cases loop getPass fuel ⟨buf, 0, buf.length, 0, c⟩ <;> rfl

/-- What is received stays in a buffer of the same length. -/
theorem length_of_reliableGetToEofOrN {fuel : ℕ} {buf buf' : Bytes} {n : ℕ} {total : ℤ}
    {c c' : Conn} (hlen : buf.length = n) (hn : n < 2 ^ 31)
    (h : UserDirectory.reliableGetToEofOrN fuel buf n c = some ((total, buf'), c')) :
    buf'.length = n := by
  subst hlen
  obtain ⟨r, hr, heq⟩ := Option.map_eq_some_iff.1 h
  obtain ⟨total', buf'', c''⟩ := r
  cases heq
  refine loop_invariant (P := Inside buf.length) (Q := fun r => r.2.1.length = buf.length)
    (loop_returns_of_exists hr) (Inside.init c) (fun s s' => Inside.getPass hn)
    (fun s r hs hb => ?_)
  -- The pass that ends the loop stores nothing.
  rw [getPass] at hb
  split at hb
  · cases hb
    exact hs.length
  dsimp only at hb
  split at hb
  · split at hb
    · split at hb <;> cases hb <;> exact hs.length
    · cases hb
  · cases hb

/-! ## Parsing -/

section Extract

variable {m : Type → Type} [Monad m] [LawfulMonad m] {it : Bytes} {count : ℕ}

theorem extractString_eq (h : count ≤ it.length) :
    (extractString it count : OptionT m _) = pure (UserDirectory.extractString it count) := by
  rw [extractString, guard_eq_pure h, pure_bind]

theorem extractSize_eq (h : 4 ≤ it.length) :
    (extractSize it : OptionT m _) = pure (UserDirectory.extractSize it) := by
  rw [extractSize, guard_eq_pure h, pure_bind]

end Extract

theorem extractHeader_eq {header : Bytes} (h : header.length = 16) :
    extractHeader header = pure (UserDirectory.extractHeader header) := by
  have h₁ : 4 ≤ (header.drop 4).length := by rw [List.length_drop]; omega
  have h₂ : 4 ≤ ((header.drop 4).drop 4).length := by simp only [List.length_drop]; omega
  have h₃ : 4 ≤ (((header.drop 4).drop 4).drop 4).length := by simp only [List.length_drop]; omega
  rw [extractHeader, extractString_eq (by omega), pure_bind]
  simp only [UserDirectory.extractString, extractSize_eq h₁, pure_bind, UserDirectory.extractSize,
    extractSize_eq h₂, extractSize_eq h₃]
  rfl

/-- The fields of a body of the announced length are all of it. -/
theorem request_eq {h : Header} {body : Bytes} (hlen : body.length = h.announced) :
    request h body = pure (h.request body) := by
  rw [Header.announced] at hlen
  have hfields : body.take h.ulen.toNat ++ (body.drop h.ulen.toNat).take h.plen.toNat ++
      ((body.drop h.ulen.toNat).drop h.plen.toNat).take h.mlen.toNat = body := by
    have hmsg : ((body.drop h.ulen.toNat).drop h.plen.toNat).length ≤ h.mlen.toNat := by
      simp only [List.length_drop]
      omega
    rw [List.take_of_length_le hmsg, List.append_assoc, List.take_append_drop,
      List.take_append_drop]
  have hu : h.ulen.toNat ≤ body.length := by omega
  have hp : h.plen.toNat ≤ (body.drop h.ulen.toNat).length := by
    rw [List.length_drop]
    omega
  have hm : h.mlen.toNat ≤ ((body.drop h.ulen.toNat).drop h.plen.toNat).length := by
    simp only [List.length_drop]
    omega
  rw [request, extractString_eq hu, pure_bind]
  simp only [UserDirectory.extractString, extractString_eq hp, pure_bind, guard_eq_pure hm]
  exact guard_bind hfields _

theorem readBody_eq (fuel : ℕ) (h : Header) :
    readBody fuel h = OptionT.lift (UserDirectory.readBody fuel h) := by
  rw [readBody, UserDirectory.readBody]
  by_cases hrange : h.InRange
  · have hannounced := Header.bodyLength_eq hrange
    have hlt := Header.bodyLength_lt hrange
    simp only [← not_inRange_iff, if_neg (not_not.2 hrange), guard_eq_pure hannounced, pure_bind,
      List.length_replicate, int32_natCast hlt,
      reliableGetToEofOrN_eq fuel List.length_replicate hlt]
    refine lift_bind_congr fun c r c' hr => ?_
    obtain ⟨got, body⟩ := r
    have hbody := (length_of_reliableGetToEofOrN List.length_replicate hlt hr).trans hannounced
    dsimp only
    split
    · exact (OptionT.lift_pure _).symm
    · rw [request_eq hbody, pure_bind]
      exact (OptionT.lift_pure _).symm
  · simp only [← not_inRange_iff, if_pos hrange]
    exact (OptionT.lift_pure _).symm

theorem readRequest_eq (fuel : ℕ) :
    readRequest fuel = OptionT.lift (UserDirectory.readRequest fuel) := by
  have hlen : (List.replicate 16 (0 : UInt8)).length = 16 := List.length_replicate
  have hrecv : reliableGetToEofOrN fuel (List.replicate 16 0) 16 = _ :=
    reliableGetToEofOrN_eq fuel hlen (by decide)
  rw [readRequest, hrecv]
  refine lift_bind_congr fun c r c' hr => ?_
  obtain ⟨got, header⟩ := r
  have hheader := length_of_reliableGetToEofOrN hlen (by decide) hr
  dsimp only
  split
  · exact (OptionT.lift_pure _).symm
  · rw [extractHeader_eq hheader, pure_bind, readBody_eq]

/-! ## Handlers -/

/-- The argument of a message ends where the message does. -/
theorem argument_ends {req : Bytes} (h4 : 4 ≤ req.length)
    (h : req.length = (4 + (UserDirectory.extractSize req).1).toNat) :
    (UserDirectory.extractSize req).1.toNat ≤ (UserDirectory.extractSize req).2.length ∧
      (UserDirectory.extractSize req).2.drop (UserDirectory.extractSize req).1.toNat = [] := by
  have hlen := length_eq_of_extractSize h4 h
  have hrest : (UserDirectory.extractSize req).2.length = req.length - 4 := List.length_drop
  refine ⟨?_, List.drop_of_length_le ?_⟩ <;> omega

/-- What the handlers of `SETP` and `GETP` share: `k` is what they do with the argument. -/
def framed (fuel : ℕ) (req : Bytes) (k : Bytes → OptionT Action Bool) : OptionT Action Bool := do
  if req.length < 4 then
    let _ ← sendErrMsgFormat fuel
    return false
  let (len, it) ← extractSize req
  if req.length ≠ (4 + len).toNat then
    let _ ← sendErrMsgFormat fuel
    return false
  guard (req.length = 4 + len.toNat)
  let (arg, it) ← extractString it len.toNat
  guard (it = [])
  k arg

theorem framed_eq (fuel : ℕ) (req : Bytes) {k : Bytes → OptionT Action Bool}
    {f : Bytes → Action Bool} (hk : ∀ arg, k arg = OptionT.lift (f arg)) :
    framed fuel req k = OptionT.lift (UserDirectory.framed fuel req f) := by
  rw [framed, UserDirectory.framed]
  by_cases h4 : req.length < 4
  · simp only [if_pos h4]
    exact lift_bind_pure
  rw [Nat.not_lt] at h4
  simp only [if_neg (Nat.not_lt.2 h4), extractSize_eq h4, pure_bind]
  by_cases hne : req.length ≠ (4 + (UserDirectory.extractSize req).1).toNat
  · simp only [if_pos hne]
    exact lift_bind_pure
  rw [ne_eq, not_not] at hne
  obtain ⟨hle, hend⟩ := argument_ends h4 hne
  simp only [if_neg (not_not.2 hne), guard_eq_pure (length_eq_of_extractSize h4 hne), pure_bind,
    extractString_eq hle]
  exact (guard_bind hend _).trans (hk _)

theorem handleSet_eq (fuel : ℕ) (u p req : Bytes) :
    handleSet fuel u p req = OptionT.lift (UserDirectory.handleSet fuel u p req) := by
  have hframed : handleSet fuel u p req = framed fuel req (fun content => do
      let result ← onStorage fun s => s.setUserData u p content
      let _ ← sendStatus fuel (if result.succeeded then resOk else result.msg)
      return false) := rfl
  rw [hframed]
  refine framed_eq fuel req (f := fun content => do
    let result ← onStorage fun s => s.setUserData u p content
    let _ ← sendStatus fuel (if result.succeeded then resOk else result.msg)
    return false) fun content => ?_
  refine lift_bind_congr fun _ _ _ _ => ?_
  exact lift_bind_pure

theorem handleGet_eq (fuel : ℕ) (u p req : Bytes) :
    handleGet fuel u p req = OptionT.lift (UserDirectory.handleGet fuel u p req) := by
  have hframed : handleGet fuel u p req = framed fuel req (fun who => do
      let result ← askStorage fun s => s.getUserData u p who
      if result.succeeded then
        let _ ← sendData fuel resOk result.data
      else
        let _ ← sendStatus fuel result.msg
      return false) := rfl
  rw [hframed]
  refine framed_eq fuel req (f := fun who => do
    let result ← askStorage fun s => s.getUserData u p who
    if result.succeeded then
      let _ ← sendData fuel resOk result.data
    else
      let _ ← sendStatus fuel result.msg
    return false) fun who => ?_
  refine lift_bind_congr fun _ result _ _ => ?_
  split <;> exact lift_bind_pure

theorem dispatch_eq (fuel : ℕ) (faults : Stdio.WriteFaults) (r : Request) :
    dispatch fuel faults r = OptionT.lift (UserDirectory.dispatch fuel faults r) := by
  rw [dispatch, UserDirectory.dispatch, handleSet_eq, handleGet_eq]
  split_ifs <;> rfl

theorem onConn_lift {α : Type} (io : Io α) :
    onConn (OptionT.lift io) = OptionT.lift (UserDirectory.onConn io) := by
  refine OptionT.ext (funext fun s => ?_)
  show ((OptionT.lift io).run s.conn).map _ = _
  rw [OptionT.run_lift, OptionT.run_lift, bindM_apply, bindM_apply, UserDirectory.onConn]
  cases io s.conn <;> rfl

/-- No assertion of `parse_request` and of the handlers ever fails. -/
theorem parseRequest_eq (fuel : ℕ) (faults : Stdio.WriteFaults) :
    parseRequest fuel faults = OptionT.lift (UserDirectory.parseRequest fuel faults) := by
  rw [parseRequest, readRequest_eq, onConn_lift]
  refine lift_bind_congr fun _ r _ _ => ?_
  cases r with
  | none => exact (OptionT.lift_pure _).symm
  | some r => exact dispatch_eq fuel faults r

/-- Whatever arrives on the connection, and whatever the server: `parse_request` and the
    handler that it calls stay within the header, the body and the message, no sum of lengths
    wraps around, and the fields are all of the body and the argument all of the message. -/
theorem parseRequest_inBounds (fuel : ℕ) (faults : Stdio.WriteFaults) (s : Session) :
    (parseRequest fuel faults).run s =
      (UserDirectory.parseRequest fuel faults s).map fun p => (some p.1, p.2) := by
  rw [parseRequest_eq, OptionT.run_lift, bindM_apply]
  cases UserDirectory.parseRequest fuel faults s <;> rfl

end Checked

end UserDirectory
