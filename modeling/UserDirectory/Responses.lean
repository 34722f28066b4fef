import UserDirectory.Net
import UserDirectory.Loading
import UserDirectory.Saving

/-!
# Responses of the server

The handlers of `server/responses.cc`. A handler works on a `Session`: the
connection of a client, and the server. It returns whether the server should
shut down.

* `handleReg_eq` and the like: a handler calls the storage and sends one
  response, whatever becomes of it (`respond`).
* `unframe_eq_some_iff`: the handlers of `SETP` and `GETP` take a message apart
  that is a length followed by so many bytes.
-/

namespace UserDirectory

open Fuel Socket CInt LittleEndian Stdio

/-- A connection being served. -/
structure Session where
  conn : Conn
  server : Server

/-- A function working on a session; `none` is one that does not return. -/
abbrev Action := StateT Session Option

/-- A function working on the connection. -/
def onConn {α : Type} (io : Io α) : Action α := fun s =>
  (io s.conn).map fun (a, conn) => (a, { s with conn := conn })

theorem onConn_returns {α : Type} {io : ℕ → Io α} {s : Session} {a : α} {c : Conn}
    (h : Returns (fun n => io n s.conn) (a, c)) :
    Returns (fun n => onConn (io n) s) (a, { s with conn := c }) :=
  Returns.map h fun p : α × Conn => (p.1, ({ s with conn := p.2 } : Session))

/-- A call of the storage, with its files. -/
def onServer (f : Server → Result × Server) : Action Result := fun s =>
  some ((f s.server).1, { s with server := (f s.server).2 })

/-- A call of a method that changes the storage. -/
def onStorage (f : MyStorage → Result × MyStorage) : Action Result :=
  onServer fun sv => ((f sv.storage).1, { sv with storage := (f sv.storage).2 })

/-- A call of a method that only reads the storage. -/
def askStorage (f : MyStorage → Result) : Action Result := onStorage fun s => (f s, s)

/-! ## Helper functions -/

/-- Append the size of a value, as a little-endian 4-byte value. -/
def addSize (res t : Bytes) : Bytes :=
  let size := UInt32.ofNat t.length
  res ++ [(size &&& 0xFF).toUInt8, ((size >>> 8) &&& 0xFF).toUInt8,
    ((size >>> 16) &&& 0xFF).toUInt8, ((size >>> 24) &&& 0xFF).toUInt8]

/-- Append a value. -/
def addIt (res t : Bytes) : Bytes := res ++ t

/-- Extract a string of `count` bytes, and move the iterator past it. An iterator is
    given by the bytes from it on. -/
def extractString (it : Bytes) (count : ℕ) : Bytes × Bytes := (it.take count, it.drop count)

/-- Extract a `uint32_t`, and move the iterator past it. -/
def extractSize (it : Bytes) : UInt32 × Bytes := (UInt32.ofNat (decode (it.take 4)), it.drop 4)

/-- Extract a vector of `count` bytes, and move the iterator past it. -/
def extractVec (it : Bytes) (count : ℕ) : Bytes × Bytes := (it.take count, it.drop count)

/-- Send only the string provided. -/
def sendStatus (fuel : ℕ) (msg : Bytes) : Action Bool :=
  onConn (reliableSend fuel msg (int32 msg.length))

/-- Send a 4-byte code, a 4-byte length and the content. -/
def sendData (fuel : ℕ) (msg content : Bytes) : Action Bool :=
  let code := msg.take 4
  let response := addIt [] code
  let response := addSize response content
  let response := addIt response content
  onConn (reliableSend fuel response (int32 response.length))

def sendErrMsgFormat (fuel : ℕ) : Action Bool := sendStatus fuel resErrReqFmt

/-! ## Command handlers -/

def handleAll (fuel : ℕ) (u p _req : Bytes) : Action Bool := do
  let result ← askStorage fun s => s.getAllUsers u p
  if result.succeeded then
    let _ ← sendData fuel resOk result.data
  else
    let _ ← sendStatus fuel result.msg
  return false

def handleSet (fuel : ℕ) (u p req : Bytes) : Action Bool := do
  if req.length < 4 then
    let _ ← sendErrMsgFormat fuel
    return false
  let (contentLen, it) := extractSize req
  if req.length ≠ (4 + contentLen).toNat then
    let _ ← sendErrMsgFormat fuel
    return false
  let (content, _) := extractVec it contentLen.toNat
  let result ← onStorage fun s => s.setUserData u p content
  let _ ← sendStatus fuel (if result.succeeded then resOk else result.msg)
  return false

def handleGet (fuel : ℕ) (u p req : Bytes) : Action Bool := do
  if req.length < 4 then
    let _ ← sendErrMsgFormat fuel
    return false
  let (whoLen, it) := extractSize req
  if req.length ≠ (4 + whoLen).toNat then
    let _ ← sendErrMsgFormat fuel
    return false
  let (who, _) := extractString it whoLen.toNat
  let result ← askStorage fun s => s.getUserData u p who
  if result.succeeded then
    let _ ← sendData fuel resOk result.data
  else
    let _ ← sendStatus fuel result.msg
  return false

def handleReg (fuel : ℕ) (u p _req : Bytes) : Action Bool := do
  let result ← onStorage fun s => s.addUser u p
  let _ ← sendStatus fuel (if result.succeeded then resOk else result.msg)
  return false

def handleSav (fuel : ℕ) (faults : WriteFaults) (u p _req : Bytes) : Action Bool := do
  let authResult ← askStorage fun s => s.auth u p
  if !authResult.succeeded then
    let _ ← sendStatus fuel authResult.msg
    return false
  let result ← onServer fun sv => sv.saveFile faults
  let _ ← sendStatus fuel (if result.succeeded then resOk else result.msg)
  return false

/-- The only handler to shut down the server. -/
def handleBye (fuel : ℕ) (u p _req : Bytes) : Action Bool := do
  let result ← askStorage fun s => s.auth u p
  if result.succeeded then
    let _ ← sendStatus fuel resOk
    return true
  let _ ← sendStatus fuel result.msg
  return false

/-! ## What the handlers do -/

/-- Send the response `bytes`, and return `stop` whether or not it was sent. -/
def respond (fuel : ℕ) (bytes : Bytes) (stop : Bool) : Action Bool := do
  let _ ← sendStatus fuel bytes
  return stop

/-- The response to a request without data. -/
def Result.status (r : Result) : Bytes := if r.succeeded then resOk else r.msg

/-- The response to a request for data. -/
def Result.payload (r : Result) : Bytes :=
  if r.succeeded then resOk ++ word (.ofNat r.data.length) ++ r.data else r.msg

/-- The argument of a message: a length, followed by so many bytes. -/
def unframe (msg : Bytes) : Option Bytes :=
  if msg.length < 4 ∨ msg.length ≠ (4 + (extractSize msg).1).toNat then none else some (msg.drop 4)

variable (fuel : ℕ) (u p req : Bytes) (conn : Conn) (sv : Server)

theorem addSize_eq (res t : Bytes) : addSize res t = res ++ word (.ofNat t.length) := by
  simp only [addSize, encode_word, word]

theorem sendData_eq (content : Bytes) :
    sendData fuel resOk content =
      sendStatus fuel (resOk ++ word (.ofNat content.length) ++ content) := by
  rw [sendStatus]
  simp only [sendData, addIt, addSize_eq]
  rfl

theorem askStorage_bind (f : MyStorage → Result) (k : Result → Action Bool) :
    (askStorage f >>= k) ⟨conn, sv⟩ = k (f sv.storage) ⟨conn, sv⟩ := rfl

/-- The response of the handlers of `GETP` and `ALL_`. -/
theorem respond_payload (result : Result) : respond fuel result.payload false =
    if result.succeeded then (do
      let _ ← sendData fuel resOk result.data
      return false)
    else (do
      let _ ← sendStatus fuel result.msg
      return false) := by
  rw [Result.payload, sendData_eq]
  split <;> rfl

theorem handleAll_eq : handleAll fuel u p req ⟨conn, sv⟩ =
    respond fuel (sv.storage.getAllUsers u p).payload false ⟨conn, sv⟩ := by
  rw [handleAll, askStorage_bind, respond_payload]

theorem handleReg_eq : handleReg fuel u p req ⟨conn, sv⟩ =
    respond fuel (sv.storage.addUser u p).1.status false
      ⟨conn, { sv with storage := (sv.storage.addUser u p).2 }⟩ := rfl

theorem handleBye_eq : handleBye fuel u p req ⟨conn, sv⟩ =
    respond fuel (sv.storage.auth u p).status (sv.storage.auth u p).succeeded ⟨conn, sv⟩ := by
  rw [handleBye, askStorage_bind, Result.status]
  cases (sv.storage.auth u p).succeeded <;> rfl

theorem handleSav_eq (faults : WriteFaults) : handleSav fuel faults u p req ⟨conn, sv⟩ =
    if (sv.storage.auth u p).succeeded then
      respond fuel (sv.saveFile faults).1.status false ⟨conn, (sv.saveFile faults).2⟩
    else respond fuel (sv.storage.auth u p).msg false ⟨conn, sv⟩ := by
  rw [handleSav, askStorage_bind]
  cases (sv.storage.auth u p).succeeded <;> rfl

variable {req}

/-- The sum of the length and its own size cannot wrap around. -/
theorem length_eq_of_extractSize (h4 : 4 ≤ req.length)
    (h : req.length = (4 + (extractSize req).1).toNat) :
    req.length = 4 + (extractSize req).1.toNat := by
  have hlt := (extractSize req).1.toNat_lt
  rw [UInt32.toNat_add] at h
  change req.length = (4 + (extractSize req).1.toNat) % 2 ^ 32 at h
  omega

theorem take_extractSize (h4 : 4 ≤ req.length)
    (h : req.length = (4 + (extractSize req).1).toNat) :
    (extractSize req).2.take (extractSize req).1.toNat = req.drop 4 := by
  have hlen := length_eq_of_extractSize h4 h
  refine List.take_of_length_le ?_
  have hdrop : (extractSize req).2.length = req.length - 4 := List.length_drop
  omega

/-- A message is taken apart exactly if it is a length followed by so many bytes. -/
theorem unframe_eq_some_iff {bytes : Bytes} :
    unframe req = some bytes ↔
      req = word (.ofNat bytes.length) ++ bytes ∧ 4 + bytes.length < 2 ^ 32 := by
  rw [unframe, Option.ite_none_left_eq_some, not_or, Nat.not_lt, not_not, Option.some.injEq]
  constructor
  · -- The first four bytes are the word of the length of the rest.
    rintro ⟨⟨h4, h⟩, rfl⟩
    have hlen := length_eq_of_extractSize h4 h
    have htake : (req.take 4).length = 4 := List.length_take_of_le h4
    have hlt := (4 + (extractSize req).1).toNat_lt
    have hsize : (req.drop 4).length = (extractSize req).1.toNat := by
      rw [List.length_drop]
      omega
    refine ⟨?_, by rw [List.length_drop]; omega⟩
    rw [hsize, UInt32.ofNat_toNat, extractSize, word_decode htake, List.take_append_drop]
  · rintro ⟨rfl, hlt⟩
    have hof : bytes.length < UInt32.size := Nat.lt_of_le_of_lt (Nat.le_add_left _ 4) hlt
    have hsize : (extractSize (word (.ofNat bytes.length) ++ bytes)).1 = .ofNat bytes.length := by
      rw [extractSize, List.take_left' (length_word _), decode_word, UInt32.ofNat_toNat]
    rw [hsize, List.length_append, length_word, List.drop_left' (length_word _), UInt32.toNat_add,
      UInt32.toNat_ofNat_of_lt' hof]
    refine ⟨⟨Nat.le_add_right _ _, ?_⟩, rfl⟩
    exact (Nat.mod_eq_of_lt hlt).symm

variable (req)

/-- What the handlers of `SETP` and `GETP` share: `k` is what they do with the argument. -/
def framed (k : Bytes → Action Bool) : Action Bool := do
  if req.length < 4 then
    let _ ← sendErrMsgFormat fuel
    return false
  let (len, it) := extractSize req
  if req.length ≠ (4 + len).toNat then
    let _ ← sendErrMsgFormat fuel
    return false
  k (it.take len.toNat)

theorem framed_eq (k : Bytes → Action Bool) : framed fuel req k =
    match unframe req with
    | none => respond fuel resErrReqFmt false
    | some arg => k arg := by
  by_cases hlt : req.length < 4
  · -- Not even a length.
    rw [framed, unframe, if_pos hlt, if_pos (.inl hlt)]
    rfl
  by_cases hne : req.length ≠ (4 + (extractSize req).1).toNat
  · -- Another length than that of the rest.
    rw [framed, unframe, if_neg hlt, if_pos (.inr hne)]
    exact if_pos hne
  · rw [framed, unframe, if_neg hlt, if_neg (not_or.2 ⟨hlt, hne⟩)]
    have htake := take_extractSize (Nat.le_of_not_lt hlt) (not_not.1 hne)
    exact (if_neg hne).trans (congrArg k htake)

theorem handleSet_eq : handleSet fuel u p req ⟨conn, sv⟩ =
    match unframe req with
    | none => respond fuel resErrReqFmt false ⟨conn, sv⟩
    | some content =>
      respond fuel (sv.storage.setUserData u p content).1.status false
        ⟨conn, { sv with storage := (sv.storage.setUserData u p content).2 }⟩ := by
  have hframed : handleSet fuel u p req = framed fuel req (fun content => do
      let result ← onStorage fun s => s.setUserData u p content
      respond fuel result.status false) := rfl
  rw [hframed, framed_eq]
  cases unframe req <;> rfl

theorem handleGet_eq : handleGet fuel u p req ⟨conn, sv⟩ =
    match unframe req with
    | none => respond fuel resErrReqFmt false ⟨conn, sv⟩
    | some who => respond fuel (sv.storage.getUserData u p who).payload false ⟨conn, sv⟩ := by
  have hframed : handleGet fuel u p req = framed fuel req (fun who => do
      let result ← askStorage fun s => s.getUserData u p who
      respond fuel result.payload false) := by
    simp only [respond_payload]
    rfl
  rw [hframed, framed_eq]
  cases unframe req <;> rfl

end UserDirectory
