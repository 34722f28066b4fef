import UserDirectory.Reachable
import UserDirectory.Requests

/-!
# Truncated requests

What `parse_request` does when the stream ends before the request is complete.
It only tests whether the number of bytes received is zero, and the buffer was
filled with zeros, so a request cut in its body is dispatched with zeros for
what is missing.

* `serve_harmless_iff`: the requests that have no effect on a server.
* `parseRequest_truncated_iff`: a truncated request has no effect exactly if
  its lengths are out of range, or if no call was interrupted and the request
  filled up with zeros has no effect.
-/

namespace UserDirectory

open Fuel Socket Stdio AssocList

/-- The stream ends in the header, or before the bytes that the header announces. -/
def Truncated (stream : Bytes) : Prop :=
  stream.length < 16 ∨ stream.length < 16 + (Header.ofStream stream).announced

instance (stream : Bytes) : Decidable (Truncated stream) := inferInstanceAs (Decidable (_ ∨ _))

/-- `parse_request` returns `false`, with the table and the data file as they were. -/
def NoEffect (faults : WriteFaults) (s : Session) : Prop :=
  ∃ s', Returns (fun n => parseRequest n faults s) (false, s') ∧
    s'.server.storage.authTable = s.server.storage.authTable ∧
    s'.server.dataFile = s.server.dataFile

/-- The request changes neither the table nor the data file, and does not stop the server: it
    registers nobody, does not stop the server, updates no content to another one, and saves
    nothing but what is in the data file, unless the file cannot be opened or renamed. -/
structure Harmless (faults : WriteFaults) (r : Request) (sv : Server) : Prop where
  registers : ¬sv.Registers r
  stops : ¬sv.Stops r
  updates : ∀ content, sv.Updates r content →
    ∀ e ∈ sv.storage.authTable.lookup r.user, e.content = content
  saves : sv.Saves r → faults.fopen ∨ faults.rename ∨
    sv.dataFile = some (saved faults sv.storage.authTable)

/-- A new user changes the table. -/
theorem withUser_ne {s : MyStorage} {user pass : Bytes} (h : user ∉ keys s.authTable.entries) :
    (s.withUser user pass).authTable ≠ s.authTable := by
  intro heq
  have hlen := congrArg (fun m => m.entries.length) heq
  simp only [MyStorage.withUser, SequentialMap.insert_entries _ h, List.length_append,
    List.length_singleton] at hlen
  exact absurd hlen (Nat.succ_ne_self _)

/-- A new content is no change iff it is the old one. -/
theorem withContent_eq_iff {s : MyStorage} {user content : Bytes} :
    (s.withContent user content).authTable = s.authTable ↔
      ∀ e ∈ s.authTable.lookup user, e.content = content := by
  rw [MyStorage.withContent, SequentialMap.adjust_eq_self_iff]
  refine forall₂_congr fun e _ => ?_
  constructor
  · intro h
    rw [← h]
  · rintro rfl
    rfl

/-- A save leaves the data file as it is iff it fails, or the file is already what it saves. -/
theorem saveFile_dataFile_eq_iff {faults : WriteFaults} {sv : Server} :
    (sv.saveFile faults).2.dataFile = sv.dataFile ↔
      faults.fopen ∨ faults.rename ∨ sv.dataFile = some (saved faults sv.storage.authTable) := by
  rw [Server.saveFile_dataFile, ← or_assoc]
  by_cases h : faults.fopen = true ∨ faults.rename = true
  · simp only [h, if_true, true_or]
  · simp only [h, if_false, false_or, @eq_comm _ (some _)]

/-- The requests that have no effect on a server. -/
theorem serve_harmless_iff {faults : WriteFaults} {r : Request} {sv : Server} :
    ((sv.serve faults r).1.stop = false ∧
      (sv.serve faults r).2.storage.authTable = sv.storage.authTable ∧
      (sv.serve faults r).2.dataFile = sv.dataFile) ↔ Harmless faults r sv := by
  rw [Server.serve_stop, decide_eq_false_iff_not]
  -- The four kinds of requests exclude each other by their commands.
  rcases Server.serve_cases faults r sv with ⟨hreg, hsv⟩ | ⟨content, hupd, hsv⟩ | ⟨hsav, hsv⟩ |
    ⟨hreg, hupd, hsav, hsv⟩ <;> rw [hsv]
  · constructor
    · exact fun h => absurd h.2.1 (withUser_ne hreg.2.2)
    · exact fun h => absurd hreg h.registers
  · constructor
    · rintro ⟨hstop, htable, -⟩
      refine ⟨fun h => h.not_updates content hupd, hstop, fun content' hupd' => ?_,
        fun h => absurd h hupd.not_saves⟩
      -- The content of a request is that of its message.
      obtain rfl := Option.some.inj (hupd.2.2.1.symm.trans hupd'.2.2.1)
      exact withContent_eq_iff.1 htable
    · exact fun h => ⟨h.stops, withContent_eq_iff.2 (h.updates content hupd), rfl⟩
  · constructor
    · rintro ⟨hstop, -, hfile⟩
      exact ⟨fun h => h.not_saves hsav, hstop, fun _ h => absurd hsav h.not_saves,
        fun _ => saveFile_dataFile_eq_iff.1 hfile⟩
    · refine fun h => ⟨h.stops, ?_, saveFile_dataFile_eq_iff.2 (h.saves hsav)⟩
      rw [Server.saveFile_storage]
  · exact ⟨fun h => ⟨hreg, h.1, fun content h => absurd h (hupd content), fun h => absurd h hsav⟩,
      fun h => ⟨h.stops, rfl, rfl⟩⟩

/-- A request dispatched has no effect iff it is harmless. -/
theorem noEffect_iff_of_some {faults : WriteFaults} {s : Session} {r : Request} {c : Conn}
    (hread : Returns (fun n => readRequest n s.conn) (some r, c)) :
    NoEffect faults s ↔ Harmless faults r s.server := by
  obtain ⟨c', hr⟩ := dispatch_returns faults r ⟨c, s.server⟩
  have hparse := parseRequest_returns hread hr
  rw [← serve_harmless_iff]
  constructor
  · rintro ⟨s', hs', htable, hfile⟩
    obtain ⟨hstop, rfl⟩ := Prod.mk.inj (hparse.unique hs')
    exact ⟨hstop, htable, hfile⟩
  · rintro ⟨hstop, htable, hfile⟩
    rw [hstop] at hparse
    exact ⟨_, hparse, htable, hfile⟩

/-- A request that is not dispatched has no effect. -/
theorem noEffect_of_none {faults : WriteFaults} {s : Session} {c : Conn}
    (hread : Returns (fun n => readRequest n s.conn) (none, c)) : NoEffect faults s :=
  ⟨_, parseRequest_returns_false hread, rfl, rfl⟩

/-- A request that is never read to its end has no effect to speak of. -/
theorem not_noEffect_of_diverges {faults : WriteFaults} {s : Session}
    (hread : Diverges fun n => readRequest n s.conn) : ¬NoEffect faults s := by
  rintro ⟨s', hs', -⟩
  refine hs'.not_diverges (Diverges.bindM (fun n => ?_) _)
  simp only [onConn, show readRequest n s.conn = none from hread n, Option.map_none]

/-- A truncated request has no effect exactly if its header is complete with lengths out of
    range, or if no call was interrupted and the request filled up with zeros, if there is
    one, is harmless. -/
theorem parseRequest_truncated_iff (faults : WriteFaults) {s : Session}
    (hs : s.conn.RecvRecoverable) (htrunc : Truncated (delivered s.conn.recvs)) :
    NoEffect faults s ↔
      (16 ≤ (delivered s.conn.recvs).length ∧ ¬(Header.ofStream (delivered s.conn.recvs)).InRange) ∨
      (¬s.conn.Interrupted ∧
        ∀ r ∈ Request.ofStream (delivered s.conn.recvs), Harmless faults r s.server) := by
  by_cases hout : 16 ≤ (delivered s.conn.recvs).length ∧
      ¬(Header.ofStream (delivered s.conn.recvs)).InRange
  · -- The lengths are refused, and nothing more is read.
    obtain ⟨c, hread, -⟩ := readRequest_returns hs (.inl hout.1) fun h => absurd h hout.2
    have hnone : Request.ofStream (delivered s.conn.recvs) = none := by
      rw [Request.ofStream, if_pos (.inr (.inl hout.2))]
    rw [hnone] at hread
    exact ⟨fun _ => .inl hout, fun _ => noEffect_of_none hread⟩
  · rw [or_iff_right hout]
    by_cases hint : s.conn.Interrupted
    · -- The reader waits for ever at the end of the stream.
      refine ⟨fun h => absurd h (not_noEffect_of_diverges (readRequest_diverges hs hint ?_)),
        fun h => absurd hint h.1⟩
      rw [not_and_not_right] at hout
      rcases Nat.lt_or_ge (delivered s.conn.recvs).length 16 with h16 | h16
      · exact .inl h16
      · refine .inr ⟨hout h16, ?_⟩
        rw [Header.bodyLength_eq (hout h16)]
        exact htrunc.elim (fun h => absurd h (Nat.not_lt.2 h16)) id
    · obtain ⟨c, hread, -⟩ := readRequest_returns hs (.inr hint) fun _ => .inr hint
      rw [and_iff_right hint]
      cases hr : Request.ofStream (delivered s.conn.recvs) with
      | none =>
        rw [hr] at hread
        exact ⟨fun _ _ h => absurd h (Option.not_mem_none _), fun _ => noEffect_of_none hread⟩
      | some r =>
        rw [hr] at hread
        rw [noEffect_iff_of_some hread]
        simp only [Option.mem_some_iff, forall_eq']

/-- An update of a profile that is cut in its header has no effect; nor has one that is cut in
    the password, which is then another one. -/
theorem parseRequest_truncated_header :
    NoEffect .none ⟨.delivering ((Client.packet reqSet (ascii "alice") (ascii "pw")
      (Client.setMsg (ascii "profile"))).take 10), emptyServer⟩ ∧
    NoEffect .none ⟨.delivering ((Client.packet reqSet (ascii "alice") (ascii "pw")
      (Client.setMsg (ascii "profile"))).take 22), aliceServer⟩ := by
  have hheader : Request.ofStream ((Client.packet reqSet (ascii "alice") (ascii "pw")
      (Client.setMsg (ascii "profile"))).take 10) = none := by
    decide +kernel
  have hpassword : Request.ofStream ((Client.packet reqSet (ascii "alice") (ascii "pw")
      (Client.setMsg (ascii "profile"))).take 22) =
        some ⟨reqSet, ascii "alice", ascii "p" ++ [0], List.replicate 11 0⟩ := by
    decide +kernel
  constructor
  · refine (parseRequest_truncated_iff .none (Conn.recvRecoverable_delivering _) ?_).2 ?_
    · rw [delivered_delivering]
      decide +kernel
    · refine .inr ⟨Conn.not_interrupted_delivering _, fun r hr => ?_⟩
      rw [delivered_delivering, hheader] at hr
      cases hr
  · refine (parseRequest_truncated_iff .none (Conn.recvRecoverable_delivering _) ?_).2 ?_
    · rw [delivered_delivering]
      decide +kernel
    · refine .inr ⟨Conn.not_interrupted_delivering _, fun r hr => ?_⟩
      rw [delivered_delivering, hpassword] at hr
      cases hr
      have hinvalid : ¬aliceServer.storage.Valid (ascii "alice") (ascii "p" ++ [0]) := by
        decide +kernel
      exact ⟨fun h => absurd h.1 (by decide), fun h => absurd h.1 (by decide),
        fun content h => absurd h.2.1 hinvalid, fun h => absurd h.1 (by decide)⟩

/-- A registration of `alice` cut after the first two letters registers another name. -/
theorem parseRequest_truncated_registration :
    Reachable emptyServer ∧
      Truncated ((Client.packet reqReg (ascii "alice") (ascii "pw") []).take 18) ∧
      ¬NoEffect .none ⟨.delivering ((Client.packet reqReg (ascii "alice") (ascii "pw") []).take 18),
        emptyServer⟩ := by
  refine ⟨.start _ _, by decide +kernel, ?_⟩
  have hstream : Request.ofStream ((Client.packet reqReg (ascii "alice") (ascii "pw") []).take 18) =
      some ⟨reqReg, ascii "al" ++ [0, 0, 0], [0, 0], []⟩ := by
    decide +kernel
  have hrecv :=
    Conn.recvRecoverable_delivering ((Client.packet reqReg (ascii "alice") (ascii "pw") []).take 18)
  obtain ⟨c, hread, -⟩ := readRequest_returns hrecv (.inr (Conn.not_interrupted_delivering _))
    fun _ => .inr (Conn.not_interrupted_delivering _)
  rw [delivered_delivering, hstream] at hread
  rw [noEffect_iff_of_some hread]
  exact fun h => h.registers (by decide +kernel)

end UserDirectory
