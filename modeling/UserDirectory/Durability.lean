import UserDirectory.Accepting
import UserDirectory.Downloads
import UserDirectory.Library.Directory
import UserDirectory.Restart

/-!
# The server as a durable directory

The server over many lives: each starts with the data file that the last one
left, serves clients one after the other, and may end at any time.

* `Represents`: the table at hand and the entries in the data file, seen as the
  accounts of a durable directory. Every step of the server keeps it
  (`Represents.moves`).
* `runs_refine`: so the server answers whatever its clients send, over all of its
  lives, as the directory does.
* `saved_survives`: what was at hand when a `SAVE` was answered with `OK__` is
  there for ever after.

A connection may fail by interruptions only, and a client must not get the
handler stuck, for then no other one is served. A save may fail, but it must not
be cut short without a failure that the server notices (`Reported`). A server
that dies while it saves is one whose `rename` fails. A restart reads the data
file without a failure.
-/

namespace UserDirectory

open Fuel Stdio AssocList Machine Directory

/-- The accounts of a table. -/
def accounts (m : SequentialMap Bytes AuthTableEntry) : Accounts Bytes Bytes Bytes where
  names := keys m.entries
  account n := (m.lookup n).map fun e => (e.password, e.content)
  nodup := m.nodup
  mem_names n := by
    rw [ne_eq, Option.map_eq_none_iff, SequentialMap.lookup_eq_none_iff, not_not]

/-- What the storage admits. -/
def limits : Limits Bytes Bytes Bytes where
  credentials := WellSized
  name who := who ≠ [] ∧ who.length ≤ lenUname
  content c := c.length ≤ lenProfileFile
  blank := []

/-- What a request asks of the directory. -/
def Request.op (r : Request) : Op Bytes Bytes Bytes :=
  if r.cmd = reqReg then .register r.user r.pass
  else if r.cmd = reqBye then .stop r.user r.pass
  else if r.cmd = reqSav then .save r.user r.pass
  else if r.cmd = reqSet then
    match unframe r.msg with
    | none => .unreadable
    | some content => .post r.user r.pass content
  else if r.cmd = reqGet then
    match unframe r.msg with
    | none => .unreadable
    | some who => .fetch r.user r.pass who
  else if r.cmd = reqAll then .list r.user r.pass
  else .unknown

/-- What a client asks: nothing, if it sends no complete request. -/
def Peer.op (p : Peer) : Op Bytes Bytes Bytes :=
  match Request.ofStream p.stream with
  | none => .unknown
  | some r => r.op

/-- The reply that tells an answer. -/
def reply : Answer Bytes Bytes → Reply
  | .done => ⟨some resOk, false⟩
  | .stopped => ⟨some resOk, true⟩
  | .malformed => ⟨some (resErrReqFmt ++ newline), false⟩
  | .taken => ⟨some (resErrUserExists ++ newline), false⟩
  | .denied => ⟨some (resErrLogin ++ newline), false⟩
  | .noAccount => ⟨some (resErrNoUser ++ newline), false⟩
  | .noContent => ⟨some (resErrNoData ++ newline), false⟩
  | .failed => ⟨some (resErrServer ++ newline), false⟩
  | .content c => ⟨some (okResponse c), false⟩
  | .names l => ⟨some (okResponse (l.flatMap fun n => n ++ newline)), false⟩
  | .unreadable => ⟨some resErrReqFmt, false⟩
  | .ignored => ⟨none, false⟩

/-- A save that is cut short fails, and this is noticed. -/
def Reported (faults : WriteFaults) : Prop :=
  faults.fopen = true ∨ faults.rename = true ∨ ∀ bss, faults.Complete bss

/-- The accounts can be stored. -/
def stores (faults : WriteFaults) : Bool := !faults.fopen && !faults.rename

/-- The connection fails by interruptions only, the client does not get the server stuck, and a
    save for it that is cut short is noticed. -/
structure Peer.Regular (p : Peer) : Prop where
  recoverable : p.Recoverable
  notStuck : ¬p.Stuck
  reported : Reported p.faults

/-- What happens to a server: a client is served, or it is started again. -/
inductive Input
  | client (p : Peer) (regular : p.Regular)
  | restart

/-- What happens to the directory. -/
def Input.event : Input → Event Bytes Bytes Bytes
  | client p _ => .request (stores p.faults) p.op
  | restart => .restart

/-- The server handles a client, with whether it stops and what the client has been sent; or it
    is started again and loads its data file. -/
inductive Moves : Server → Input → Option (Bool × Peer) → Server → Prop
  | client {sv sv' : Server} {p p' : Peer} {stop : Bool} (regular : p.Regular) :
    Returns (fun n => p.handler n sv) (stop, p', sv') →
    Moves sv (.client p regular) (some (stop, p')) sv'
  | restart {sv sv' : Server} {res : Result} :
    Returns (fun n => sv.restarted.loadFile n .none) (res, sv') → res.succeeded = true →
    Moves sv .restart none sv'

/-- The directory answers a client, which is sent the response that tells the answer; or it is
    started again. -/
inductive Tells (s : Durable Bytes Bytes Bytes) :
    Input → Option (Bool × Peer) → Durable Bytes Bytes Bytes → Prop
  | client {s' : Durable Bytes Bytes Bytes} {p p' : Peer} (regular : p.Regular)
    {a : Answer Bytes Bytes} :
    s.step limits (Input.client p regular).event = (some a, s') →
    p.Receives (reply a).response p' →
    Tells s (.client p regular) (some ((reply a).stop, p')) s'
  | restart {s' : Durable Bytes Bytes Bytes} :
    s.step limits Input.restart.event = (none, s') → Tells s .restart none s'

section Accounts

variable {s : MyStorage} {user pass content who : Bytes}

theorem account_eq (m : SequentialMap Bytes AuthTableEntry) (n : Bytes) :
    (accounts m).account n = (m.lookup n).map fun e => (e.password, e.content) := rfl

theorem account_eq_none_iff : (accounts s.authTable).account user = none ↔
    user ∉ keys s.authTable.entries := by
  rw [← SequentialMap.lookup_eq_none_iff]
  exact Option.map_eq_none_iff

/-- The accounts grant what the storage does. -/
theorem grants_iff : (accounts s.authTable).Grants user pass ↔ s.Registered user pass := by
  simp only [Accounts.Grants, accounts, Option.map_eq_some_iff, MyStorage.Registered,
    Option.mem_def, Prod.mk.injEq]
  constructor
  · rintro ⟨content, e, he, hp, -⟩
    exact ⟨e, he, hp⟩
  · rintro ⟨e, he, hp⟩
    exact ⟨_, e, he, hp, rfl⟩

theorem accounts_withUser (h : (accounts s.authTable).account user = none) :
    accounts (s.withUser user pass).authTable = (accounts s.authTable).register user pass [] h := by
  have hnew := account_eq_none_iff.1 h
  refine Accounts.ext ?_ ?_
  · show keys (s.withUser user pass).authTable.entries = keys s.authTable.entries ++ [user]
    rw [MyStorage.withUser, SequentialMap.insert_entries _ hnew, keys_append]
    rfl
  · funext n
    rw [Accounts.account_register]
    show ((s.withUser user pass).authTable.lookup n).map _ = _
    rw [MyStorage.lookup_withUser hnew]
    rcases eq_or_ne n user with rfl | hne
    · rw [Function.update_self, Function.update_self]
      rfl
    · rw [Function.update_of_ne hne, Function.update_of_ne hne]
      rfl

theorem accounts_withContent :
    accounts (s.withContent user content).authTable = (accounts s.authTable).post user content := by
  refine Accounts.ext (keys_adjust _ _ _) ?_
  funext n
  rw [Accounts.account_post]
  show ((s.withContent user content).authTable.lookup n).map _ = _
  rw [MyStorage.lookup_withContent]
  rcases eq_or_ne n user with rfl | hne
  · rw [Function.update_self, Function.update_self]
    show Option.map _ (Option.map _ _) = Option.map _ (Option.map _ _)
    rw [Option.map_map, Option.map_map]
    rfl
  · rw [Function.update_of_ne hne, Function.update_of_ne hne]
    rfl

end Accounts

section Serve

variable {faults : WriteFaults} {r : Request} {sv : Server}

theorem op_reg (h : r.cmd = reqReg) : r.op = .register r.user r.pass := if_pos h

theorem op_bye (h : r.cmd = reqBye) : r.op = .stop r.user r.pass := by
  rw [Request.op, h]
  rfl

theorem op_sav (h : r.cmd = reqSav) : r.op = .save r.user r.pass := by
  rw [Request.op, h]
  rfl

theorem op_set (h : r.cmd = reqSet) : r.op = match unframe r.msg with
    | none => .unreadable
    | some content => .post r.user r.pass content := by
  rw [Request.op, h]
  rfl

theorem op_get (h : r.cmd = reqGet) : r.op = match unframe r.msg with
    | none => .unreadable
    | some who => .fetch r.user r.pass who := by
  rw [Request.op, h]
  rfl

theorem op_all (h : r.cmd = reqAll) : r.op = .list r.user r.pass := by
  rw [Request.op, h]
  rfl

theorem op_unknown (h : r.cmd ∉ commands) : r.op = .unknown := by
  simp only [commands, List.mem_cons, List.not_mem_nil, or_false, not_or] at h
  obtain ⟨hreg, hbye, hsav, hset, hget, hall⟩ := h
  rw [Request.op, if_neg hreg, if_neg hbye, if_neg hsav, if_neg hset, if_neg hget, if_neg hall]

theorem credentials_iff {user pass : Bytes} : limits.credentials user pass ↔ WellSized user pass :=
  Iff.rfl

theorem content_iff {content : Bytes} : limits.content content ↔ content.length ≤ lenProfileFile :=
  Iff.rfl

theorem name_iff {who : Bytes} : limits.name who ↔ who ≠ [] ∧ who.length ≤ lenUname := Iff.rfl

/-- The reply to a `SAVE` depends on the user, and then on the files. -/
theorem serve_reply_sav (h : r.cmd = reqSav) : (sv.serve faults r).1 =
    reply (answer limits (accounts sv.storage.authTable) (stores faults) r.op) := by
  simp only [op_sav h, answer, credentials_iff, grants_iff]
  by_cases hvalid : sv.storage.Valid r.user r.pass
  · rw [Server.serve_of_saves ⟨h, hvalid⟩, Server.saveFile_succeeded,
      if_neg (not_not.2 hvalid.1), if_pos hvalid.2, stores]
    cases faults.fopen <;> cases faults.rename <;> rfl
  · have hauth : ¬(sv.storage.auth r.user r.pass).succeeded = true := by
      rw [MyStorage.auth_succeeded]
      simpa using hvalid
    rw [Server.serve_sav faults sv h, if_neg hauth, MyStorage.auth_eq]
    by_cases hsized : WellSized r.user r.pass
    · have hreg : ¬sv.storage.Registered r.user r.pass := fun hreg => hvalid ⟨hsized, hreg⟩
      rw [if_neg (not_not.2 hsized), if_neg hreg, if_neg (not_not.2 hsized), if_neg hreg]
      rfl
    · rw [if_pos hsized, if_pos hsized]
      rfl

/-- The reply of the service tells the answer of the directory. -/
theorem serve_reply : (sv.serve faults r).1 =
    reply (answer limits (accounts sv.storage.authTable) (stores faults) r.op) := by
  by_cases hcmd : r.cmd ∈ commands
  · simp only [commands, List.mem_cons, List.not_mem_nil, or_false] at hcmd
    rcases hcmd with h | h | h | h | h | h
    · rw [Server.serve_reg faults sv h, MyStorage.addUser_eq, op_reg h]
      simp only [answer, credentials_iff, account_eq_none_iff, ne_eq, not_not]
      split_ifs <;> rfl
    · rw [Server.serve_bye faults sv h, MyStorage.auth_eq, op_bye h]
      simp only [answer, credentials_iff, grants_iff]
      split_ifs <;> rfl
    · exact serve_reply_sav h
    · rw [Server.serve_set faults sv h, op_set h]
      cases unframe r.msg with
      | none => rfl
      | some content =>
        simp only [answer, credentials_iff, content_iff, grants_iff, MyStorage.setUserData_eq]
        split_ifs <;> rfl
    · rw [Server.serve_get faults sv h, op_get h]
      cases unframe r.msg with
      | none => rfl
      | some who =>
        simp only [answer, credentials_iff, name_iff, grants_iff, MyStorage.getUserData_eq]
        split_ifs
        · rw [account_eq]
          cases sv.storage.authTable.lookup who with
          | none => rfl
          | some e =>
            simp only [Option.map_some, show limits.blank = [] from rfl]
            split_ifs <;> rfl
        · rfl
        · rfl
    · rw [Server.serve_all faults sv h, MyStorage.getAllUsers_eq, op_all h]
      simp only [answer, credentials_iff, grants_iff]
      split_ifs
      · show (⟨some (okResponse (MyStorage.userList sv.storage.authTable)), false⟩ : Reply) =
          ⟨some (okResponse ((keys sv.storage.authTable.entries).flatMap fun n => n ++ newline)),
            false⟩
        rw [MyStorage.userList, keys, List.flatMap_map]
      · rfl
      · rfl
  · rw [Server.serve_unknown faults sv hcmd, op_unknown hcmd]
    rfl

/-- A request that registers nobody, and neither updates nor saves anything, leaves the
    directory alone. -/
theorem next_otherwise {s : Durable Bytes Bytes Bytes}
    (hlive : s.live = accounts sv.storage.authTable) (hreg : ¬sv.Registers r)
    (hupd : ∀ content, ¬sv.Updates r content) (hsav : ¬sv.Saves r) (ok : Bool) :
    s.next limits ok r.op = s := by
  by_cases hcmd : r.cmd ∈ commands
  · simp only [commands, List.mem_cons, List.not_mem_nil, or_false] at hcmd
    rcases hcmd with h | h | h | h | h | h
    · rw [op_reg h, Durable.next]
      refine dif_neg fun hnew => hreg ⟨h, hnew.1, account_eq_none_iff.1 ?_⟩
      rw [← hlive]
      exact hnew.2
    · rw [op_bye h]
      rfl
    · rw [op_sav h, Durable.next]
      refine if_neg fun hvalid => hsav ⟨h, hvalid.1, grants_iff.1 ?_⟩
      rw [← hlive]
      exact hvalid.2.1
    · rw [op_set h]
      cases hmsg : unframe r.msg with
      | none => rfl
      | some content =>
        refine if_neg fun hvalid =>
          hupd content ⟨h, ⟨hvalid.1.1, grants_iff.1 ?_⟩, hmsg, hvalid.1.2⟩
        rw [← hlive]
        exact hvalid.2
    · rw [op_get h]
      cases unframe r.msg <;> rfl
    · rw [op_all h]
      rfl
  · rw [op_unknown hcmd]
    rfl

end Serve

/-- The server is in the state of the directory: the accounts at hand are in its table, and
    those saved in its data file. -/
structure Represents (sv : Server) (s : Durable Bytes Bytes Bytes) : Prop where
  live : s.live = accounts sv.storage.authTable
  saved : ∃ m, s.saved = accounts m ∧ DataFileOf sv.dataFile m.entries
  wellFormed : sv.WellFormed

namespace Represents

variable {sv : Server} {s : Durable Bytes Bytes Bytes}

/-- A server without a data file is an empty directory. -/
theorem start {filename : Bytes} {files : Files Bytes} (h : files filename = none) :
    Represents ⟨.new filename, files⟩ ⟨.empty, .empty⟩ where
  live := Accounts.ext rfl rfl
  saved := by
    refine ⟨.empty, Accounts.ext rfl rfl, List.nodup_nil, ?_⟩
    show FileEntries (files filename) []
    rw [h]
    rfl
  wellFormed _ he := absurd he List.not_mem_nil

/-- A save that does not fail leaves the table in the data file, and one that fails leaves it
    alone. -/
theorem saveFile (h : Represents sv s) {faults : WriteFaults} (reported : Reported faults) :
    Represents (sv.saveFile faults).2
      (if stores faults = true then { s with saved := s.live } else s) where
  live := by
    rw [Server.saveFile_storage, ← h.live]
    split <;> rfl
  saved := by
    rw [Server.saveFile_dataFile]
    by_cases hstores : stores faults = true
    · have hok : ¬(faults.fopen = true ∨ faults.rename = true) := by
        simpa [stores] using hstores
      have hcomplete : ∀ bss, faults.Complete bss :=
        (reported.resolve_left fun h => hok (.inl h)).resolve_left fun h => hok (.inr h)
      rw [if_pos hstores, if_neg hok, (saved_eq_image_iff h.wellFormed).2 (hcomplete _)]
      exact ⟨sv.storage.authTable, h.live, sv.storage.authTable.nodup, entries_image h.wellFormed⟩
    · have hfails : faults.fopen = true ∨ faults.rename = true := by
        simpa [stores, or_iff_not_imp_left] using hstores
      rw [if_neg hstores, if_pos hfails]
      exact h.saved
  wellFormed := by
    rw [Server.WellFormed, Server.saveFile_storage]
    exact h.wellFormed

/-- A request that is served leaves the server in the state of the directory. -/
theorem serve (h : Represents sv s) {faults : WriteFaults} (reported : Reported faults)
    (r : Request) : Represents (sv.serve faults r).2 (s.next limits (stores faults) r.op) := by
  have hwf := Server.serve_wellFormed faults r h.wellFormed
  rcases Server.serve_cases faults r sv with ⟨hreg, hsv⟩ | ⟨content, hupd, hsv⟩ | ⟨hsav, hsv⟩ |
    ⟨hreg, hupd, hsav, hsv⟩ <;> rw [hsv] at hwf ⊢
  · have hnew : s.live.account r.user = none := by
      rw [h.live, account_eq_none_iff]
      exact hreg.2.2
    rw [op_reg hreg.1, Durable.next, dif_pos ⟨hreg.2.1, hnew⟩]
    refine ⟨?_, h.saved, hwf⟩
    simp only [h.live]
    exact (accounts_withUser _).symm
  · have hgrants : s.live.Grants r.user r.pass := by
      rw [h.live, grants_iff]
      exact hupd.2.1.2
    rw [op_set hupd.1, hupd.2.2.1]
    simp only [Durable.next]
    rw [if_pos ⟨⟨hupd.2.1.1, hupd.2.2.2⟩, hgrants⟩]
    refine ⟨?_, h.saved, hwf⟩
    simp only [h.live]
    exact accounts_withContent.symm
  · have hgrants : s.live.Grants r.user r.pass := by
      rw [h.live, grants_iff]
      exact hsav.2.2
    have hnext : s.next limits (stores faults) (.save r.user r.pass) =
        if stores faults = true then { s with saved := s.live } else s := by
      simp only [Durable.next, credentials_iff, hsav.2.1, hgrants, true_and]
    rw [op_sav hsav.1, hnext]
    exact h.saveFile reported
  · rw [next_otherwise h.live hreg hupd hsav]
    exact h

/-- So does a client, whatever it sends. -/
theorem answer (h : Represents sv s) {p : Peer} (reported : Reported p.faults) :
    (sv.answer p).1 = reply (Directory.answer limits s.live (stores p.faults) p.op) ∧
      Represents (sv.answer p).2 (s.next limits (stores p.faults) p.op) := by
  rw [Server.answer, Peer.op, h.live]
  cases Request.ofStream p.stream with
  | none => exact ⟨rfl, h⟩
  | some r => exact ⟨serve_reply, h.serve reported r⟩

/-- A restart succeeds, and leaves the accounts saved. -/
theorem restart (h : Represents sv s) : ∃ res sv',
    Returns (fun n => sv.restarted.loadFile n .none) (res, sv') ∧ res.succeeded = true ∧
      Represents sv' { s with live := s.saved } := by
  obtain ⟨m, hm, hfile⟩ := h.saved
  obtain ⟨res, t, hload, hsucc, ht⟩ := @loadFile_of_dataFileOf sv.restarted _ hfile
  obtain rfl : t = m := SequentialMap.ext ht
  exact ⟨res, _, hload, hsucc, hm, ⟨t, hm, hfile⟩, Server.loadFile_wellFormed hload⟩

/-- Every step of the server is one of the directory. -/
theorem moves (h : Represents sv s) (i : Input) :
    ∃ o sv', Moves sv i o sv' ∧ ∃ s', Tells s i o s' ∧ Represents sv' s' := by
  cases i with
  | client p regular =>
    obtain ⟨hreply, hrep⟩ := h.answer regular.reported
    obtain ⟨p', hr, hreceives⟩ := Peer.handler_returns regular.recoverable regular.notStuck sv
    rw [hreply] at hr hreceives
    exact ⟨_, _, .client regular hr, _, .client regular rfl hreceives, hrep⟩
  | restart =>
    obtain ⟨res, sv', hload, hsucc, hrep⟩ := h.restart
    exact ⟨none, sv', .restart hload hsucc, _, .restart rfl, hrep⟩

end Represents

/-- A step of the server is unique. -/
theorem Moves.unique {sv sv₁ sv₂ : Server} {i : Input} {o₁ o₂ : Option (Bool × Peer)}
    (h₁ : Moves sv i o₁ sv₁) (h₂ : Moves sv i o₂ sv₂) : o₁ = o₂ ∧ sv₁ = sv₂ := by
  cases h₁ with
  | client _ hr₁ =>
    cases h₂ with
    | client _ hr₂ =>
      cases hr₁.unique hr₂
      exact ⟨rfl, rfl⟩
  | restart hload₁ _ =>
    cases h₂ with
    | restart hload₂ _ =>
      cases hload₁.unique hload₂
      exact ⟨rfl, rfl⟩

/-- So a step of the server is one of the directory only. -/
theorem Represents.tells {sv sv' : Server} {s : Durable Bytes Bytes Bytes} (h : Represents sv s)
    {i : Input} {o : Option (Bool × Peer)} (hmove : Moves sv i o sv') :
    ∃ s', Tells s i o s' ∧ Represents sv' s' := by
  obtain ⟨o₁, sv₁, hmove₁, htells⟩ := h.moves i
  obtain ⟨rfl, rfl⟩ := hmove.unique hmove₁
  exact htells

/-- A run of the server is one of the directory. -/
theorem Represents.of_runs {sv sv' : Server} {s : Durable Bytes Bytes Bytes} (h : Represents sv s)
    {is : List Input} {os : List (Option (Bool × Peer))} (hruns : Runs Moves sv is os sv') :
    ∃ s', Runs Tells s is os s' ∧ Represents sv' s' :=
  hruns.refines (fun _ _ _ _ _ hrep hmove => hrep.tells hmove) h

/-- The directory goes on as what happens to it tells. -/
theorem Tells.state {s s' : Durable Bytes Bytes Bytes} {i : Input} {o : Option (Bool × Peer)}
    (h : Tells s i o s') : s' = (s.step limits i.event).2 := by
  cases h with
  | client _ hstep _ => rw [hstep]
  | restart hstep => rw [hstep]

theorem Tells.runs_state {s s' : Durable Bytes Bytes Bytes} {is : List Input}
    {os : List (Option (Bool × Peer))} (h : Runs Tells s is os s') :
    s' = (run (Durable.step limits) s (is.map Input.event)).2 := by
  induction h with
  | nil => rfl
  | cons hstep _ ih => rw [ih, hstep.state, List.map_cons, run_cons]

/-- Over all of its lives on a data file that is missing at first, the server answers its
    clients, whatever they send, as the durable directory does; every restart succeeds. -/
theorem runs_refine {filename : Bytes} {files : Files Bytes} (hmissing : files filename = none)
    (is : List Input) :
    ∃ os sv, (∀ os₁ sv₁, Runs Moves ⟨.new filename, files⟩ is os₁ sv₁ ↔ os₁ = os ∧ sv₁ = sv) ∧
      ∃ s, Runs Tells ⟨.empty, .empty⟩ is os s ∧ Represents sv s := by
  obtain ⟨os, sv, hruns, s, htells, hrep⟩ := exists_runs_related (R := Represents)
    (fun _ _ i h => h.moves i) (Represents.start hmissing) is
  refine ⟨os, sv, fun os₁ sv₁ => ⟨fun h => ?_, ?_⟩, s, htells, hrep⟩
  · exact Runs.unique (fun _ _ _ _ _ _ h₁ h₂ => h₁.unique h₂) h hruns
  · rintro ⟨rfl, rfl⟩
    exact hruns

theorem Peer.regular_sending (bytes : Bytes) : (sending bytes).Regular :=
  ⟨recoverable_sending bytes, not_stuck_sending bytes, .inr (.inr WriteFaults.none_complete)⟩

/-- A client that sends a packet, when nothing fails. -/
def undisturbed (cmd user pass : Bytes) : Input :=
  .client (.sending (Client.packet cmd user pass [])) (Peer.regular_sending _)

/-- It is sent the response of the service, if that is not too long. -/
theorem moves_undisturbed {cmd user pass : Bytes} {sv : Server} {ρ : Reply}
    (h : (sv.answer (.sending (Client.packet cmd user pass []))).1 = ρ)
    (hlen : (ρ.response.getD []).length < 2 ^ 32) :
    ∃ p', Moves sv (undisturbed cmd user pass) (some (ρ.stop, p'))
        (sv.answer (.sending (Client.packet cmd user pass []))).2 ∧
      p'.conn.sent = ρ.response.getD [] := by
  obtain ⟨p', hr, hreceives⟩ := Peer.handler_returns
    (Peer.recoverable_sending (Client.packet cmd user pass [])) (Peer.not_stuck_sending _) sv
  rw [h] at hr hreceives
  exact ⟨p', .client _ hr, hreceives.sent hlen⟩

theorem answer_alice : (emptyServer.answer
    (.sending (Client.packet reqReg (ascii "alice") (ascii "pw") []))).1 = ⟨some resOk, false⟩ := by
  decide +kernel

/-- The directory registers `alice` once, since the server does. -/
theorem runs_refine_alice : ∃ p₁ p₂ s,
    Runs Tells ⟨.empty, .empty⟩ [undisturbed reqReg (ascii "alice") (ascii "pw"),
      undisturbed reqReg (ascii "alice") (ascii "no")] [some (false, p₁), some (false, p₂)] s ∧
    p₁.conn.sent = resOk ∧ p₂.conn.sent = resErrUserExists ++ newline := by
  obtain ⟨os, sv, h, s, htells, -⟩ :=
    runs_refine (show emptyServer.files (ascii "company.dir") = none from rfl)
      [undisturbed reqReg (ascii "alice") (ascii "pw"),
        undisturbed reqReg (ascii "alice") (ascii "no")]
  obtain ⟨p₁, hmove₁, hsent₁⟩ := moves_undisturbed answer_alice (by decide)
  have htaken : ((emptyServer.answer (.sending (Client.packet reqReg (ascii "alice") (ascii "pw")
      []))).2.answer (.sending (Client.packet reqReg (ascii "alice") (ascii "no") []))).1 =
        ⟨some (resErrUserExists ++ newline), false⟩ := by
    decide +kernel
  obtain ⟨p₂, hmove₂, hsent₂⟩ := moves_undisturbed htaken (by decide)
  obtain ⟨rfl, -⟩ := (h _ _).1 (.cons hmove₁ (.cons hmove₂ (.nil _)))
  exact ⟨p₁, p₂, s, htells, hsent₁, hsent₂⟩

/-! ## What was saved -/

section Survival

theorem op_eq_post {r : Request} {n pass content : Bytes} (h : r.op = .post n pass content) :
    r.cmd = reqSet ∧ r.user = n := by
  rw [Request.op] at h
  split at h
  · cases h
  split at h
  · cases h
  split at h
  · cases h
  split at h
  · next hcmd =>
    cases hmsg : unframe r.msg <;> rw [hmsg] at h <;> cases h
    exact ⟨hcmd, rfl⟩
  split at h
  · cases hmsg : unframe r.msg <;> rw [hmsg] at h <;> cases h
  split at h <;> cases h

/-- The entry of an account, if the key of each entry is its name. -/
theorem lookup_of_account {sv : Server} (hwf : sv.WellFormed) {user pass content : Bytes}
    (h : (accounts sv.storage.authTable).account user = some (pass, content)) :
    sv.storage.authTable.lookup user = some ⟨user, pass, content⟩ := by
  rw [account_eq, Option.map_eq_some_iff] at h
  obtain ⟨e, he, heq⟩ := h
  obtain ⟨rfl, rfl⟩ := Prod.mk.inj heq
  have hname : user = e.username := (hwf _ (mem_of_lookup he)).1
  rw [he, hname]

/-- The client does not update the profile. -/
def Leaves (user : Bytes) (i : Input) : Prop :=
  ∀ p regular, i = .client p regular → ∀ r, Request.ofStream p.stream = some r →
    ¬(r.cmd = reqSet ∧ r.user = user)

theorem op_ne_post {user : Bytes} {p : Peer}
    (h : ∀ r, Request.ofStream p.stream = some r → ¬(r.cmd = reqSet ∧ r.user = user))
    (pass content : Bytes) : p.op ≠ .post user pass content := by
  intro hop
  rw [Peer.op] at hop
  cases hr : Request.ofStream p.stream with
  | none =>
    rw [hr] at hop
    cases hop
  | some r =>
    rw [hr] at hop
    exact h r hr (op_eq_post hop)

theorem Leaves.event_ne {user : Bytes} {i : Input} (h : Leaves user i) (ok : Bool)
    (pass content : Bytes) : i.event ≠ .request ok (.post user pass content) := by
  intro heq
  cases i with
  | restart => cases heq
  | client p regular =>
    exact op_ne_post (h p regular rfl) pass content (Event.request.inj heq).2

/-- A save that is answered with `OK__` leaves the accounts at hand saved. -/
theorem Tells.saved_of_ok {s s' : Durable Bytes Bytes Bytes} {p p' : Peer} {regular : p.Regular}
    {stop : Bool} (h : Tells s (.client p regular) (some (stop, p')) s') {r : Request}
    (hr : Request.ofStream p.stream = some r) (hcmd : r.cmd = reqSav)
    (hok : p'.conn.sent = p.conn.sent ++ resOk) : s' = ⟨s.live, s.live⟩ := by
  have hop : p.op = .save r.user r.pass := by
    rw [Peer.op, hr]
    exact op_sav hcmd
  cases h with
  | @client _ _ _ _ a hstep hreceives =>
    rw [Input.event, hop, Durable.step, Prod.mk.injEq, Option.some.injEq] at hstep
    obtain ⟨ha, rfl⟩ := hstep
    refine Durable.next_save_of_done ?_
    -- Every other answer is told by an error.
    have hresp : ∀ bytes, (reply a).response = some bytes → bytes.length < 2 ^ 32 →
        bytes = resOk := by
      intro bytes hbytes hlen
      rw [hbytes] at hreceives
      exact List.append_cancel_left ((hreceives.sent hlen).symm.trans hok)
    rw [ha]
    simp only [answer] at ha
    split_ifs at ha <;> subst ha
    · rfl
    · exact absurd (hresp _ rfl (by decide)) (by decide)
    · exact absurd (hresp _ rfl (by decide)) (by decide)
    · exact absurd (hresp _ rfl (by decide)) (by decide)

/-- Once a `SAVE` has been answered with `OK__`, the users in the table stay there in their
    order, with their passwords, whatever happens to the server; and so does the profile of
    each, unless it is updated. -/
theorem saved_survives {filename : Bytes} {files : Files Bytes} (hmissing : files filename = none)
    {is js : List Input} {os os' : List (Option (Bool × Peer))} {sv sv₁ sv' : Server}
    (hbefore : Runs Moves ⟨.new filename, files⟩ is os sv) {p p' : Peer} {regular : p.Regular}
    {stop : Bool} (hsave : Moves sv (.client p regular) (some (stop, p')) sv₁) {r : Request}
    (hr : Request.ofStream p.stream = some r) (hcmd : r.cmd = reqSav)
    (hok : p'.conn.sent = p.conn.sent ++ resOk) (hafter : Runs Moves sv₁ js os' sv') :
    keys sv.storage.authTable.entries <+: keys sv'.storage.authTable.entries ∧
      ∀ user e, sv.storage.authTable.lookup user = some e →
        (∃ content, sv'.storage.authTable.lookup user = some { e with content := content }) ∧
        ((∀ i ∈ js, Leaves user i) → sv'.storage.authTable.lookup user = some e) := by
  obtain ⟨s, -, hrep⟩ := (Represents.start hmissing).of_runs hbefore
  obtain ⟨s₁, htells, hsaved⟩ := hrep.tells hsave
  obtain ⟨s', hruns, hend⟩ := hsaved.of_runs hafter
  obtain rfl := htells.saved_of_ok hr hcmd hok
  obtain rfl := Tells.runs_state hruns
  have hlive := hrep.live
  have hwf := hrep.wellFormed
  rw [hlive] at hend
  obtain ⟨hgrown, hsound⟩ := Durable.run_grows (L := limits)
    (s := ⟨accounts sv.storage.authTable, accounts sv.storage.authTable⟩) (.refl _)
    (js.map Input.event)
  have hext := hgrown.trans hsound
  rw [hend.live] at hext
  refine ⟨hext.names, fun user e he => ?_⟩
  have haccount : (accounts sv.storage.authTable).account user = some (e.password, e.content) := by
    rw [account_eq, he]
    rfl
  obtain rfl : user = e.username := (hwf _ (mem_of_lookup he)).1
  refine ⟨?_, fun hleaves => ?_⟩
  · obtain ⟨content, h⟩ := hext.grants _ _ ⟨_, haccount⟩
    exact ⟨content, lookup_of_account hend.wellFormed h⟩
  · have hkeeps := (Durable.run_keeps (L := limits)
      (s := ⟨accounts sv.storage.authTable, accounts sv.storage.authTable⟩)
      ⟨haccount, haccount⟩ (List.forall_mem_map.2 fun i hi => (hleaves i hi).event_ne)).1
    rw [hend.live] at hkeeps
    exact lookup_of_account hend.wellFormed hkeeps

/-- `alice`, registered and saved, is there after a restart. -/
theorem saved_survives_alice : ∃ os sv,
    Runs Moves emptyServer [undisturbed reqReg (ascii "alice") (ascii "pw"),
      undisturbed reqSav (ascii "alice") (ascii "pw"), .restart] os sv ∧
    sv.storage.authTable.lookup (ascii "alice") = some ⟨ascii "alice", ascii "pw", []⟩ := by
  have hstart : Represents emptyServer ⟨.empty, .empty⟩ := .start rfl
  obtain ⟨p₁, hreg, -⟩ := moves_undisturbed answer_alice (by decide)
  have hsaved : ((emptyServer.answer (.sending (Client.packet reqReg (ascii "alice") (ascii "pw")
      []))).2.answer (.sending (Client.packet reqSav (ascii "alice") (ascii "pw") []))).1 =
        ⟨some resOk, false⟩ := by
    decide +kernel
  obtain ⟨p₂, hsave, hsent⟩ := moves_undisturbed hsaved (by decide)
  obtain ⟨s₁, -, hrep₁⟩ := hstart.tells hreg
  obtain ⟨s₂, -, hrep₂⟩ := hrep₁.tells hsave
  obtain ⟨o, sv, hrestart, -⟩ := hrep₂.moves .restart
  obtain ⟨-, hsurvives⟩ := saved_survives (r := ⟨reqSav, ascii "alice", ascii "pw", []⟩) rfl
    (.cons hreg (.nil _)) hsave (by decide +kernel) rfl hsent (.cons hrestart (.nil _))
  refine ⟨_, sv, .cons hreg (.cons hsave (.cons hrestart (.nil _))),
    (hsurvives _ _ (by decide +kernel)).2 ?_⟩
  rintro i hi p regular rfl
  cases List.mem_singleton.1 hi

end Survival

end UserDirectory
