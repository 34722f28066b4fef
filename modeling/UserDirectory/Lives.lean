import UserDirectory.Durability
import UserDirectory.ServerMain

/-!
# The lives of the server

The server program is run, ends or is killed, and is run again on the same data
file. Each run starts with the files that the last one left (`Life.Lived`), and
no two of them need agree on anything but the data file: not on the port, on
the other options, or on what the connections and the disk do.

* `Kept.life`: a run of the program, on a data file that keeps the accounts
  saved, is a life of the directory.
* `lives_refine`: so the runs of the program, one after the other, serve their
  clients as the directory does over its lives;
* `dataFile_grows`: and the data file only grows from one to a later one.
-/

namespace UserDirectory

open Fuel Stdio AssocList Machine Directory

/-- A run of the server program on a data file, with clients that do not fail for other reasons
    than interruptions, and none that gets it stuck. -/
structure Life (filename : Bytes) where
  world : Server.World
  progname : Bytes
  args : List Bytes
  settings : Server.ArgT
  ofArgv : Server.ArgT.ofArgv args = some settings
  datafile : settings.datafile = filename
  reading : world.reading = .none
  recoverable : ∀ p ∈ clients world.accepts, p.Recoverable
  notStuck : ∀ p ∈ clients world.accepts, ¬p.Stuck
  reported : ∀ p ∈ clients world.accepts, Reported p.faults

/-- The data file keeps the accounts saved. -/
def Kept (filename : Bytes) (files : Files Bytes) (s : Durable Bytes Bytes Bytes) : Prop :=
  ∃ m, s.saved = accounts m ∧ DataFileOf (files filename) m.entries

namespace Life

variable {filename : Bytes}

/-- The port that the program listens on. -/
def port (life : Life filename) : ℤ := life.settings.port.getD life.world.port

/-- What `accept` gives to the program. -/
def incoming (life : Life filename) : List (Accept Peer) := life.world.incoming life.port

/-- What the clients ask. -/
def requests (life : Life filename) : List (Bool × Op Bytes Bytes Bytes) :=
  (clients life.incoming).map fun p => (stores p.faults, p.op)

/-- How the program ends, after the answers. -/
def exit (life : Life filename) (answers : List (Answer Bytes Bytes)) : Server.Exit :=
  if ending (answers.any Answer.stops) life.incoming = .waiting then .waiting else .exited 0

/-- The program is run on the files: how it ends, the clients that it has served, and the files
    that it leaves. -/
def Lived (life : Life filename) (files : Files Bytes) (out : Server.Exit × List Peer)
    (files' : Files Bytes) : Prop :=
  ∃ l', Returns (fun n => Server.main n life.world life.progname life.args
    ⟨[], [], [], ⟨.new [], files⟩⟩) (out.1, l') ∧ l'.served = out.2 ∧ l'.state.files = files'

/-- The directory lives: its answers tell how the program ends, and what its clients are sent. -/
def Answered (life : Life filename) (s : Durable Bytes Bytes Bytes) (out : Server.Exit × List Peer)
    (s' : Durable Bytes Bytes Bytes) : Prop :=
  out.1 = life.exit (s.life limits life.requests).1 ∧
    AllReceive (clients life.incoming) ((s.life limits life.requests).1.map reply) out.2 ∧
    s' = (s.life limits life.requests).2

theorem Lived.unique {files files₁ files₂ : Files Bytes} {life : Life filename}
    {out₁ out₂ : Server.Exit × List Peer} (h₁ : life.Lived files out₁ files₁)
    (h₂ : life.Lived files out₂ files₂) : out₁ = out₂ ∧ files₁ = files₂ := by
  obtain ⟨l₁, hr₁, hserved₁, rfl⟩ := h₁
  obtain ⟨l₂, hr₂, hserved₂, rfl⟩ := h₂
  obtain ⟨he, rfl⟩ := Prod.mk.inj (hr₁.unique hr₂)
  exact ⟨Prod.ext he (hserved₁.symm.trans hserved₂), rfl⟩

/-- The clients that connect during a life are among those of the world. -/
theorem mem_clients {life : Life filename} {p : Peer} (hp : p ∈ clients life.incoming) :
    p ∈ clients life.world.accepts := by
  rw [incoming, Server.World.incoming, Server.World.acceptsOn] at hp
  split at hp
  · cases hp
  · exact hp

end Life

section Lives

variable {filename : Bytes} {files : Files Bytes}

theorem stops_reply (a : Answer Bytes Bytes) : (reply a).stop = a.stops := by
  cases a <;> rfl

theorem any_stop_map_reply (as : List (Answer Bytes Bytes)) :
    (as.map reply).any Reply.stop = as.any Answer.stops := by
  rw [List.any_map]
  exact congrArg _ (funext stops_reply)

/-- The name of the data file stays. -/
theorem filename_answer (sv : Server) (p : Peer) :
    (sv.answer p).2.storage.filename = sv.storage.filename := by
  rw [Server.answer]
  cases Request.ofStream p.stream with
  | none => rfl
  | some r =>
    rcases Server.serve_cases p.faults r sv with ⟨-, hsv⟩ | ⟨content, -, hsv⟩ | ⟨-, hsv⟩ |
      ⟨-, -, -, hsv⟩ <;> dsimp only <;> rw [hsv]
    · rfl
    · rfl
    · rw [Server.saveFile_storage]

/-- What a data file stands for is loaded from it when nothing fails. -/
theorem loadedFrom_of_dataFileOf {m : SequentialMap Bytes AuthTableEntry}
    (h : DataFileOf (files filename) m.entries) : LoadedFrom .none (files filename) m.entries := by
  obtain ⟨res, t, hload, hsucc, ht⟩ := @loadFile_of_dataFileOf ⟨.new filename, files⟩ _ h
  obtain ⟨res', t', hload', -, hfrom⟩ := Server.loadFile_returns .none ⟨.new filename, files⟩
  obtain ⟨rfl, heq⟩ := Prod.mk.inj (hload.unique hload')
  obtain rfl : t = t' := congrArg (fun sv : Server => sv.storage.authTable) heq
  rw [← ht]
  exact hfrom hsucc

/-- A data file that is missing keeps no accounts. -/
theorem Kept.start (hmissing : files filename = none) : Kept filename files ⟨.empty, .empty⟩ :=
  (Represents.start hmissing).saved

/-- A program whose data file keeps the accounts saved starts with them. -/
theorem Kept.starts {s : Durable Bytes Bytes Bytes} (h : Kept filename files s)
    (life : Life filename) : ∃ sv : Server, sv.storage.filename = filename ∧
      life.world.Starts life.args files life.port sv ∧
      Represents sv { s with live := s.saved } := by
  obtain ⟨m, hm, hfile⟩ := h
  have hdata := life.datafile
  have hload : LoadedFrom life.world.reading (files life.settings.datafile) m.entries := by
    rw [life.reading, hdata]
    exact loadedFrom_of_dataFileOf hfile
  have hstarts := Server.starts_of_ofArgv life.ofArgv hload
  obtain ⟨res, hr, -⟩ := Server.loadFile_of_loadedFrom hload
  rw [hdata] at hr hstarts
  exact ⟨_, rfl, hstarts, hm, ⟨m, hm, hfile⟩, Server.loadFile_wellFormed hr⟩

namespace Life

variable {s : Durable Bytes Bytes Bytes} {sv : Server} (life : Life filename)

/-- No client gets the program stuck. -/
theorem not_hangs (sv : Server) : ¬Hangs sv (clients life.incoming) := by
  rintro ⟨pre, p, post, heq, hstuck, -⟩
  have hp : p ∈ clients life.incoming := heq ▸ List.mem_append_right pre List.mem_cons_self
  exact life.notStuck p (mem_clients hp) hstuck

/-- The program answers its clients, up to one that stops it, as the directory does. -/
theorem replies (h : Represents sv { s with live := s.saved }) :
    (life.world.replies life.port sv).1 = (s.life limits life.requests).1.map reply ∧
      Represents (life.world.replies life.port sv).2 (s.life limits life.requests).2 :=
  runUntil_related (R := Represents) stops_reply
    (fun p hp _ _ hrep => hrep.answer (life.reported p (mem_clients hp))) h

/-- It ends as the answers of the directory tell. -/
theorem ending_eq (h : Represents sv { s with live := s.saved }) :
    life.world.ending life.port sv =
      ending ((s.life limits life.requests).1.any Answer.stops) life.incoming := by
  rw [Server.World.ending, (life.replies h).1, any_stop_map_reply]
  rfl

end Life

/-- A run of the program on a data file that keeps the accounts saved is a life of the
    directory. -/
theorem Kept.life {s : Durable Bytes Bytes Bytes} (h : Kept filename files s)
    (life : Life filename) : ∃ out files', life.Lived files out files' ∧
      ∃ s', life.Answered s out s' ∧ Kept filename files' s' := by
  obtain ⟨sv, hname, hstarts, hrep⟩ := h.starts life
  obtain ⟨l', served, hr, hstate, hserved, hall, -⟩ := Server.World.Starts.main_returns
    (l := ⟨[], [], [], ⟨.new [], files⟩⟩) hstarts
    (fun p hp => life.recoverable p (Life.mem_clients hp)) (life.not_hangs sv) life.progname
  obtain ⟨hreplies, hrep'⟩ := life.replies hrep
  rw [life.ending_eq hrep] at hr
  rw [hreplies] at hall
  refine ⟨(life.exit (s.life limits life.requests).1, served), _, ⟨l', hr, hserved, rfl⟩, _,
    ⟨rfl, hall, rfl⟩, ?_⟩
  -- The accounts are kept in the file that the program still works on.
  have hname' : (life.world.replies life.port sv).2.storage.filename = filename :=
    runUntil_invariant (P := fun sv : Server => sv.storage.filename = filename)
      (fun p _ sv hsv => (filename_answer sv p).trans hsv) hname
  obtain ⟨m, hm, hfile⟩ := hrep'.saved
  rw [Server.dataFile, hname'] at hfile
  rw [hstate]
  exact ⟨m, hm, hfile⟩

theorem Kept.lived {s : Durable Bytes Bytes Bytes} (h : Kept filename files s)
    {life : Life filename} {out : Server.Exit × List Peer} {files' : Files Bytes}
    (hlived : life.Lived files out files') :
    ∃ s', life.Answered s out s' ∧ Kept filename files' s' := by
  obtain ⟨out₁, files₁, hlived₁, hanswered⟩ := h.life life
  obtain ⟨rfl, rfl⟩ := hlived.unique hlived₁
  exact hanswered

/-- So are the runs of the program, one after the other. -/
theorem Kept.runs {s : Durable Bytes Bytes Bytes} (h : Kept filename files s)
    {lives : List (Life filename)} {outs : List (Server.Exit × List Peer)} {files' : Files Bytes}
    (hlives : Runs (fun files life => life.Lived files) files lives outs files') :
    ∃ s', Runs (fun s life => life.Answered s) s lives outs s' ∧ Kept filename files' s' :=
  hlives.refines (fun _ _ _ _ _ h hlived => h.lived hlived) h

/-- The program, run again and again on a data file that is missing at first, serves its clients
    over all of its lives as the durable directory does over its own. -/
theorem lives_refine (hmissing : files filename = none) (lives : List (Life filename)) :
    ∃ outs files', (∀ outs₁ files₁,
        Runs (fun files life => life.Lived files) files lives outs₁ files₁ ↔
          outs₁ = outs ∧ files₁ = files') ∧
      ∃ s, Runs (fun s life => life.Answered s) ⟨.empty, .empty⟩ lives outs s ∧
        Kept filename files' s := by
  obtain ⟨outs, files', hruns, s, hanswered, hkept'⟩ := exists_runs_related
    (R := Kept filename) (fun _ _ (life : Life filename) h => h.life life)
    (Kept.start hmissing) lives
  refine ⟨outs, files', fun outs₁ files₁ => ⟨fun h => ?_, ?_⟩, s, hanswered, hkept'⟩
  · exact Runs.unique (fun _ _ _ _ _ _ h₁ h₂ => h₁.unique h₂) h hruns
  · rintro ⟨rfl, rfl⟩
    exact hruns

/-- A life in which nothing fails, and the clients send packets. -/
def undisturbedLife (world : Server.World) (reading : world.reading = .none) (packets : List Bytes)
    (hclients : clients world.accepts = packets.map Peer.sending) :
    Life (ascii "company.dir") where
  world := world
  progname := ascii "server"
  args := [ascii "-p", ascii "8080", ascii "-f", ascii "company.dir"]
  settings := ⟨some 8080, ascii "company.dir", 1024⟩
  ofArgv := by decide +kernel
  datafile := rfl
  reading := reading
  recoverable := by
    rw [hclients, List.forall_mem_map]
    exact fun bytes _ => Peer.recoverable_sending bytes
  notStuck := by
    rw [hclients, List.forall_mem_map]
    exact fun bytes _ => Peer.not_stuck_sending bytes
  reported := by
    rw [hclients, List.forall_mem_map]
    exact fun bytes _ => .inr (.inr WriteFaults.none_complete)

/-- The life in which `alice` registers and stops the server. -/
def stoppedLife : Life (ascii "company.dir") :=
  undisturbedLife Server.stoppedWorld rfl [Client.packet reqReg (ascii "alice") (ascii "pw") [],
    Client.packet reqBye (ascii "alice") (ascii "pw") [], []] rfl

theorem clients_stoppedLife : clients stoppedLife.incoming =
    [Client.packet reqReg (ascii "alice") (ascii "pw") [],
      Client.packet reqBye (ascii "alice") (ascii "pw") [], []].map Peer.sending := rfl

section StoppedLife

variable {s : Durable Bytes Bytes Bytes} (hs : s.saved = .empty)
include hs

theorem represents_emptyServer : Represents emptyServer { s with live := s.saved } := by
  rw [hs]
  exact .start rfl

/-- A directory without accounts saved answers `alice` as a new user. -/
theorem replies_stoppedLife : (s.life limits stoppedLife.requests).1.map reply =
    [⟨some resOk, false⟩, ⟨some resOk, true⟩] := by
  rw [← (stoppedLife.replies (represents_emptyServer hs)).1]
  show (runUntil Reply.stop Server.answer emptyServer (clients stoppedLife.incoming)).1 = _
  rw [clients_stoppedLife]
  decide +kernel

/-- There are still none saved after it. -/
theorem saved_stoppedLife : (s.life limits stoppedLife.requests).2.saved = .empty := by
  obtain ⟨m, hm, -, hentries⟩ := (stoppedLife.replies (represents_emptyServer hs)).2.saved
  have hfile : (stoppedLife.world.replies stoppedLife.port emptyServer).2.dataFile = none := by
    show (runUntil Reply.stop Server.answer emptyServer (clients stoppedLife.incoming)).2.dataFile =
      none
    rw [clients_stoppedLife]
    decide +kernel
  rw [hfile] at hentries
  obtain rfl : m = .empty := SequentialMap.ext hentries
  rw [hm]
  exact Accounts.ext rfl rfl

theorem answered_stoppedLife {s' : Durable Bytes Bytes Bytes} {out : Server.Exit × List Peer}
    (h : stoppedLife.Answered s out s') : s'.saved = .empty ∧
      ∃ p p', out = (.exited 0, [p, p']) ∧ p.conn.sent = resOk ∧ p'.conn.sent = resOk := by
  obtain ⟨hexit, hall, rfl⟩ := h
  refine ⟨saved_stoppedLife hs, ?_⟩
  have hstops : (s.life limits stoppedLife.requests).1.any Answer.stops = true := by
    rw [← any_stop_map_reply, replies_stoppedLife hs]
    rfl
  rw [Life.exit, hstops] at hexit
  rw [replies_stoppedLife hs, clients_stoppedLife] at hall
  obtain ⟨e, served⟩ := out
  obtain rfl : e = .exited 0 := hexit
  obtain _ | ⟨hreceives, hall⟩ := hall
  obtain _ | ⟨hreceives', hall⟩ := hall
  cases hall
  exact ⟨_, _, rfl, hreceives.sent (by decide), hreceives'.sent (by decide)⟩

end StoppedLife

/-- In each of two such lives, `alice` is a new user: she has not saved the table. -/
theorem lives_refine_stopped : ∃ p₁ p₁' p₂ p₂' files',
    Runs (fun files life => life.Lived files) (fun _ => none) [stoppedLife, stoppedLife]
      [(.exited 0, [p₁, p₁']), (.exited 0, [p₂, p₂'])] files' ∧
    p₁.conn.sent = resOk ∧ p₂.conn.sent = resOk := by
  obtain ⟨outs, files', hruns, s, hanswered, -⟩ :=
    @lives_refine _ (fun _ => none) rfl [stoppedLife, stoppedLife]
  cases hanswered with
  | cons h₁ hrest =>
    cases hrest with
    | cons h₂ hnil =>
      cases hnil
      obtain ⟨hsaved, p₁, p₁', rfl, hsent₁, -⟩ := answered_stoppedLife rfl h₁
      obtain ⟨-, p₂, p₂', rfl, hsent₂, -⟩ := answered_stoppedLife hsaved h₂
      exact ⟨p₁, p₁', p₂, p₂', files', (hruns _ _).2 ⟨rfl, rfl⟩, hsent₁, hsent₂⟩

/-! ## What was saved -/

/-- A data file stands for the entries that are loaded from it. -/
theorem DataFileOf.unique {file : Option Bytes} {es es' : List (Bytes × AuthTableEntry)}
    (h : DataFileOf file es) (h' : DataFileOf file es') : es = es' := by
  obtain ⟨res, t, hload, -, rfl⟩ := @loadFile_of_dataFileOf ⟨.new [], fun _ => file⟩ _ h
  obtain ⟨res', t', hload', -, rfl⟩ := @loadFile_of_dataFileOf ⟨.new [], fun _ => file⟩ _ h'
  exact congrArg (fun r : Result × Server => r.2.storage.authTable.entries) (hload.unique hload')

theorem DataFileOf.wellFormed {file : Option Bytes} {es : List (Bytes × AuthTableEntry)}
    (h : DataFileOf file es) : WellFormed es := by
  obtain ⟨res, t, hload, -, rfl⟩ := @loadFile_of_dataFileOf ⟨.new [], fun _ => file⟩ _ h
  exact Server.loadFile_wellFormed hload

namespace Life

variable {s s' : Durable Bytes Bytes Bytes} {lives : List (Life filename)}
  {outs : List (Server.Exit × List Peer)}

theorem saved_grows (h : Runs (fun s life => life.Answered s) s lives outs s') :
    s.saved.Extends s'.saved := by
  induction h with
  | nil => exact .refl _
  | cons hanswered _ ih =>
    obtain ⟨-, -, rfl⟩ := hanswered
    exact (Durable.life_grows _ _).trans ih

theorem saved_keeps (h : Runs (fun s life => life.Answered s) s lives outs s') {user : Bytes}
    (hlives : ∀ life ∈ lives, ∀ p ∈ clients life.incoming, ∀ r,
      Request.ofStream p.stream = some r → ¬(r.cmd = reqSet ∧ r.user = user))
    {a : Bytes × Bytes} (ha : s.saved.account user = some a) : s'.saved.account user = some a := by
  induction h with
  | nil => exact ha
  | cons hanswered _ ih =>
    obtain ⟨-, -, rfl⟩ := hanswered
    rw [List.forall_mem_cons] at hlives
    refine ih hlives.2 (Durable.life_keeps ha ?_)
    exact List.forall_mem_map.2 fun p hp => op_ne_post (hlives.1 p hp)

end Life

/-- The data file only grows from one life to a later one: its users stay there in their order,
    with their passwords, and with their profiles unless they update them. -/
theorem dataFile_grows (hmissing : files filename = none) {lives lives' : List (Life filename)}
    {outs outs' : List (Server.Exit × List Peer)} {files' files'' : Files Bytes}
    (h : Runs (fun files life => life.Lived files) files lives outs files')
    (h' : Runs (fun files life => life.Lived files) files' lives' outs' files'')
    {es : List (Bytes × AuthTableEntry)} (hes : DataFileOf (files' filename) es) :
    ∃ es', DataFileOf (files'' filename) es' ∧ keys es <+: keys es' ∧
      ∀ user e, (user, e) ∈ es →
        (∃ content, (user, { e with content := content }) ∈ es') ∧
        ((∀ life ∈ lives', ∀ p ∈ clients life.incoming, ∀ r,
          Request.ofStream p.stream = some r → ¬(r.cmd = reqSet ∧ r.user = user)) →
            (user, e) ∈ es') := by
  obtain ⟨s, -, m, hm, hfile⟩ := (Kept.start hmissing).runs h
  obtain ⟨s', hanswered', m', hm', hfile'⟩ := Kept.runs ⟨m, hm, hfile⟩ h'
  obtain rfl := hes.unique hfile
  have hext := Life.saved_grows hanswered'
  rw [hm, hm'] at hext
  refine ⟨_, hfile', hext.names, fun user e he => ?_⟩
  have haccount : (accounts m).account user = some (e.password, e.content) := by
    rw [account_eq, show m.lookup user = some e from (mem_iff_lookup m.nodup).1 he]
    rfl
  obtain rfl : user = e.username := (hes.wellFormed _ he).1
  -- An account of the later table is an entry of the file.
  have hmem : ∀ content, (accounts m').account e.username = some (e.password, content) →
      (e.username, { e with content := content }) ∈ m'.entries := by
    intro content h
    obtain ⟨⟨name, pass, content'⟩, he', heq⟩ := Option.map_eq_some_iff.1 h
    obtain ⟨rfl, rfl⟩ := Prod.mk.inj heq
    have hmem' := mem_of_lookup he'
    obtain rfl : e.username = name := (hfile'.wellFormed _ hmem').1
    exact hmem'
  constructor
  · obtain ⟨content, h⟩ := hext.grants _ _ ⟨_, haccount⟩
    exact ⟨content, hmem content h⟩
  · intro hlives
    have hkeeps := Life.saved_keeps hanswered' hlives (by rw [hm]; exact haccount)
    rw [hm'] at hkeeps
    exact hmem e.content hkeeps

/-- The life in which `alice` registers and saves the table. -/
def savedLife : Life (ascii "company.dir") :=
  undisturbedLife Server.savedWorld rfl [Client.packet reqReg (ascii "alice") (ascii "pw") [],
    Client.packet reqSav (ascii "alice") (ascii "pw") []] rfl

theorem lived_savedLife : ∃ out files', savedLife.Lived (fun _ => none) out files' ∧
    DataFileOf (files' (ascii "company.dir")) aliceServer.storage.authTable.entries := by
  have hstarts : savedLife.world.Starts savedLife.args (fun _ => none) savedLife.port emptyServer :=
    Server.starts_of_ofArgv (t := .empty) savedLife.ofArgv rfl
  obtain ⟨l', served, hr, hstate, hserved, -⟩ := Server.World.Starts.main_returns
    (l := ⟨[], [], [], ⟨.new [], fun _ => none⟩⟩) hstarts
    (fun p hp => savedLife.recoverable p (Life.mem_clients hp)) (savedLife.not_hangs emptyServer)
    savedLife.progname
  refine ⟨(_, served), _, ⟨l', hr, hserved, rfl⟩, ?_⟩
  have hfile : (savedLife.world.replies savedLife.port emptyServer).2.files
      (ascii "company.dir") = some (image aliceServer.storage.authTable) := by
    decide +kernel
  rw [hstate, hfile]
  exact ⟨aliceServer.storage.authTable.nodup, entries_image reachable_aliceServer.wellFormed⟩

/-- She is still there after a life in which she tries to register again. -/
theorem dataFile_grows_alice : ∃ out out' files' files'' es' content,
    Runs (fun files life => life.Lived files) (fun _ => none) [savedLife, stoppedLife]
      [out, out'] files'' ∧ savedLife.Lived (fun _ => none) out files' ∧
    DataFileOf (files'' (ascii "company.dir")) es' ∧
    (ascii "alice", ⟨ascii "alice", ascii "pw", content⟩) ∈ es' := by
  obtain ⟨out, files', hlived, hes⟩ := lived_savedLife
  have hkept₀ : Kept (ascii "company.dir") (fun _ => none) ⟨.empty, .empty⟩ := .start rfl
  obtain ⟨s, -, hkept⟩ := hkept₀.lived hlived
  obtain ⟨out', files'', hlived', -⟩ := hkept.life stoppedLife
  obtain ⟨es', hes', -, hmem⟩ := @dataFile_grows _ (fun _ => none) rfl _ _ _ _ _ _
    (.cons hlived (.nil _)) (.cons hlived' (.nil _)) _ hes
  obtain ⟨⟨content, h⟩, -⟩ := hmem (ascii "alice") ⟨ascii "alice", ascii "pw", []⟩
    (by decide +kernel)
  exact ⟨out, out', files', files'', es', content, .cons hlived (.cons hlived' (.nil _)), hlived,
    hes', h⟩

end Lives

end UserDirectory
