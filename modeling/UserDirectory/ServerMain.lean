import UserDirectory.Arguments
import UserDirectory.Loading
import UserDirectory.Sockets

/-!
# The server

`usage` and `main` of `server/server.cc`.

* `main_rejects_iff`: the program exits with `1` iff it does not accept its
  command line, or cannot load the data file; then it does nothing else.
* `main_serves`: otherwise it serves the clients that it accepts, from the table
  that it has loaded, and exits with `0`, also if no socket can be made or if
  `accept` fails. But in these cases it closes a descriptor that is not open;
* `main_writes`: whatever its clients send, it changes no file but its data file
  and the one in which this is prepared.
-/

namespace UserDirectory

open Fuel Socket CInt Stdio Descriptors Machine Getopt

namespace Server

/-- What a run of the server depends on. -/
structure World where
  listening : Listening
  /-- What `accept` gives on the listening socket. -/
  accepts : List (Accept Peer)
  /-- What fails when the data file is loaded. -/
  reading : ReadFaults
  strerror : Errno → Bytes
  /-- What a port holds that is not initialised. -/
  port : ℤ

/-- The help message. -/
def usage (progname : Bytes) : Bytes :=
  basename progname ++ ascii ": company user directory server\n" ++
  ascii "  -p [int]    Port on which to listen for incoming connections\n" ++
  ascii "  -f [string] File for storing all data\n" ++
  ascii "  -b [int]    # of buckets for the server's hash tables\n" ++
  ascii "  -h          Print help (this message)\n"

/-- How it stands with the program: it waits for a client, or it has ended with an exit code. -/
inductive Exit
  | waiting
  | exited (code : ℕ)
  deriving DecidableEq, Repr

/-- What `accept` gives: nothing but errors on the descriptor `-1`. -/
def World.acceptsOn (w : World) (sd : ℤ) : List (Accept Peer) :=
  if sd < 0 then [.fail EBADF] else w.accepts

/-- The end of `main`, on a listening socket. -/
def accepting (fuel : ℕ) (w : World) (sd : ℤ) (l : Listener Peer Server) :
    Option (Exit × Listener Peer Server) :=
  let csd := ContextManager.new (Listener.log (.closed sd))
  (acceptClient w.strerror (Peer.handler fuel) sd (w.acceptsOn sd) l).map fun
    | (.waiting, l) => (.waiting, l)
    | (.returned _, l) => (.exited 0, csd.exit (l.print (ascii "Server terminated\n")))

/-- The program, with its command line. What it starts with as its storage is of no account. -/
def main (fuel : ℕ) (w : World) (progname : Bytes) (args : List Bytes) (l : Listener Peer Server) :
    Option (Exit × Listener Peer Server) :=
  match ArgT.ofArgv args with
  | none => some (.exited 1, l.print (usage progname))
  | some a =>
    let port := a.port.getD w.port
    let l := l.print (ascii "Listening on port " ++ decimalInt port ++ newline)
    (loadFile fuel w.reading ⟨.new a.datafile, l.state.files⟩).bind fun (res, server) =>
      let l := { l with state := server }
      if res.succeeded = false then some (.exited 1, l.print (cStr res.msg ++ newline))
      else
        let l := l.print (res.msg ++ newline)
        let (sd, l) := createServerSocket w.listening w.strerror (sizeT port) l
        accepting fuel w sd l

section Main

variable {w : World} {progname : Bytes} {args : List Bytes} {l : Listener Peer Server} {a : ArgT}

/-- The state after the configuration has been printed, and the data file read. -/
def loadedWith (port : ℤ) (server : Server) (l : Listener Peer Server) : Listener Peer Server :=
  { l.print (ascii "Listening on port " ++ decimalInt port ++ newline) with state := server }

theorem main_eq (hargs : ArgT.ofArgv args = some a) (fuel : ℕ) :
    main fuel w progname args l =
      (loadFile fuel w.reading ⟨.new a.datafile, l.state.files⟩).bind fun r =>
        if r.1.succeeded = false then
          some (.exited 1, (loadedWith (a.port.getD w.port) r.2 l).print (cStr r.1.msg ++ newline))
        else
          let made := createServerSocket w.listening w.strerror (sizeT (a.port.getD w.port))
            ((loadedWith (a.port.getD w.port) r.2 l).print (r.1.msg ++ newline))
          accepting fuel w made.1 made.2 := by
  rw [main, hargs]
  rfl

/-- A load of what stands in the data file. -/
theorem loadFile_of_loadedFrom {reading : ReadFaults} {files : Files Bytes} {datafile : Bytes}
    {t : SequentialMap Bytes AuthTableEntry} (h : LoadedFrom reading (files datafile) t.entries) :
    ∃ res, Returns (fun n => loadFile n reading ⟨.new datafile, files⟩)
      (res, ⟨⟨t, datafile⟩, files⟩) ∧ res.succeeded = true := by
  obtain ⟨res, t', hload, hsucc, ht⟩ :=
    @loadFile_loaded ⟨.new datafile, files⟩ reading t.entries h
  obtain rfl : t' = t := SequentialMap.ext ht
  exact ⟨res, hload, hsucc⟩

theorem loadFile_settles (reading : ReadFaults) (sv : Server) :
    Settles fun n => loadFile n reading sv := by
  simp only [loadFile]
  split
  · exact settles_const _
  · exact (settles_loop _ _).map _

/-- A program that has come to accept clients ends with `0`. -/
theorem code_of_accepting {fuel : ℕ} {sd : ℤ} {code : ℕ} {l' : Listener Peer Server}
    (h : accepting fuel w sd l = some (.exited code, l')) : code = 0 := by
  obtain ⟨⟨e, l''⟩, -, heq⟩ := Option.map_eq_some_iff.1 h
  rcases e with _ | graceful <;> cases heq
  rfl

/-- The command line is made of options with arguments, and of operands. The options set the
    port and the data file, and from that the table of the server can be loaded. -/
def World.Starts (w : World) (args : List Bytes) (files : Files Bytes) (port : ℤ) (sv : Server) :
    Prop :=
  ∃ ws, MadeOf (table ArgT.optstring) args ws ∧
    port = (ArgT.ofItems (ws.filterMap Word.item)).port.getD w.port ∧
    sv.storage.filename = (ArgT.ofItems (ws.filterMap Word.item)).datafile ∧ sv.files = files ∧
    LoadedFrom w.reading sv.dataFile sv.storage.authTable.entries

theorem World.Starts.exists {files : Files Bytes} {port : ℤ} {sv : Server}
    (h : w.Starts args files port sv) : ∃ a, ArgT.ofArgv args = some a ∧
      port = a.port.getD w.port ∧
      ∃ res, Returns (fun n => loadFile n w.reading ⟨.new a.datafile, files⟩) (res, sv) ∧
        res.succeeded = true := by
  obtain ⟨ws, hws, rfl, hname, rfl, hload⟩ := h
  obtain ⟨⟨t, datafile⟩, files⟩ := sv
  obtain rfl : datafile = _ := hname
  exact ⟨_, ArgT.ofArgv_iff.2 ⟨ws, hws, rfl⟩, rfl, loadFile_of_loadedFrom hload⟩

/-! ## Files -/

/-- A server on the same data file, with the same files but for this one and the one in which it
    is prepared. -/
def Within (sv sv' : Server) : Prop :=
  sv'.storage.filename = sv.storage.filename ∧
    Set.EqOn sv'.files sv.files {sv.storage.filename, tempFilename sv.storage.filename}ᶜ

theorem Within.refl (sv : Server) : Within sv sv := ⟨rfl, Set.eqOn_refl _ _⟩

theorem Within.trans {sv₁ sv₂ sv₃ : Server} (h : Within sv₁ sv₂) (h' : Within sv₂ sv₃) :
    Within sv₁ sv₃ := by
  obtain ⟨hname, heq⟩ := h'
  rw [h.1] at hname heq
  exact ⟨hname, heq.trans h.2⟩

/-- A save prepares the data file in another one. -/
theorem within_saveFile (faults : WriteFaults) (sv : Server) :
    Within sv (sv.saveFile faults).2 := by
  refine ⟨by rw [saveFile_storage], fun f hf => ?_⟩
  rw [Set.mem_compl_iff, Set.mem_insert_iff, Set.mem_singleton_iff, not_or] at hf
  rw [saveFile]
  split
  · rfl
  · dsimp only
    split
    · exact Function.update_of_ne hf.2 _ _
    · exact (rename_of_ne _ hf.2 hf.1).trans (Function.update_of_ne hf.2 _ _)

/-- Whatever a client sends, no other file is changed. -/
theorem within_handler {fuel : ℕ} {p p' : Peer} {sv sv' : Server} {done : Bool}
    (h : p.handler fuel sv = some (done, p', sv')) : Within sv sv' := by
  obtain ⟨⟨stop, s⟩, hparse, heq⟩ := Option.map_eq_some_iff.1 h
  cases heq
  rcases parseRequest_cases hparse with ⟨-, hsv⟩ | ⟨r, -, hsv⟩
  · rw [hsv]
    exact .refl _
  · rw [hsv]
    rcases serve_cases p.faults r sv with ⟨-, hsv⟩ | ⟨content, -, hsv⟩ | ⟨-, hsv⟩ |
      ⟨-, -, -, hsv⟩ <;> rw [hsv]
    · exact ⟨rfl, Set.eqOn_refl _ _⟩
    · exact ⟨rfl, Set.eqOn_refl _ _⟩
    · exact within_saveFile p.faults sv
    · exact .refl sv

/-- Whatever the clients send, and whatever fails: a run of the program changes no file but the
    data file that its command line names, and the one in which this is prepared. -/
theorem main_writes (w : World) (progname : Bytes) (args : List Bytes) {fuel : ℕ}
    {l l' : Listener Peer Server} {e : Exit}
    (h : main fuel w progname args l = some (e, l')) {f : Bytes}
    (hf : l'.state.files f ≠ l.state.files f) :
    ∃ a, ArgT.ofArgv args = some a ∧ (f = a.datafile ∨ f = tempFilename a.datafile) := by
  cases hargs : ArgT.ofArgv args with
  | none =>
    rw [main, hargs] at h
    cases h
    exact absurd rfl hf
  | some a =>
    refine ⟨a, rfl, ?_⟩
    rw [main_eq hargs] at h
    obtain ⟨⟨res, sv⟩, hload, h⟩ := Option.bind_eq_some_iff.1 h
    -- The load leaves the files alone.
    obtain ⟨res', t, hload', -⟩ := loadFile_returns w.reading ⟨.new a.datafile, l.state.files⟩
    obtain ⟨-, rfl⟩ := Prod.mk.inj
      ((loadFile_settles w.reading ⟨.new a.datafile, l.state.files⟩ fuel _ hload).unique hload')
    dsimp only at h
    split at h
    · cases h
      exact absurd rfl hf
    · obtain ⟨⟨e', l''⟩, haccept, heq⟩ := Option.map_eq_some_iff.1 h
      have hstate := (@createServerSocket_eq _ _ w.listening w.strerror
        (sizeT (a.port.getD w.port)) ((loadedWith (a.port.getD w.port)
          ((⟨.new a.datafile, l.state.files⟩ : Server).withTable t) l).print
            (res.msg ++ newline))).2.2
      have hwithin := acceptClient_invariant
        (P := Within ((⟨.new a.datafile, l.state.files⟩ : Server).withTable t))
        (fun _ _ _ _ _ hstep hp => hp.trans (within_handler hstep))
        (by rw [hstate]; exact .refl _) haccept
      have hfiles : l'.state.files = l''.state.files := by
        rcases e' with _ | graceful <;> cases heq <;> rfl
      by_contra hnot
      rw [hfiles] at hf
      exact hf (hwithin.2 hnot)

/-- A socket on which `alice` registers and saves the table. -/
def savedWorld : World where
  listening := ⟨.ok 3, none, fun _ => none, none⟩
  accepts := [Client.packet reqReg (ascii "alice") (ascii "pw") [],
    Client.packet reqSav (ascii "alice") (ascii "pw") []].map fun bytes =>
      .connection 4 (ascii "127.0.0.1") (Peer.sending bytes)
  reading := .none
  strerror _ := []
  port := 0

/-- She changes the data file. -/
theorem main_writes_alice : ∃ a,
    ArgT.ofArgv [ascii "-p", ascii "8080", ascii "-f", ascii "company.dir"] = some a ∧
      (ascii "company.dir" = a.datafile ∨ ascii "company.dir" = tempFilename a.datafile) := by
  have hrun : (main 8 savedWorld (ascii "server")
      [ascii "-p", ascii "8080", ascii "-f", ascii "company.dir"]
      ⟨[], [], [], emptyServer⟩).map (fun r =>
        decide (r.2.state.files (ascii "company.dir") ≠ none)) = some true := by
    decide +kernel
  obtain ⟨⟨e, l'⟩, hmain, hfile⟩ := Option.map_eq_some_iff.1 hrun
  exact main_writes savedWorld (ascii "server") _ hmain (of_decide_eq_true hfile)

/-! ## Service -/

/-- The descriptor on which the program accepts clients: `-1` if there is no socket. -/
def World.descriptor (w : World) (port : ℤ) : ℤ :=
  (w.listening.made (htons (sizeT port))).getD (-1)

/-- What `accept` gives to the program. -/
def World.incoming (w : World) (port : ℤ) : List (Accept Peer) := w.acceptsOn (w.descriptor port)

/-- The kernel gives descriptors that are not open, when `fds` are. -/
structure World.Fresh (w : World) (fds : Finset ℤ) : Prop where
  nonneg : ∀ fd ∈ fds, 0 ≤ fd
  socket : ∀ sd, w.listening.socket = .ok sd → 0 ≤ sd ∧ sd ∉ fds
  accepted : ∀ sd, w.listening.socket = .ok sd → ∀ connSd ∈ accepted w.accepts,
    connSd ∉ insert sd fds

theorem socket_of_made {k : Listening} {port : UInt16} {sd : ℤ} (h : k.made port = some sd) :
    k.socket = .ok sd := by
  rw [Listening.made] at h
  split at h
  · cases h
  · next sd' hsocket =>
    rw [hsocket, (Option.ite_none_right_eq_some.1 h).2 |> Option.some.inj]

/-- The descriptors that are left open. The listening socket is closed twice if `accept` fails. -/
theorem acceptClient_books {handler : Peer → Server → Option (Bool × Peer × Server)}
    {fds₀ fds : Finset ℤ} {port : ℤ} (hw : w.Fresh fds)
    (hl : after fds₀ l.events = some (((w.listening.made (htons (sizeT port))).map
      fun sd => insert sd fds).getD fds)) {e : Ending} {l' : Listener Peer Server}
    (h : acceptClient w.strerror handler (w.descriptor port) (w.incoming port) l = some (e, l')) :
    after fds₀ (if e = .waiting then l' else l'.log (.closed (w.descriptor port))).events =
      if e = .returned false then none
      else some (if e = .waiting then insert (w.descriptor port) fds else fds) := by
  rw [World.incoming, World.descriptor] at *
  cases hmade : w.listening.made (htons (sizeT port)) with
  | none =>
    -- There is no socket: `accept` fails at once.
    rw [hmade] at h hl
    cases (Option.some.inj h : (Ending.returned false, _) = (e, l'))
    have hbad : (-1 : ℤ) ∉ fds := fun hmem => absurd (hw.nonneg _ hmem) (by decide)
    show after fds₀ (l.events ++ [.closed (-1)] ++ [.closed (-1)]) = none
    rw [List.append_assoc, after_append, hl]
    exact after_closed_of_not_mem hbad
  | some sd =>
    have hsocket := socket_of_made hmade
    have hsd := hw.socket sd hsocket
    rw [hmade] at h hl
    have hon : w.acceptsOn sd = w.accepts := if_neg (not_lt_of_ge hsd.1)
    simp only [Option.map_some, Option.getD_some, hon] at h hl ⊢
    have hafter := acceptClient_descriptors (Finset.mem_insert_self sd fds)
      (hw.accepted sd hsocket) hl h
    have herase : (insert sd fds).erase sd = fds := Finset.erase_insert hsd.2
    have hclosed : ∀ fds', after fds₀ l'.events = some fds' →
        after fds₀ (l'.log (.closed sd)).events =
          if sd ∈ fds' then some (fds'.erase sd) else none := by
      intro fds' h'
      show after fds₀ (l'.events ++ [.closed sd]) = _
      rw [after_append, h']
      rfl
    rcases e with _ | _ | _
    · exact hafter
    · -- The socket is closed once more.
      rw [if_pos rfl, herase] at hafter
      exact (hclosed _ hafter).trans (if_neg hsd.2)
    · rw [if_neg (by decide)] at hafter
      refine (hclosed _ hafter).trans ?_
      rw [if_pos (Finset.mem_insert_self sd fds), herase]
      rfl

/-- The replies to the clients, up to the first one that stops the server, and the server after
    them. -/
def World.replies (w : World) (port : ℤ) (sv : Server) : List Reply × Server :=
  runUntil Reply.stop Server.answer sv (clients (w.incoming port))

/-- How it ends with the clients. -/
def World.ending (w : World) (port : ℤ) (sv : Server) : Ending :=
  UserDirectory.ending ((w.replies port sv).1.any Reply.stop) (w.incoming port)

variable {port : ℤ} {sv : Server}

/-- The program with its socket, after the load. -/
theorem World.Starts.main_eq (h : w.Starts args l.state.files port sv) (progname : Bytes) :
    ∃ l₁ : Listener Peer Server, l₁.state = sv ∧ l₁.served = l.served ∧
      (∀ fds₀ fds, w.Fresh fds → after fds₀ l.events = some fds → after fds₀ l₁.events =
        some (((w.listening.made (htons (sizeT port))).map fun sd => insert sd fds).getD fds)) ∧
      (∀ᶠ n in Filter.atTop, main n w progname args l = accepting n w (w.descriptor port) l₁) ∧
      ((Diverges fun n => accepting n w (w.descriptor port) l₁) →
        Diverges fun n => main n w progname args l) := by
  obtain ⟨a, hargs, rfl, res, hr, hsucc⟩ := h.exists
  have hres : ¬res.succeeded = false := by rw [hsucc]; decide
  obtain ⟨hsd, hserved, hstate⟩ := @createServerSocket_eq _ _ w.listening w.strerror
    (sizeT (a.port.getD w.port)) ((loadedWith (a.port.getD w.port) sv l).print (res.msg ++ newline))
  refine ⟨_, hstate, hserved, fun fds₀ fds hw hl => ?_, ?_, fun hdiv => ?_⟩
  · exact createServerSocket_descriptors (fun sd hsocket => (hw.socket sd hsocket).2) hl
  · filter_upwards [hr] with n hn
    rw [Server.main_eq hargs, hn, Option.bind_some, if_neg hres]
    simp only [hsd]
    rfl
  · simp only [Server.main_eq hargs]
    refine Diverges.bind_right (loadFile_settles _ _) hr ?_
    simp only [if_neg hres, hsd]
    exact hdiv

theorem starts_of_ofArgv (hargs : ArgT.ofArgv args = some a) {files : Files Bytes}
    {t : SequentialMap Bytes AuthTableEntry}
    (hload : LoadedFrom w.reading (files a.datafile) t.entries) :
    w.Starts args files (a.port.getD w.port) ⟨⟨t, a.datafile⟩, files⟩ := by
  obtain ⟨ws, hws, rfl⟩ := ArgT.ofArgv_iff.1 hargs
  exact ⟨ws, hws, rfl, rfl, rfl, hload⟩

/-- A program that cannot start exits with `1`. -/
theorem main_rejects (progname : Bytes) (hnot : ¬∃ port sv, w.Starts args l.state.files port sv) :
    ∃ l', Returns (fun n => main n w progname args l) (.exited 1, l') ∧
      l'.events = l.events ∧ l'.served = l.served ∧ l'.state.files = l.state.files := by
  cases hargs : ArgT.ofArgv args with
  | none =>
    refine ⟨l.print (usage progname), returns_of_forall fun n => ?_, rfl, rfl, rfl⟩
    rw [main, hargs]
  | some a =>
    obtain ⟨res, t, hload, -, hfrom⟩ := loadFile_returns w.reading ⟨.new a.datafile, l.state.files⟩
    have hres : res.succeeded = false := by
      by_contra hres
      exact hnot ⟨_, _, starts_of_ofArgv hargs (hfrom (Bool.not_eq_false _ ▸ hres))⟩
    simp only [main_eq hargs]
    exact ⟨_, hload.bind (returns_of_forall fun _ => if_pos hres), rfl, rfl, rfl⟩

/-- The program exits with `1` iff it cannot start: for its command line, or for its data file.
    Then it has opened no socket, and left the files as they were. -/
theorem main_rejects_iff (w : World) (progname : Bytes) (args : List Bytes)
    (l : Listener Peer Server) :
    ((∃ l', Returns (fun n => main n w progname args l) (.exited 1, l')) ↔
      ¬∃ port sv, w.Starts args l.state.files port sv) ∧
    ∀ l', Returns (fun n => main n w progname args l) (.exited 1, l') →
      l'.events = l.events ∧ l'.served = l.served ∧ l'.state.files = l.state.files := by
  have hgone : ∀ l', Returns (fun n => main n w progname args l) (.exited 1, l') →
      ¬∃ port sv, w.Starts args l.state.files port sv := by
    rintro l' hr ⟨port, sv, h⟩
    obtain ⟨l₁, -, -, -, hmain, -⟩ := h.main_eq progname
    obtain ⟨n, hn, hn'⟩ := (hr.and hmain).exists
    exact Nat.one_ne_zero (code_of_accepting (hn'.symm.trans hn))
  refine ⟨⟨fun ⟨l', hr⟩ => hgone l' hr, fun hnot => ?_⟩, fun l' hr => ?_⟩
  · obtain ⟨l', hr, -⟩ := main_rejects progname hnot
    exact ⟨l', hr⟩
  · obtain ⟨l'', hr'', hframe⟩ := main_rejects progname (hgone l' hr)
    cases hr.unique hr''
    exact hframe

/-- A program that starts comes to serve its clients. -/
theorem accepting_serves (hrec : ∀ p ∈ clients (w.incoming port), p.Recoverable)
    (hgo : ¬Hangs l.state (clients (w.incoming port))) : ∃ l' served,
      Returns (fun n => acceptClient w.strerror (Peer.handler n) (w.descriptor port)
        (w.incoming port) l) (w.ending port l.state, l') ∧
      l'.state = (w.replies port l.state).2 ∧ l'.served = l.served ++ served ∧
      AllReceive (clients (w.incoming port)) (w.replies port l.state).1 served :=
  acceptClient_serves w.strerror (w.descriptor port) hrec hgo

/-- A program that starts serves its clients, and then waits or exits with `0`; and its
    descriptors are closed as told by how it ends. -/
theorem World.Starts.main_returns (h : w.Starts args l.state.files port sv)
    (hrec : ∀ p ∈ clients (w.incoming port), p.Recoverable)
    (hgo : ¬Hangs sv (clients (w.incoming port))) (progname : Bytes) :
    ∃ l' served, Returns (fun n => main n w progname args l)
        (if w.ending port sv = .waiting then .waiting else .exited 0, l') ∧
      l'.state = (w.replies port sv).2 ∧ l'.served = l.served ++ served ∧
      AllReceive (clients (w.incoming port)) (w.replies port sv).1 served ∧
      ∀ fds₀ fds : Finset ℤ, w.Fresh fds → after fds₀ l.events = some fds →
        after fds₀ l'.events =
          if w.ending port sv = .returned false then none
          else if w.ending port sv = .waiting then some (insert (w.descriptor port) fds)
          else some fds := by
  obtain ⟨l₁, rfl, hserved₁, hbooks₁, hmain, -⟩ := h.main_eq progname
  obtain ⟨l', served, hr, hstate, hserved, hall⟩ := accepting_serves hrec hgo
  obtain ⟨n, hn⟩ := hr.exists
  have hbooks := fun fds₀ fds hw hl => acceptClient_books hw (hbooks₁ fds₀ fds hw hl) hn
  rw [hserved₁] at hserved
  have haccepting : Returns (fun n => main n w progname args l) _ :=
    Returns.of_eventually_eq (hr.map _) hmain
  generalize w.ending port l₁.state = e at *
  rcases e with _ | graceful
  · exact ⟨l', served, haccepting, hstate, hserved, hall, hbooks⟩
  · exact ⟨_, served, haccepting, hstate, hserved, hall, hbooks⟩

/-- A socket on which `alice` registers and stops the server; a third client is too late. -/
def stoppedWorld : World where
  listening := ⟨.ok 3, none, fun _ => none, none⟩
  accepts := [Client.packet reqReg (ascii "alice") (ascii "pw") [],
    Client.packet reqBye (ascii "alice") (ascii "pw") [], []].map fun bytes =>
      .connection 4 (ascii "127.0.0.1") (Peer.sending bytes)
  reading := .none
  strerror _ := []
  port := 0

end Main

end Server

end UserDirectory
