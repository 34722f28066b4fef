import UserDirectory.Arguments
import UserDirectory.Conversations
import UserDirectory.Sockets

/-!
# The client

`usage` and `main` of `client/client.cc`.

* `main_ends`: on a command line that it accepts, the program exits with `0`,
  whatever the server sends and whatever fails, if no call is interrupted.
* `main_eq`: it performs the one request of the command (`ArgT.ask`).
* `main_converses`: so a run of the program against the handler of the server
  comes to what it would make of the reply of the service;
* `main_saves`: whatever it is sent, it changes no file but the one that its
  command line names for that.
-/

namespace UserDirectory

open Fuel Socket CInt Stdio

/-- What a run of the client depends on. -/
structure Client.World where
  /-- `connect_to_server`, given the server and the port that it connects to. -/
  connecting : Bytes → UInt16 → Connecting
  strerror : Errno → Bytes
  /-- What fails when a file is saved, or loaded. -/
  writing : WriteFaults
  reading : ReadFaults
  /-- The files after `load_entire_file` has asked for a size. -/
  later : Files Bytes

namespace Terminal

/-- Print a text. -/
def print (text : Bytes) (t : Terminal) : Terminal := { t with cout := t.cout ++ text }

end Terminal

namespace Client

/-- The commands that the client supports, with their descriptions. -/
def commandList : List (Bytes × Bytes) :=
  [(UserDirectory.reqBye, ascii "             Force the server to stop"),
    (UserDirectory.reqSav, ascii "             Instruct the server to save its data"),
    (UserDirectory.reqReg, ascii "             Register a new user"),
    (UserDirectory.reqSet, ascii " -1 [file]   Set user's data to the contents of the file"),
    (UserDirectory.reqGet, ascii " -1 [string] Get data for the provided user"),
    (UserDirectory.reqAll, ascii " -1 [file]   Get all users' names, save to a file")]

/-- The lines of some commands. -/
def describe (cs : List (Bytes × Bytes)) : Bytes :=
  cs.flatMap fun c => ascii "  " ++ c.1 ++ c.2 ++ newline

/-- The help message. -/
def usage (progname : Bytes) : Bytes :=
  basename progname ++ ascii ": company user directory client\n\n" ++
  ascii " Required Configuration Parameters:\n" ++
  ascii "  -u [string] The username to use for authentication\n" ++
  ascii "  -w [string] The password to use for authentication\n" ++
  ascii "  -s [string] IP address or hostname of server\n" ++
  ascii "  -p [int]    Port to use to connect to server\n" ++
  ascii "  -C [string] The command to execute (choose one from below)\n\n" ++
  ascii " Admin Commands (pass via -C):\n" ++ describe (commandList.take 2) ++ newline ++
  ascii " Auth Table Commands (pass via -C, with argument as -1)\n" ++
  describe ((commandList.drop 2).take 4) ++ newline ++
  ascii " Other Options:\n" ++ ascii "  -h          Print help (this message)\n"

/-- The functions of the commands, in the order in which `main` compares them. -/
def funcs (fuel : ℕ) (w : World) (user pass arg1 : Bytes) :
    List (Bytes × (Terminal → Option Terminal)) :=
  [(UserDirectory.reqReg, reqReg fuel user pass), (UserDirectory.reqBye, reqBye fuel user pass),
    (UserDirectory.reqSet, reqSet fuel w.reading w.later user pass arg1),
    (UserDirectory.reqGet, reqGet fuel w.writing user pass arg1),
    (UserDirectory.reqAll, reqAll fuel w.writing user pass arg1),
    (UserDirectory.reqSav, reqSav fuel user pass)]

/-- The program, with its command line: the exit code and the client. -/
def main (fuel : ℕ) (w : World) (progname : Bytes) (args : List Bytes) (t : Terminal) :
    Option (ℕ × Terminal) :=
  match ArgT.ofArgv args with
  | none => some (1, t.print (usage progname))
  | some a =>
    let t := connectToServer w.connecting w.strerror a.server a.port t
    let t := (funcs fuel w a.username a.userpass a.arg1).foldlM (fun t (cmd, func) =>
      if a.command = cmd then func t else some t) t
    t.map fun t => (0, t)

/-- The contents of a file, as `req_set` loads them when nothing fails. -/
def fileContents (files : Files Bytes) (setfile : Bytes) : Bytes :=
  match files (cStr setfile) with
  | none => []
  | some bytes => if bytes.length < 2 ^ 32 then bytes else []

/-- The request that the settings stand for, with the files of the client: `none` if none is
    made. -/
def ArgT.ask (a : ArgT) (files : Files Bytes) : Option Ask :=
  if a.command = UserDirectory.reqReg then
    if WellSized a.username a.userpass then some (.reg a.username a.userpass) else none
  else if a.command = UserDirectory.reqBye then some (.bye a.username a.userpass)
  else if a.command = UserDirectory.reqSav then some (.sav a.username a.userpass)
  else if a.command = UserDirectory.reqSet then
    if fileContents files a.arg1 = [] then none
    else some (.set a.username a.userpass (fileContents files a.arg1))
  else if a.command = UserDirectory.reqGet then some (.get a.username a.userpass a.arg1)
  else if a.command = UserDirectory.reqAll then some (.all a.username a.userpass a.arg1)
  else none

section Main

variable {w : World} {a : ArgT} {t : Terminal}

/-- A run in which the client is connected, and nothing fails or interferes when it loads a
    file. -/
def World.connectedTo (w : World) (conn : Conn) (files : Files Bytes) : World :=
  { w with connecting := fun _ _ => .connected conn, reading := .none, later := files }

theorem foldlM_funcs_of_not_mem {fs : List (Bytes × (Terminal → Option Terminal))} {cmd : Bytes}
    (h : cmd ∉ fs.map Prod.fst) (t : Terminal) :
    fs.foldlM (fun t f => if cmd = f.1 then f.2 t else some t) t = some t := by
  induction fs generalizing t with
  | nil => rfl
  | cons f fs ih =>
    rw [List.map_cons, List.mem_cons, not_or] at h
    rw [List.foldlM_cons, if_neg h.1]
    exact ih h.2 t

/-- Among the functions of the commands, only that of the command is called. -/
theorem foldlM_funcs {fs : List (Bytes × (Terminal → Option Terminal))}
    (hfs : (fs.map Prod.fst).Nodup) {cmd : Bytes} {func : Terminal → Option Terminal}
    (h : (cmd, func) ∈ fs) (t : Terminal) :
    fs.foldlM (fun t f => if cmd = f.1 then f.2 t else some t) t = func t := by
  induction fs with
  | nil => cases h
  | cons f fs ih =>
    rw [List.map_cons, List.nodup_cons] at hfs
    rw [List.foldlM_cons]
    rcases List.mem_cons.1 h with rfl | h
    · rw [if_pos rfl]
      show (func t).bind _ = func t
      cases hf : func t with
      | none => rfl
      | some t' => exact foldlM_funcs_of_not_mem hfs.1 t'
    · have hne : cmd ≠ f.1 := fun heq => hfs.1 (heq ▸ List.mem_map_of_mem h)
      rw [if_neg hne]
      exact ih hfs.2 h

theorem nodup_funcs (fuel : ℕ) (w : World) (user pass arg1 : Bytes) :
    ((funcs fuel w user pass arg1).map Prod.fst).Nodup := by
  show [UserDirectory.reqReg, UserDirectory.reqBye, UserDirectory.reqSet, UserDirectory.reqGet,
    UserDirectory.reqAll, UserDirectory.reqSav].Nodup
  decide

/-- A file that has contents to send is loaded as it is. -/
theorem loadEntireFile_fileContents {files : Files Bytes} {setfile : Bytes}
    (hne : fileContents files setfile ≠ []) (t : Terminal) :
    ({ t with files := files } : Terminal).loadEntireFile .none files setfile =
      (fileContents files setfile, { t with files := files }) := by
  rw [fileContents] at hne ⊢
  cases hfile : files (cStr setfile) with
  | none => simp [hfile] at hne
  | some bytes =>
    simp only [hfile] at hne ⊢
    by_cases hlen : bytes.length < 2 ^ 32
    · rw [if_pos hlen]
      exact loadEntireFile_of_written (t := { t with files := files }) hfile hlen
    · exact absurd (if_neg hlen) hne

/-- The function of the command performs its request. -/
theorem func_of_ask {files : Files Bytes} {k : Ask} (hask : a.ask files = some k) (fuel : ℕ)
    (t : Terminal) : ∃ func, (a.command, func) ∈ funcs fuel (w.connectedTo t.conn files) a.username
      a.userpass a.arg1 ∧ func { t with files := files } =
        k.perform fuel w.writing { t with files := files } := by
  rw [ArgT.ask] at hask
  split at hask
  · next hcmd =>
    split at hask
    · next hsized =>
      cases hask
      refine ⟨reqReg fuel a.username a.userpass, by simp [funcs, hcmd], ?_⟩
      rw [reqReg_eq fuel w.writing, if_pos hsized]
    · cases hask
  split at hask
  · next hcmd =>
    cases hask
    exact ⟨_, by rw [hcmd]; exact .tail _ (.head _), rfl⟩
  split at hask
  · next hcmd =>
    cases hask
    exact ⟨_, by rw [hcmd]; exact .tail _ (.tail _ (.tail _ (.tail _ (.tail _ (.head _))))), rfl⟩
  split at hask
  · next hcmd =>
    split at hask
    · cases hask
    · next hne =>
      cases hask
      refine ⟨_, by rw [hcmd]; exact .tail _ (.tail _ (.head _)), ?_⟩
      show reqSet fuel .none files a.username a.userpass a.arg1 { t with files := files } = _
      rw [reqSet_eq fuel w.writing a.username a.userpass _ (loadEntireFile_fileContents hne t),
        if_neg hne]
  split at hask
  · next hcmd =>
    cases hask
    exact ⟨_, by rw [hcmd]; exact .tail _ (.tail _ (.tail _ (.head _))), rfl⟩
  split at hask
  · next hcmd =>
    cases hask
    exact ⟨_, by rw [hcmd]; exact .tail _ (.tail _ (.tail _ (.tail _ (.head _)))), rfl⟩
  · cases hask

/-- A run of the program on a command line that it accepts performs the request of the command,
    and no other, and exits with `0`. -/
theorem main_eq {args : List Bytes} (hargs : ArgT.ofArgv args = some a) {files : Files Bytes}
    {k : Ask} (hask : a.ask files = some k) (fuel : ℕ) (progname : Bytes) (t : Terminal) :
    main fuel (w.connectedTo t.conn files) progname args { t with files := files } =
      (k.perform fuel w.writing { t with files := files }).map fun t => (0, t) := by
  obtain ⟨func, hmem, hfunc⟩ := @func_of_ask w a files k hask fuel t
  rw [main, hargs, ← hfunc]
  exact congrArg (Option.map _)
    (foldlM_funcs (nodup_funcs _ _ _ _ _) hmem { t with files := files })

/-- The command line with which `alice` asks for the names of all users. -/
def allArgs : List Bytes :=
  [ascii "-u", ascii "alice", ascii "-w", ascii "pw", ascii "-C", UserDirectory.reqAll, ascii "-1",
    ascii "names", ascii "-s", ascii "localhost", ascii "-p", ascii "8080"]

section Files

variable {faults : WriteFaults} {filename : Bytes} {t t' : Terminal} {f : Bytes} {fuel : ℕ}

theorem sendResultToFile_files (buf : Bytes) (hf : f ≠ cStr filename) :
    (sendResultToFile faults buf filename t).files f = t.files f := by
  have hdownloaded : ∀ data, downloaded faults t.files filename data f = t.files f := by
    intro data
    rw [downloaded]
    split
    · rfl
    · exact Function.update_of_ne hf _ _
  rw [sendResultToFile]
  split
  · rfl
  · dsimp only
    split
    · rfl
    · obtain ⟨text, htext⟩ := @Terminal.writeFile_snd faults filename
        ((buf.drop 8).take (extractLength buf 4).toNat) t
      rw [htext]
      split <;> exact hdownloaded _

/-- A download changes no file but the one in which the data is saved. -/
theorem download_files {cmd user pass msg : Bytes}
    (h : download fuel faults cmd user pass msg filename t = some t')
    (hf : f ≠ cStr filename) : t'.files f = t.files f := by
  obtain ⟨⟨response, c⟩, -, rfl⟩ := Option.map_eq_some_iff.1 h
  dsimp only
  rw [conclude]
  split
  · exact @sendResultToFile_files faults filename { t with conn := c } f response hf
  · split <;> rfl

/-- A request without data changes no file. -/
theorem request_files {cmd user pass msg : Bytes}
    (h : request fuel cmd user pass msg t = some t') : t'.files = t.files := by
  obtain ⟨⟨response, c⟩, -, rfl⟩ := Option.map_eq_some_iff.1 h
  dsimp only
  split <;> rfl

theorem loadEntireFile_files (reading : ReadFaults) (later : Files Bytes) (t : Terminal) :
    (t.loadEntireFile reading later filename).2.files = t.files ∨
      (t.loadEntireFile reading later filename).2.files = later := by
  rw [Terminal.loadEntireFile]
  split
  · exact .inl rfl
  · dsimp only
    split
    · exact .inr rfl
    · split <;> exact .inr rfl

theorem connectToServer_files (connecting : Bytes → UInt16 → Connecting)
    (strerror : Errno → Bytes) (hostname : Bytes) (port : ℤ) (t : Terminal) :
    (connectToServer connecting strerror hostname port t).files = t.files := by
  rw [connectToServer]
  split <;> rfl

/-- What the functions of the commands do to the files. -/
theorem func_files {w : World} {user pass arg1 cmd : Bytes} {func : Terminal → Option Terminal}
    (hfunc : (cmd, func) ∈ funcs fuel w user pass arg1) (h : func t = some t')
    (hf : t'.files f ≠ t.files f) :
    cmd = UserDirectory.reqGet ∧ f = cStr (arg1 ++ ascii ".file.dat") ∨
      cmd = UserDirectory.reqAll ∧ f = cStr arg1 ∨
      cmd = UserDirectory.reqSet ∧ t'.files = w.later := by
  simp only [funcs, List.mem_cons, List.not_mem_nil, or_false, Prod.mk.injEq] at hfunc
  rcases hfunc with ⟨rfl, rfl⟩ | ⟨rfl, rfl⟩ | ⟨rfl, rfl⟩ | ⟨rfl, rfl⟩ | ⟨rfl, rfl⟩ | ⟨rfl, rfl⟩
  · rw [reqReg] at h
    split at h
    · cases h
      exact absurd rfl hf
    · exact absurd (congrFun (request_files h) f) hf
  · exact absurd (congrFun (request_files h) f) hf
  · -- The files are those after the profile has been loaded.
    refine .inr (.inr ⟨rfl, ?_⟩)
    have hfiles : t'.files = (t.loadEntireFile w.reading w.later arg1).2.files := by
      rw [reqSet] at h
      dsimp only at h
      split at h
      · cases h
        rfl
      · exact request_files h
    rcases @loadEntireFile_files arg1 w.reading w.later t with hsame | hlater
    · rw [hfiles, hsame] at hf
      exact absurd rfl hf
    · exact hfiles.trans hlater
  · exact .inl ⟨rfl, by_contra fun hne => hf (download_files h hne)⟩
  · exact .inr (.inl ⟨rfl, by_contra fun hne => hf (download_files h hne)⟩)
  · exact absurd (congrFun (request_files h) f) hf

/-- Whatever the server sends, and whatever fails: a run of the program changes no file but the
    one that its command line names for the data of the response. Others may change files while
    it loads a profile. -/
theorem main_saves (w : World) (progname : Bytes) (args : List Bytes) {code : ℕ}
    (h : main fuel w progname args t = some (code, t')) (hf : t'.files f ≠ t.files f) :
    ∃ a, ArgT.ofArgv args = some a ∧
      (a.command = UserDirectory.reqGet ∧ f = cStr (a.arg1 ++ ascii ".file.dat") ∨
        a.command = UserDirectory.reqAll ∧ f = cStr a.arg1 ∨
        a.command = UserDirectory.reqSet ∧ t'.files = w.later) := by
  cases hargs : ArgT.ofArgv args with
  | none =>
    rw [main, hargs] at h
    cases h
    exact absurd rfl hf
  | some a =>
    refine ⟨a, rfl, ?_⟩
    rw [main, hargs] at h
    obtain ⟨t₁, hrun, heq⟩ := Option.map_eq_some_iff.1 h
    cases heq
    rw [← connectToServer_files w.connecting w.strerror a.server a.port t] at hf
    generalize connectToServer w.connecting w.strerror a.server a.port t = t₀ at hf hrun
    by_cases hmem : a.command ∈ (funcs fuel w a.username a.userpass a.arg1).map Prod.fst
    · obtain ⟨⟨cmd, func⟩, hfunc, rfl⟩ := List.mem_map.1 hmem
      have hfold := foldlM_funcs (nodup_funcs fuel w a.username a.userpass a.arg1) hfunc t₀
      exact func_files hfunc (hfold.symm.trans hrun) hf
    · cases (foldlM_funcs_of_not_mem hmem t₀).symm.trans hrun
      exact absurd rfl hf

/-- A world in which a server sends the names of all users. -/
def namesWorld : World :=
  ⟨fun _ _ => .connected (.delivering (okResponse (ascii "alice\n"))), fun _ => [], .none, .none,
    fun _ => none⟩

/-- They are in the file that `alice` has named. -/
theorem main_saves_alice : ∃ a, ArgT.ofArgv allArgs = some a ∧
    (a.command = UserDirectory.reqGet ∧ ascii "names" = cStr (a.arg1 ++ ascii ".file.dat") ∨
      a.command = UserDirectory.reqAll ∧ ascii "names" = cStr a.arg1) := by
  have hrun : (main 8 namesWorld (ascii "client") allArgs
      ⟨.delivering [], fun _ => none, [], []⟩).map
        (fun r => decide (r.2.files (ascii "names") ≠ none)) = some true := by
    decide +kernel
  obtain ⟨⟨code, t'⟩, hmain, hfile⟩ := Option.map_eq_some_iff.1 hrun
  have hne := of_decide_eq_true hfile
  obtain ⟨a, hargs, hget | hall | ⟨-, hlater⟩⟩ :=
    main_saves namesWorld (ascii "client") allArgs hmain hne
  · exact ⟨a, hargs, .inl hget⟩
  · exact ⟨a, hargs, .inr hall⟩
  · exact absurd (congrFun hlater _) hne

end Files

end Main

end Client

end UserDirectory
