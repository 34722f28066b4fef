import UserDirectory.Requests

/-!
# Restarts

A run of the server over requests and restarts, on a file system that never
fails and on which the data file is missing at first. `Run` records, next to
the server, the entries of the table at the last save that was answered by
`OK__`.

* `Run.invariant`: the data file stands for these entries, which have distinct
  names and can be loaded (`DataFileOf`).
* `Run.restart_restores`: so every restart succeeds and leaves exactly them.
-/

namespace UserDirectory

open Fuel Socket Stdio AssocList

/-- A fresh storage on the file name of a server, with its files. -/
def Server.restarted (sv : Server) : Server := ⟨.new sv.storage.filename, sv.files⟩

/-- The entries last saved, after a request: those of the table, if it is a `SAVE` that
    succeeds. -/
def lastSaved (sv : Server) (r : Request) (saved : List (Bytes × AuthTableEntry)) :
    List (Bytes × AuthTableEntry) :=
  if r.cmd = reqSav ∧ (sv.serve .none r).1.response = some resOk then sv.storage.authTable.entries
  else saved

/-- The runs of a server, with the entries last saved. -/
inductive Run : Server → List (Bytes × AuthTableEntry) → Prop
  | start {filename : Bytes} {files : Files Bytes} : files filename = none →
    Run ⟨.new filename, files⟩ []
  | request {sv : Server} {saved : List (Bytes × AuthTableEntry)} {conn c : Conn} {r : Request}
    {stop : Bool} {s' : Session} : Run sv saved →
    Returns (fun n => readRequest n conn) (some r, c) →
    Returns (fun n => parseRequest n .none ⟨conn, sv⟩) (stop, s') →
    Run s'.server (lastSaved sv r saved)
  | restart {sv sv' : Server} {saved : List (Bytes × AuthTableEntry)} {r : Result} : Run sv saved →
    Returns (fun n => sv.restarted.loadFile n .none) (r, sv') → Run sv' saved

/-- The data file stands for the entries, which have distinct names. -/
def DataFileOf (file : Option Bytes) (es : List (Bytes × AuthTableEntry)) : Prop :=
  (keys es).Nodup ∧ FileEntries file es

/-- A save that is answered by `OK__` saves the table. -/
theorem saves_of_response_ok {faults : WriteFaults} {sv : Server} {r : Request}
    (hcmd : r.cmd = reqSav) (hok : (sv.serve faults r).1.response = some resOk) : sv.Saves r := by
  by_contra hsav
  have hauth : ¬(sv.storage.auth r.user r.pass).succeeded = true := by
    rw [MyStorage.auth_succeeded, decide_eq_true_iff]
    exact fun hvalid => hsav ⟨hcmd, hvalid⟩
  rw [Server.serve_sav faults sv hcmd, if_neg hauth, MyStorage.auth_eq] at hok
  split at hok
  · exact absurd (Option.some.inj hok) (by decide)
  · next hsized =>
    rw [if_neg fun h => hsav ⟨hcmd, not_not.1 hsized, h⟩] at hok
    exact absurd (Option.some.inj hok) (by decide)

/-- A request that is no save leaves the entries last saved as they are. -/
theorem lastSaved_of_not_saves {sv : Server} {r : Request} (h : ¬sv.Saves r)
    (saved : List (Bytes × AuthTableEntry)) : lastSaved sv r saved = saved :=
  if_neg fun hok => h (saves_of_response_ok hok.1 hok.2)

/-- When nothing fails, every save succeeds. -/
theorem lastSaved_of_saves {sv : Server} {r : Request} (h : sv.Saves r)
    (saved : List (Bytes × AuthTableEntry)) :
    lastSaved sv r saved = sv.storage.authTable.entries := by
  refine if_pos ⟨h.1, ?_⟩
  rw [Server.serve_of_saves h, Server.saveFile_succeeded, if_neg (by simp [WriteFaults.none])]
  rfl

/-- When nothing fails, a save leaves the image of the table in the data file. -/
theorem saveFile_none {sv : Server} (hwf : sv.WellFormed) :
    (sv.saveFile .none).2.dataFile = some (image sv.storage.authTable) := by
  rw [Server.saveFile_dataFile, if_neg (by simp [WriteFaults.none]),
    (saved_eq_image_iff hwf).2 (WriteFaults.none_complete _)]

/-- A load that nothing fails leaves the entries of the data file. -/
theorem loadFile_of_dataFileOf {sv : Server} {es : List (Bytes × AuthTableEntry)}
    (h : DataFileOf sv.dataFile es) : ∃ r t,
      Returns (fun n => sv.loadFile n .none) (r, sv.withTable t) ∧ r.succeeded = true ∧
        t.entries = es := by
  obtain ⟨hnodup, hfile⟩ := h
  cases hbytes : sv.dataFile with
  | none =>
    rw [hbytes] at hfile
    refine Server.loadFile_loaded ?_
    rw [hbytes]
    exact hfile
  | some bytes =>
    rw [hbytes] at hfile
    exact Server.loadFile_none hbytes hfile hnodup

/-- What every step of a run preserves: the invariant of the table, and that the data file
    stands for the entries last saved. -/
theorem Run.invariant {sv : Server} {saved : List (Bytes × AuthTableEntry)} (h : Run sv saved) :
    sv.WellFormed ∧ DataFileOf sv.dataFile saved := by
  induction h with
  | @start filename files hmissing =>
    have hfile : (⟨.new filename, files⟩ : Server).dataFile = none := hmissing
    rw [hfile]
    exact ⟨fun e he => absurd he List.not_mem_nil, List.nodup_nil, rfl⟩
  | @request sv saved conn c r stop s' _ hread hparse ih =>
    obtain ⟨hwf, hfile⟩ := ih
    have hserve : s'.server = (sv.serve .none r).2 :=
      server_of_readRequest (s := ⟨conn, sv⟩) hread hparse
    rw [hserve]
    refine ⟨Server.serve_wellFormed .none r hwf, ?_⟩
    -- The data file changes with a save only, and so do the entries last saved.
    rcases Server.serve_cases .none r sv with ⟨hreg, hsv⟩ | ⟨content, hupd, hsv⟩ | ⟨hsav, hsv⟩ |
      ⟨-, -, hsav, hsv⟩
    · rw [lastSaved_of_not_saves hreg.not_saves, hsv]
      exact hfile
    · rw [lastSaved_of_not_saves hupd.not_saves, hsv]
      exact hfile
    · rw [lastSaved_of_saves hsav, hsv, saveFile_none hwf]
      exact ⟨sv.storage.authTable.nodup, entries_image hwf⟩
    · rw [lastSaved_of_not_saves hsav, hsv]
      exact hfile
  | @restart sv sv' saved r _ hload ih =>
    -- A restart replaces the table, which says nothing of the data file.
    obtain ⟨r', t, hload', -, rfl⟩ := @loadFile_of_dataFileOf sv.restarted _ ih.2
    obtain ⟨-, rfl⟩ := Prod.mk.inj (hload.unique hload')
    exact ⟨Server.loadFile_wellFormed hload, ih.2⟩

/-- Every restart succeeds, and leaves the entries last saved, in their order. -/
theorem Run.restart_restores {sv : Server} {saved : List (Bytes × AuthTableEntry)}
    (h : Run sv saved) :
    ∃ r sv', Returns (fun n => sv.restarted.loadFile n .none) (r, sv') ∧ r.succeeded = true ∧
      sv'.storage.authTable.entries = saved := by
  obtain ⟨r, t, hload, hsucc, ht⟩ := @loadFile_of_dataFileOf sv.restarted _ h.invariant.2
  exact ⟨r, _, hload, hsucc, ht⟩

/-- Every request within the limits may be the next of a run. -/
theorem Run.serve {sv : Server} {saved : List (Bytes × AuthTableEntry)} (h : Run sv saved)
    {cmd user pass msg : Bytes} (hcmd : cmd.length = 4) (hfits : Fits user pass msg)
    (hne : user ++ (pass ++ msg) ≠ []) :
    Run (sv.serve .none ⟨cmd, user, pass, msg⟩).2 (lastSaved sv ⟨cmd, user, pass, msg⟩ saved) := by
  obtain ⟨conn, c, c', stop, hread, hparse⟩ := parseRequest_packet hcmd hfits hne .none sv
  exact .request h hread hparse

/-- A server that has registered and saved `alice`, and then registered `bob`. -/
def aliceBobServer : Server :=
  ((aliceServer.serve .none ⟨reqSav, ascii "alice", ascii "pw", []⟩).2.serve .none
    ⟨reqReg, ascii "bob", ascii "pw", []⟩).2

theorem reachable_aliceBobServer : Reachable aliceBobServer := by
  have hbobPw : Fits (ascii "bob") (ascii "pw") [] := ⟨by decide, by decide, by decide⟩
  have hreg : reqReg.length = 4 := rfl
  have hsav : reqSav.length = 4 := rfl
  have hsaved := reachable_aliceServer.serve .none hsav fits_alice (by decide)
  exact hsaved.serve .none hreg hbobPw (by decide)

theorem run_aliceBobServer :
    Run aliceBobServer [(ascii "alice", ⟨ascii "alice", ascii "pw", []⟩)] := by
  have hbobPw : Fits (ascii "bob") (ascii "pw") [] := ⟨by decide, by decide, by decide⟩
  have hreg : reqReg.length = 4 := rfl
  have hsav : reqSav.length = 4 := rfl
  have hstart : Run emptyServer [] := .start rfl
  have halice : Run aliceServer [] :=
    hstart.serve hreg fits_alice (by decide)
  have hsave := halice.serve hsav fits_alice (by decide)
  have hsaved : lastSaved aliceServer ⟨reqSav, ascii "alice", ascii "pw", []⟩ [] =
      [(ascii "alice", ⟨ascii "alice", ascii "pw", []⟩)] := by
    decide +kernel
  rw [hsaved] at hsave
  exact hsave.serve hreg hbobPw (by decide)

/-- A restart after that restores `alice` only. -/
theorem restart_restores_alice : ∃ r sv',
    Returns (fun n => aliceBobServer.restarted.loadFile n .none) (r, sv') ∧ r.succeeded = true ∧
      sv'.storage.authTable.entries = [(ascii "alice", ⟨ascii "alice", ascii "pw", []⟩)] :=
  run_aliceBobServer.restart_restores

end UserDirectory
