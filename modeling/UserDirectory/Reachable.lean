import UserDirectory.Service

/-!
# Reachable servers

The states of a server over whole runs, from an empty storage: requests on
connections that behave in any way, loads of the data file with any failures,
and changes of the files by others.

* `Server.WellFormed`: the key of each entry is its name, and its fields are
  within the limits. Serving a request preserves it (`serve_wellFormed`), a load
  establishes it (`loadFile_wellFormed`), so every reachable server has it
  (`Reachable.wellFormed`).
* `Reachable.storage_invariant`: with the distinct keys of its table, this is the
  invariant of the storage.
-/

namespace UserDirectory

open Fuel Stdio AssocList

namespace Server

/-- The entries of the table can be saved and loaded. -/
def WellFormed (sv : Server) : Prop := UserDirectory.WellFormed sv.storage.authTable.entries

variable {sv : Server}

theorem wellFormed_withUser {user pass : Bytes} (h : sv.WellFormed) (hsized : WellSized user pass)
    (hnew : user ∉ keys sv.storage.authTable.entries) :
    ({ sv with storage := sv.storage.withUser user pass } : Server).WellFormed := by
  intro e he
  rcases (MyStorage.mem_withUser hnew).1 he with he | rfl
  · exact h e he
  · exact ⟨rfl, hsized.1.2, hsized.2.2, Nat.zero_le _⟩

theorem wellFormed_withContent {user content : Bytes} (h : sv.WellFormed)
    (hlen : content.length ≤ lenProfileFile) :
    ({ sv with storage := sv.storage.withContent user content } : Server).WellFormed := by
  intro e he
  rcases mem_adjust he with he | ⟨e', he', rfl⟩
  · exact h e he
  · obtain ⟨hkey, hs⟩ := h _ he'
    exact ⟨hkey, hs.username, hs.password, hlen⟩

/-- Serving a request preserves the invariant. -/
theorem serve_wellFormed (faults : WriteFaults) (r : Request) (h : sv.WellFormed) :
    (sv.serve faults r).2.WellFormed := by
  rcases serve_cases faults r sv with ⟨hreg, hsv⟩ | ⟨content, hupd, hsv⟩ | ⟨-, hsv⟩ |
    ⟨-, -, -, hsv⟩ <;> rw [hsv]
  · exact wellFormed_withUser h hreg.2.1 hreg.2.2
  · exact wellFormed_withContent h hupd.2.2.2
  · rw [WellFormed, saveFile_storage]
    exact h
  · exact h

/-- A load establishes the invariant, whether or not it succeeds. -/
theorem loadFile_wellFormed {faults : ReadFaults} {r : Result} {sv' : Server}
    (h : Returns (fun n => sv.loadFile n faults) (r, sv')) : sv'.WellFormed := by
  obtain ⟨r₁, t, h₁, hwf, -⟩ := loadFile_returns faults sv
  cases h.unique h₁
  exact hwf

end Server

/-- The states of a server over its runs. -/
inductive Reachable : Server → Prop
  | start (filename : Bytes) (files : Files Bytes) : Reachable ⟨.new filename, files⟩
  | parseRequest {faults : WriteFaults} {s s' : Session} {stop : Bool} :
    Reachable s.server → Returns (fun n => parseRequest n faults s) (stop, s') →
    Reachable s'.server
  | loadFile {faults : ReadFaults} {sv sv' : Server} {r : Result} :
    Reachable sv → Returns (fun n => sv.loadFile n faults) (r, sv') → Reachable sv'
  | edit {sv : Server} (files : Files Bytes) : Reachable sv → Reachable { sv with files := files }

/-- A server with no users and no files. -/
def emptyServer : Server := ⟨.new (ascii "company.dir"), fun _ => none⟩

/-- Whatever a request does on a connection, it preserves the invariant. -/
theorem parseRequest_wellFormed {faults : WriteFaults} {s s' : Session} {stop : Bool}
    (h : Returns (fun n => parseRequest n faults s) (stop, s')) (hs : s.server.WellFormed) :
    s'.server.WellFormed := by
  obtain ⟨n, hn⟩ := h.exists
  rcases parseRequest_cases hn with ⟨-, hsv⟩ | ⟨r, -, hsv⟩ <;> rw [hsv]
  · exact hs
  · exact Server.serve_wellFormed faults r hs

theorem Reachable.wellFormed {sv : Server} (h : Reachable sv) : sv.WellFormed := by
  induction h with
  | start => exact fun e he => absurd he List.not_mem_nil
  | parseRequest _ hparse ih => exact parseRequest_wellFormed hparse ih
  | loadFile _ hload _ => exact Server.loadFile_wellFormed hload
  | edit _ _ ih => exact ih

/-- The invariant of the storage: distinct keys, each the name of its entry, and fields within
    the limits. -/
structure MyStorage.Invariant (s : MyStorage) : Prop where
  nodup : (keys s.authTable.entries).Nodup
  username : ∀ e ∈ s.authTable.entries, e.2.username = e.1
  storable : ∀ e ∈ s.authTable.entries, e.2.username.length ≤ 32 ∧ e.2.password.length ≤ 32 ∧
    e.2.content.length ≤ lenProfileFile

/-- Every reachable server has the invariant of the storage. -/
theorem Reachable.storage_invariant {sv : Server} (h : Reachable sv) : sv.storage.Invariant where
  nodup := sv.storage.authTable.nodup
  username e he := (h.wellFormed e he).1.symm
  storable e he :=
    let hs := (h.wellFormed e he).2
    ⟨hs.username, hs.password, hs.content⟩

/-- A record of `alice`, and then one whose password is cut short. -/
def cutFile : Bytes :=
  paddedRecord (ascii "alice") ⟨ascii "alice", ascii "pw", []⟩ ++
    (record (ascii "bob") ⟨ascii "bob", ascii "secret", []⟩).take 20

/-- The load of a file that fails in the second record leaves the first, with the invariant. -/
theorem invariant_of_failed_load : ∃ r sv,
    Returns (fun n => Server.loadFile n .none ⟨.new (ascii "company.dir"), fun _ => cutFile⟩)
      (r, sv) ∧ r.succeeded = false ∧
    sv.storage.authTable.entries = [(ascii "alice", ⟨ascii "alice", ascii "pw", []⟩)] ∧
    sv.storage.Invariant := by
  have hpasses : (loop (loadPass .none) 2 ⟨⟨cutFile, 0⟩, .empty⟩).map
      (fun p => (p.1, p.2.entries)) =
      some (false, [(ascii "alice", ⟨ascii "alice", ascii "pw", []⟩)]) := by
    decide +kernel
  obtain ⟨⟨loaded, t⟩, hloop, heq⟩ := Option.map_eq_some_iff.1 hpasses
  obtain ⟨rfl, ht⟩ := Prod.mk.inj heq
  have hload : Returns
      (fun n => Server.loadFile n .none ⟨.new (ascii "company.dir"), fun _ => cutFile⟩) _ :=
    (loop_returns_of_exists hloop).map _
  exact ⟨_, _, hload, rfl, ht, (Reachable.loadFile (.start _ _) hload).storage_invariant⟩

end UserDirectory
