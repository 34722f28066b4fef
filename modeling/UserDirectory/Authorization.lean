import UserDirectory.Requests

/-!
# Authorization

What a request may change, and on whose credentials: `AuthorizationFrame`. It
holds of every request that `parse_request` dispatches
(`parseRequest_authorized`), whatever becomes of the response, and whatever
fails while the table is saved.
-/

namespace UserDirectory

open Fuel Stdio AssocList

/-- The names and passwords of a table, in order. -/
def credentials (m : SequentialMap Bytes AuthTableEntry) : List (Bytes × Bytes) :=
  m.entries.map fun e => (e.1, e.2.password)

/-- What the request `r` may change of the server `sv`, to give `sv'`, and whether it may
    stop it. -/
structure AuthorizationFrame (r : Request) (sv sv' : Server) (stop : Bool) : Prop where
  /-- An existing entry changes only by a `SETP` of its user, in its content only. -/
  changed : ∀ u, ∀ e ∈ sv.storage.authTable.lookup u, ∀ e' ∈ sv'.storage.authTable.lookup u,
    e' ≠ e → r.cmd = reqSet ∧ sv.storage.Valid r.user r.pass ∧ u = r.user ∧
      e' = { e with content := e'.content }
  /-- An entry is added only by a `REG_` of a well-sized name that is absent. -/
  added : ∀ u, sv.storage.authTable.lookup u = none → ∀ e' ∈ sv'.storage.authTable.lookup u,
    r.cmd = reqReg ∧ WellSized r.user r.pass ∧ u = r.user ∧ e' = ⟨r.user, r.pass, []⟩
  /-- No entry is removed, reordered or given another password. -/
  kept : credentials sv.storage.authTable <+: credentials sv'.storage.authTable
  /-- The files are touched only by a `SAVE`. -/
  files : sv'.files ≠ sv.files → r.cmd = reqSav ∧ sv.storage.Valid r.user r.pass
  /-- The server stops exactly on an `EXIT`. -/
  stops : stop = true ↔ r.cmd = reqBye ∧ sv.storage.Valid r.user r.pass

/-- The frame of a request that leaves the storage alone. -/
theorem AuthorizationFrame.of_storage_eq {r : Request} {sv sv' : Server} {stop : Bool}
    (hstorage : sv'.storage = sv.storage)
    (hfiles : sv'.files ≠ sv.files → r.cmd = reqSav ∧ sv.storage.Valid r.user r.pass)
    (hstops : stop = true ↔ r.cmd = reqBye ∧ sv.storage.Valid r.user r.pass) :
    AuthorizationFrame r sv sv' stop where
  changed u e he e' he' hne := by
    rw [hstorage] at he'
    exact absurd (Option.mem_unique he' he) hne
  added u hu e' he' := by
    rw [hstorage, hu] at he'
    cases he'
  kept := hstorage.symm ▸ List.prefix_rfl
  files := hfiles
  stops := hstops

/-- The frame of a registration: the lookup changes at the new name only. -/
theorem AuthorizationFrame.of_registers {r : Request} {sv : Server} {stop : Bool}
    (hreg : sv.Registers r)
    (hstops : stop = true ↔ r.cmd = reqBye ∧ sv.storage.Valid r.user r.pass) :
    AuthorizationFrame r sv { sv with storage := sv.storage.withUser r.user r.pass } stop := by
  obtain ⟨hcmd, hsized, hnew⟩ := hreg
  have hlookup := @MyStorage.lookup_withUser _ _ r.pass hnew
  refine ⟨fun u e he e' he' hne => ?_, fun u hu e' he' => ?_, ?_, fun h => absurd rfl h, hstops⟩
  · rw [hlookup] at he'
    by_cases hur : u = r.user
    · -- The new name had no entry.
      rw [hur, SequentialMap.lookup_eq_none_iff.2 hnew] at he
      cases he
    · rw [Function.update_of_ne hur] at he'
      exact absurd (Option.mem_unique he' he) hne
  · rw [hlookup] at he'
    by_cases hur : u = r.user
    · rw [hur, Function.update_self] at he'
      exact ⟨hcmd, hsized, hur, (Option.some.inj he').symm⟩
    · rw [Function.update_of_ne hur, hu] at he'
      cases he'
  · rw [credentials, credentials, MyStorage.withUser, SequentialMap.insert_entries _ hnew,
      List.map_append]
    exact List.prefix_append _ _

/-- The frame of an update: the lookup changes at the name of the user only, in the content. -/
theorem AuthorizationFrame.of_updates {r : Request} {sv : Server} {content : Bytes} {stop : Bool}
    (hupd : sv.Updates r content)
    (hstops : stop = true ↔ r.cmd = reqBye ∧ sv.storage.Valid r.user r.pass) :
    AuthorizationFrame r sv { sv with storage := sv.storage.withContent r.user content } stop := by
  obtain ⟨hcmd, hvalid, -, -⟩ := hupd
  have hlookup := @MyStorage.lookup_withContent sv.storage r.user content
  refine ⟨fun u e he e' he' hne => ?_, fun u hu e' he' => ?_, ?_, fun h => absurd rfl h, hstops⟩
  · rw [hlookup] at he'
    by_cases hur : u = r.user
    · rw [hur] at he
      rw [hur, Function.update_self, he] at he'
      obtain rfl := Option.some.inj he'
      exact ⟨hcmd, hvalid, hur, rfl⟩
    · rw [Function.update_of_ne hur] at he'
      exact absurd (Option.mem_unique he' he) hne
  · rw [hlookup] at he'
    by_cases hur : u = r.user
    · -- An update adds no entry.
      rw [hur] at hu
      rw [hur, Function.update_self, hu] at he'
      cases he'
    · rw [Function.update_of_ne hur, hu] at he'
      cases he'
  · have hsame : credentials (sv.storage.withContent r.user content).authTable =
        credentials sv.storage.authTable :=
      map_adjust (fun _ => by rfl) _
    exact hsame.symm ▸ List.prefix_rfl

/-- Every request is served within its frame. -/
theorem serve_authorized (faults : WriteFaults) (r : Request) (sv : Server) :
    AuthorizationFrame r sv (sv.serve faults r).2 (sv.serve faults r).1.stop := by
  have hstops : (sv.serve faults r).1.stop = true ↔
      r.cmd = reqBye ∧ sv.storage.Valid r.user r.pass := by
    rw [Server.serve_stop, decide_eq_true_iff, Server.Stops]
  rcases Server.serve_cases faults r sv with ⟨hreg, hsv⟩ | ⟨content, hupd, hsv⟩ | ⟨hsaves, hsv⟩ |
    ⟨-, -, -, hsv⟩
  · exact hsv ▸ .of_registers hreg hstops
  · exact hsv ▸ .of_updates hupd hstops
  · -- A save touches the files only.
    refine .of_storage_eq ?_ (fun _ => hsaves) hstops
    rw [hsv, Server.saveFile_storage]
  · refine .of_storage_eq ?_ (fun h => absurd ?_ h) hstops <;> rw [hsv]

/-- Every request that `parse_request` dispatches is served within its frame. -/
theorem parseRequest_authorized (faults : WriteFaults) (s : Session) {r : Request} {c : Socket.Conn}
    (hread : Returns (fun n => readRequest n s.conn) (some r, c)) :
    ∃ stop s', Returns (fun n => parseRequest n faults s) (stop, s') ∧
      AuthorizationFrame r s.server s'.server stop := by
  obtain ⟨c', hr⟩ := dispatch_returns faults r ⟨c, s.server⟩
  exact ⟨_, _, parseRequest_returns hread hr, serve_authorized faults r s.server⟩

/-- The registration of `alice` is served within its frame. -/
theorem parseRequest_authorized_registration : ∃ stop s',
    Returns (fun n => parseRequest n .none
      ⟨.delivering (Client.packet reqReg (ascii "alice") (ascii "pw") []), emptyServer⟩)
      (stop, s') ∧
    AuthorizationFrame ⟨reqReg, ascii "alice", ascii "pw", []⟩ emptyServer s'.server stop := by
  have hcmd : reqReg.length = 4 := rfl
  obtain ⟨c, hread, -⟩ := packet_received hcmd fits_alice (by decide)
    (Socket.Conn.recvRecoverable_delivering _) (Socket.delivered_delivering _)
  exact parseRequest_authorized .none ⟨_, emptyServer⟩ hread

end UserDirectory
