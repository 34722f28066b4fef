import UserDirectory.Exchanges

/-!
# Secrecy

What the responses of the server tell of its table, as statements about the same
exchanges on two servers.

* `dispatches_refused`: exchanges without valid credentials and without
  registrations tell nothing, and change nothing.
* `dispatches_sameBut`: exchanges of one user tell nothing of the passwords of
  others. `SameBut` relates the servers that differ in these only; every exchange
  preserves it.
-/

namespace UserDirectory

open Stdio AssocList

namespace Server

variable {faults : WriteFaults} {r : Request} {sv sv₁ sv₂ : Server}

/-! ## Without credentials -/

/-- Credentials that are not registered are not valid. -/
theorem auth_succeeded_of_not_registered {user pass : Bytes}
    (h : ¬sv.storage.Registered user pass) : (sv.storage.auth user pass).succeeded = false := by
  rw [MyStorage.auth_succeeded]
  exact decide_eq_false fun hvalid => h hvalid.2

/-- The reply to a request without the credentials of a user does not depend on the server. -/
theorem serve_refused (hcmd : r.cmd ≠ reqReg) (h₁ : ¬sv₁.storage.Registered r.user r.pass)
    (h₂ : ¬sv₂.storage.Registered r.user r.pass) :
    (sv₁.serve faults r).1 = (sv₂.serve faults r).1 := by
  -- Each method checks the credentials before it looks at anything else of the table.
  have hauth : sv₁.storage.auth r.user r.pass = sv₂.storage.auth r.user r.pass := by
    rw [MyStorage.auth_eq, MyStorage.auth_eq, if_neg h₁, if_neg h₂]
  have hset : ∀ content, (sv₁.storage.setUserData r.user r.pass content).1 =
      (sv₂.storage.setUserData r.user r.pass content).1 := by
    intro content
    rw [MyStorage.setUserData_eq, MyStorage.setUserData_eq, if_neg h₁, if_neg h₂]
    split <;> rfl
  have hget : ∀ who, sv₁.storage.getUserData r.user r.pass who =
      sv₂.storage.getUserData r.user r.pass who := by
    intro who
    rw [MyStorage.getUserData_eq, MyStorage.getUserData_eq, if_pos h₁, if_pos h₂]
  have hall : sv₁.storage.getAllUsers r.user r.pass = sv₂.storage.getAllUsers r.user r.pass := by
    rw [MyStorage.getAllUsers_eq, MyStorage.getAllUsers_eq, if_neg h₁, if_neg h₂]
  have hfail := auth_succeeded_of_not_registered h₂
  simp only [serve, if_neg hcmd, hauth, hfail, hall, Bool.false_eq_true, if_false]
  split
  · rfl
  split
  · rfl
  split
  · cases unframe r.msg with
    | none => rfl
    | some content => simp only [hset]
  split
  · cases unframe r.msg with
    | none => rfl
    | some who => simp only [hget]
  split <;> rfl

/-- Such a request does not stop the server. -/
theorem serve_refused_stop (h : ¬sv.storage.Registered r.user r.pass) :
    (sv.serve faults r).1.stop = false := by
  rw [serve_stop]
  exact decide_eq_false fun hstops => h hstops.2.2

/-- Such a request leaves the server alone. -/
theorem serve_refused_server (hcmd : r.cmd ≠ reqReg) (h : ¬sv.storage.Registered r.user r.pass) :
    (sv.serve faults r).2 = sv :=
  serve_otherwise (fun hreg => hcmd hreg.1) (fun _ hupd => h hupd.2.1.2) fun hsav => h hsav.2.2

end Server

/-- Of two servers, exchanges without the credentials of a user in either, and without
    registrations, have the same outcomes: all that is sent is the same, neither server
    halts, and neither changes. -/
theorem dispatches_refused {sv₁ sv₂ : Server} {xs : List Exchange}
    (hcmd : ∀ x ∈ xs, x.request.cmd ≠ reqReg)
    (h₁ : ∀ x ∈ xs, ¬sv₁.storage.Registered x.request.user x.request.pass)
    (h₂ : ∀ x ∈ xs, ¬sv₂.storage.Registered x.request.user x.request.pass) :
    ∃ os, Dispatches sv₁ xs os sv₁ ∧ Dispatches sv₂ xs os sv₂ ∧ ∀ o ∈ os, o.stop = false := by
  -- In lockstep, both servers stay what they are.
  have hsame : ∀ x ∈ xs, ∀ sv sv', sv = sv₁ ∧ sv' = sv₂ →
      (exchange sv x).1 = (exchange sv' x).1 ∧ (exchange sv x).2 = sv₁ ∧
        (exchange sv' x).2 = sv₂ := by
    rintro x hx sv sv' ⟨rfl, rfl⟩
    have hreply : (sv.serve x.faults x.request).1 = (sv'.serve x.faults x.request).1 :=
      Server.serve_refused (hcmd x hx) (h₁ x hx) (h₂ x hx)
    exact ⟨congrArg (Reply.outcome · x.conn) hreply,
      Server.serve_refused_server (hcmd x hx) (h₁ x hx),
      Server.serve_refused_server (hcmd x hx) (h₂ x hx)⟩
  have hstop : ∀ x ∈ xs, ∀ sv, sv = sv₁ →
      (exchange sv x).1.stop = false ∧ (exchange sv x).2 = sv₁ := by
    rintro x hx sv rfl
    exact ⟨(Reply.outcome_stop _ _).trans (Server.serve_refused_stop (h₁ x hx)),
      Server.serve_refused_server (hcmd x hx) (h₁ x hx)⟩
  obtain ⟨hos, hsv₁, hsv₂⟩ :=
    Machine.run_related (R := fun sv sv' => sv = sv₁ ∧ sv' = sv₂) hsame ⟨rfl, rfl⟩
  have hrun₁ := dispatches_run sv₁ xs
  have hrun₂ := dispatches_run sv₂ xs
  rw [hsv₁] at hrun₁
  rw [hsv₂, ← hos] at hrun₂
  exact ⟨_, hrun₁, hrun₂, (Machine.run_invariant (P := (· = sv₁)) hstop rfl).1⟩

/-- A wrong password of `alice` and a missing user cannot be told apart: whether the profile
    of `alice` is asked for or the server told to stop, on her server or on an empty one. -/
theorem dispatches_refused_alice : ∃ os,
    Dispatches aliceServer
      [⟨.none, ⟨reqGet, ascii "alice", ascii "no", Client.getMsg (ascii "alice")⟩, .delivering []⟩,
        ⟨.none, ⟨reqBye, ascii "bob", ascii "pw", []⟩, .delivering []⟩] os aliceServer ∧
    Dispatches emptyServer
      [⟨.none, ⟨reqGet, ascii "alice", ascii "no", Client.getMsg (ascii "alice")⟩, .delivering []⟩,
        ⟨.none, ⟨reqBye, ascii "bob", ascii "pw", []⟩, .delivering []⟩] os emptyServer ∧
    ∀ o ∈ os, o.stop = false := by
  refine dispatches_refused ?_ ?_ ?_ <;>
    simp only [List.forall_mem_cons, List.not_mem_nil, false_imp_iff, implies_true, and_true]
  · decide
  · decide +kernel
  · decide +kernel

/-! ## The passwords of others -/

/-- The servers have the same names in the same order, with the same contents, and the same
    password for `u`. -/
structure SameBut (u : Bytes) (sv₁ sv₂ : Server) : Prop where
  contents : sv₁.storage.authTable.entries.map (fun e => (e.1, e.2.content)) =
    sv₂.storage.authTable.entries.map fun e => (e.1, e.2.content)
  password : (sv₁.storage.authTable.lookup u).map AuthTableEntry.password =
    (sv₂.storage.authTable.lookup u).map AuthTableEntry.password

namespace SameBut

variable {u : Bytes} {sv₁ sv₂ : Server}

theorem keys_eq (h : SameBut u sv₁ sv₂) :
    keys sv₁.storage.authTable.entries = keys sv₂.storage.authTable.entries := by
  have hkeys := congrArg (List.map Prod.fst) h.contents
  rwa [List.map_map, List.map_map] at hkeys

theorem lookup_content (h : SameBut u sv₁ sv₂) (who : Bytes) :
    (sv₁.storage.authTable.lookup who).map AuthTableEntry.content =
      (sv₂.storage.authTable.lookup who).map AuthTableEntry.content := by
  rw [SequentialMap.lookup, SequentialMap.lookup, ← lookup_map, h.contents, lookup_map]

theorem registered_iff (h : SameBut u sv₁ sv₂) (pass : Bytes) :
    sv₁.storage.Registered u pass ↔ sv₂.storage.Registered u pass := by
  rw [MyStorage.registered_iff, MyStorage.registered_iff, h.password]

theorem userList_eq (h : SameBut u sv₁ sv₂) : MyStorage.userList sv₁.storage.authTable =
    MyStorage.userList sv₂.storage.authTable := by
  have hlist : ∀ m : SequentialMap Bytes AuthTableEntry,
      MyStorage.userList m = (keys m.entries).flatMap (· ++ newline) := fun m => by
    rw [MyStorage.userList, keys, List.flatMap_map]
  rw [hlist, hlist, h.keys_eq]

/-! ### What a request of `u` returns -/

theorem auth_eq (h : SameBut u sv₁ sv₂) (pass : Bytes) :
    sv₁.storage.auth u pass = sv₂.storage.auth u pass := by
  simp only [MyStorage.auth_eq, h.registered_iff]

theorem addUser_eq (h : SameBut u sv₁ sv₂) (pass : Bytes) :
    (sv₁.storage.addUser u pass).1 = (sv₂.storage.addUser u pass).1 := by
  rw [MyStorage.addUser_eq, MyStorage.addUser_eq, h.keys_eq]
  split
  · rfl
  · split <;> rfl

theorem setUserData_eq (h : SameBut u sv₁ sv₂) (pass content : Bytes) :
    (sv₁.storage.setUserData u pass content).1 = (sv₂.storage.setUserData u pass content).1 := by
  simp only [MyStorage.setUserData_eq, h.registered_iff]
  split
  · rfl
  · split <;> rfl

theorem getUserData_eq (h : SameBut u sv₁ sv₂) (pass who : Bytes) :
    sv₁.storage.getUserData u pass who = sv₂.storage.getUserData u pass who := by
  have hwho := h.lookup_content who
  simp only [MyStorage.getUserData_eq, h.registered_iff]
  split
  · rfl
  split
  · rfl
  -- Of the entry asked for, only the content is looked at.
  cases h₁ : sv₁.storage.authTable.lookup who with
  | none =>
    rw [h₁] at hwho
    rw [Option.map_eq_none_iff.1 hwho.symm]
  | some e₁ =>
    rw [h₁] at hwho
    obtain ⟨e₂, h₂, hcontent⟩ := Option.map_eq_some_iff.1 hwho.symm
    simp only [h₂, hcontent]

theorem getAllUsers_eq (h : SameBut u sv₁ sv₂) (pass : Bytes) :
    sv₁.storage.getAllUsers u pass = sv₂.storage.getAllUsers u pass := by
  simp only [MyStorage.getAllUsers_eq, h.registered_iff, h.userList_eq]

/-- The reply to a request of `u` does not depend on the passwords of others. -/
theorem serve_fst (h : SameBut u sv₁ sv₂) {faults : WriteFaults} {r : Request} (hu : r.user = u) :
    (sv₁.serve faults r).1 = (sv₂.serve faults r).1 := by
  subst hu
  simp only [Server.serve, h.auth_eq, h.addUser_eq, h.getAllUsers_eq]
  split
  · rfl
  split
  · rfl
  split
  · split
    · rw [Server.saveFile_succeeded, Server.saveFile_succeeded]
    · rfl
  split
  · cases unframe r.msg with
    | none => rfl
    | some content => simp only [h.setUserData_eq]
  split
  · cases unframe r.msg with
    | none => rfl
    | some who => simp only [h.getUserData_eq]
  split <;> rfl

/-! ### What a request of `u` does -/

/-- A registration of `u` keeps the servers the same but for other passwords. -/
theorem withUser (h : SameBut u sv₁ sv₂) {pass : Bytes}
    (hnew : u ∉ keys sv₁.storage.authTable.entries) :
    SameBut u { sv₁ with storage := sv₁.storage.withUser u pass }
      { sv₂ with storage := sv₂.storage.withUser u pass } where
  contents := by
    have hnew₂ := h.keys_eq ▸ hnew
    simp only [MyStorage.withUser, SequentialMap.insert_entries _ hnew,
      SequentialMap.insert_entries _ hnew₂, List.map_append, h.contents]
  password := by
    rw [MyStorage.lookup_withUser hnew, MyStorage.lookup_withUser (h.keys_eq ▸ hnew),
      Function.update_self, Function.update_self]

/-- And so does an update of the content of `u`. -/
theorem withContent (h : SameBut u sv₁ sv₂) (content : Bytes) :
    SameBut u { sv₁ with storage := sv₁.storage.withContent u content }
      { sv₂ with storage := sv₂.storage.withContent u content } where
  contents := by
    have hadjust : ∀ m : SequentialMap Bytes AuthTableEntry,
        (m.adjust u fun e => { e with content := content }).entries.map
            (fun e => (e.1, e.2.content)) =
          AssocList.adjust u (fun _ => content) (m.entries.map fun e => (e.1, e.2.content)) :=
      fun m => map_adjust_comm (fun _ => by rfl) m.entries
    simp only [MyStorage.withContent, hadjust, h.contents]
  password := by
    -- The password of an entry stays the same when its content is replaced.
    rw [MyStorage.lookup_withContent, MyStorage.lookup_withContent, Function.update_self,
      Function.update_self, Option.map_map, Option.map_map]
    exact h.password

theorem of_storage_eq (h : SameBut u sv₁ sv₂) {sv₁' sv₂' : Server}
    (h₁ : sv₁'.storage = sv₁.storage) (h₂ : sv₂'.storage = sv₂.storage) :
    SameBut u sv₁' sv₂' := by
  refine ⟨?_, ?_⟩ <;> rw [h₁, h₂]
  · exact h.contents
  · exact h.password

/-- A request of `u` keeps the servers the same but for the passwords of others. -/
theorem serve_snd (h : SameBut u sv₁ sv₂) (faults : WriteFaults) {r : Request} (hu : r.user = u) :
    SameBut u (sv₁.serve faults r).2 (sv₂.serve faults r).2 := by
  subst hu
  have hvalid : sv₁.storage.Valid r.user r.pass ↔ sv₂.storage.Valid r.user r.pass :=
    and_congr_right fun _ => h.registered_iff r.pass
  have hregs : sv₁.Registers r ↔ sv₂.Registers r := by
    rw [Server.Registers, Server.Registers, h.keys_eq]
  have hupds : ∀ content, sv₁.Updates r content ↔ sv₂.Updates r content := fun content => by
    rw [Server.Updates, Server.Updates, hvalid]
  rcases Server.serve_cases faults r sv₁ with ⟨hreg, hsv⟩ | ⟨content, hupd, hsv⟩ | ⟨hsav, hsv⟩ |
    ⟨hreg, hupd, hsav, hsv⟩
  · rw [hsv, Server.serve_of_registers (hregs.1 hreg)]
    exact h.withUser hreg.2.2
  · rw [hsv, Server.serve_of_updates ((hupds content).1 hupd)]
    exact h.withContent content
  · rw [hsv, Server.serve_of_saves ⟨hsav.1, hvalid.1 hsav.2⟩]
    exact h.of_storage_eq (Server.saveFile_storage _ _) (Server.saveFile_storage _ _)
  · rw [hsv, Server.serve_otherwise (fun hreg₂ => hreg (hregs.2 hreg₂))
      (fun content hupd₂ => hupd content ((hupds content).2 hupd₂))
      fun hsav₂ => hsav ⟨hsav₂.1, hvalid.2 hsav₂.2⟩]
    exact h

end SameBut

/-- On two servers that are the same but for the passwords of users other than `u`, exchanges
    of `u` have the same outcomes, and leave them the same but for these. -/
theorem dispatches_sameBut {u : Bytes} {sv₁ sv₂ : Server} (h : SameBut u sv₁ sv₂)
    {xs : List Exchange} (hu : ∀ x ∈ xs, x.request.user = u) :
    ∃ os sv₁' sv₂', Dispatches sv₁ xs os sv₁' ∧ Dispatches sv₂ xs os sv₂' ∧
      SameBut u sv₁' sv₂' := by
  have hstep : ∀ x ∈ xs, ∀ sv sv', SameBut u sv sv' →
      (exchange sv x).1 = (exchange sv' x).1 ∧ SameBut u (exchange sv x).2 (exchange sv' x).2 :=
    fun x hx sv sv' h =>
      ⟨congrArg (Reply.outcome · x.conn) (h.serve_fst (hu x hx)), h.serve_snd x.faults (hu x hx)⟩
  obtain ⟨hos, hend⟩ := Machine.run_related hstep h
  have hrun₂ := dispatches_run sv₂ xs
  rw [← hos] at hrun₂
  exact ⟨_, _, _, dispatches_run sv₁ xs, hrun₂, hend⟩

/-- The server of `alice`, after `bob` has registered with a password. -/
def bobServer (pass : Bytes) : Server :=
  (aliceServer.serve .none ⟨reqReg, ascii "bob", pass, []⟩).2

/-- `alice` cannot tell two passwords of `bob` apart, by setting her profile, asking for his
    and asking for the list of users. -/
theorem dispatches_sameBut_alice : ∃ os sv₁ sv₂,
    Dispatches (bobServer (ascii "secret")) [
      ⟨.none, ⟨reqSet, ascii "alice", ascii "pw", Client.setMsg (ascii "hi")⟩, .delivering []⟩,
      ⟨.none, ⟨reqGet, ascii "alice", ascii "pw", Client.getMsg (ascii "bob")⟩, .delivering []⟩,
      ⟨.none, ⟨reqAll, ascii "alice", ascii "pw", []⟩, .delivering []⟩] os sv₁ ∧
    Dispatches (bobServer (ascii "hidden")) [
      ⟨.none, ⟨reqSet, ascii "alice", ascii "pw", Client.setMsg (ascii "hi")⟩, .delivering []⟩,
      ⟨.none, ⟨reqGet, ascii "alice", ascii "pw", Client.getMsg (ascii "bob")⟩, .delivering []⟩,
      ⟨.none, ⟨reqAll, ascii "alice", ascii "pw", []⟩, .delivering []⟩] os sv₂ ∧
    SameBut (ascii "alice") sv₁ sv₂ := by
  refine dispatches_sameBut ⟨by decide +kernel, by decide +kernel⟩ ?_
  simp only [List.forall_mem_cons, List.not_mem_nil, false_imp_iff, implies_true, and_true]

end UserDirectory
