import Mathlib.Data.List.Induction
import Mathlib.Data.Set.Defs
import UserDirectory.Requests

/-!
# The list of users

What an `ALL_` tells of the names registered, over the runs of a server from an
empty table (`Requested`).

* `Requested.registered`: every name in the table was registered by a request.
* `lines_userList`: the list, read line by line, gives the names, if none of them
  has a newline in it; but `add_user` takes any bytes for a name.
* `Requested.userList_unforged`: so the list is as good as the names if no name
  with a newline was registered.
* `getAllUsers_trailing`: but it is not the newline-delimited list of the names
  (`NewlineDelimited`), since there is a newline after the last one, too.
-/

namespace UserDirectory

open Fuel Socket Stdio AssocList

/-- The servers after calls of `parse_request` from an empty table, with the requests read. -/
inductive Requested : List Request → Server → Prop
  | start (filename : Bytes) (files : Files Bytes) : Requested [] ⟨.new filename, files⟩
  | parseRequest {rs : List Request} {sv : Server} {faults : WriteFaults} {conn c : Conn}
    {r : Option Request} {stop : Bool} {s' : Session} : Requested rs sv →
    Returns (fun n => readRequest n conn) (r, c) →
    Returns (fun n => parseRequest n faults ⟨conn, sv⟩) (stop, s') →
    Requested (rs ++ r.toList) s'.server

/-- The names in the table after a request are those before it, and the one it registers. -/
theorem mem_keys_of_serve {faults : WriteFaults} {r : Request} {sv : Server} {u : Bytes}
    (h : u ∈ keys (sv.serve faults r).2.storage.authTable.entries) :
    u ∈ keys sv.storage.authTable.entries ∨ sv.Registers r ∧ u = r.user := by
  rcases Server.serve_cases faults r sv with ⟨hreg, hsv⟩ | ⟨content, -, hsv⟩ | ⟨-, hsv⟩ |
    ⟨-, -, -, hsv⟩ <;> rw [hsv] at h
  · simp only [MyStorage.withUser, SequentialMap.insert_entries _ hreg.2.2, keys_append,
      List.mem_append, keys_cons, keys_nil, List.mem_singleton] at h
    exact h.imp_right fun hu => ⟨hreg, hu⟩
  · simp only [MyStorage.withContent, SequentialMap.adjust, keys_adjust] at h
    exact .inl h
  · rw [Server.saveFile_storage] at h
    exact .inl h
  · exact .inl h

/-- Every name in the table was registered by a request. -/
theorem Requested.registered {rs : List Request} {sv : Server} (h : Requested rs sv) {u : Bytes}
    (hu : u ∈ keys sv.storage.authTable.entries) :
    ∃ r ∈ rs, r.cmd = reqReg ∧ WellSized r.user r.pass ∧ r.user = u := by
  induction h with
  | start => exact absurd hu List.not_mem_nil
  | @parseRequest rs sv faults conn c r stop s' _ hread hparse ih =>
    rw [server_of_readRequest (s := ⟨conn, sv⟩) hread hparse] at hu
    have hold : u ∈ keys sv.storage.authTable.entries →
        ∃ r' ∈ rs ++ r.toList, r'.cmd = reqReg ∧ WellSized r'.user r'.pass ∧ r'.user = u := by
      intro hu
      obtain ⟨r', hr', h⟩ := ih hu
      exact ⟨r', List.mem_append_left _ hr', h⟩
    cases r with
    | none => exact hold hu
    | some r =>
      rcases mem_keys_of_serve hu with hu | ⟨hreg, rfl⟩
      · exact hold hu
      · exact ⟨r, List.mem_append_right _ List.mem_cons_self, hreg.1, hreg.2.1, rfl⟩

/-! ## Reading the list -/

/-- The lines of a text: what stands before each newline. -/
def lines (text : Bytes) : List Bytes := (text.splitOn 10).dropLast

/-- Lines without a newline in them are read as they were written. -/
theorem splitOn_flatMap_concat {α : Type*} [DecidableEq α] {d : α} {ls : List (List α)}
    (h : ∀ l ∈ ls, d ∉ l) : (ls.flatMap (· ++ [d])).splitOn d = ls ++ [[]] := by
  induction ls with
  | nil => exact List.splitOn_nil d
  | cons l ls ih =>
    rw [List.forall_mem_cons] at h
    rw [List.flatMap_cons, List.append_assoc, List.singleton_append,
      List.splitOn_append_cons_self, List.splitOn_eq_singleton h.1, ih h.2,
      List.singleton_append, List.cons_append]

theorem userList_eq (m : SequentialMap Bytes AuthTableEntry) :
    MyStorage.userList m = (keys m.entries).flatMap (· ++ [10]) := by
  rw [MyStorage.userList, keys, List.flatMap_map]
  rfl

/-- After the last newline of the list of users, there is an empty name. -/
theorem splitOn_userList {m : SequentialMap Bytes AuthTableEntry}
    (h : ∀ u ∈ keys m.entries, (10 : UInt8) ∉ u) :
    (MyStorage.userList m).splitOn 10 = keys m.entries ++ [[]] := by
  rw [userList_eq, splitOn_flatMap_concat h]

/-- The list of users gives the names in the table, if none of them has a newline in it. -/
theorem lines_userList {m : SequentialMap Bytes AuthTableEntry}
    (h : ∀ u ∈ keys m.entries, (10 : UInt8) ∉ u) :
    lines (MyStorage.userList m) = keys m.entries := by
  rw [lines, splitOn_userList h, List.dropLast_concat]

/-- A successful `get_all_users` returns the list of users. -/
theorem getAllUsers_data {s : MyStorage} {user pass : Bytes}
    (h : (s.getAllUsers user pass).succeeded = true) :
    (s.getAllUsers user pass).data = MyStorage.userList s.authTable := by
  rw [MyStorage.getAllUsers_eq] at h ⊢
  split
  · next hsized =>
    rw [if_pos hsized] at h
    cases h
  · next hsized =>
    rw [if_neg hsized] at h
    split
    · rfl
    · next hlogin =>
      rw [if_neg hlogin] at h
      cases h

/-- The request does not ask for a name with a newline in it to be registered. -/
def SingleLine (r : Request) : Prop :=
  r.cmd = reqReg → WellSized r.user r.pass → (10 : UInt8) ∉ r.user

/-- When no name with a newline was registered, the list gives the names in the table. -/
theorem Requested.lines_getAllUsers {rs : List Request} {sv : Server} (h : Requested rs sv)
    (hrs : ∀ r ∈ rs, SingleLine r) {user pass : Bytes}
    (hsucc : (sv.storage.getAllUsers user pass).succeeded = true) :
    lines (sv.storage.getAllUsers user pass).data = keys sv.storage.authTable.entries := by
  rw [getAllUsers_data hsucc]
  refine lines_userList fun u hu => ?_
  obtain ⟨r, hr, hcmd, hsized, rfl⟩ := h.registered hu
  exact hrs r hr hcmd hsized

/-- After any two runs in which no `REG_` of the right size has a newline in its name, the
    lists of users are different if the sets of names are, and each reads as the names in
    the table. -/
theorem Requested.userList_unforged {rs₁ rs₂ : List Request} {sv₁ sv₂ : Server}
    (h₁ : Requested rs₁ sv₁) (h₂ : Requested rs₂ sv₂) (hrs₁ : ∀ r ∈ rs₁, SingleLine r)
    (hrs₂ : ∀ r ∈ rs₂, SingleLine r) {user₁ pass₁ user₂ pass₂ : Bytes}
    (hsucc₁ : (sv₁.storage.getAllUsers user₁ pass₁).succeeded = true)
    (hsucc₂ : (sv₂.storage.getAllUsers user₂ pass₂).succeeded = true) :
    ({u | u ∈ keys sv₁.storage.authTable.entries} ≠ {u | u ∈ keys sv₂.storage.authTable.entries} →
      (sv₁.storage.getAllUsers user₁ pass₁).data ≠ (sv₂.storage.getAllUsers user₂ pass₂).data) ∧
    lines (sv₁.storage.getAllUsers user₁ pass₁).data = keys sv₁.storage.authTable.entries ∧
    lines (sv₂.storage.getAllUsers user₂ pass₂).data = keys sv₂.storage.authTable.entries := by
  have hlines₁ := h₁.lines_getAllUsers hrs₁ hsucc₁
  have hlines₂ := h₂.lines_getAllUsers hrs₂ hsucc₂
  refine ⟨fun hne heq => hne ?_, hlines₁, hlines₂⟩
  rw [← hlines₁, ← hlines₂, heq]

/-- The next request of a run, as it comes in a packet. -/
theorem Requested.serve {rs : List Request} {sv : Server} (h : Requested rs sv)
    (faults : WriteFaults) {cmd user pass msg : Bytes} (hcmd : cmd.length = 4)
    (hfits : Fits user pass msg) (hne : user ++ (pass ++ msg) ≠ []) :
    Requested (rs ++ [⟨cmd, user, pass, msg⟩]) (sv.serve faults ⟨cmd, user, pass, msg⟩).2 := by
  obtain ⟨conn, c, c', stop, hread, hparse⟩ := parseRequest_packet hcmd hfits hne faults sv
  exact .parseRequest h hread hparse

/-- A server after the registrations of names with the password `pw`, one after the other. -/
def registeredServer (names : List Bytes) : Server :=
  names.foldl (fun sv name => (sv.serve .none ⟨reqReg, name, ascii "pw", []⟩).2) emptyServer

theorem requested_registeredServer {names : List Bytes}
    (h : ∀ name ∈ names, name.length ≤ lenUname) :
    Requested (names.map fun name => ⟨reqReg, name, ascii "pw", []⟩) (registeredServer names) := by
  -- By induction on the names, the last one first.
  induction names using List.reverseRecOn with
  | nil => exact .start _ _
  | append_singleton names name ih =>
    rw [List.map_append, registeredServer, List.foldl_append]
    have hfits : Fits name (ascii "pw") [] :=
      ⟨h name (List.mem_append_right _ List.mem_cons_self), by decide, by decide⟩
    have hne : name ++ (ascii "pw" ++ []) ≠ [] := List.append_ne_nil_of_right_ne_nil _ (by decide)
    exact (ih fun n hn => h n (List.mem_append_left _ hn)).serve .none rfl hfits hne

/-- The list of `alice` and `bob` is not that of `alice`. -/
theorem userList_unforged_alice_bob :
    (registeredServer [ascii "alice"]).storage.getAllUsers (ascii "alice") (ascii "pw") ≠
      (registeredServer [ascii "alice", ascii "bob"]).storage.getAllUsers (ascii "bob")
        (ascii "pw") := by
  have hsingle : ∀ name : Bytes, (10 : UInt8) ∉ name → SingleLine ⟨reqReg, name, ascii "pw", []⟩ :=
    fun _ h _ _ => h
  have h := @Requested.userList_unforged _ _ _ _
    (@requested_registeredServer [ascii "alice"] (by decide))
    (@requested_registeredServer [ascii "alice", ascii "bob"] (by decide))
    (by simpa using hsingle _ (by decide))
    (by simpa using ⟨hsingle _ (by decide), hsingle _ (by decide)⟩)
    (ascii "alice") (ascii "pw") (ascii "bob") (ascii "pw") (by decide +kernel) (by decide +kernel)
  refine fun heq => h.1 (fun hset => ?_) (congrArg Result.data heq)
  have hbob : ascii "bob" ∈ keys (registeredServer [ascii "alice"]).storage.authTable.entries := by
    have hmem := congrArg (fun s : Set Bytes => ascii "bob" ∈ s) hset
    exact hmem.mpr (by decide +kernel)
  exact absurd hbob (by decide +kernel)

/-- The list of one user with a newline in the name is that of two other users. -/
theorem userList_forged :
    ¬∀ (rs₁ rs₂ : List Request) (sv₁ sv₂ : Server), Requested rs₁ sv₁ → Requested rs₂ sv₂ →
      {u | u ∈ keys sv₁.storage.authTable.entries} ≠
        {u | u ∈ keys sv₂.storage.authTable.entries} →
      ∀ user₁ pass₁ user₂ pass₂ : Bytes,
        (sv₁.storage.getAllUsers user₁ pass₁).succeeded = true →
        (sv₂.storage.getAllUsers user₂ pass₂).succeeded = true →
        (sv₁.storage.getAllUsers user₁ pass₁).data ≠
          (sv₂.storage.getAllUsers user₂ pass₂).data := by
  intro h
  refine h _ _ _ _ (@requested_registeredServer [ascii "a\nb"] (by decide))
    (@requested_registeredServer [ascii "a", ascii "b"] (by decide)) (fun hset => ?_)
    (ascii "a\nb") (ascii "pw") (ascii "a") (ascii "pw") (by decide +kernel) (by decide +kernel)
    (by decide +kernel)
  have ha : ascii "a" ∈ keys (registeredServer [ascii "a\nb"]).storage.authTable.entries := by
    have hmem := congrArg (fun s : Set Bytes => ascii "a" ∈ s) hset
    exact hmem.mpr (by decide +kernel)
  exact absurd ha (by decide +kernel)

/-! ## The newline at the end -/

/-- The text is the list of the names, in any order, delimited by newlines. -/
structure NewlineDelimited (names : List Bytes) (text : Bytes) : Prop where
  noTrailing : text.getLast? ≠ some 10
  split : (text.splitOn 10).Perm names

/-- The data of a successful `get_all_users` ends with a newline, so it is not the
    newline-delimited list of the names: an empty name comes after them. -/
theorem getAllUsers_trailing {s : MyStorage} {user pass : Bytes} (hvalid : s.Valid user pass)
    (hnames : ∀ u ∈ keys s.authTable.entries, (10 : UInt8) ∉ u) :
    (s.getAllUsers user pass).data.getLast? = some 10 ∧
    (s.getAllUsers user pass).data.splitOn 10 = keys s.authTable.entries ++ [[]] ∧
    ¬NewlineDelimited (keys s.authTable.entries) (s.getAllUsers user pass).data := by
  have hdata : (s.getAllUsers user pass).data = MyStorage.userList s.authTable := by
    rw [MyStorage.getAllUsers_eq, if_neg (not_not.2 hvalid.1), if_pos hvalid.2]
  have hsplit := splitOn_userList hnames
  rw [hdata]
  refine ⟨?_, hsplit, fun h => ?_⟩
  · -- There is a last name, that of the user or another one.
    obtain ⟨e, he, -⟩ := hvalid.2
    have hmem : user ∈ keys s.authTable.entries := List.mem_map_of_mem (mem_of_lookup he)
    have hne := List.ne_nil_of_mem hmem
    rw [userList_eq, ← List.dropLast_append_getLast hne, List.flatMap_append, List.flatMap_cons,
      List.flatMap_nil, List.append_nil, ← List.append_assoc, List.getLast?_concat]
  · have hlength := h.split.length_eq
    rw [hsplit, List.length_append, List.length_singleton] at hlength
    omega

/-- The list of `alice` alone. -/
theorem getAllUsers_trailing_alice :
    (aliceServer.storage.getAllUsers (ascii "alice") (ascii "pw")).data.splitOn 10 =
      [ascii "alice", []] :=
  (getAllUsers_trailing (s := aliceServer.storage) (by decide +kernel) (by decide +kernel)).2.1

/-- The list of `alice` alone has a newline at its end. -/
theorem getAllUsers_not_delimited :
    ¬∀ (sv : Server) (user pass : Bytes), Reachable sv → sv.storage.Valid user pass →
      (∀ u ∈ keys sv.storage.authTable.entries, (10 : UInt8) ∉ u) →
      NewlineDelimited (keys sv.storage.authTable.entries)
        (sv.storage.getAllUsers user pass).data := by
  intro h
  have hlist := h aliceServer (ascii "alice") (ascii "pw") reachable_aliceServer
    (by decide +kernel) (by decide +kernel)
  exact hlist.noTrailing (by decide +kernel)

end UserDirectory
