import UserDirectory.Reachable

/-!
# The history of a storage

What the storage answers, told by the calls made of it so far and their results
(`History`), without its table:

* `firstReg`: the password of the first registration of a name that succeeded;
* `lastSet`: the content of the last update of a name that succeeded.

`History.agrees`: the table maps a name to its first registration and its last
update, which every call preserves (`Agrees.exec`). Hence what `get_user_data`
and `set_user_data` answer, after any history (`History.answers`).
-/

namespace UserDirectory

open Stdio AssocList

/-- The calls of the storage behind the requests. -/
inductive Call
  | addUser (user pass : Bytes)
  | setUserData (user pass content : Bytes)
  | getUserData (user pass who : Bytes)
  | getAllUsers (user pass : Bytes)
  | auth (user pass : Bytes)
  | saveFile (faults : WriteFaults)

namespace Call

/-- The result of a call, and the server after it. -/
def exec (sv : Server) : Call → Result × Server
  | addUser user pass =>
    ((sv.storage.addUser user pass).1, { sv with storage := (sv.storage.addUser user pass).2 })
  | setUserData user pass content =>
    ((sv.storage.setUserData user pass content).1,
      { sv with storage := (sv.storage.setUserData user pass content).2 })
  | getUserData user pass who => (sv.storage.getUserData user pass who, sv)
  | getAllUsers user pass => (sv.storage.getAllUsers user pass, sv)
  | auth user pass => (sv.storage.auth user pass, sv)
  | saveFile faults => sv.saveFile faults

/-- The password with which a call registered a name. -/
def registered (name : Bytes) : Call × Result → Option Bytes
  | (addUser user pass, r) => if user = name ∧ r.succeeded then some pass else none
  | _ => none

/-- The content that a call set for a name. -/
def accepted (name : Bytes) : Call × Result → Option Bytes
  | (setUserData user _ content, r) => if user = name ∧ r.succeeded then some content else none
  | _ => none

end Call

/-- The calls made since a storage was empty, with their results, and the server after them. -/
inductive History : List (Call × Result) → Server → Prop
  | start (filename : Bytes) (files : Files Bytes) : History [] ⟨.new filename, files⟩
  | call {hist : List (Call × Result)} {sv : Server} (c : Call) : History hist sv →
    History (hist ++ [(c, (c.exec sv).1)]) (c.exec sv).2

/-- The password of the first registration of a name that succeeded. -/
def firstReg (hist : List (Call × Result)) (name : Bytes) : Option Bytes :=
  hist.findSome? (Call.registered name)

/-- The content of the last update of a name that succeeded. -/
def lastSet (hist : List (Call × Result)) (name : Bytes) : Option Bytes :=
  hist.reverse.findSome? (Call.accepted name)

/-- The result of `get_user_data`, as told by the history. -/
def getAnswer (hist : List (Call × Result)) (user pass who : Bytes) : Result :=
  if firstReg hist user ≠ some pass then errorResult resErrLogin
  else if firstReg hist who = none then errorResult resErrNoUser
  else match lastSet hist who with
    | none => errorResult resErrNoData
    | some content => if content = [] then errorResult resErrNoData else ⟨true, resOk, content⟩

/-- The table maps a name to its first registration and its last update. -/
structure Agrees (hist : List (Call × Result)) (sv : Server) : Prop where
  lookup : ∀ name, sv.storage.authTable.lookup name =
    (firstReg hist name).map fun pass => ⟨name, pass, (lastSet hist name).getD []⟩
  lastSet : ∀ name, firstReg hist name = none → lastSet hist name = none

theorem firstReg_concat (hist : List (Call × Result)) (x : Call × Result) (name : Bytes) :
    firstReg (hist ++ [x]) name = (firstReg hist name).or (Call.registered name x) := by
  rw [firstReg, List.findSome?_append, List.findSome?_singleton, firstReg]

theorem lastSet_concat (hist : List (Call × Result)) (x : Call × Result) (name : Bytes) :
    lastSet (hist ++ [x]) name = (Call.accepted name x).or (lastSet hist name) := by
  rw [lastSet, List.reverse_append, List.reverse_singleton, List.singleton_append,
    List.findSome?_cons, lastSet]
  cases Call.accepted name x <;> rfl

section Step

variable {hist : List (Call × Result)} {sv : Server}

/-- A name is in the table iff it was registered. -/
theorem Agrees.mem_keys_iff (h : Agrees hist sv) {name : Bytes} :
    name ∈ keys sv.storage.authTable.entries ↔ firstReg hist name ≠ none := by
  rw [← not_iff_not, not_not, ← SequentialMap.lookup_eq_none_iff, h.lookup, Option.map_eq_none_iff]

/-- The password of a name is that of its first registration. -/
theorem Agrees.registered_iff (h : Agrees hist sv) {name pass : Bytes} :
    sv.storage.Registered name pass ↔ firstReg hist name = some pass := by
  rw [MyStorage.Registered, h.lookup]
  cases firstReg hist name with
  | none => simp
  | some pass' => simp

/-- A call that neither registers a name nor sets a content, and leaves the table alone. -/
theorem Agrees.concat_of_eq (h : Agrees hist sv) {x : Call × Result} {sv' : Server}
    (hreg : ∀ name, Call.registered name x = none) (hacc : ∀ name, Call.accepted name x = none)
    (htable : sv'.storage.authTable = sv.storage.authTable) : Agrees (hist ++ [x]) sv' where
  lookup name := by
    rw [htable, h.lookup, firstReg_concat, lastSet_concat, hreg, hacc, Option.or_none,
      Option.none_or]
  lastSet name hnone := by
    rw [firstReg_concat, hreg, Option.or_none] at hnone
    rw [lastSet_concat, hacc, Option.none_or, h.lastSet name hnone]

/-- A registration that succeeds. -/
theorem Agrees.concat_addUser (h : Agrees hist sv) {user pass : Bytes}
    (hnew : user ∉ keys sv.storage.authTable.entries) :
    Agrees (hist ++ [(.addUser user pass, ⟨true, resOk, []⟩)])
      { sv with storage := sv.storage.withUser user pass } where
  lookup name := by
    have hreg : firstReg hist user = none := by
      by_contra hsome
      exact hnew (h.mem_keys_iff.2 hsome)
    rw [MyStorage.lookup_withUser hnew, firstReg_concat, lastSet_concat]
    by_cases hname : name = user
    · -- A name that was not registered has no content either.
      subst hname
      simp [Call.registered, Call.accepted, hreg, h.lastSet _ hreg]
    · simp [Call.registered, Call.accepted, Function.update_of_ne hname, Ne.symm hname, h.lookup]
  lastSet name hnone := by
    rw [firstReg_concat, Option.or_eq_none_iff] at hnone
    rw [lastSet_concat, h.lastSet name hnone.1]
    rfl

/-- An update that succeeds. -/
theorem Agrees.concat_setUserData (h : Agrees hist sv) {user pass content : Bytes}
    (hreg : sv.storage.Registered user pass) :
    Agrees (hist ++ [(.setUserData user pass content, ⟨true, resOk, []⟩)])
      { sv with storage := sv.storage.withContent user content } where
  lookup name := by
    have hfirst := h.registered_iff.1 hreg
    rw [MyStorage.lookup_withContent, firstReg_concat, lastSet_concat]
    by_cases hname : name = user
    · -- The first registration stays the first.
      subst hname
      simp [Call.registered, Call.accepted, hfirst, h.lookup]
    · simp [Call.registered, Call.accepted, Function.update_of_ne hname, Ne.symm hname, h.lookup]
  lastSet name hnone := by
    rw [firstReg_concat, Option.or_eq_none_iff] at hnone
    have hname : user ≠ name := by
      rintro rfl
      rw [h.registered_iff.1 hreg] at hnone
      cases hnone.1
    rw [lastSet_concat, h.lastSet name hnone.1]
    simp [Call.accepted, hname]

/-- Every call preserves that the table agrees with the history. -/
theorem Agrees.exec (h : Agrees hist sv) (c : Call) :
    Agrees (hist ++ [(c, (c.exec sv).1)]) (c.exec sv).2 := by
  cases c with
  | addUser user pass =>
    simp only [Call.exec, MyStorage.addUser_eq]
    split
    · exact h.concat_of_eq (fun _ => by simp [Call.registered, errorResult]) (fun _ => rfl) rfl
    · split
      · exact h.concat_of_eq (fun _ => by simp [Call.registered, errorResult]) (fun _ => rfl) rfl
      · next hnew => exact h.concat_addUser hnew
  | setUserData user pass content =>
    simp only [Call.exec, MyStorage.setUserData_eq]
    split
    · exact h.concat_of_eq (fun _ => rfl) (fun _ => by simp [Call.accepted, errorResult]) rfl
    · split
      · next hreg => exact h.concat_setUserData hreg
      · exact h.concat_of_eq (fun _ => rfl) (fun _ => by simp [Call.accepted, errorResult]) rfl
  -- The other calls only read the table.
  | getUserData user pass who => exact h.concat_of_eq (fun _ => rfl) (fun _ => rfl) rfl
  | getAllUsers user pass => exact h.concat_of_eq (fun _ => rfl) (fun _ => rfl) rfl
  | auth user pass => exact h.concat_of_eq (fun _ => rfl) (fun _ => rfl) rfl
  | saveFile faults =>
    exact h.concat_of_eq (fun _ => rfl) (fun _ => rfl)
      (congrArg MyStorage.authTable (Server.saveFile_storage faults sv))

end Step

/-- The table agrees with every history. -/
theorem History.agrees {hist : List (Call × Result)} {sv : Server} (h : History hist sv) :
    Agrees hist sv := by
  induction h with
  | start => exact ⟨fun _ => rfl, fun _ _ => rfl⟩
  | call c _ ih => exact ih.exec c

/-- The registration of a name that succeeded is its first, since it is its only one. -/
theorem History.registered_of_mem {hist : List (Call × Result)} {sv : Server} (h : History hist sv)
    {user pass : Bytes} {r : Result} (hmem : (Call.addUser user pass, r) ∈ hist)
    (hr : r.succeeded = true) : WellSized user pass ∧ firstReg hist user = some pass := by
  induction h with
  | start => exact absurd hmem List.not_mem_nil
  | @call hist sv c h ih =>
    rw [firstReg_concat]
    rcases List.mem_append.1 hmem with hmem | hmem
    · obtain ⟨hsized, hfirst⟩ := ih hmem
      rw [hfirst, Option.some_or]
      exact ⟨hsized, rfl⟩
    · -- The last call: it succeeded, so the name was not in the table.
      obtain ⟨rfl, rfl⟩ := Prod.mk.inj (List.mem_singleton.1 hmem)
      obtain ⟨hsized, hnew⟩ := MyStorage.addUser_succeeded_iff.1 hr
      have hfirst : firstReg hist user = none := by
        by_contra hsome
        exact hnew (h.agrees.mem_keys_iff.2 hsome)
      refine ⟨hsized, ?_⟩
      rw [hfirst, Option.none_or, Call.registered, if_pos ⟨rfl, hr⟩]

/-- The first registration of a name is a call of the history. -/
theorem mem_of_firstReg {hist : List (Call × Result)} {user pass : Bytes}
    (h : firstReg hist user = some pass) :
    ∃ r, (Call.addUser user pass, r) ∈ hist ∧ r.succeeded = true := by
  obtain ⟨⟨c, r⟩, hmem, hreg⟩ := List.exists_of_findSome?_eq_some h
  cases c with
  | addUser user' pass' =>
    rw [Call.registered, Option.ite_none_right_eq_some] at hreg
    obtain ⟨⟨rfl, hr⟩, hpass⟩ := hreg
    cases hpass
    exact ⟨r, hmem, hr⟩
  | _ => cases hreg

/-- What `get_user_data` answers after a history. -/
theorem History.getUserData_eq {hist : List (Call × Result)} {sv : Server} (h : History hist sv)
    {user pass who : Bytes} (hsized : WellSized user pass)
    (hwho : who ≠ [] ∧ who.length ≤ lenUname) :
    sv.storage.getUserData user pass who = getAnswer hist user pass who := by
  rw [MyStorage.getUserData_eq, if_neg (not_not.2 ⟨hsized, hwho⟩), getAnswer]
  simp only [h.agrees.registered_iff, h.agrees.lookup, ne_eq]
  cases firstReg hist who with
  | none => rfl
  | some pass' => cases lastSet hist who with
    | none => rfl
    | some content => rfl

/-- What `set_user_data` answers after a history. -/
theorem History.setUserData_succeeded_iff {hist : List (Call × Result)} {sv : Server}
    (h : History hist sv) {user pass content : Bytes} :
    (sv.storage.setUserData user pass content).1.succeeded = true ↔
      (∃ r, (Call.addUser user pass, r) ∈ hist ∧ r.succeeded = true) ∧
        content.length ≤ lenProfileFile := by
  have hmem : (∃ r, (Call.addUser user pass, r) ∈ hist ∧ r.succeeded = true) ↔
      sv.storage.Valid user pass := by
    rw [MyStorage.Valid, h.agrees.registered_iff]
    constructor
    · rintro ⟨r, hmem, hr⟩
      exact h.registered_of_mem hmem hr
    · exact fun hreg => mem_of_firstReg hreg.2
  rw [MyStorage.setUserData_succeeded_iff, hmem]

/-- After any history, `get_user_data` with fields of the right size gives `ERR_LOGIN`,
    `ERR_NO_USER`, `ERR_NO_DATA` or the content last set, as the history tells; and
    `set_user_data` succeeds exactly on the name and the password of a registration that
    succeeded, with a content within the limit. -/
theorem History.answers {hist : List (Call × Result)} {sv : Server} (h : History hist sv) :
    (∀ user pass who, WellSized user pass → who ≠ [] ∧ who.length ≤ lenUname →
      ((Call.getUserData user pass who).exec sv).1 = getAnswer hist user pass who) ∧
    ∀ user pass content, ((Call.setUserData user pass content).exec sv).1.succeeded = true ↔
      (∃ r, (Call.addUser user pass, r) ∈ hist ∧ r.succeeded = true) ∧
        content.length ≤ lenProfileFile :=
  ⟨fun _ _ _ hsized hwho => h.getUserData_eq hsized hwho,
    fun _ _ _ => h.setUserData_succeeded_iff⟩

/-- After `alice` is registered and sets a content, it is what she gets. -/
theorem answers_alice : ∃ hist sv, History hist sv ∧
    firstReg hist (ascii "alice") = some (ascii "pw") ∧
    lastSet hist (ascii "alice") = some (ascii "hello") ∧
    ((Call.getUserData (ascii "alice") (ascii "pw") (ascii "alice")).exec sv).1 =
      ⟨true, resOk, ascii "hello"⟩ ∧
    ((Call.setUserData (ascii "alice") (ascii "pw") []).exec sv).1.succeeded = true := by
  have h := ((History.start (ascii "company.dir") fun _ => none).call
    (.addUser (ascii "alice") (ascii "pw"))).call
    (.setUserData (ascii "alice") (ascii "pw") (ascii "hello"))
  obtain ⟨hget, hset⟩ := h.answers
  refine ⟨_, _, h, by decide +kernel, by decide +kernel, ?_, ?_⟩
  · rw [hget _ _ _ (by decide) (by decide)]
    decide +kernel
  · exact (hset _ _ _).2 ⟨mem_of_firstReg (by decide +kernel), by decide⟩

end UserDirectory
