import UserDirectory.Constants
import UserDirectory.SequentialMap

/-!
# The storage

The methods of `MyStorage` (`server/my_storage.cc`) behind the requests of
clients: `auth`, `add_user`, `set_user_data`, `get_user_data`, `get_all_users`.
(`save_file` and `load_file` are in `UserDirectory.Persistence`.)

Each is described by one equation over the partial function from user names to
entries: `auth_eq`, `addUser_eq`, `setUserData_eq`, `getUserData_eq`,
`getAllUsers_eq`. They ask the same two questions of a name and a password:

* are both 1 to 32 bytes long (`WellSized`), else `ERR_REQ_FMT`;
* is the password that of the entry of the name (`Registered`), else `ERR_LOGIN`.
-/

namespace UserDirectory

/-- One user stored in the authentication table. -/
structure AuthTableEntry where
  username : Bytes
  password : Bytes
  content : Bytes
  deriving DecidableEq, Repr

/-- The outcome of an operation (`Storage::result_t`): whether it succeeded, the
    message to send to the client, and additional content to send. -/
structure Result where
  succeeded : Bool
  msg : Bytes
  data : Bytes
  deriving DecidableEq, Repr

/-- The storage: the map of authentication information, indexed by username, and the
    name of the file to which it is persisted. -/
structure MyStorage where
  authTable : SequentialMap Bytes AuthTableEntry
  filename : Bytes

/-- The newline that the storage appends to its error codes. -/
def newline : Bytes := ascii "\n"

/-- `{false, code + "\n", {}}` -/
def errorResult (code : Bytes) : Result := ⟨false, code ++ newline, []⟩

/-- The size check at the start of every method. -/
def illSized (user pass : Bytes) : Bool :=
  user.isEmpty || decide (lenUname < user.length) ||
    pass.isEmpty || decide (lenPassword < pass.length)

namespace MyStorage

/-- An empty storage object. -/
def new (fname : Bytes) : MyStorage := ⟨.empty, fname⟩

/-- Authenticate a user. -/
def auth (s : MyStorage) (user pass : Bytes) : Result :=
  if illSized user pass then errorResult resErrReqFmt
  else
    let (_, authenticated) := s.authTable.doWithReadonly user
      (fun entry authenticated => if entry.password = pass then true else authenticated) false
    if authenticated then ⟨true, resOk, []⟩ else errorResult resErrLogin

/-- Create a new entry, with a zero-byte content, unless the user already exists. -/
def addUser (s : MyStorage) (user pass : Bytes) : Result × MyStorage :=
  if illSized user pass then (errorResult resErrReqFmt, s)
  else
    let (inserted, authTable) := s.authTable.insert user ⟨user, pass, []⟩
    let s := { s with authTable := authTable }
    if inserted then (⟨true, resOk, []⟩, s) else (errorResult resErrUserExists, s)

/-- Set the data bytes for a user, if the password matches. -/
def setUserData (s : MyStorage) (user pass content : Bytes) : Result × MyStorage :=
  if illSized user pass then (errorResult resErrReqFmt, s)
  else if lenProfileFile < content.length then (errorResult resErrReqFmt, s)
  else
    let (userFound, authTable, success) := s.authTable.doWith user
      (fun entry success =>
        if entry.password = pass then ({ entry with content := content }, true)
        else (entry, success)) false
    let s := { s with authTable := authTable }
    if !userFound || !success then (errorResult resErrLogin, s) else (⟨true, resOk, []⟩, s)

/-- Return a copy of the data of the user `who`, if the password of `user` matches. -/
def getUserData (s : MyStorage) (user pass who : Bytes) : Result :=
  if illSized user pass || who.isEmpty || decide (lenUname < who.length) then
    errorResult resErrReqFmt
  else
    let authResult := s.auth user pass
    if !authResult.succeeded then authResult
    else
      let (_, found, hasData, contentCopy) := s.authTable.doWithReadonly who
        (fun entry (_, hasData, contentCopy) =>
          if !entry.content.isEmpty then (true, true, entry.content)
          else (true, hasData, contentCopy)) (false, false, [])
      if !found then errorResult resErrNoUser
      else if !hasData then errorResult resErrNoData
      else ⟨true, resOk, contentCopy⟩

/-- Return a newline-delimited string containing all of the usernames. -/
def getAllUsers (s : MyStorage) (user pass : Bytes) : Result :=
  if illSized user pass then errorResult resErrReqFmt
  else
    let authResult := s.auth user pass
    if !authResult.succeeded then authResult
    else
      let usernames := s.authTable.doAllReadonly
        (fun username _ usernames => usernames ++ (username ++ newline)) []
      ⟨true, resOk, usernames⟩

end MyStorage

/-! ## The questions asked -/

/-- A name and a password of 1 to 32 bytes. -/
def WellSized (user pass : Bytes) : Prop :=
  (user ≠ [] ∧ user.length ≤ lenUname) ∧ pass ≠ [] ∧ pass.length ≤ lenPassword

instance (user pass : Bytes) : Decidable (WellSized user pass) :=
  inferInstanceAs (Decidable (_ ∧ _))

theorem illSized_eq (user pass : Bytes) : illSized user pass = !decide (WellSized user pass) := by
  rw [Bool.eq_iff_iff]
  simp only [illSized, WellSized, Bool.or_eq_true, List.isEmpty_iff, decide_eq_true_eq,
    Bool.not_eq_true']
  grind

namespace MyStorage

variable (s : MyStorage)

/-- The table maps the name to an entry with the password. -/
def Registered (user pass : Bytes) : Prop :=
  ∃ e ∈ s.authTable.lookup user, e.password = pass

instance (user pass : Bytes) : Decidable (s.Registered user pass) :=
  inferInstanceAs (Decidable (∃ e ∈ _, _))

/-- The credentials are valid: well-sized, and those of an entry. -/
def Valid (user pass : Bytes) : Prop := WellSized user pass ∧ s.Registered user pass

instance (user pass : Bytes) : Decidable (s.Valid user pass) :=
  inferInstanceAs (Decidable (_ ∧ _))

/-- The storage with a new entry at the end. -/
def withUser (user pass : Bytes) : MyStorage :=
  { s with authTable := (s.authTable.insert user ⟨user, pass, []⟩).2 }

/-- The storage with the content of an entry replaced. -/
def withContent (user content : Bytes) : MyStorage :=
  { s with authTable := s.authTable.adjust user fun e => { e with content := content } }

variable {s} {user pass content who : Bytes}

theorem registered_iff : s.Registered user pass ↔
    (s.authTable.lookup user).map AuthTableEntry.password = some pass :=
  Option.map_eq_some_iff.symm

theorem lookup_withUser (h : user ∉ AssocList.keys s.authTable.entries) :
    (s.withUser user pass).authTable.lookup =
      Function.update s.authTable.lookup user (some ⟨user, pass, []⟩) :=
  SequentialMap.lookup_insert _ h

theorem mem_withUser (h : user ∉ AssocList.keys s.authTable.entries)
    {e : Bytes × AuthTableEntry} : e ∈ (s.withUser user pass).authTable.entries ↔
      e ∈ s.authTable.entries ∨ e = (user, ⟨user, pass, []⟩) := by
  rw [withUser, SequentialMap.insert_entries _ h, List.mem_append, List.mem_singleton]

theorem lookup_withContent : (s.withContent user content).authTable.lookup =
    Function.update s.authTable.lookup user
      ((s.authTable.lookup user).map fun e => { e with content := content }) :=
  SequentialMap.lookup_adjust _

/-! ## What the methods do -/

theorem auth_eq : s.auth user pass =
    if ¬WellSized user pass then errorResult resErrReqFmt
    else if s.Registered user pass then ⟨true, resOk, []⟩ else errorResult resErrLogin := by
  rw [auth, illSized_eq]
  by_cases hw : WellSized user pass
  · simp only [hw, decide_true, Bool.not_true, Bool.false_eq_true, if_false, not_true_eq_false,
      SequentialMap.doWithReadonly_eq]
    cases he : s.authTable.lookup user with
    | none => simp [Registered, he]
    | some e => simp [Registered, he]
  · simp [hw]

/-- Authentication succeeds exactly on valid credentials. -/
theorem auth_succeeded : (s.auth user pass).succeeded = decide (s.Valid user pass) := by
  rw [auth_eq]
  simp only [Valid]
  by_cases hw : WellSized user pass
  · by_cases hr : s.Registered user pass <;> simp [hw, hr, errorResult]
  · simp [hw, errorResult]

theorem addUser_eq : s.addUser user pass =
    if ¬WellSized user pass then (errorResult resErrReqFmt, s)
    else if user ∈ AssocList.keys s.authTable.entries then (errorResult resErrUserExists, s)
    else (⟨true, resOk, []⟩, s.withUser user pass) := by
  rw [addUser, illSized_eq]
  by_cases hw : WellSized user pass
  · by_cases hk : user ∈ AssocList.keys s.authTable.entries
    · simp [hw, hk, SequentialMap.insert_of_mem]
    · simp [hw, hk, SequentialMap.insert_fst, withUser]
  · simp [hw]

/-- A registration succeeds iff it is of a name of the right size that is not in the table. -/
theorem addUser_succeeded_iff : (s.addUser user pass).1.succeeded = true ↔
    WellSized user pass ∧ user ∉ AssocList.keys s.authTable.entries := by
  rw [addUser_eq]
  split
  · next hsized => simp [hsized, errorResult]
  · next hsized =>
    split
    · next hmem => simp [hmem, errorResult]
    · next hnew => simp [not_not.1 hsized, hnew]

/-- A registration that succeeds adds an entry. -/
theorem addUser_snd (h : (s.addUser user pass).1.succeeded = true) :
    (s.addUser user pass).2 = s.withUser user pass := by
  obtain ⟨hsized, hnew⟩ := addUser_succeeded_iff.1 h
  rw [addUser_eq, if_neg (not_not.2 hsized), if_neg hnew]

/-- The update callback of `set_user_data` replaces the content if the password matches,
    and leaves the entry alone otherwise. -/
theorem adjust_set (m : SequentialMap Bytes AuthTableEntry) :
    m.adjust user (fun e => (if e.password = pass then
      ({ e with content := content }, true) else (e, false)).1) =
    if ∃ e ∈ m.lookup user, e.password = pass then
      m.adjust user fun e => { e with content := content }
    else m := by
  split
  · next h =>
    obtain ⟨e, he, hp⟩ := h
    -- The callback only sees the entry of the user.
    refine SequentialMap.adjust_congr fun e' he' => ?_
    obtain rfl : e = e' := Option.mem_unique he he'
    rw [if_pos hp]
  · next h =>
    refine (SequentialMap.adjust_congr fun e he => ?_).trans (@SequentialMap.adjust_id _ _ _ m user)
    rw [if_neg fun hp => h ⟨e, he, hp⟩, id]

theorem setUserData_eq : s.setUserData user pass content =
    if ¬(WellSized user pass ∧ content.length ≤ lenProfileFile) then (errorResult resErrReqFmt, s)
    else if s.Registered user pass then (⟨true, resOk, []⟩, s.withContent user content)
    else (errorResult resErrLogin, s) := by
  rw [setUserData, illSized_eq]
  by_cases hw : WellSized user pass
  · by_cases hc : content.length ≤ lenProfileFile
    · -- The callback says by `success` whether the password matched.
      obtain ⟨hfound, htable, hsuccess⟩ := s.authTable.doWith_eq user
        (fun (entry : AuthTableEntry) success =>
          if entry.password = pass then ({ entry with content := content }, true)
          else (entry, success)) false
      simp only [hw, hc, Nat.not_lt.2 hc, hfound, htable, hsuccess, adjust_set, decide_true,
        Bool.not_true, Bool.false_eq_true, if_false, and_self, not_true_eq_false]
      cases he : s.authTable.lookup user with
      | none => simp [Registered, he]
      | some e => by_cases hp : e.password = pass <;> simp [Registered, withContent, he, hp]
    · simp [hw, hc, Nat.lt_of_not_le hc]
  · simp [hw]

/-- An update succeeds iff it has the credentials of a user, and a content within the limit. -/
theorem setUserData_succeeded_iff : (s.setUserData user pass content).1.succeeded = true ↔
    s.Valid user pass ∧ content.length ≤ lenProfileFile := by
  rw [setUserData_eq, Valid]
  split
  · next hbad => exact iff_of_false (by simp [errorResult]) fun h => hbad ⟨h.1.1, h.2⟩
  · next hok =>
    rw [not_not] at hok
    split
    · next hreg => exact iff_of_true rfl ⟨⟨hok.1, hreg⟩, hok.2⟩
    · next hreg => exact iff_of_false (by simp [errorResult]) fun h => hreg h.1.2

/-- An update that succeeds replaces the content of an entry. -/
theorem setUserData_snd (h : (s.setUserData user pass content).1.succeeded = true) :
    (s.setUserData user pass content).2 = s.withContent user content := by
  obtain ⟨⟨hsized, hreg⟩, hlen⟩ := setUserData_succeeded_iff.1 h
  rw [setUserData_eq, if_neg (not_not.2 ⟨hsized, hlen⟩), if_pos hreg]

theorem getUserData_eq : s.getUserData user pass who =
    if ¬(WellSized user pass ∧ who ≠ [] ∧ who.length ≤ lenUname) then errorResult resErrReqFmt
    else if ¬s.Registered user pass then errorResult resErrLogin
    else match s.authTable.lookup who with
      | none => errorResult resErrNoUser
      | some e =>
        if e.content = [] then errorResult resErrNoData else ⟨true, resOk, e.content⟩ := by
  rw [getUserData, illSized_eq, auth_eq]
  by_cases hw : WellSized user pass
  · by_cases hwho : who ≠ [] ∧ who.length ≤ lenUname
    · by_cases hr : s.Registered user pass
      · cases he : s.authTable.lookup who with
        | none =>
          simp [hw, hr, hwho, Nat.not_lt.2 hwho.2, he, SequentialMap.doWithReadonly_eq,
            errorResult]
        | some e =>
          by_cases hc : e.content = [] <;>
            simp [hw, hr, hwho, Nat.not_lt.2 hwho.2, he, hc, SequentialMap.doWithReadonly_eq,
              errorResult]
      · simp [hw, hr, hwho, Nat.not_lt.2 hwho.2, errorResult]
    · -- The name asked for is checked with the credentials, before these are.
      have hbad : who = [] ∨ lenUname < who.length := by
        rwa [not_and_or, not_ne_iff, Nat.not_le] at hwho
      rcases hbad with h | h <;> simp [hw, hwho, h]
  · simp [hw]

/-- The text returned by `get_all_users`: every name followed by a newline. -/
def userList (m : SequentialMap Bytes AuthTableEntry) : Bytes :=
  m.entries.flatMap fun e => e.1 ++ newline

theorem getAllUsers_eq : s.getAllUsers user pass =
    if ¬WellSized user pass then errorResult resErrReqFmt
    else if s.Registered user pass then ⟨true, resOk, userList s.authTable⟩
    else errorResult resErrLogin := by
  rw [getAllUsers, illSized_eq, auth_eq]
  by_cases hw : WellSized user pass
  · by_cases hr : s.Registered user pass
    · simp [hw, hr, SequentialMap.doAllReadonly, userList, List.flatMap_eq_foldl]
    · simp [hw, hr, errorResult]
  · simp [hw]

end MyStorage

end UserDirectory
