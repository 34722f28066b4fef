import UserDirectory.Exchanges

/-!
# Independent clients

`REG_` and `SETP` treat the table as one cell for each user name: what they answer
and what they do is told by the entry of their user (`Request.onEntry`,
`serve_onEntry`). So such requests of different users are independent
(`independent_of_ne`), and however two clients with users of their own are
interleaved, each request gets the response that it gets when one client comes
after the other (`dispatches_interleaved`).
-/

namespace UserDirectory

open Stdio AssocList Machine

/-- What a `REG_` or a `SETP` answers, and what becomes of the entry of its user. -/
def Request.onEntry (r : Request) (e : Option AuthTableEntry) : Bytes × Option AuthTableEntry :=
  if r.cmd = reqReg then
    if ¬WellSized r.user r.pass then (resErrReqFmt ++ newline, e)
    else if e ≠ none then (resErrUserExists ++ newline, e)
    else (resOk, some ⟨r.user, r.pass, []⟩)
  else match unframe r.msg with
    | none => (resErrReqFmt, e)
    | some content =>
      if ¬(WellSized r.user r.pass ∧ content.length ≤ lenProfileFile) then
        (resErrReqFmt ++ newline, e)
      else if e.map AuthTableEntry.password = some r.pass then
        (resOk, e.map fun e => { e with content := content })
      else (resErrLogin ++ newline, e)

/-- The requests that treat the table as one cell for each user. -/
def Request.OnEntry (r : Request) : Prop := r.cmd = reqReg ∨ r.cmd = reqSet

instance (r : Request) : Decidable r.OnEntry := inferInstanceAs (Decidable (_ ∨ _))

variable {faults : WriteFaults} {r : Request} {sv : Server}

theorem addUser_onEntry (hcmd : r.cmd = reqReg) :
    (sv.storage.addUser r.user r.pass).1.status =
        (r.onEntry (sv.storage.authTable.lookup r.user)).1 ∧
      (sv.storage.addUser r.user r.pass).2.authTable.lookup =
        Function.update sv.storage.authTable.lookup r.user
          (r.onEntry (sv.storage.authTable.lookup r.user)).2 := by
  rw [Request.onEntry, if_pos hcmd, MyStorage.addUser_eq]
  by_cases hsized : WellSized r.user r.pass
  · by_cases hmem : r.user ∈ keys sv.storage.authTable.entries
    · have hsome : sv.storage.authTable.lookup r.user ≠ none := fun h =>
        SequentialMap.lookup_eq_none_iff.1 h hmem
      simp [hsized, hmem, hsome, Result.status, errorResult]
    · have hnone := SequentialMap.lookup_eq_none_iff.2 hmem
      simp [hsized, hmem, hnone, Result.status, MyStorage.lookup_withUser hmem]
  · simp [hsized, Result.status, errorResult]

theorem setUserData_onEntry {content : Bytes} (hcmd : r.cmd = reqSet)
    (hmsg : unframe r.msg = some content) :
    (sv.storage.setUserData r.user r.pass content).1.status =
        (r.onEntry (sv.storage.authTable.lookup r.user)).1 ∧
      (sv.storage.setUserData r.user r.pass content).2.authTable.lookup =
        Function.update sv.storage.authTable.lookup r.user
          (r.onEntry (sv.storage.authTable.lookup r.user)).2 := by
  have hreg : ¬r.cmd = reqReg := by
    rw [hcmd]
    decide
  rw [Request.onEntry, if_neg hreg, hmsg, MyStorage.setUserData_eq]
  by_cases hok : WellSized r.user r.pass ∧ content.length ≤ lenProfileFile
  · by_cases hlogin : sv.storage.Registered r.user r.pass
    · simp only [hok, hlogin, MyStorage.registered_iff.1 hlogin, and_self, not_true_eq_false,
        if_false, if_true]
      exact ⟨rfl, MyStorage.lookup_withContent⟩
    · have hpass := mt MyStorage.registered_iff.2 hlogin
      simp only [hok, hlogin, hpass, and_self, not_true_eq_false, if_false]
      exact ⟨rfl, (Function.update_eq_self _ _).symm⟩
  · simp only [hok, not_false_eq_true, if_true]
    exact ⟨rfl, (Function.update_eq_self _ _).symm⟩

/-- A `REG_` or a `SETP` is answered by the entry of its user, which is all that it changes. -/
theorem serve_onEntry (faults : WriteFaults) (hcmd : r.OnEntry) (sv : Server) :
    (sv.serve faults r).1 = ⟨some (r.onEntry (sv.storage.authTable.lookup r.user)).1, false⟩ ∧
      (sv.serve faults r).2.storage.authTable.lookup =
        Function.update sv.storage.authTable.lookup r.user
          (r.onEntry (sv.storage.authTable.lookup r.user)).2 := by
  rcases hcmd with hcmd | hcmd
  · obtain ⟨hreply, hlookup⟩ := @addUser_onEntry r sv hcmd
    rw [Server.serve_reg faults sv hcmd, hreply]
    exact ⟨rfl, hlookup⟩
  · rw [Server.serve_set faults sv hcmd]
    cases hmsg : unframe r.msg with
    | none =>
      have hreg : ¬r.cmd = reqReg := by
        rw [hcmd]
        decide
      rw [Request.onEntry, if_neg hreg, hmsg]
      exact ⟨rfl, (Function.update_eq_self _ _).symm⟩
    | some content =>
      obtain ⟨hreply, hlookup⟩ := @setUserData_onEntry r sv content hcmd hmsg
      exact ⟨congrArg (fun bytes => (⟨some bytes, false⟩ : Reply)) hreply, hlookup⟩

/-- The tables stand for the same partial function. -/
def SameLookup (sv sv' : Server) : Prop :=
  sv.storage.authTable.lookup = sv'.storage.authTable.lookup

theorem sameLookup_equivalence : Equivalence SameLookup :=
  ⟨fun _ => rfl, Eq.symm, Eq.trans⟩

/-- Such tables have the same entries, in some order. -/
theorem SameLookup.perm {sv sv' : Server} (h : SameLookup sv sv') :
    sv.storage.authTable.entries.Perm sv'.storage.authTable.entries :=
  perm_of_lookup_eq sv.storage.authTable.nodup sv'.storage.authTable.nodup (congrFun h)

/-- What an exchange with a `REG_` or a `SETP` does to the partial function. -/
theorem exchange_onEntry {x : Exchange} (hcmd : x.request.OnEntry) (sv : Server) :
    (exchange sv x).1 = Reply.outcome ⟨some (x.request.onEntry
        (sv.storage.authTable.lookup x.request.user)).1, false⟩ x.conn ∧
      (exchange sv x).2.storage.authTable.lookup =
        Function.update sv.storage.authTable.lookup x.request.user
          (x.request.onEntry (sv.storage.authTable.lookup x.request.user)).2 := by
  obtain ⟨hreply, hlookup⟩ := serve_onEntry x.faults hcmd sv
  exact ⟨congrArg (Reply.outcome · x.conn) hreply, hlookup⟩

theorem SameLookup.exchange {sv sv' : Server} (h : SameLookup sv sv') {x : Exchange}
    (hcmd : x.request.OnEntry) : (exchange sv x).1 = (UserDirectory.exchange sv' x).1 ∧
      SameLookup (UserDirectory.exchange sv x).2 (UserDirectory.exchange sv' x).2 := by
  obtain ⟨ho, hlookup⟩ := exchange_onEntry hcmd sv
  obtain ⟨ho', hlookup'⟩ := exchange_onEntry hcmd sv'
  rw [SameLookup] at h ⊢
  rw [ho, ho', hlookup, hlookup', h]
  exact ⟨rfl, rfl⟩

/-- Such exchanges of different users are independent. -/
theorem independent_of_ne {x y : Exchange} (hx : x.request.OnEntry) (hy : y.request.OnEntry)
    (hne : x.request.user ≠ y.request.user) : Independent exchange SameLookup x y where
  left sv := by
    rw [(exchange_onEntry hx _).1, (exchange_onEntry hx sv).1, (exchange_onEntry hy sv).2,
      Function.update_of_ne hne]
  right sv := by
    rw [(exchange_onEntry hy _).1, (exchange_onEntry hy sv).1, (exchange_onEntry hx sv).2,
      Function.update_of_ne hne.symm]
  state sv := by
    -- Neither changes the entry of the other.
    rw [SameLookup, (exchange_onEntry hx (exchange sv y).2).2,
      (exchange_onEntry hy (exchange sv x).2).2, (exchange_onEntry hx sv).2,
      (exchange_onEntry hy sv).2, Function.update_of_ne hne, Function.update_of_ne hne.symm,
      Function.update_comm hne]

/-- However two sequences of `REG_` and `SETP` without a common user are interleaved, each
    request has the outcome that it has when the sequences are dispatched one after the
    other; and the tables stand for the same partial function in the end, with the same
    entries in some order. -/
theorem dispatches_interleaved (sv : Server) {w : List (Exchange ⊕ Exchange)}
    (hcmd : ∀ x ∈ merged w, x.request.OnEntry)
    (hne : ∀ x ∈ lefts w, ∀ y ∈ rights w, x.request.user ≠ y.request.user) :
    ∃ (os : List (Outcome ⊕ Outcome)) (sv₁ sv₂ : Server),
      os.map Sum.isLeft = w.map Sum.isLeft ∧
      Dispatches sv (merged w) (merged os) sv₁ ∧
      Dispatches sv (lefts w ++ rights w) (lefts os ++ rights os) sv₂ ∧
      sv₁.storage.authTable.lookup = sv₂.storage.authTable.lookup ∧
      sv₁.storage.authTable.entries.Perm sv₂.storage.authTable.entries := by
  have hstep : ∀ x ∈ merged w, ∀ sv sv', SameLookup sv sv' →
      (exchange sv x).1 = (exchange sv' x).1 ∧ SameLookup (exchange sv x).2 (exchange sv' x).2 :=
    fun x hx _ _ h => h.exchange (hcmd x hx)
  have hind : ∀ x ∈ lefts w, ∀ y ∈ rights w, Independent exchange SameLookup x y :=
    fun x hx y hy => independent_of_ne (hcmd x (mem_merged_of_mem_lefts hx))
      (hcmd y (mem_merged_of_mem_rights hy)) (hne x hx y hy)
  obtain ⟨hl, hr, hend⟩ := run_interleaved sameLookup_equivalence hstep hind sv
  have hmerged := dispatches_run sv (merged w)
  have hseq := dispatches_run sv (lefts w ++ rights w)
  rw [run_merged] at hmerged
  rw [run_append, hl, hr] at hseq
  exact ⟨_, _, _, isLeft_run_tagged sv w, hmerged, hseq, hend, hend.perm⟩

/-- The registrations of `alice` and `bob`, with the update of `alice` in between. -/
theorem dispatches_interleaved_alice_bob : ∃ (os : List (Outcome ⊕ Outcome)) (sv₁ sv₂ : Server),
    os.map Sum.isLeft = [false, true, true] ∧
    Dispatches emptyServer [
      ⟨.none, ⟨reqReg, ascii "bob", ascii "pw", []⟩, .delivering []⟩,
      ⟨.none, ⟨reqReg, ascii "alice", ascii "pw", []⟩, .delivering []⟩,
      ⟨.none, ⟨reqSet, ascii "alice", ascii "pw", Client.setMsg (ascii "hi")⟩, .delivering []⟩]
      (merged os) sv₁ ∧
    Dispatches emptyServer [
      ⟨.none, ⟨reqReg, ascii "alice", ascii "pw", []⟩, .delivering []⟩,
      ⟨.none, ⟨reqSet, ascii "alice", ascii "pw", Client.setMsg (ascii "hi")⟩, .delivering []⟩,
      ⟨.none, ⟨reqReg, ascii "bob", ascii "pw", []⟩, .delivering []⟩]
      (lefts os ++ rights os) sv₂ ∧
    sv₁.storage.authTable.lookup = sv₂.storage.authTable.lookup ∧
    sv₁.storage.authTable.entries.Perm sv₂.storage.authTable.entries := by
  refine @dispatches_interleaved emptyServer [
    .inr ⟨.none, ⟨reqReg, ascii "bob", ascii "pw", []⟩, .delivering []⟩,
    .inl ⟨.none, ⟨reqReg, ascii "alice", ascii "pw", []⟩, .delivering []⟩,
    .inl ⟨.none, ⟨reqSet, ascii "alice", ascii "pw", Client.setMsg (ascii "hi")⟩,
      .delivering []⟩] ?_ ?_
  · simp only [merged, List.map_cons, List.map_nil, List.forall_mem_cons, List.not_mem_nil,
      false_imp_iff, implies_true, and_true]
    decide
  · decide

end UserDirectory
