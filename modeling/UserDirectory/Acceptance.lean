import Mathlib.Data.List.Induction
import UserDirectory.Faults
import UserDirectory.Restart

/-!
# The data files that are accepted

`load_file` accepts more than what `save_file` writes for a table of the live
server.

* `loadFile_live_iff`: it takes entries with an empty name or an empty
  password, which `add_user` refuses. Without them, a table that is loaded could
  be that of the live server (`Live`).
* `loadFile_savedBack_iff`: it skips the padding without looking at it. A save
  right after a load writes the same file exactly if the padding is there and
  zero (`ZeroPadded`).
-/

namespace UserDirectory

open Fuel Stdio AssocList

/-! ## Tables of the live server -/

/-- The storages after successful calls of `add_user` and `set_user_data` on an empty one. -/
inductive Obtained : MyStorage → Prop
  | new (filename : Bytes) : Obtained (.new filename)
  | addUser {s : MyStorage} {user pass : Bytes} : Obtained s →
    (s.addUser user pass).1.succeeded = true → Obtained (s.addUser user pass).2
  | setUserData {s : MyStorage} {user pass content : Bytes} : Obtained s →
    (s.setUserData user pass content).1.succeeded = true →
    Obtained (s.setUserData user pass content).2

/-- Neither the name nor the password of an entry is empty. -/
def NonemptyCredentials (es : List (Bytes × AuthTableEntry)) : Prop :=
  ∀ e ∈ es, e.1 ≠ [] ∧ e.2.password ≠ []

/-- The entries made by the calls are well-formed, with names and passwords. -/
theorem Obtained.entries {s : MyStorage} (h : Obtained s) :
    WellFormed s.authTable.entries ∧ NonemptyCredentials s.authTable.entries := by
  rw [WellFormed, NonemptyCredentials, ← forall₂_and]
  induction h with
  | new => exact fun e he => absurd he List.not_mem_nil
  | @addUser s user pass _ hsucc ih =>
    obtain ⟨⟨hu, hp⟩, hnew⟩ := MyStorage.addUser_succeeded_iff.1 hsucc
    rw [MyStorage.addUser_snd hsucc]
    intro e he
    rcases (MyStorage.mem_withUser hnew).1 he with he | rfl
    · exact ih e he
    · exact ⟨⟨rfl, hu.2, hp.2, Nat.zero_le _⟩, hu.1, hp.1⟩
  | @setUserData s user pass content _ hsucc ih =>
    have hlen := (MyStorage.setUserData_succeeded_iff.1 hsucc).2
    rw [MyStorage.setUserData_snd hsucc]
    intro e he
    rcases mem_adjust he with he | ⟨e', he', rfl⟩
    · exact ih e he
    · obtain ⟨⟨hkey, hs⟩, hne⟩ := ih _ he'
      exact ⟨⟨hkey, hs.username, hs.password, hlen⟩, hne⟩

/-- An entry is made by a registration and an update. -/
theorem Obtained.concat {s : MyStorage} (h : Obtained s) {e : AuthTableEntry}
    (hs : e.Storable) (hu : e.username ≠ []) (hp : e.password ≠ [])
    (hnew : e.username ∉ keys s.authTable.entries) :
    ∃ s', Obtained s' ∧ s'.filename = s.filename ∧
      s'.authTable.entries = s.authTable.entries ++ [(e.username, e)] := by
  have hsized : WellSized e.username e.password := ⟨⟨hu, hs.username⟩, hp, hs.password⟩
  have hadd := (@MyStorage.addUser_succeeded_iff s e.username e.password).2 ⟨hsized, hnew⟩
  have hobt := h.addUser hadd
  rw [MyStorage.addUser_snd hadd] at hobt
  have hreg : (s.withUser e.username e.password).Registered e.username e.password := by
    rw [MyStorage.registered_iff, MyStorage.lookup_withUser hnew, Function.update_self,
      Option.map_some]
  have hset := (@MyStorage.setUserData_succeeded_iff _ _ _ e.content).2 ⟨⟨hsized, hreg⟩, hs.content⟩
  have hobt' := hobt.setUserData hset
  rw [MyStorage.setUserData_snd hset] at hobt'
  refine ⟨_, hobt', rfl, ?_⟩
  simp only [MyStorage.withContent, MyStorage.withUser, SequentialMap.adjust,
    SequentialMap.insert_entries _ hnew, adjust_concat hnew]

/-- Well-formed entries with distinct names, and with names and passwords, can be made. -/
theorem exists_obtained (filename : Bytes) {es : List (Bytes × AuthTableEntry)}
    (hwf : WellFormed es) (hne : NonemptyCredentials es) (hnodup : (keys es).Nodup) :
    ∃ s, Obtained s ∧ s.filename = filename ∧ s.authTable.entries = es := by
  induction es using List.reverseRecOn with
  | nil => exact ⟨_, .new filename, rfl, rfl⟩
  | append_singleton es x ih =>
    obtain ⟨username, e⟩ := x
    obtain ⟨hwf', hx⟩ := List.forall_mem_append.1 hwf
    obtain ⟨hne', hxne⟩ := List.forall_mem_append.1 hne
    obtain ⟨hkey, hs⟩ := hx _ List.mem_cons_self
    obtain rfl : username = e.username := hkey
    obtain ⟨hu, hp⟩ := hxne _ List.mem_cons_self
    rw [keys_append, keys_cons, keys_nil, List.nodup_append] at hnodup
    obtain ⟨s, hobt, rfl, rfl⟩ := ih hwf' hne' hnodup.1
    exact hobt.concat hs hu hp fun hk => hnodup.2.2 _ hk _ List.mem_cons_self rfl

/-- The storages made by the calls, told by their entries. -/
theorem obtained_iff {s : MyStorage} :
    Obtained s ↔ WellFormed s.authTable.entries ∧ NonemptyCredentials s.authTable.entries := by
  refine ⟨Obtained.entries, fun h => ?_⟩
  obtain ⟨s', hobt, hfile, hes⟩ := exists_obtained s.filename h.1 h.2 s.authTable.nodup
  obtain ⟨table, filename⟩ := s
  obtain ⟨table', filename'⟩ := s'
  obtain rfl : filename' = filename := hfile
  obtain rfl : table' = table := SequentialMap.ext hes
  exact hobt

/-- The storage could be that of the live server, and all its users can authenticate. -/
structure Live (s : MyStorage) : Prop where
  obtained : Obtained s
  valid : ∀ e ∈ s.authTable.entries, (s.auth e.1 e.2.password).succeeded = true

/-- Every user of a storage made by the calls can authenticate. -/
theorem Obtained.live {s : MyStorage} (h : Obtained s) : Live s := by
  refine ⟨h, fun e he => ?_⟩
  obtain ⟨hwf, hne⟩ := h.entries
  obtain ⟨hkey, hs⟩ := hwf e he
  have hlookup : s.authTable.lookup e.1 = some e.2 := (mem_iff_lookup s.authTable.nodup).1 he
  rw [MyStorage.auth_succeeded, decide_eq_true_iff]
  exact ⟨⟨⟨(hne e he).1, hkey ▸ hs.username⟩, (hne e he).2, hs.password⟩, e.2, hlookup, rfl⟩

/-- If `load_file` succeeds, the table could be that of the live server. -/
def LiveLoad (faults : ReadFaults) (sv : Server) : Prop :=
  ∀ r sv', Returns (fun n => sv.loadFile n faults) (r, sv') → r.succeeded = true →
    Live sv'.storage

/-- A table that `load_file` loads could be that of the live server exactly if no record of a
    file that it accepts, up to a position with nothing to read, has an empty name or an
    empty password. -/
theorem loadFile_live_iff (faults : ReadFaults) (sv : Server) :
    LiveLoad faults sv ↔ ∀ es, LoadedFrom faults sv.dataFile es → NonemptyCredentials es := by
  constructor
  · intro h es hes
    obtain ⟨r, t, hr, hsucc, rfl⟩ := Server.loadFile_loaded hes
    exact (h r _ hr hsucc).obtained.entries.2
  · intro h r sv' hr hsucc
    obtain ⟨r', t, hr', hwf, hloaded⟩ := Server.loadFile_returns faults sv
    obtain ⟨rfl, rfl⟩ := Prod.mk.inj (hr.unique hr')
    exact (obtained_iff.2 ⟨hwf, h _ (hloaded hsucc)⟩).live

/-- A server that starts on a data file. -/
def serverOn (bytes : Bytes) : Server :=
  ⟨.new (ascii "company.dir"), fun name => if name = ascii "company.dir" then some bytes else none⟩

theorem dataFile_serverOn (bytes : Bytes) : (serverOn bytes).dataFile = some bytes := by
  simp only [Server.dataFile, serverOn, MyStorage.new, if_true]

/-- A file with a single record is loaded. -/
theorem loadFile_serverOn {bytes : Bytes} {e : AuthTableEntry} (hs : e.Storable)
    (hpre : record e.username e <+: bytes) (hlen : bytes.length ≤ recordSize e) : ∃ r t,
    Returns (fun n => (serverOn bytes).loadFile n .none) (r, (serverOn bytes).withTable t) ∧
      r.succeeded = true ∧ t.entries = [(e.username, e)] := by
  have hes : Entries bytes [(e.username, e)] :=
    .cons hs hpre (by rw [List.drop_eq_nil_of_le hlen]; exact .nil)
  exact Server.loadFile_none (dataFile_serverOn bytes) hes (List.nodup_singleton _)

/-- `alice` without a password. -/
def openAlice : AuthTableEntry := ⟨ascii "alice", [], []⟩

/-- The record of `alice` without a password is loaded, though she cannot authenticate. -/
theorem loadFile_openAlice_not_live :
    ¬LiveLoad .none (serverOn (paddedRecord openAlice.username openAlice)) := by
  intro h
  have hs : openAlice.Storable := ⟨by decide, by decide, by decide⟩
  obtain ⟨r, t, hr, hsucc, ht⟩ :=
    loadFile_serverOn hs (List.prefix_append _ _) (length_paddedRecord openAlice).le
  have hmem : (openAlice.username, openAlice) ∈ t.entries := ht ▸ List.mem_cons_self
  exact ((h r _ hr hsucc).obtained.entries.2 _ hmem).2 rfl

/-! ## Padding -/

/-- The bytes skipped after each record as its padding are there, and are zeros. -/
def ZeroPadded : Bytes → List (Bytes × AuthTableEntry) → Prop
  | _, [] => True
  | bytes, e :: es =>
    List.replicate (paddingOf (record e.1 e.2).length) 0 <+: bytes.drop (record e.1 e.2).length ∧
      ZeroPadded (bytes.drop (recordSize e.2)) es

theorem append_eq_iff {α : Type*} {as bs l : List α} :
    as ++ bs = l ↔ as <+: l ∧ bs = l.drop as.length := by
  constructor
  · rintro rfl
    exact ⟨List.prefix_append as bs, List.drop_left.symm⟩
  · rintro ⟨hpre, rfl⟩
    exact List.prefix_iff_eq_append.1 hpre

/-- A file is the image of the entries that it stands for iff it is padded with zeros. -/
theorem Entries.flatMap_eq_iff {bytes : Bytes} {es : List (Bytes × AuthTableEntry)}
    (h : Entries bytes es) :
    (es.flatMap fun e => paddedRecord e.1 e.2) = bytes ↔ ZeroPadded bytes es := by
  induction h with
  | nil => exact iff_of_true rfl trivial
  | @cons bytes e es _ hpre _ ih =>
    rw [List.flatMap_cons, paddedRecord, List.append_assoc, append_eq_iff, and_iff_right hpre,
      append_eq_iff, List.drop_drop, List.length_replicate, ZeroPadded, ← recordSize, ih]

/-- A file stands for at most one list of entries. -/
theorem Entries.unique {bytes : Bytes} {es es' : List (Bytes × AuthTableEntry)}
    (h : Entries bytes es) (h' : Entries bytes es') : es = es' := by
  induction h generalizing es' with
  | nil =>
    cases h' with
    | nil => rfl
    | cons _ hpre _ => exact absurd (List.prefix_nil.1 hpre) (record_ne_nil _ _)
  | @cons bytes e es hs hpre _ ih =>
    cases h' with
    | nil => exact absurd (List.prefix_nil.1 hpre) (record_ne_nil _ _)
    | @cons _ e' _ hs' hpre' hes' =>
      have hload : Loads .none ⟨bytes, 0⟩ e := loads_none hs hpre
      obtain rfl := hload.unique (loads_none hs' hpre')
      rw [ih hes']

/-- If `load_file` succeeds, a save right after it writes the same file again. -/
def SavedBack (sv : Server) : Prop :=
  ∀ r sv', Returns (fun n => sv.loadFile n .none) (r, sv') → r.succeeded = true →
    (sv'.saveFile .none).2.dataFile = sv.dataFile

/-- A file that is accepted is saved back exactly if each of its records is followed by all of
    its padding, and this is zero. -/
theorem loadFile_savedBack_iff {sv : Server} {bytes : Bytes} (hfile : sv.dataFile = some bytes) :
    SavedBack sv ↔ ∀ es, Entries bytes es → (keys es).Nodup → ZeroPadded bytes es := by
  constructor
  · intro h es hes hnodup
    obtain ⟨r, t, hr, hsucc, rfl⟩ := Server.loadFile_none hfile hes hnodup
    have hsaved := h r _ hr hsucc
    rw [saveFile_none (Server.loadFile_wellFormed hr), hfile] at hsaved
    exact hes.flatMap_eq_iff.1 (Option.some.inj hsaved)
  · intro h r sv' hr hsucc
    obtain ⟨r', t, pos, hr', hreaches, hend⟩ := @Server.loadFile_reaches sv .none bytes rfl hfile
    obtain ⟨rfl, rfl⟩ := Prod.mk.inj (hr.unique hr')
    -- What was loaded is what the file stands for.
    have hes := hreaches.entries_self_iff.2 ((hend hsucc).resolve_right Bool.false_ne_true)
    rw [saveFile_none (Server.loadFile_wellFormed hr), hfile]
    exact congrArg some (hes.flatMap_eq_iff.2 (h _ hes t.nodup))

/-- `alice` with a password. -/
def pwAlice : AuthTableEntry := ⟨ascii "alice", ascii "pw", []⟩

theorem pwAlice_storable : pwAlice.Storable := ⟨by decide, by decide, by decide⟩

/-- The padded record of `alice` is saved back. -/
theorem loadFile_savedBack_alice :
    SavedBack (serverOn (paddedRecord pwAlice.username pwAlice)) := by
  refine (loadFile_savedBack_iff (dataFile_serverOn _)).2 fun es hes _ => ?_
  have halice : Entries (paddedRecord pwAlice.username pwAlice) [(pwAlice.username, pwAlice)] :=
    .cons pwAlice_storable (List.prefix_append _ _)
      (by rw [List.drop_eq_nil_of_le (length_paddedRecord pwAlice).le]; exact .nil)
  rw [hes.unique halice, ← halice.flatMap_eq_iff, List.flatMap_singleton]

/-- The record of `alice` without its padding is loaded, and saved with it. -/
theorem loadFile_unpadded_not_savedBack :
    ¬SavedBack (serverOn (record pwAlice.username pwAlice)) := by
  intro h
  obtain ⟨r, t, hr, hsucc, ht⟩ :=
    loadFile_serverOn pwAlice_storable List.prefix_rfl (Nat.le_add_right _ _)
  have hsaved := h r _ hr hsucc
  have himage : image t = paddedRecord pwAlice.username pwAlice := by
    rw [image, ht, List.flatMap_singleton]
  rw [saveFile_none (Server.loadFile_wellFormed hr), dataFile_serverOn] at hsaved
  have hlen := congrArg List.length (himage.symm.trans (Option.some.inj hsaved))
  exact absurd hlen (by decide)

end UserDirectory
