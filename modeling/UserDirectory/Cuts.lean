import Mathlib.Data.List.Infix
import UserDirectory.Restart

/-!
# Data files cut short

What `load_file` makes of the front of a file that `save_file` has written.

* `Reaches.isPrefix`: on a file that stands for some entries, `load_file` loads
  an initial segment of them.
* `Reaches.of_isPrefix`: what it loads of the front of a file, it loads of the
  file; so a cut never changes an entry.
* `loadFile_cut`: the table loaded is an initial segment, and when success is
  reported, it has every entry of which a byte is left. The padding of the last
  one may be missing, since it is skipped without being read.
* `loadFile_uncut`: the whole file is loaded with success.
-/

namespace UserDirectory

open Fuel Stdio AssocList

/-- The bytes of the records of some entries, one after the other. -/
def offset (es : List (Bytes × AuthTableEntry)) : ℕ :=
  (es.flatMap fun e => paddedRecord e.1 e.2).length

theorem offset_append (es es' : List (Bytes × AuthTableEntry)) :
    offset (es ++ es') = offset es + offset es' := by
  rw [offset, List.flatMap_append, List.length_append, offset, offset]

variable {bytes p : Bytes} {pos : ℕ} {es es' : List (Bytes × AuthTableEntry)}

/-- The position reached is that after the records of the entries loaded. -/
theorem Reaches.pos_eq {faults : ReadFaults} (h : Reaches faults bytes pos es) :
    pos = offset es := by
  induction h with
  | start => rfl
  | next _ _ _ ih =>
    rw [offset_append, ih, offset, offset, List.flatMap_singleton, length_paddedRecord]

/-- A record that is loaded from the front of a file is loaded from the file. -/
theorem Loads.of_isPrefix {e : AuthTableEntry} (h : Loads .none ⟨p, pos⟩ e) (hp : p <+: bytes) :
    Loads .none ⟨bytes, pos⟩ e :=
  loads_none h.storable (h.reads.1.trans (hp.drop pos))

theorem Reaches.of_isPrefix (h : Reaches .none p pos es) (hp : p <+: bytes) :
    Reaches .none bytes pos es := by
  induction h with
  | start => exact .start
  | next _ hload hk ih => exact ih.next (hload.of_isPrefix hp) hk

/-- On a file that stands for some entries, an initial segment of them is loaded. -/
theorem Reaches.isPrefix (h : Reaches .none bytes pos es) (hes : Entries bytes es') :
    es <+: es' := by
  induction h with
  | start => exact List.nil_prefix
  | @next pos es e hreaches hload _ ih =>
    obtain ⟨rest, rfl⟩ := ih
    have hrest := hreaches.entries_iff.1 hes
    cases rest with
    | nil =>
      -- There is a record, so this is not the end.
      have hnil := entries_nil_iff.1 hrest
      rw [List.drop_eq_nil_iff] at hnil
      exact absurd hload.pos_lt (Nat.not_lt.2 hnil)
    | cons x rest =>
      obtain ⟨username, e'⟩ := x
      obtain ⟨rfl, hs, hpre, -⟩ := entries_cons_iff.1 hrest
      rw [hload.unique (loads_none hs hpre)]
      exact ⟨rest, by rw [List.append_assoc, List.singleton_append]⟩

/-- An entry that starts before the end of the file is loaded, if the end was reached. -/
theorem Reaches.mem_of_offset_lt {pre post : List (Bytes × AuthTableEntry)}
    {e : Bytes × AuthTableEntry} (h : Reaches .none p pos es) (hend : p.length ≤ pos)
    (hes : es <+: pre ++ e :: post) (hlt : offset pre < p.length) : pre ++ [e] <+: es := by
  have hpre : pre ++ [e] <+: pre ++ e :: post :=
    (List.prefix_append_right_inj pre).2 ⟨post, rfl⟩
  rcases List.prefix_or_prefix_of_prefix hpre hes with hle | hle
  · exact hle
  · -- Otherwise, the position reached would be before the entry.
    by_cases hlen : es.length ≤ pre.length
    · obtain ⟨rest, rfl⟩ :=
        List.prefix_of_prefix_length_le hes (List.prefix_append pre (e :: post)) hlen
      rw [offset_append] at hlt
      have hpos := h.pos_eq
      omega
    · exact (hle.eq_of_length_le (by rw [List.length_append, List.length_singleton]; omega)) ▸
        List.prefix_rfl

/-- `load_file`, on any front of the file that `save_file` writes for a reachable table, leaves
    an initial segment of the table, whatever it reports; and when it reports success, the
    segment has every entry of which the front has a byte. -/
theorem loadFile_cut {sv : Server} (hsv : Reachable sv)
    (hsaved : (sv.saveFile .none).2.dataFile = some bytes) (hp : p <+: bytes) {sv' : Server}
    (hfile : sv'.dataFile = some p) :
    ∃ r t, Returns (fun n => sv'.loadFile n .none) (r, sv'.withTable t) ∧
      t.entries <+: sv.storage.authTable.entries ∧
      (r.succeeded = true → ∀ pre e post, sv.storage.authTable.entries = pre ++ e :: post →
        offset pre < p.length → pre ++ [e] <+: t.entries) := by
  rw [saveFile_none hsv.wellFormed] at hsaved
  obtain rfl := Option.some.inj hsaved
  obtain ⟨r, t, pos, hr, hreaches, hend⟩ := @Server.loadFile_reaches sv' .none p rfl hfile
  have hpre := (hreaches.of_isPrefix hp).isPrefix (entries_image hsv.wellFormed)
  refine ⟨r, t, hr, hpre, fun hsucc pre e post hsplit hlt => ?_⟩
  have hle : p.length ≤ pos := (hend hsucc).resolve_right Bool.false_ne_true
  exact hreaches.mem_of_offset_lt hle (hsplit ▸ hpre) hlt

/-- The whole file is loaded with success, and gives the table back. -/
theorem loadFile_uncut {sv : Server} (hsv : Reachable sv)
    (hsaved : (sv.saveFile .none).2.dataFile = some bytes) {sv' : Server}
    (hfile : sv'.dataFile = some bytes) :
    ∃ r, Returns (fun n => sv'.loadFile n .none) (r, sv'.withTable sv.storage.authTable) ∧
      r.succeeded = true := by
  rw [saveFile_none hsv.wellFormed] at hsaved
  obtain rfl := Option.some.inj hsaved
  obtain ⟨r, t, hr, hsucc, ht⟩ := Server.loadFile_none hfile (entries_image hsv.wellFormed)
    sv.storage.authTable.nodup
  obtain rfl : t = sv.storage.authTable := SequentialMap.ext ht
  exact ⟨r, hr, hsucc⟩

/-- The file of `alice` and `bob`, cut before the padding of its last record, stands for both. -/
theorem entries_cut_aliceBob : Entries ((image aliceBobServer.storage.authTable).take 45)
    aliceBobServer.storage.authTable.entries := by
  have hentries : aliceBobServer.storage.authTable.entries =
      [(ascii "alice", ⟨ascii "alice", ascii "pw", []⟩),
        (ascii "bob", ⟨ascii "bob", ascii "pw", []⟩)] := by
    decide +kernel
  have halice : (⟨ascii "alice", ascii "pw", []⟩ : AuthTableEntry).Storable :=
    ⟨by decide, by decide, by decide⟩
  have hbob : (⟨ascii "bob", ascii "pw", []⟩ : AuthTableEntry).Storable :=
    ⟨by decide, by decide, by decide⟩
  rw [hentries]
  exact .cons halice (by decide +kernel) (.cons hbob (by decide +kernel)
    (entries_nil_iff.2 (by decide +kernel)))

/-- So both are loaded from it, with success. -/
theorem loadFile_cut_padding : ∃ r t,
    Returns (fun n => Server.loadFile n .none
      ⟨.new (ascii "company.dir"), fun _ => (image aliceBobServer.storage.authTable).take 45⟩)
      (r, Server.withTable
        ⟨.new (ascii "company.dir"), fun _ => (image aliceBobServer.storage.authTable).take 45⟩ t) ∧
    r.succeeded = true ∧ t.entries = aliceBobServer.storage.authTable.entries := by
  have hfile : Server.dataFile ⟨.new (ascii "company.dir"),
      fun _ => (image aliceBobServer.storage.authTable).take 45⟩ =
        some ((image aliceBobServer.storage.authTable).take 45) := rfl
  obtain ⟨r, t, hr, hpre, hall⟩ := loadFile_cut reachable_aliceBobServer
    (saveFile_none reachable_aliceBobServer.wellFormed) (List.take_prefix _ _) hfile
  obtain ⟨r', t', hr', hsucc, -⟩ := Server.loadFile_none hfile entries_cut_aliceBob
    aliceBobServer.storage.authTable.nodup
  obtain ⟨rfl, -⟩ := Prod.mk.inj (hr.unique hr')
  -- A byte is left of `bob`, who is the last one.
  have hlast := hall hsucc [(ascii "alice", ⟨ascii "alice", ascii "pw", []⟩)]
    (ascii "bob", ⟨ascii "bob", ascii "pw", []⟩) [] (by decide +kernel) (by decide +kernel)
  refine ⟨r, t, hr, hsucc, hpre.eq_of_length_le ?_⟩
  refine le_trans ?_ hlast.length_le
  decide +kernel

end UserDirectory
