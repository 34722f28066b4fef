import UserDirectory.Persistence

/-!
# What `save_file` does

`save_file` writes the blocks of every entry to a temporary file, and renames it.

* `saved`: what is in the temporary file after the flush; the image of the
  table, exactly if no write is cut short (`saved_eq_image_iff`).
* `Server.saveFile_dataFile`: this is the data file afterwards, unless `fopen`
  or `rename` fails, and then nothing changes.
-/

namespace UserDirectory

open Stdio

/-- The blocks written for an entry. -/
def entryBlocks (username : Bytes) (entry : AuthTableEntry) : List Bytes :=
  [authentry, word (.ofNat username.length), word (.ofNat entry.password.length),
    word (.ofNat entry.content.length), username, entry.password] ++
  (if 0 < UInt32.ofNat entry.content.length then [entry.content] else []) ++
  List.replicate (paddingOf (record username entry).length) [0]

/-- The blocks written for a table. -/
def blocks (m : SequentialMap Bytes AuthTableEntry) : List Bytes :=
  m.entries.flatMap fun e => entryBlocks e.1 e.2

theorem saveEntry_eq (faults : WriteFaults) (username : Bytes) (entry : AuthTableEntry)
    (file : Writer) :
    saveEntry faults username entry file = file.fwriteAll faults (entryBlocks username entry) := by
  rw [entryBlocks, length_record, Writer.fwriteAll_append, Writer.fwriteAll_append]
  simp only [saveEntry, Writer.fwriteAll_cons, Writer.fwriteAll_nil, length_authentry]
  split
  · rw [Writer.fwriteAll_cons, Writer.fwriteAll_nil]
  · rw [Writer.fwriteAll_nil]

/-- The stream of `save_file` is written block by block. -/
theorem doAllReadonly_saveEntry (faults : WriteFaults) (m : SequentialMap Bytes AuthTableEntry) :
    m.doAllReadonly (saveEntry faults) .empty = Writer.empty.fwriteAll faults (blocks m) := by
  rw [SequentialMap.doAllReadonly, blocks]
  generalize Writer.empty = w
  induction m.entries generalizing w with
  | nil => rfl
  | cons e es ih =>
    rw [List.foldl_cons, ih, saveEntry_eq, List.flatMap_cons, Writer.fwriteAll_append]

/-- The blocks of a content of less than `2 ^ 32` bytes are its record. -/
theorem flatten_entryBlocks {username : Bytes} {entry : AuthTableEntry}
    (h : entry.content.length < 2 ^ 32) :
    (entryBlocks username entry).flatten = paddedRecord username entry := by
  have hcontent : (if 0 < UInt32.ofNat entry.content.length then [entry.content] else []).flatten =
      entry.content := by
    by_cases hc : entry.content = []
    · -- An empty content is not written, but has no bytes either.
      simp [hc]
    · have hpos : 0 < UInt32.ofNat entry.content.length := by
        rw [UInt32.lt_iff_toNat_lt, UInt32.toNat_ofNat_of_lt' h]
        exact List.length_pos_of_ne_nil hc
      rw [if_pos hpos, List.flatten_singleton]
  rw [entryBlocks, paddedRecord, List.flatten_append, List.flatten_append,
    List.flatten_replicate_singleton, hcontent]
  simp only [record, List.flatten_cons, List.flatten_nil, List.append_assoc, List.append_nil]

/-- The blocks of a table are its image. -/
theorem flatten_blocks {m : SequentialMap Bytes AuthTableEntry} (h : WellFormed m.entries) :
    (blocks m).flatten = image m := by
  rw [blocks, image]
  rw [WellFormed] at h
  revert h
  induction m.entries with
  | nil => exact fun _ => rfl
  | cons e es ih =>
    intro h
    rw [List.forall_mem_cons] at h
    have hlt : e.2.content.length < 2 ^ 32 := lt_of_le_of_lt h.1.2.content (by decide)
    rw [List.flatMap_cons, List.flatMap_cons, List.flatten_append, ih h.2, flatten_entryBlocks hlt]

theorem tempFilename_ne (filename : Bytes) : tempFilename filename ≠ filename := by
  intro h
  have hlen := congrArg List.length h
  rw [tempFilename, List.length_append] at hlen
  exact absurd hlen (by simp [ascii])

/-- What the flush of the temporary file leaves in it. -/
def saved (faults : WriteFaults) (m : SequentialMap Bytes AuthTableEntry) : Bytes :=
  (Writer.empty.fwriteAll faults (blocks m)).flushed faults

/-- The image is saved iff no write is cut short. -/
theorem saved_eq_image_iff {faults : WriteFaults} {m : SequentialMap Bytes AuthTableEntry}
    (h : WellFormed m.entries) : saved faults m = image m ↔ faults.Complete (blocks m) := by
  rw [← flatten_blocks h]
  exact Writer.flushed_eq_iff faults (blocks m)

namespace Server

variable {sv : Server}

theorem saveFile_storage (faults : WriteFaults) (sv : Server) :
    (sv.saveFile faults).2.storage = sv.storage := by
  rw [saveFile]
  split
  · rfl
  · dsimp only
    split <;> rfl

/-- `save_file` succeeds unless `fopen` or `rename` fails. -/
theorem saveFile_succeeded (faults : WriteFaults) (sv : Server) :
    (sv.saveFile faults).1 = if faults.fopen ∨ faults.rename then errorResult resErrServer
      else ⟨true, resOk, []⟩ := by
  rw [saveFile]
  cases hf : faults.fopen <;> cases hr : faults.rename <;> simp

/-- When `save_file` succeeds, the data file is what the flush left. -/
theorem saveFile_dataFile (faults : WriteFaults) (sv : Server) :
    (sv.saveFile faults).2.dataFile = if faults.fopen ∨ faults.rename then sv.dataFile
      else some (saved faults sv.storage.authTable) := by
  have hne : sv.storage.filename ≠ tempFilename sv.storage.filename :=
    (tempFilename_ne sv.storage.filename).symm
  rw [dataFile, saveFile_storage, saveFile, doAllReadonly_saveEntry]
  cases hf : faults.fopen
  · cases hr : faults.rename
    · simp [rename, saved]
    · simp [Function.update_of_ne hne, dataFile]
  · simp [dataFile]

end Server

end UserDirectory
