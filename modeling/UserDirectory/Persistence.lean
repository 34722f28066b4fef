import UserDirectory.Library.Fuel
import UserDirectory.Library.LittleEndian
import UserDirectory.Library.Stdio
import UserDirectory.MyStorage

/-!
# Saving and loading the storage

`MyStorage::save_file` and `MyStorage::load_file` (`server/my_storage.cc`), and
the format of the data file. The file holds a *record* for each entry of the
table: the header `AUTH`, the three lengths, the three fields, and up to three
bytes of padding.

* `Entries`: the entries that the bytes of a file stand for.
* `entries_image`: the image of a table stands for its entries.
-/

namespace UserDirectory

open Stdio Fuel LittleEndian AssocList

/-- A `uint32_t` as it is in memory, hence in the file. -/
def word (n : UInt32) : Bytes := encode 4 n.toNat

@[simp] theorem length_word (n : UInt32) : (word n).length = 4 := length_encode 4 _

@[simp] theorem decode_word (n : UInt32) : decode (word n) = n.toNat :=
  decode_encode_of_lt n.toNat_lt

/-- Four bytes are the word of the number they encode. -/
theorem word_decode {bs : Bytes} (h : bs.length = 4) : word (.ofNat (decode bs)) = bs := by
  have hlt : decode bs < 2 ^ 32 := by
    have := decode_lt bs
    rwa [h] at this
  rw [word, UInt32.toNat_ofNat_of_lt' hlt, ← h, encode_decode]

/-- A length within a limit fits in a word. -/
theorem toNat_ofNat_length {bs : Bytes} {limit : ℕ} (h : bs.length ≤ limit)
    (hlimit : limit < 2 ^ 32 := by decide) : (UInt32.ofNat bs.length).toNat = bs.length :=
  UInt32.toNat_ofNat_of_lt' (lt_of_le_of_lt h hlimit)

/-- The number of bytes of padding after `len` bytes. -/
def paddingOf (len : ℕ) : ℕ := (4 - len % 4) % 4

/-- The storage of a server, and the files of the directory that it runs in. -/
structure Server where
  storage : MyStorage
  files : Files Bytes

/-- The data file of a server, if there is one. -/
def Server.dataFile (sv : Server) : Option Bytes := sv.files sv.storage.filename

/-! ## `save_file` -/

/-- The callback of `save_file`, which writes an entry. -/
def saveEntry (faults : WriteFaults) (username : Bytes) (entry : AuthTableEntry) (file : Writer) :
    Writer :=
  let (_, file) := file.fwrite faults authentry
  let unameLen := UInt32.ofNat username.length
  let passLen := UInt32.ofNat entry.password.length
  let contentLen := UInt32.ofNat entry.content.length
  let (_, file) := file.fwrite faults (word unameLen)
  let (_, file) := file.fwrite faults (word passLen)
  let (_, file) := file.fwrite faults (word contentLen)
  let (_, file) := file.fwrite faults username
  let (_, file) := file.fwrite faults entry.password
  let file := if 0 < contentLen then (file.fwrite faults entry.content).2 else file
  let totalLen := authentry.length + 3 * 4 + username.length + entry.password.length +
    entry.content.length
  file.fwriteAll faults (List.replicate (paddingOf totalLen) [0])

/-- The name of the temporary file. -/
def tempFilename (filename : Bytes) : Bytes := filename ++ ascii ".tmp"

namespace Server

/-- Write the entire storage to a temporary file, and rename it. -/
def saveFile (faults : WriteFaults) (sv : Server) : Result × Server :=
  let temp := tempFilename sv.storage.filename
  if faults.fopen then (errorResult resErrServer, sv)
  else
    let file := sv.storage.authTable.doAllReadonly (saveEntry faults) .empty
    let files := Function.update sv.files temp (some (file.flushed faults))
    if faults.rename then (errorResult resErrServer, { sv with files := files })
    else (⟨true, resOk, []⟩, { sv with files := rename files temp sv.storage.filename })

end Server

/-! ## `load_file` -/

/-- The body of the loop of `load_file` after the header: `none` on any error. -/
def loadEntry (faults : ReadFaults) (file : Reader) : Option (AuthTableEntry × Reader) := do
  let (unameLen, file) ← file.freadAll faults 4
  let (passLen, file) ← file.freadAll faults 4
  let (contentLen, file) ← file.freadAll faults 4
  let unameLen := decode unameLen
  let passLen := decode passLen
  let contentLen := decode contentLen
  if lenUname < unameLen ∨ lenPassword < passLen ∨ lenProfileFile < contentLen then none
  else
    let (username, file) ← file.freadAll faults unameLen
    let (password, file) ← file.freadAll faults passLen
    let (content, file) ←
      (if 0 < contentLen then file.freadAll faults contentLen else some ([], file) : Option _)
    let padding := paddingOf (4 + 3 * 4 + unameLen + passLen + contentLen)
    let file ← (if 0 < padding then file.fseek faults padding else some file : Option _)
    return (⟨username, password, content⟩, file)

/-- The variables of the loop of `load_file`. -/
structure LoadState where
  file : Reader
  authTable : SequentialMap Bytes AuthTableEntry

/-- One pass of the loop of `load_file`, which ends with whether the file was loaded. -/
def loadPass (faults : ReadFaults) (s : LoadState) :
    LoadState ⊕ (Bool × SequentialMap Bytes AuthTableEntry) :=
  let (header, file) := s.file.fread faults 4
  -- Nothing read is taken for the end of the file, which it need not be.
  if header.length = 0 then .inr (true, s.authTable)
  else if header.length ≠ 4 ∨ header ≠ authentry then .inr (false, s.authTable)
  else match loadEntry faults file with
    | none => .inr (false, s.authTable)
    | some (entry, file) =>
      let (inserted, authTable) := s.authTable.insert entry.username entry
      if inserted then .inl ⟨file, authTable⟩ else .inr (false, authTable)

namespace Server

/-- The server with another table. -/
def withTable (sv : Server) (authTable : SequentialMap Bytes AuthTableEntry) : Server :=
  { sv with storage := { sv.storage with authTable := authTable } }

/-- Populate the storage from the data file. -/
def loadFile (fuel : ℕ) (faults : ReadFaults) (sv : Server) : Option (Result × Server) :=
  let authTable := sv.storage.authTable.clear
  match Reader.fopen faults sv.files sv.storage.filename with
  | none =>
    some (⟨true, ascii "File not found: " ++ sv.storage.filename, []⟩, sv.withTable authTable)
  | some file =>
    (loop (loadPass faults) fuel ⟨file, authTable⟩).map fun (loaded, authTable) =>
      (if loaded then ⟨true, ascii "Loaded: " ++ sv.storage.filename, []⟩
        else errorResult resErrServer, sv.withTable authTable)

end Server

/-! ## The format of the data file -/

/-- The record of an entry, without its padding. -/
def record (username : Bytes) (entry : AuthTableEntry) : Bytes :=
  authentry ++ (word (.ofNat username.length) ++ (word (.ofNat entry.password.length) ++
    (word (.ofNat entry.content.length) ++ (username ++ (entry.password ++ entry.content)))))

theorem length_record (username : Bytes) (entry : AuthTableEntry) :
    (record username entry).length =
      4 + 3 * 4 + username.length + entry.password.length + entry.content.length := by
  simp only [record, List.length_append, length_word, length_authentry]
  omega

theorem record_ne_nil (username : Bytes) (entry : AuthTableEntry) :
    record username entry ≠ [] := by
  rw [← List.length_pos_iff_ne_nil, length_record]
  omega

/-- The record of an entry, padded with zeros. -/
def paddedRecord (username : Bytes) (entry : AuthTableEntry) : Bytes :=
  record username entry ++ List.replicate (paddingOf (record username entry).length) 0

/-- The length of a record with its padding. -/
def recordSize (entry : AuthTableEntry) : ℕ :=
  (record entry.username entry).length + paddingOf (record entry.username entry).length

theorem length_paddedRecord (entry : AuthTableEntry) :
    (paddedRecord entry.username entry).length = recordSize entry := by
  rw [recordSize, paddedRecord, List.length_append, List.length_replicate]

/-- The fields of an entry are no longer than the limits. -/
structure AuthTableEntry.Storable (e : AuthTableEntry) : Prop where
  username : e.username.length ≤ lenUname
  password : e.password.length ≤ lenPassword
  content : e.content.length ≤ lenProfileFile

/-- The entries of a table that can be saved and loaded: the key of each is its name, and
    its fields are within the limits. -/
def WellFormed (es : List (Bytes × AuthTableEntry)) : Prop :=
  ∀ e ∈ es, e.1 = e.2.username ∧ e.2.Storable

/-- The image of a table: the records of its entries, padded with zeros. -/
def image (m : SequentialMap Bytes AuthTableEntry) : Bytes :=
  m.entries.flatMap fun e => paddedRecord e.1 e.2

/-- The entries that the bytes of a file stand for: one record after the other, each
    followed by the bytes of its padding, which may be missing at the end. -/
inductive Entries : Bytes → List (Bytes × AuthTableEntry) → Prop
  | nil : Entries [] []
  | cons {bytes : Bytes} {e : AuthTableEntry} {es : List (Bytes × AuthTableEntry)} :
    e.Storable → record e.username e <+: bytes → Entries (bytes.drop (recordSize e)) es →
    Entries bytes ((e.username, e) :: es)

/-- The entries that a data file stands for: none if there is no such file. -/
def FileEntries (file : Option Bytes) (es : List (Bytes × AuthTableEntry)) : Prop :=
  match file with
  | none => es = []
  | some bytes => Entries bytes es

@[simp] theorem entries_nil_iff {bytes : Bytes} : Entries bytes [] ↔ bytes = [] := by
  constructor
  · rintro ⟨⟩
    rfl
  · rintro rfl
    exact .nil

theorem entries_cons_iff {bytes : Bytes} {username : Bytes} {e : AuthTableEntry}
    {es : List (Bytes × AuthTableEntry)} : Entries bytes ((username, e) :: es) ↔
      username = e.username ∧ e.Storable ∧ record e.username e <+: bytes ∧
        Entries (bytes.drop (recordSize e)) es := by
  constructor
  · rintro (_ | ⟨hs, hpre, h⟩)
    exact ⟨rfl, hs, hpre, h⟩
  · rintro ⟨rfl, hs, hpre, h⟩
    exact .cons hs hpre h

/-- The image of a table stands for its entries. -/
theorem entries_image {m : SequentialMap Bytes AuthTableEntry} (h : WellFormed m.entries) :
    Entries (image m) m.entries := by
  rw [image]
  rw [WellFormed] at h
  revert h
  induction m.entries with
  | nil => exact fun _ => .nil
  | cons x es ih =>
    intro h
    rw [List.forall_mem_cons] at h
    obtain ⟨username, e⟩ := x
    obtain ⟨⟨hu, hs⟩, hes⟩ := h
    obtain rfl : username = e.username := hu
    -- The first padded record is skipped, and leaves the image of the other entries.
    rw [List.flatMap_cons, entries_cons_iff, ← length_paddedRecord, List.drop_left]
    refine ⟨rfl, hs, ?_, ih hes⟩
    rw [paddedRecord, List.append_assoc]
    exact List.prefix_append _ _

end UserDirectory
