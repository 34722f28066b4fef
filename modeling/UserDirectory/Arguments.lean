import Mathlib.Data.List.TakeWhile
import Mathlib.Data.Nat.Digits.Lemmas
import UserDirectory.Constants
import UserDirectory.Library.CInt
import UserDirectory.Library.Getopt

/-!
# The arguments of the programs

The constructors of `arg_t` in `client/client.cc` and `server/server.cc`, which
take the settings of a program from its command line.

* `Client.ArgT.ofArgv_eq_some_iff`: the command lines that the client accepts,
  and the settings that they make: options with arguments, and operands, in any
  order, whose last `-C` and `-1` are a command and its argument.
* `atoi_decimal`: a number in decimal is read back.
-/

namespace UserDirectory

open Getopt CInt

/-- The character of an option. -/
def char (c : Char) : UInt8 := UInt8.ofNat c.toNat

/-- What holds of the first 256 numbers holds of all bytes. -/
theorem forall_byte {P : UInt8 → Prop} (h : ∀ n < 256, P (.ofNat n)) (c : UInt8) : P c := by
  have hc := h c.toNat c.toNat_lt
  rwa [UInt8.ofNat_toNat] at hc

/-! ## Numbers -/

/-- `isspace`, in the C locale. -/
def isSpace (c : UInt8) : Bool := c = 32 || (9 ≤ c && c ≤ 13)

/-- `isdigit` -/
def isDigit (c : UInt8) : Bool := 48 ≤ c && c ≤ 57

/-- The number of a list of digits. -/
def ofDigits (digits : Bytes) : ℕ := digits.foldl (fun n d => 10 * n + (d.toNat - 48)) 0

/-- `atoi`, as `strtol` followed by a conversion to `int`. -/
def atoi (s : Bytes) : ℤ :=
  let s := s.dropWhile isSpace
  let negative := s.head? = some 45
  let s := if negative ∨ s.head? = some 43 then s.tail else s
  let n : ℤ := ofDigits (s.takeWhile isDigit)
  int32 (max (-2 ^ 63) (min (2 ^ 63 - 1) (if negative then -n else n)))

/-- A number in decimal. -/
def decimal (n : ℕ) : Bytes :=
  if n = 0 then [48] else ((Nat.digits 10 n).map fun d => UInt8.ofNat (48 + d)).reverse

/-- An `int` in decimal. -/
def decimalInt (n : ℤ) : Bytes := if n < 0 then 45 :: decimal n.natAbs else decimal n.natAbs

theorem ofDigits_reverse {ds : List ℕ} (h : ∀ d ∈ ds, d < 10) :
    ofDigits (ds.map fun d => UInt8.ofNat (48 + d)).reverse = Nat.ofDigits 10 ds := by
  induction ds with
  | nil => rfl
  | cons d ds ih =>
    rw [List.forall_mem_cons] at h
    have hd : (UInt8.ofNat (48 + d)).toNat - 48 = d := by
      rw [UInt8.toNat_ofNat_of_lt' (by have := h.1; simp only [UInt8.size]; omega)]
      exact Nat.add_sub_cancel_left 48 d
    rw [ofDigits] at ih ⊢
    rw [List.map_cons, List.reverse_cons, List.foldl_append, ih h.2, List.foldl_cons,
      List.foldl_nil, hd, Nat.ofDigits_cons, Nat.add_comm]

theorem decimal_digits (n : ℕ) : (∀ d ∈ decimal n, isDigit d = true) ∧ decimal n ≠ [] ∧
    ofDigits (decimal n) = n := by
  rw [decimal]
  split
  · next h0 =>
    subst h0
    exact ⟨List.forall_mem_singleton.2 rfl, List.cons_ne_nil _ _, rfl⟩
  · next h0 =>
    have hlt : ∀ d ∈ Nat.digits 10 n, d < 10 := fun d hd => Nat.digits_lt_base (by decide) hd
    refine ⟨fun c hc => ?_, ?_, ?_⟩
    · rw [List.mem_reverse, List.mem_map] at hc
      obtain ⟨d, hd, rfl⟩ := hc
      have hd := hlt d hd
      interval_cases d <;> decide
    · rw [ne_eq, List.reverse_eq_nil_iff, List.map_eq_nil_iff]
      exact Nat.digits_ne_nil_iff_ne_zero.2 h0
    · rw [ofDigits_reverse hlt, Nat.ofDigits_digits]

/-- A digit is not skipped, and is no sign. -/
theorem isSpace_of_isDigit {c : UInt8} (h : isDigit c = true) :
    isSpace c = false ∧ c ≠ 45 ∧ c ≠ 43 := by
  simp only [isDigit, Bool.and_eq_true, decide_eq_true_eq, UInt8.le_iff_toNat_le] at h
  revert h
  exact forall_byte (P := fun c => 48 ≤ c.toNat ∧ c.toNat ≤ 57 →
    isSpace c = false ∧ c ≠ 45 ∧ c ≠ 43) (by decide +kernel) c

/-- A number in decimal is read back. -/
theorem atoi_decimal {n : ℕ} (h : n < 2 ^ 31) : atoi (decimal n) = n := by
  obtain ⟨hdigits, hne, hval⟩ := decimal_digits n
  obtain ⟨c, cs, hcs⟩ := List.exists_cons_of_ne_nil hne
  have hc : isDigit c = true := hdigits c (hcs ▸ List.mem_cons_self)
  have hspace := isSpace_of_isDigit hc
  have hdrop : (decimal n).dropWhile isSpace = decimal n := by
    rw [hcs, List.dropWhile_cons_of_neg (by rw [hspace.1]; exact Bool.false_ne_true)]
  have hsign : ¬((decimal n).head? = some 45) ∧ ¬((decimal n).head? = some 43) := by
    rw [hcs]
    exact ⟨fun h => hspace.2.1 (Option.some.inj h), fun h => hspace.2.2 (Option.some.inj h)⟩
  have htake : (decimal n).takeWhile isDigit = decimal n := List.takeWhile_eq_self_iff.2 hdigits
  simp only [atoi, hdrop, hsign.1, hsign.2, or_self, if_false, htake, hval]
  rw [min_eq_right (by omega), max_eq_right (by omega), int32_natCast h]

/-! ## The name of the program -/

/-- The last component of a path. -/
def basename (path : Bytes) : Bytes :=
  let stripped := (path.reverse.dropWhile (· = char '/')).reverse
  if path = [] then ascii "."
  else if stripped = [] then ascii "/"
  else (stripped.reverse.takeWhile (· ≠ char '/')).reverse

/-! ## The client -/

namespace Client

/-- The command-line arguments to the client. -/
structure ArgT where
  server : Bytes
  port : ℤ
  username : Bytes
  userpass : Bytes
  command : Bytes
  arg1 : Bytes
  deriving DecidableEq, Repr

namespace ArgT

/-- The options of the client. -/
def optstring : Bytes := ascii "u:w:s:p:C:1:h"

/-- What the constructor starts with. -/
def start : ArgT := ⟨[], 0, [], [], [], []⟩

/-- The `switch` of the constructor: `none` where it throws. -/
def set (a : ArgT) : Item → Option ArgT
  | .option c (some optarg) =>
    if c = char 'p' then some { a with port := atoi optarg }
    else if c = char 's' then some { a with server := optarg }
    else if c = char 'u' then some { a with username := optarg }
    else if c = char 'w' then some { a with userpass := optarg }
    else if c = char 'C' then some { a with command := optarg }
    else if c = char '1' then some { a with arg1 := optarg }
    else none
  -- An error, or `-h`.
  | _ => none

/-- The commands without an argument. -/
def args0 : List Bytes := [reqBye, reqSav, reqReg]

/-- The commands with an argument. -/
def args1 : List Bytes := [reqSet, reqGet, reqAll]

/-- The checks at the end of the constructor: `none` where it throws. -/
def validate (a : ArgT) : Option ArgT :=
  match args0.find? (a.command == ·) with
  | some _ => if a.arg1 ≠ [] then none else some a
  | none =>
    match args1.find? (a.command == ·) with
    | some _ => if a.arg1 = [] then none else some a
    | none => none

/-- The constructor, with the command line after the name of the program: `none` if it
    throws. -/
def ofArgv (args : List Bytes) : Option ArgT :=
  ((getopt (table optstring) none args).foldlM set start).bind validate

/-- The command is known, and has an argument if it takes one. -/
def Commanded (a : ArgT) : Prop := a.command ∈ args0 ∧ a.arg1 = [] ∨ a.command ∈ args1 ∧ a.arg1 ≠ []

instance (a : ArgT) : Decidable a.Commanded := inferInstanceAs (Decidable (_ ∨ _))

theorem validate_eq_some_iff {a a' : ArgT} : a.validate = some a' ↔ a.Commanded ∧ a' = a := by
  have hfind : ∀ l : List Bytes, (l.find? (a.command == ·)).isSome ↔ a.command ∈ l := by
    intro l
    rw [List.find?_isSome]
    exact ⟨fun ⟨b, hb, h⟩ => eq_of_beq h ▸ hb, fun h => ⟨_, h, beq_self_eq_true _⟩⟩
  have h01 : a.command ∈ args0 → a.command ∉ args1 := by
    generalize a.command = c
    revert c
    decide
  simp only [Commanded, ← hfind] at h01 ⊢
  rw [validate]
  cases h0 : args0.find? (a.command == ·) with
  | some b =>
    have h1 := h01 (by rw [h0]; rfl)
    simp [h1, eq_comm]
  | none => cases h1 : args1.find? (a.command == ·) <;> simp [eq_comm]

/-- The settings of the options of a command line: the last one of each. -/
def ofItems (items : List Item) : ArgT where
  server := (lastArg (char 's') items).getD []
  port := ((lastArg (char 'p') items).map atoi).getD 0
  username := (lastArg (char 'u') items).getD []
  userpass := (lastArg (char 'w') items).getD []
  command := (lastArg (char 'C') items).getD []
  arg1 := (lastArg (char '1') items).getD []

/-- An option with an argument sets one field. -/
theorem set_eq_some {a a' : ArgT} {i : Item} (h : a.set i = some a') : i.HasArg ∧
    a' = ⟨(i.argOf (char 's')).getD a.server, ((i.argOf (char 'p')).map atoi).getD a.port,
      (i.argOf (char 'u')).getD a.username, (i.argOf (char 'w')).getD a.userpass,
      (i.argOf (char 'C')).getD a.command, (i.argOf (char '1')).getD a.arg1⟩ := by
  rcases i with ⟨c, _ | optarg⟩ | _
  · cases h
  · refine ⟨rfl, ?_⟩
    rw [set] at h
    repeat' split at h
    all_goals
      cases h
      try (next hc => subst hc; rfl)
  · cases h

theorem set_total (a : ArgT) {c : UInt8} (h : table optstring c = some true) (optarg : Bytes) :
    ∃ a', a.set (.option c (some optarg)) = some a' := by
  have hc : c = char 'p' ∨ c = char 's' ∨ c = char 'u' ∨ c = char 'w' ∨ c = char 'C' ∨
      c = char '1' := by
    revert h
    exact forall_byte (P := fun c => table optstring c = some true → c = char 'p' ∨ c = char 's' ∨
      c = char 'u' ∨ c = char 'w' ∨ c = char 'C' ∨ c = char '1') (by decide +kernel) c
  rcases hc with rfl | rfl | rfl | rfl | rfl | rfl <;> exact ⟨_, rfl⟩

/-- The settings made by options with arguments. -/
theorem eq_ofItems {items : List Item} {a : ArgT} (h : items.foldlM set start = some a) :
    a = ofItems items := by
  obtain ⟨server, port, username, userpass, command, arg1⟩ := a
  have hserver := field_of_foldlM (f := ArgT.server) (g := id) (c := char 's')
    (fun _ i _ hi => by rw [(set_eq_some hi).2, Option.map_id_apply]) h
  have hport := field_of_foldlM (f := ArgT.port) (g := atoi) (c := char 'p')
    (fun _ i _ hi => by rw [(set_eq_some hi).2]) h
  have hname := field_of_foldlM (f := ArgT.username) (g := id) (c := char 'u')
    (fun _ i _ hi => by rw [(set_eq_some hi).2, Option.map_id_apply]) h
  have hpass := field_of_foldlM (f := ArgT.userpass) (g := id) (c := char 'w')
    (fun _ i _ hi => by rw [(set_eq_some hi).2, Option.map_id_apply]) h
  have hcommand := field_of_foldlM (f := ArgT.command) (g := id) (c := char 'C')
    (fun _ i _ hi => by rw [(set_eq_some hi).2, Option.map_id_apply]) h
  have harg1 := field_of_foldlM (f := ArgT.arg1) (g := id) (c := char '1')
    (fun _ i _ hi => by rw [(set_eq_some hi).2, Option.map_id_apply]) h
  simp only [Option.map_id_apply, start] at hserver hport hname hpass hcommand harg1
  rw [ofItems, hserver, hport, hname, hpass, hcommand, harg1]

/-- The client accepts a command line iff it is made of options with arguments, and of
    operands, and the last command is known and has an argument if it takes one. -/
theorem ofArgv_eq_some_iff {args : List Bytes} {a : ArgT} : ofArgv args = some a ↔
    ∃ ws, MadeOf (table optstring) args ws ∧ a = ofItems (ws.filterMap Word.item) ∧
      a.Commanded := by
  have hset : ∀ a i a', set a i = some a' → i.HasArg := fun _ _ _ h => (set_eq_some h).1
  rw [ofArgv, Option.bind_eq_some_iff]
  simp only [validate_eq_some_iff, foldlM_getopt_iff (show table optstring dash = none by decide)
    hset]
  constructor
  · rintro ⟨a', ⟨ws, hmade, hfold⟩, hcommanded, rfl⟩
    exact ⟨ws, hmade, eq_ofItems hfold, hcommanded⟩
  · rintro ⟨ws, hmade, rfl, hcommanded⟩
    obtain ⟨a', hfold⟩ := exists_foldlM (hmade.forall_item
      (P := fun i => ∀ a, ∃ a', set a i = some a') fun c optarg hc a => set_total a hc optarg) start
    rw [← eq_ofItems hfold] at hcommanded ⊢
    exact ⟨a', ⟨ws, hmade, hfold⟩, hcommanded, rfl⟩

end ArgT

end Client

/-! ## The server -/

namespace Server

/-- The command-line arguments to the server. The port is not initialised. -/
structure ArgT where
  port : Option ℤ
  datafile : Bytes
  numBuckets : ℕ
  deriving DecidableEq, Repr

namespace ArgT

/-- The options of the server. -/
def optstring : Bytes := ascii "p:f:ht:b:i:u:d:r:o:a:"

/-- What the constructor starts with. -/
def start : ArgT := ⟨none, [], 1024⟩

/-- The `switch` of the constructor: `none` where it throws. -/
def set (a : ArgT) : Item → Option ArgT
  | .option c (some optarg) =>
    if c = char 'p' then some { a with port := some (atoi optarg) }
    else if c = char 'f' then some { a with datafile := optarg }
    else if c = char 't' then some a
    else if c = char 'b' then some { a with numBuckets := sizeT (atoi optarg) }
    else if c = char 'i' then some a
    else if c = char 'u' then some a
    else if c = char 'd' then some a
    else if c = char 'r' then some a
    else if c = char 'o' then some a
    else if c = char 'a' then some a
    else none
  -- An error, or `-h`.
  | _ => none

/-- The constructor, with the command line after the name of the program: `none` if it
    throws. -/
def ofArgv (args : List Bytes) : Option ArgT :=
  (getopt (table optstring) none args).foldlM set start

/-- The settings of the options of a command line: the last one of each. -/
def ofItems (items : List Item) : ArgT where
  port := (lastArg (char 'p') items).map atoi
  datafile := (lastArg (char 'f') items).getD []
  numBuckets := ((lastArg (char 'b') items).map fun optarg => sizeT (atoi optarg)).getD 1024

/-- An option with an argument sets at most one field. -/
theorem set_eq_some {a a' : ArgT} {i : Item} (h : a.set i = some a') : i.HasArg ∧
    a' = ⟨((i.argOf (char 'p')).map fun optarg => some (atoi optarg)).getD a.port,
      (i.argOf (char 'f')).getD a.datafile,
      ((i.argOf (char 'b')).map fun optarg => sizeT (atoi optarg)).getD a.numBuckets⟩ := by
  rcases i with ⟨c, _ | optarg⟩ | _
  · cases h
  · refine ⟨rfl, ?_⟩
    rw [set] at h
    repeat' split at h
    all_goals
      cases h
      try (next hc => subst hc; rfl)
  · cases h

theorem set_total (a : ArgT) {c : UInt8} (h : table optstring c = some true) (optarg : Bytes) :
    ∃ a', a.set (.option c (some optarg)) = some a' := by
  have hc : c = char 'p' ∨ c = char 'f' ∨ c = char 't' ∨ c = char 'b' ∨ c = char 'i' ∨
      c = char 'u' ∨ c = char 'd' ∨ c = char 'r' ∨ c = char 'o' ∨ c = char 'a' := by
    revert h
    exact forall_byte (P := fun c => table optstring c = some true → c = char 'p' ∨ c = char 'f' ∨
      c = char 't' ∨ c = char 'b' ∨ c = char 'i' ∨ c = char 'u' ∨ c = char 'd' ∨ c = char 'r' ∨
      c = char 'o' ∨ c = char 'a') (by decide +kernel) c
  rcases hc with rfl | rfl | rfl | rfl | rfl | rfl | rfl | rfl | rfl | rfl <;> exact ⟨_, rfl⟩

/-- The settings made by options with arguments. -/
theorem eq_ofItems {items : List Item} {a : ArgT} (h : items.foldlM set start = some a) :
    a = ofItems items := by
  obtain ⟨port, datafile, numBuckets⟩ := a
  have hport := field_of_foldlM (f := ArgT.port) (g := fun optarg => some (atoi optarg))
    (c := char 'p') (fun _ i _ hi => by rw [(set_eq_some hi).2]) h
  have hfile := field_of_foldlM (f := ArgT.datafile) (g := id) (c := char 'f')
    (fun _ i _ hi => by rw [(set_eq_some hi).2, Option.map_id_apply]) h
  have hbuckets := field_of_foldlM (f := ArgT.numBuckets) (g := fun optarg => sizeT (atoi optarg))
    (c := char 'b') (fun _ i _ hi => by rw [(set_eq_some hi).2]) h
  simp only [Option.map_id_apply, start] at hport hfile hbuckets
  rw [ofItems, hport, hfile, hbuckets]
  cases lastArg (char 'p') items <;> rfl

/-- The server accepts a command line iff it is made of options with arguments, and of
    operands. -/
theorem ofArgv_iff {args : List Bytes} {a : ArgT} : ofArgv args = some a ↔
    ∃ ws, MadeOf (table optstring) args ws ∧ a = ofItems (ws.filterMap Word.item) := by
  have hset : ∀ a i a', set a i = some a' → i.HasArg := fun _ _ _ h => (set_eq_some h).1
  rw [ofArgv, foldlM_getopt_iff (by decide) hset]
  constructor
  · rintro ⟨ws, hmade, hfold⟩
    exact ⟨ws, hmade, eq_ofItems hfold⟩
  · rintro ⟨ws, hmade, rfl⟩
    obtain ⟨a', hfold⟩ := exists_foldlM (hmade.forall_item
      (P := fun i => ∀ a, ∃ a', set a i = some a') fun c optarg hc a => set_total a hc optarg) start
    rw [← eq_ofItems hfold]
    exact ⟨ws, hmade, hfold⟩

end ArgT

end Server

/-! ## The scripts -/

/-- `ServerConfig.launchcmd` (`scripts/cse303.py`), after the name of the program. -/
def launchcmd (port dirfile threads buckets qi upq dnq rqq top admin : Bytes) : List Bytes :=
  [ascii "-p", port, ascii "-f", dirfile, ascii "-t", threads, ascii "-b", buckets, ascii "-i", qi,
    ascii "-u", upq, ascii "-d", dnq, ascii "-r", rqq, ascii "-o", top, ascii "-a", admin]

/-- `ClientConfig.cmd0`, after the name of the program. -/
def cmd0 (server port name pwd cmd : Bytes) : List Bytes :=
  [ascii "-s", server, ascii "-p", port, ascii "-u", name, ascii "-w", pwd, ascii "-C", cmd]

/-- `ClientConfig.cmd1`, after the name of the program. -/
def cmd1 (server port name pwd cmd param1 : Bytes) : List Bytes :=
  cmd0 server port name pwd cmd ++ [ascii "-1", param1]

/-- `ClientConfig.cmd2`, after the name of the program. -/
def cmd2 (server port name pwd cmd param1 param2 : Bytes) : List Bytes :=
  cmd1 server port name pwd cmd param1 ++ [ascii "-2", param2]

/-- Whatever the settings of a script, even if they look like options, the programs take them
    for what they are; but the client knows no second argument. -/
theorem scripts_roundTrip :
    (∀ port dirfile threads buckets qi upq dnq rqq top admin : Bytes,
      Server.ArgT.ofArgv (launchcmd port dirfile threads buckets qi upq dnq rqq top admin) =
        some ⟨some (atoi port), dirfile, sizeT (atoi buckets)⟩) ∧
    (∀ server port name pwd cmd : Bytes,
      Client.ArgT.ofArgv (cmd0 server port name pwd cmd) =
        if cmd ∈ Client.ArgT.args0 then some ⟨server, atoi port, name, pwd, cmd, []⟩ else none) ∧
    (∀ server port name pwd cmd param1 : Bytes,
      Client.ArgT.ofArgv (cmd1 server port name pwd cmd param1) =
        if cmd ∈ Client.ArgT.args0 ∧ param1 = [] ∨ cmd ∈ Client.ArgT.args1 ∧ param1 ≠ [] then
          some ⟨server, atoi port, name, pwd, cmd, param1⟩
        else none) ∧
    ∀ server port name pwd cmd param1 param2 : Bytes,
      Client.ArgT.ofArgv (cmd2 server port name pwd cmd param1 param2) = none := by
  have hvalidate : ∀ a : Client.ArgT, a.validate = if a.Commanded then some a else none := by
    intro a
    split
    · next h => exact Client.ArgT.validate_eq_some_iff.2 ⟨h, rfl⟩
    · next h =>
      rw [Option.eq_none_iff_forall_ne_some]
      exact fun a' ha' => h (Client.ArgT.validate_eq_some_iff.1 ha').1
  refine ⟨fun port dirfile threads buckets qi upq dnq rqq top admin => rfl,
    fun server port name pwd cmd => ?_, fun server port name pwd cmd param1 => ?_,
    fun server port name pwd cmd param1 param2 => rfl⟩
  · have hargs : Client.ArgT.ofArgv (cmd0 server port name pwd cmd) =
        Client.ArgT.validate ⟨server, atoi port, name, pwd, cmd, []⟩ := rfl
    rw [hargs, hvalidate]
    simp only [Client.ArgT.Commanded, ne_eq, not_true_eq_false, and_true, and_false, or_false]
  · have hargs : Client.ArgT.ofArgv (cmd1 server port name pwd cmd param1) =
        Client.ArgT.validate ⟨server, atoi port, name, pwd, cmd, param1⟩ := rfl
    rw [hargs, hvalidate]
    exact if_congr Iff.rfl rfl rfl

end UserDirectory
