import Mathlib.Data.Nat.Digits.Defs

/-!
# Little-endian numbers

The value of a list of bytes, the least significant first (`decode`), and the
first `k` bytes of a number (`encode`). Each undoes the other: `decode_encode`
for the numbers that fit, `encode_decode` for the lists of the right length.

The way machine code writes a 32-bit word, byte by byte with shifts and masks,
is the same encoding (`encode_word`), and so is the way it reads one (`toNat_or_word`).
-/

namespace LittleEndian

/-- The first `k` bytes of `n`, the least significant first. -/
def encode : ℕ → ℕ → List UInt8
  | 0, _ => []
  | k + 1, n => UInt8.ofNat n :: encode k (n / 256)

/-- The number with the given bytes, the least significant first. -/
def decode (bs : List UInt8) : ℕ := Nat.ofDigits 256 (bs.map UInt8.toNat)

@[simp] theorem encode_zero (n : ℕ) : encode 0 n = [] := rfl

theorem encode_succ (k n : ℕ) : encode (k + 1) n = UInt8.ofNat n :: encode k (n / 256) := rfl

@[simp] theorem decode_nil : decode [] = 0 := rfl

theorem decode_cons (b : UInt8) (bs : List UInt8) : decode (b :: bs) = b.toNat + 256 * decode bs :=
  Nat.ofDigits_cons

@[simp] theorem length_encode (k n : ℕ) : (encode k n).length = k := by
  induction k generalizing n with
  | zero => rfl
  | succ k ih => rw [encode_succ, List.length_cons, ih]

/-- `k` bytes hold the numbers below `256 ^ k`. -/
theorem decode_lt (bs : List UInt8) : decode bs < 256 ^ bs.length := by
  rw [← List.length_map UInt8.toNat]
  refine Nat.ofDigits_lt_base_pow_length (by decide) fun x hx => ?_
  obtain ⟨b, _, rfl⟩ := List.mem_map.1 hx
  exact b.toNat_lt

/-- Encoding keeps the part of a number that fits. -/
theorem decode_encode (k n : ℕ) : decode (encode k n) = n % 256 ^ k := by
  induction k generalizing n with
  | zero => rw [encode_zero, decode_nil, Nat.pow_zero, Nat.mod_one]
  | succ k ih =>
    rw [encode_succ, decode_cons, ih, Nat.pow_succ, Nat.mul_comm (256 ^ k), Nat.mod_mul,
      UInt8.toNat_ofNat']

/-- A number that fits is read back. -/
theorem decode_encode_of_lt {k n : ℕ} (h : n < 256 ^ k) : decode (encode k n) = n := by
  rw [decode_encode, Nat.mod_eq_of_lt h]

/-- The bytes of a number read are the bytes it was read from. -/
theorem encode_decode (bs : List UInt8) : encode bs.length (decode bs) = bs := by
  induction bs with
  | nil => rfl
  | cons b bs ih =>
    have hb : b.toNat < 256 := b.toNat_lt
    rw [decode_cons, List.length_cons, encode_succ]
    have hdiv : (b.toNat + 256 * decode bs) / 256 = decode bs := by omega
    have hmod : UInt8.ofNat (b.toNat + 256 * decode bs) = b := by
      apply UInt8.toNat.inj
      rw [UInt8.toNat_ofNat']
      omega
    rw [hdiv, hmod, ih]

/-- The four bytes of a word, as shifted and masked out of it. -/
theorem encode_word (w : UInt32) :
    [(w &&& 0xFF).toUInt8, ((w >>> 8) &&& 0xFF).toUInt8, ((w >>> 16) &&& 0xFF).toUInt8,
      ((w >>> 24) &&& 0xFF).toUInt8] = encode 4 w.toNat := by
  -- Shifting by `i` divides, and the mask is lost with the conversion to a byte.
  have hbyte : ∀ i : UInt32, i.toNat < 32 →
      ((w >>> i) &&& 0xFF).toUInt8 = UInt8.ofNat (w.toNat / 2 ^ i.toNat) := by
    intro i hi
    apply UInt8.toNat.inj
    have hmask : ∀ n : ℕ, n &&& 0xFF = n % 2 ^ 8 := fun n => Nat.and_two_pow_sub_one_eq_mod n 8
    rw [UInt32.toNat_toUInt8, UInt32.toNat_and, UInt32.toNat_shiftRight, UInt8.toNat_ofNat',
      Nat.mod_eq_of_lt hi, Nat.shiftRight_eq_div_pow]
    exact (congrArg (· % 2 ^ 8) (hmask _)).trans (Nat.mod_mod _ _)
  have h0 : (w &&& 0xFF).toUInt8 = UInt8.ofNat w.toNat := by
    simpa using hbyte 0 (by decide)
  rw [h0, hbyte 8 (by decide), hbyte 16 (by decide), hbyte 24 (by decide)]
  simp only [encode, Nat.div_div_eq_div_mul]
  rfl

/-- A byte or-ed in above the bits of a word adds to it. -/
theorem toNat_or_shiftLeft {w : UInt32} {i : ℕ} (hw : w.toNat < 2 ^ i) (b : UInt8)
    (hi : i + 8 ≤ 32) : (w ||| (b.toUInt32 <<< UInt32.ofNat i)).toNat =
      w.toNat + 2 ^ i * b.toNat := by
  have hb : b.toNat < 2 ^ 8 := b.toNat_lt
  have hmod : (UInt32.ofNat i).toNat % 32 = i := by
    rw [UInt32.toNat_ofNat_of_lt' (by unfold UInt32.size; omega)]
    omega
  have hshift : b.toNat <<< i < 2 ^ 32 := by
    rw [Nat.shiftLeft_eq]
    calc b.toNat * 2 ^ i < 2 ^ 8 * 2 ^ i := Nat.mul_lt_mul_of_pos_right hb (Nat.two_pow_pos i)
      _ = 2 ^ (8 + i) := (Nat.pow_add 2 8 i).symm
      _ ≤ 2 ^ 32 := Nat.pow_le_pow_right (by decide) (by omega)
  rw [UInt32.toNat_or, UInt32.toNat_shiftLeft, hmod, UInt8.toNat_toUInt32, Nat.mod_eq_of_lt hshift,
    Nat.or_comm, ← Nat.shiftLeft_add_eq_or_of_lt hw, Nat.shiftLeft_eq, Nat.add_comm, Nat.mul_comm]

theorem toNat_or_shiftLeft_lt {w : UInt32} {i : ℕ} (hw : w.toNat < 2 ^ i) (b : UInt8)
    (hi : i + 8 ≤ 32) : (w ||| (b.toUInt32 <<< UInt32.ofNat i)).toNat < 2 ^ (i + 8) := by
  rw [toNat_or_shiftLeft hw b hi]
  calc w.toNat + 2 ^ i * b.toNat < 2 ^ i + 2 ^ i * b.toNat := Nat.add_lt_add_right hw _
    _ = 2 ^ i * (b.toNat + 1) := by rw [Nat.mul_add_one, Nat.add_comm]
    _ ≤ 2 ^ i * 2 ^ 8 := Nat.mul_le_mul_left _ b.toNat_lt
    _ = 2 ^ (i + 8) := (Nat.pow_add 2 i 8).symm

/-- Four bytes, shifted and or-ed together, are the number that they encode. -/
theorem toNat_or_word (a b c d : UInt8) :
    ((((0 ||| (a.toUInt32 <<< UInt32.ofNat 0)) ||| (b.toUInt32 <<< UInt32.ofNat 8)) |||
      (c.toUInt32 <<< UInt32.ofNat 16)) ||| (d.toUInt32 <<< UInt32.ofNat 24)).toNat =
      decode [a, b, c, d] := by
  have h0 : (0 : UInt32).toNat < 2 ^ 0 := by decide
  have h1 := toNat_or_shiftLeft_lt h0 a (by decide)
  have h2 := toNat_or_shiftLeft_lt h1 b (by decide)
  have h3 := toNat_or_shiftLeft_lt h2 c (by decide)
  rw [toNat_or_shiftLeft h3 d (by decide), toNat_or_shiftLeft h2 c (by decide),
    toNat_or_shiftLeft h1 b (by decide), toNat_or_shiftLeft h0 a (by decide)]
  simp only [decode_cons, decode_nil, UInt32.toNat_zero]
  omega

end LittleEndian
