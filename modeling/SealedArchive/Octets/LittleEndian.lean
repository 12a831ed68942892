import SealedArchive.Octets

/-!
# Little-endian numbers

A number is written as its base-256 digits, the lowest first.  `digits` writes
a fixed count of them and `value` adds them up again; the two are inverse to
each other on numbers below `capacity count` and on strings of `count` bytes.
`ofUInt64` and `toUInt64` are that pair at eight digits, where every word and
every string takes part.
-/

namespace SealedArchive.LittleEndian

/-- The lowest `count` base-256 digits, lowest first. -/
def digits : (count : Nat) → (number : Nat) → Bytes
  | 0, _ => []
  | count + 1, number => UInt8.ofNat number :: digits count (number / 256)

/-- The sum of the bytes, each weighted by the power of 256 of its index. -/
def value : Bytes → Nat
  | [] => 0
  | byte :: rest => byte.toNat + 256 * value rest

/-- The number of strings of `count` bytes: the powers of 256. -/
def capacity : (count : Nat) → Nat
  | 0 => 1
  | count + 1 => 256 * capacity count

@[simp] theorem length_digits (count number : Nat) : (digits count number).length = count := by
  induction count generalizing number with
  | zero => rfl
  | succ count ih => simp [digits, ih]

/-- What is read back is the part of the number that the digits can hold. -/
theorem value_digits (count number : Nat) :
    value (digits count number) = number % capacity count := by
  induction count generalizing number with
  | zero => simp [digits, value, capacity, Nat.mod_one]
  | succ count ih => simp [digits, value, capacity, ih, Nat.mod_mul]

theorem value_lt (bytes : Bytes) : value bytes < capacity bytes.length := by
  induction bytes with
  | nil => simp [value, capacity]
  | cons byte rest ih =>
    have hbyte := byte.toNat_lt
    simp only [value, List.length_cons, capacity]
    omega

/-- Every byte string is the digits of its value. -/
theorem digits_value (bytes : Bytes) : digits bytes.length (value bytes) = bytes := by
  induction bytes with
  | nil => rfl
  | cons byte rest ih =>
    have hbyte := byte.toNat_lt
    have hdiv : (byte.toNat + 256 * value rest) / 256 = value rest := by omega
    have hlow : UInt8.ofNat (byte.toNat + 256 * value rest) = byte := by
      apply UInt8.toNat_inj.1
      simp
    simp [digits, value, hdiv, hlow, ih]

/-! ## Sixty-four-bit words -/

/-- The eight bytes of a word. -/
def ofUInt64 (word : UInt64) : Octets 8 := ⟨digits 8 word.toNat, length_digits 8 _⟩

/-- The word that eight bytes spell. -/
def toUInt64 (bytes : Octets 8) : UInt64 := UInt64.ofNat (value bytes.toList)

theorem toNat_toUInt64 (bytes : Octets 8) : (toUInt64 bytes).toNat = value bytes.toList := by
  have hlt := value_lt bytes.toList
  rw [bytes.length_toList] at hlt
  simp only [toUInt64, UInt64.toNat_ofNat']
  exact Nat.mod_eq_of_lt hlt

@[simp] theorem toUInt64_ofUInt64 (word : UInt64) : toUInt64 (ofUInt64 word) = word := by
  apply UInt64.toNat_inj.1
  rw [toNat_toUInt64]
  simp only [ofUInt64, value_digits]
  exact Nat.mod_eq_of_lt word.toNat_lt

@[simp] theorem ofUInt64_toUInt64 (bytes : Octets 8) : ofUInt64 (toUInt64 bytes) = bytes := by
  apply Octets.ext
  have hdigits := digits_value bytes.toList
  rw [bytes.length_toList] at hdigits
  simp [ofUInt64, toNat_toUInt64, hdigits]

end SealedArchive.LittleEndian
