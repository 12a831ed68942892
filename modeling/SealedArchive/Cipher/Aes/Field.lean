/-!
# Bytes as the field of 256 elements

A byte is a polynomial over the two-element field, bit `i` being the
coefficient of `x ^ i`, taken modulo `x ^ 8 + x ^ 4 + x ^ 3 + x + 1`.  Addition
is exclusive or.  `double` multiplies by `x`, and `times` by any polynomial that the mixing
of columns needs, given by the number whose bits are its coefficients.

Multiplication by a fixed factor is additive (`double_xor`, `times_xor`).
The factors 2, 3, 1, 1 and 14, 11, 13, 9 undo each other when they go round a
column (`factors_same` to `factors_third`).
-/

namespace SealedArchive.Aes

/-- Multiplication by `x`: a shift, reduced when the top bit falls out. -/
def double (a : UInt8) : UInt8 := (a <<< 1) ^^^ ((a >>> 7) * 0x1b)

theorem xor_left_comm (a b c : UInt8) : a ^^^ (b ^^^ c) = b ^^^ (a ^^^ c) := by
  rw [← UInt8.xor_assoc, UInt8.xor_comm a b, UInt8.xor_assoc]

private theorem top_bit_cases :
    ∀ a : Fin 256, UInt8.ofFin a >>> 7 = 0 ∨ UInt8.ofFin a >>> 7 = 1 := by decide +kernel

theorem double_xor (a b : UInt8) : double (a ^^^ b) = double a ^^^ double b := by
  have ha : a >>> 7 = 0 ∨ a >>> 7 = 1 := top_bit_cases a.toFin
  have hb : b >>> 7 = 0 ∨ b >>> 7 = 1 := top_bit_cases b.toFin
  have hshift : (a ^^^ b) <<< 1 = (a <<< 1) ^^^ (b <<< 1) := by
    apply UInt8.toBitVec_inj.1; simp [BitVec.shiftLeft_xor_distrib]
  have htop : (a ^^^ b) >>> 7 = (a >>> 7) ^^^ (b >>> 7) := by
    apply UInt8.toBitVec_inj.1; simp [BitVec.ushiftRight_xor_distrib]
  simp only [double, hshift, htop]
  rcases ha with ha | ha <;> rcases hb with hb | hb <;>
    simp [ha, hb, UInt8.xor_assoc, UInt8.xor_comm, xor_left_comm]

/-! ## The factors of the column matrices -/

/-- Multiplication by the polynomial whose coefficients are the lowest bits of a number. -/
def timesBits : (bits factor : Nat) → UInt8 → UInt8
  | 0, _, _ => 0
  | bits + 1, factor, a =>
    (if factor % 2 = 1 then a else 0) ^^^ timesBits bits (factor / 2) (double a)

/-- Multiplication by a factor of the column matrices.  All of these have four bits. -/
def times (factor : Nat) (a : UInt8) : UInt8 := timesBits 4 factor a

section

variable (bits factor : Nat)

theorem timesBits_xor (a b : UInt8) :
    timesBits bits factor (a ^^^ b) = timesBits bits factor a ^^^ timesBits bits factor b := by
  induction bits generalizing factor a b with
  | zero => simp only [timesBits, UInt8.xor_self]
  | succ bits ih =>
    simp only [timesBits, double_xor, ih]
    split
    · ac_rfl
    · simp only [UInt8.zero_xor]

theorem timesBits_zero : timesBits bits factor 0 = 0 := by
  have hsum := timesBits_xor bits factor 0 0
  rwa [UInt8.xor_self, UInt8.xor_self] at hsum

theorem double_timesBits (a : UInt8) :
    double (timesBits bits factor a) = timesBits bits factor (double a) := by
  induction bits generalizing factor a with
  | zero =>
    rw [timesBits, timesBits]
    decide
  | succ bits ih =>
    simp only [timesBits, double_xor, ih]
    split
    · rfl
    · rfl

theorem timesBits_comm (otherBits other : Nat) (a : UInt8) :
    timesBits bits factor (timesBits otherBits other a) =
      timesBits otherBits other (timesBits bits factor a) := by
  induction bits generalizing factor a with
  | zero => rw [timesBits, timesBits, timesBits_zero]
  | succ bits ih =>
    simp only [timesBits, double_timesBits, ih, timesBits_xor]
    split
    · rfl
    · rw [timesBits_zero]

end

theorem times_xor (factor : Nat) (a b : UInt8) :
    times factor (a ^^^ b) = times factor a ^^^ times factor b :=
  timesBits_xor 4 factor a b

theorem double_times (factor : Nat) (a : UInt8) :
    double (times factor a) = times factor (double a) :=
  double_timesBits 4 factor a

theorem times_comm (factor other : Nat) (a : UInt8) :
    times factor (times other a) = times other (times factor a) :=
  timesBits_comm 4 factor 4 other a

/-- Going round both matrices, the factors at the byte itself add up to one, and those at
each of the others to zero. -/
private theorem factors_ofFin : ∀ value : Fin 256,
    let a := UInt8.ofFin value
    times 14 (double a) ^^^ (times 11 a ^^^ (times 13 a ^^^ times 9 (times 3 a))) = a ∧
    times 14 (times 3 a) ^^^ (times 11 (double a) ^^^ (times 13 a ^^^ times 9 a)) = 0 ∧
    times 14 a ^^^ (times 11 (times 3 a) ^^^ (times 13 (double a) ^^^ times 9 a)) = 0 ∧
    times 14 a ^^^ (times 11 a ^^^ (times 13 (times 3 a) ^^^ times 9 (double a))) = 0 := by
  decide +kernel

theorem factors_same (a : UInt8) :
    times 14 (double a) ^^^ (times 11 a ^^^ (times 13 a ^^^ times 9 (times 3 a))) = a :=
  (factors_ofFin a.toFin).1

theorem factors_first (a : UInt8) :
    times 14 (times 3 a) ^^^ (times 11 (double a) ^^^ (times 13 a ^^^ times 9 a)) = 0 :=
  (factors_ofFin a.toFin).2.1

theorem factors_second (a : UInt8) :
    times 14 a ^^^ (times 11 (times 3 a) ^^^ (times 13 (double a) ^^^ times 9 a)) = 0 :=
  (factors_ofFin a.toFin).2.2.1

theorem factors_third (a : UInt8) :
    times 14 a ^^^ (times 11 a ^^^ (times 13 (times 3 a) ^^^ times 9 (double a))) = 0 :=
  (factors_ofFin a.toFin).2.2.2

end SealedArchive.Aes
