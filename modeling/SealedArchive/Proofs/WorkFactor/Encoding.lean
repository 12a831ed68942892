import Mathlib.Algebra.Group.Nat.Defs
import SealedArchive.WorkFactor

/-!
# What is kept of a number of loops

A stored number keeps its eight highest bits, and the bits below them are zero.  So
nothing is lost exactly when the number is a byte shifted to the left
(`loops_ofLoops_eq_iff`), which every number that was read back is: storing it once
more loses nothing (`loops_ofLoops_loops`).

`narrow_eq` says that dropping the bits one at a time comes to the same: the bits
dropped before and those that are still to be dropped make up all that `ofLoops`
drops.
-/

namespace SealedArchive.WorkFactor

/-! ## How many bits are dropped -/

theorem droppedBits_of_fits {count : Nat} (hfits : count < 2 ^ 8) : droppedBits count = 0 := by
  by_cases hzero : count = 0
  · rw [hzero]
    rfl
  · have hlog := (Nat.log2_lt hzero).2 hfits
    simp only [droppedBits]
    omega

theorem droppedBits_of_wide {count : Nat} (hwide : 255 < count) :
    droppedBits count = droppedBits (count / 2) + 1 := by
  have hlog : 8 ≤ count.log2 := (Nat.le_log2 (by omega)).2 (by omega)
  have hhalf : count.log2 = (count / 2).log2 + 1 := by
    rw [Nat.log2_def, if_pos (by omega)]
  simp only [droppedBits]
  omega

/-- The bits that are left fit in one byte. -/
theorem rest_lt (count : Nat) : count / 2 ^ droppedBits count < 2 ^ 8 := by
  rw [Nat.div_lt_iff_lt_mul (Nat.two_pow_pos _), ← Nat.pow_add]
  refine Nat.lt_of_lt_of_le Nat.lt_log2_self (Nat.pow_le_pow_right (by decide) ?_)
  simp only [droppedBits]
  omega

/-- The highest bit is never dropped. -/
theorem pow_droppedBits_le {count : Nat} (hpositive : 0 < count) :
    2 ^ droppedBits count ≤ count := by
  refine Nat.le_trans (Nat.pow_le_pow_right (by decide) ?_)
    (Nat.log2_self_le (Nat.ne_of_gt hpositive))
  exact Nat.sub_le _ _

/-- From a byte that was shifted, at most the shift is dropped. -/
theorem droppedBits_le_of_shifted {mantissa shift : Nat} (hmantissa : mantissa < 2 ^ 8) :
    droppedBits (mantissa * 2 ^ shift) ≤ shift := by
  by_cases hzero : mantissa * 2 ^ shift = 0
  · rw [hzero]
    exact Nat.zero_le _
  have hlt : mantissa * 2 ^ shift < 2 ^ (8 + shift) := by
    rw [Nat.pow_add]
    exact Nat.mul_lt_mul_of_pos_right hmantissa (Nat.two_pow_pos _)
  have hlog := (Nat.log2_lt hzero).2 hlt
  simp only [droppedBits]
  omega

/-! ## The number that is stored -/

theorem toNat_loops (w : WorkFactor) : w.loops.toNat = w.mantissa.toNat * 2 ^ w.shift.toNat := by
  have hshift : w.shift.toNat ≤ 56 := w.shift_le
  have hfits : w.mantissa.toNat * 2 ^ w.shift.toNat < 2 ^ 64 := by
    calc w.mantissa.toNat * 2 ^ w.shift.toNat
        < 2 ^ 8 * 2 ^ w.shift.toNat :=
          Nat.mul_lt_mul_of_pos_right w.mantissa.toNat_lt (Nat.two_pow_pos _)
      _ ≤ 2 ^ 8 * 2 ^ 56 := Nat.mul_le_mul_left _ (Nat.pow_le_pow_right (by decide) hshift)
      _ = 2 ^ 64 := by decide
  rw [loops, UInt64.toNat_shiftLeft, UInt8.toNat_toUInt64, UInt8.toNat_toUInt64,
    Nat.mod_eq_of_lt (by omega : w.shift.toNat < 64), Nat.shiftLeft_eq, Nat.mod_eq_of_lt hfits]

variable (count : UInt64)

theorem toNat_shift_ofLoops : (ofLoops count).shift.toNat = droppedBits count.toNat := by
  have hle : droppedBits count.toNat ≤ 56 := droppedBits_le count
  rw [ofLoops, UInt8.toNat_ofNat', Nat.mod_eq_of_lt (by omega)]

theorem toNat_mantissa_ofLoops :
    (ofLoops count).mantissa.toNat = count.toNat / 2 ^ droppedBits count.toNat := by
  rw [ofLoops, UInt8.toNat_ofNat', Nat.shiftRight_eq_div_pow,
    Nat.mod_eq_of_lt (rest_lt count.toNat)]

theorem toNat_loops_ofLoops :
    (ofLoops count).loops.toNat =
      count.toNat / 2 ^ droppedBits count.toNat * 2 ^ droppedBits count.toNat := by
  rw [toNat_loops, toNat_mantissa_ofLoops, toNat_shift_ofLoops]

theorem loops_ofLoops_le : (ofLoops count).loops ≤ count := by
  rw [UInt64.le_iff_toNat_le, toNat_loops_ofLoops]
  exact Nat.div_mul_le_self _ _

/-- No work factor is rounded down to nothing. -/
theorem one_le_loops_ofLoops {count : UInt64} (hcount : count ≠ 0) :
    1 ≤ (ofLoops count).loops := by
  have hpositive : 0 < count.toNat := by
    apply Nat.pos_of_ne_zero
    intro hzero
    exact hcount (UInt64.toNat_inj.1 hzero)
  rw [UInt64.le_iff_toNat_le, toNat_loops_ofLoops]
  exact Nat.mul_pos (Nat.div_pos (pow_droppedBits_le hpositive) (Nat.two_pow_pos _))
    (Nat.two_pow_pos _)

/-- A byte shifted by at most the largest shift that can be stored. -/
def Storable (count : Nat) : Prop :=
  ∃ mantissa shift : Nat, mantissa ≤ 255 ∧ shift ≤ 56 ∧ count = mantissa * 2 ^ shift

theorem storable_loops (w : WorkFactor) : Storable w.loops.toNat :=
  ⟨w.mantissa.toNat, w.shift.toNat, Nat.le_of_lt_succ w.mantissa.toNat_lt, w.shift_le,
    toNat_loops w⟩

theorem loops_ofLoops_eq_iff : (ofLoops count).loops = count ↔ Storable count.toNat := by
  constructor
  · intro hsame
    rw [← hsame]
    exact storable_loops _
  · rintro ⟨mantissa, shift, hmantissa, -, hcount⟩
    have hle : droppedBits count.toNat ≤ shift := by
      rw [hcount]
      exact droppedBits_le_of_shifted (Nat.lt_succ_of_le hmantissa)
    have hdvd : 2 ^ droppedBits count.toNat ∣ mantissa * 2 ^ shift :=
      Nat.dvd_mul_left_of_dvd (Nat.pow_dvd_pow 2 hle) mantissa
    rw [← hcount] at hdvd
    apply UInt64.toNat_inj.1
    rw [toNat_loops_ofLoops, Nat.div_mul_cancel hdvd]

theorem loops_ofLoops_loops (w : WorkFactor) : (ofLoops w.loops).loops = w.loops :=
  (loops_ofLoops_eq_iff _).2 (storable_loops w)

/-! ## Dropping the bits one at a time -/

/-- From any point of the loop on, as many bits are dropped as do not fit. -/
theorem narrow_from (rest : UInt64) (dropped : UInt8) :
    (narrow rest dropped).1.toNat = rest.toNat / 2 ^ droppedBits rest.toNat ∧
      (narrow rest dropped).2 = dropped + UInt8.ofNat (droppedBits rest.toNat) := by
  fun_induction narrow rest dropped with
  | case1 rest dropped hwide ih =>
    -- what is left to drop after one bit is one bit less than before
    have hhalf : (rest >>> 1).toNat = rest.toNat / 2 := by
      rw [UInt64.toNat_shiftRight, Nat.shiftRight_eq_div_pow]
      rfl
    have hbits := droppedBits_of_wide (UInt64.lt_iff_toNat_lt.1 hwide)
    rw [hhalf] at ih
    obtain ⟨hrest, hdropped⟩ := ih
    constructor
    · rw [hrest, hbits, Nat.div_div_eq_div_mul, Nat.pow_succ']
    · rw [hdropped, hbits, UInt8.ofNat_add, UInt8.add_assoc,
        UInt8.add_comm 1 (UInt8.ofNat _)]
      rfl
  | case2 rest dropped hfits =>
    have hbits : droppedBits rest.toNat = 0 := by
      apply droppedBits_of_fits
      have hle : ¬255 < rest.toNat := fun hwide => hfits (UInt64.lt_iff_toNat_lt.2 hwide)
      omega
    rw [hbits]
    exact ⟨(Nat.div_one _).symm, (UInt8.add_zero _).symm⟩

theorem narrow_eq :
    narrow count 0 = ((ofLoops count).mantissa.toUInt64, (ofLoops count).shift) := by
  obtain ⟨hrest, hdropped⟩ := narrow_from count 0
  apply Prod.ext
  · apply UInt64.toNat_inj.1
    rw [hrest, UInt8.toNat_toUInt64, toNat_mantissa_ofLoops]
  · rw [hdropped, UInt8.zero_add]
    rfl

end SealedArchive.WorkFactor
