import SealedArchive.Proofs.WorkFactor.Encoding

/-!
# The greatest number that can be stored

As few bits are dropped as leave a byte (`div_two_pow_le_iff`), so where any is dropped the
mantissa has its highest bit (`le_div_of_dropped`).  A number with a larger shift is a
multiple of the dropped bits, and one with a smaller shift is not even as large as a mantissa
of eight bits makes it: no pair stores a number between the one that is stored and the count
(`shifted_le_of_le`).

The pairs that are stored are those that cannot be shifted further down, and a pair that is
read back is one of them exactly when its shift is 0 or its mantissa has eight bits
(`ofLoops_loops_iff`).
-/

namespace SealedArchive.WorkFactor

/-! ## As few bits as can be -/

theorem div_two_pow_le_iff (count shift : Nat) :
    count / 2 ^ shift ≤ 255 ↔ droppedBits count ≤ shift := by
  constructor
  · intro hfits
    by_cases hzero : count = 0
    · rw [hzero]
      exact Nat.zero_le _
    have hlt : count < 2 ^ (8 + shift) := by
      rw [Nat.pow_add]
      exact (Nat.div_lt_iff_lt_mul (Nat.two_pow_pos _)).1 (Nat.lt_succ_of_le hfits)
    have hlog := (Nat.log2_lt hzero).2 hlt
    simp only [droppedBits]
    omega
  · intro hdropped
    have hrest := rest_lt count
    have hless : count / 2 ^ shift ≤ count / 2 ^ droppedBits count :=
      Nat.div_le_div_left (Nat.pow_le_pow_right (by decide) hdropped) (Nat.two_pow_pos _)
    omega

/-- Where a bit is dropped the mantissa has eight bits. -/
theorem le_div_of_dropped {count : Nat} (hdropped : 0 < droppedBits count) :
    128 ≤ count / 2 ^ droppedBits count := by
  have hpositive : count ≠ 0 := by
    rintro rfl
    exact absurd hdropped (by decide)
  have hlog : 7 + droppedBits count = count.log2 := by
    simp only [droppedBits] at hdropped ⊢
    omega
  have hhighest := Nat.log2_self_le hpositive
  rw [← hlog, Nat.pow_add] at hhighest
  exact (Nat.le_div_iff_mul_le (Nat.two_pow_pos _)).2 hhighest

/-- From a byte with its highest bit that was shifted, the shift is dropped. -/
theorem droppedBits_of_shifted {mantissa shift : Nat} (hmantissa : mantissa < 2 ^ 8)
    (hhighest : shift = 0 ∨ 128 ≤ mantissa) : droppedBits (mantissa * 2 ^ shift) = shift := by
  apply Nat.le_antisymm (droppedBits_le_of_shifted hmantissa)
  rcases hhighest with rfl | hhighest
  · exact Nat.zero_le _
  · have hbits : 2 ^ (7 + shift) ≤ mantissa * 2 ^ shift := by
      rw [Nat.pow_add]
      exact Nat.mul_le_mul_right _ hhighest
    have hpositive : mantissa * 2 ^ shift ≠ 0 :=
      Nat.ne_of_gt (Nat.lt_of_lt_of_le (Nat.two_pow_pos _) hbits)
    have hlog := (Nat.le_log2 hpositive).2 hbits
    simp only [droppedBits]
    omega

/-! ## Nothing in between -/

/-- A shifted byte that is not above the count is not above what is stored of it. -/
theorem shifted_le_of_le {count mantissa shift : Nat} (hmantissa : mantissa < 2 ^ 8)
    (hle : mantissa * 2 ^ shift ≤ count) :
    mantissa * 2 ^ shift ≤ count / 2 ^ droppedBits count * 2 ^ droppedBits count := by
  rcases Nat.lt_or_ge shift (droppedBits count) with hsmaller | hlarger
  · calc mantissa * 2 ^ shift
        ≤ 2 ^ 8 * 2 ^ shift := Nat.mul_le_mul_right _ (Nat.le_of_lt hmantissa)
      _ = 128 * 2 ^ (shift + 1) := by
          rw [Nat.pow_succ]
          omega
      _ ≤ 128 * 2 ^ droppedBits count :=
          Nat.mul_le_mul_left _ (Nat.pow_le_pow_right (by decide) hsmaller)
      _ ≤ count / 2 ^ droppedBits count * 2 ^ droppedBits count :=
          Nat.mul_le_mul_right _ (le_div_of_dropped (Nat.zero_lt_of_lt hsmaller))
  · -- a multiple of the dropped bits is rounded to itself
    have hsplit : mantissa * 2 ^ shift =
        mantissa * 2 ^ (shift - droppedBits count) * 2 ^ droppedBits count := by
      rw [Nat.mul_assoc, ← Nat.pow_add, Nat.sub_add_cancel hlarger]
    rw [hsplit] at hle ⊢
    exact Nat.mul_le_mul_right _ ((Nat.le_div_iff_mul_le (Nat.two_pow_pos _)).2 hle)

/-! ## What is lost -/

variable (count : UInt64)

theorem sub_loops_ofLoops :
    count.toNat - (ofLoops count).loops.toNat = count.toNat % 2 ^ droppedBits count.toNat := by
  rw [toNat_loops_ofLoops, Nat.mul_comm, Nat.mod_eq_sub]

theorem sub_loops_ofLoops_lt :
    count.toNat - (ofLoops count).loops.toNat < 2 ^ (ofLoops count).shift.toNat := by
  rw [sub_loops_ofLoops, toNat_shift_ofLoops]
  exact Nat.mod_lt _ (Nat.two_pow_pos _)

/-- Less than one part in 128 is lost. -/
theorem lost_lt {count : UInt64} (hcount : 1 ≤ count) :
    128 * (count.toNat - (ofLoops count).loops.toNat) < count.toNat := by
  have hpositive : 1 ≤ count.toNat := UInt64.le_iff_toNat_le.1 hcount
  have hbelow := UInt64.le_iff_toNat_le.1 (loops_ofLoops_le count)
  have hlost := sub_loops_ofLoops_lt count
  rw [toNat_shift_ofLoops] at hlost
  rcases Nat.eq_zero_or_pos (droppedBits count.toNat) with hnone | hsome
  · rw [hnone, Nat.pow_zero] at hlost
    omega
  · have hstored : 128 * 2 ^ droppedBits count.toNat ≤ (ofLoops count).loops.toNat := by
      rw [toNat_loops_ofLoops]
      exact Nat.mul_le_mul_right _ (le_div_of_dropped hsome)
    omega

/-! ## The pairs that are stored -/

theorem eq_of_toNat {v w : WorkFactor} (hshift : v.shift.toNat = w.shift.toNat)
    (hmantissa : v.mantissa.toNat = w.mantissa.toNat) : v = w := by
  obtain ⟨shift, mantissa, hle⟩ := v
  obtain rfl : shift = w.shift := UInt8.toNat_inj.1 hshift
  obtain rfl : mantissa = w.mantissa := UInt8.toNat_inj.1 hmantissa
  rfl

theorem shift_or_mantissa_ofLoops : (ofLoops count).shift = 0 ∨ 128 ≤ (ofLoops count).mantissa := by
  rcases Nat.eq_zero_or_pos (droppedBits count.toNat) with hnone | hsome
  · left
    apply UInt8.toNat_inj.1
    rw [toNat_shift_ofLoops, hnone]
    rfl
  · right
    rw [UInt8.le_iff_toNat_le, toNat_mantissa_ofLoops]
    exact le_div_of_dropped hsome

theorem ofLoops_loops_iff (w : WorkFactor) :
    ofLoops w.loops = w ↔ w.shift = 0 ∨ 128 ≤ w.mantissa := by
  constructor
  · intro hsame
    rw [← hsame]
    exact shift_or_mantissa_ofLoops _
  · intro hhighest
    have hdropped : droppedBits w.loops.toNat = w.shift.toNat := by
      rw [toNat_loops]
      refine droppedBits_of_shifted w.mantissa.toNat_lt ?_
      rcases hhighest with hshift | hmantissa
      · exact .inl (congrArg UInt8.toNat hshift)
      · exact .inr (UInt8.le_iff_toNat_le.1 hmantissa)
    apply eq_of_toNat
    · rw [toNat_shift_ofLoops, hdropped]
    · rw [toNat_mantissa_ofLoops, hdropped, toNat_loops, Nat.mul_div_cancel _ (Nat.two_pow_pos _)]

/-- The bits dropped one at a time come to the stored pair, which is read back as it is and
loses no bit when it is shifted up again.  Its number is the greatest one not above the count
that any pair stores, its shift is the least that leaves a byte, and less than the shifted
bits, and less than one part in 128, is lost.  So a larger count never stores a smaller
number, what was stored stores itself, and a pair that is read back stores itself exactly
when its shift is 0 or its mantissa has eight bits. -/
theorem ofLoops_greatest (count : UInt64) :
    narrow count 0 = ((ofLoops count).mantissa.toUInt64, (ofLoops count).shift) ∧
    (narrow count 0).1.toNat = count.toNat >>> (narrow count 0).2.toNat ∧
    (narrow count 0).2.toNat ≤ 56 ∧
    ofBytes (ofLoops count).toBytes = .ok (ofLoops count) ∧
    (ofLoops count).loops.toNat =
      (ofLoops count).mantissa.toNat * 2 ^ (ofLoops count).shift.toNat ∧
    (ofLoops count).loops ≤ count ∧
    (∀ (bytes : Octets 2) (other : WorkFactor), ofBytes bytes = .ok other →
      other.mantissa.toNat * 2 ^ other.shift.toNat ≤ count.toNat →
      other.mantissa.toNat * 2 ^ other.shift.toNat ≤ (ofLoops count).loops.toNat) ∧
    (∀ shift : Nat, count.toNat / 2 ^ shift ≤ 255 ↔ (narrow count 0).2.toNat ≤ shift) ∧
    count.toNat - (ofLoops count).loops.toNat < 2 ^ (ofLoops count).shift.toNat ∧
    (1 ≤ count →
      128 * (count.toNat - (ofLoops count).loops.toNat) < count.toNat ∧
      count.toNat < 2 * (ofLoops count).loops.toNat) ∧
    (∀ more, count ≤ more → (ofLoops count).loops ≤ (ofLoops more).loops) ∧
    ofLoops (ofLoops count).loops = ofLoops count ∧
    (∀ (bytes : Octets 2) (other : WorkFactor), ofBytes bytes = .ok other →
      (ofLoops other.loops = other ↔ other.shift = 0 ∨ 128 ≤ other.mantissa)) := by
  have hshift : (narrow count 0).2.toNat = droppedBits count.toNat := by
    rw [narrow_eq, toNat_shift_ofLoops]
  have hrest : (narrow count 0).1.toNat = count.toNat >>> (narrow count 0).2.toNat := by
    rw [hshift, narrow_eq, UInt8.toNat_toUInt64, toNat_mantissa_ofLoops,
      Nat.shiftRight_eq_div_pow]
  refine ⟨narrow_eq count, hrest, hshift ▸ droppedBits_le count, ofBytes_toBytes _,
    toNat_loops _, loops_ofLoops_le count, ?_, ?_, sub_loops_ofLoops_lt count, ?_, ?_,
    (ofLoops_loops_iff _).2 (shift_or_mantissa_ofLoops count),
    fun _ other _ => ofLoops_loops_iff other⟩
  · intro bytes other hread hle
    rw [toNat_loops_ofLoops]
    exact shifted_le_of_le other.mantissa.toNat_lt hle
  · intro shift
    rw [hshift]
    exact div_two_pow_le_iff count.toNat shift
  · intro hcount
    have hlost := lost_lt hcount
    exact ⟨hlost, by omega⟩
  · intro more hmore
    have hle := Nat.le_trans (UInt64.le_iff_toNat_le.1 (loops_ofLoops_le count))
      (UInt64.le_iff_toNat_le.1 hmore)
    rw [toNat_loops] at hle
    rw [UInt64.le_iff_toNat_le, toNat_loops (ofLoops count), toNat_loops_ofLoops more]
    exact shifted_le_of_le (ofLoops count).mantissa.toNat_lt hle

/-- Of a million loops 999424 are stored; the pair of bytes 1 and 127 is read back, and is
not the one that stores its number. -/
theorem ofLoops_greatest_default :
    (1 ≤ Format.defaultLoops ∧
      128 * (Format.defaultLoops.toNat - (ofLoops Format.defaultLoops).loops.toNat) <
        Format.defaultLoops.toNat) ∧
    (ofBytes ⟨[1, 127], rfl⟩ = .ok ⟨1, 127, by decide⟩ ∧
      ofLoops (⟨1, 127, by decide⟩ : WorkFactor).loops ≠ ⟨1, 127, by decide⟩) ∧
    (1000000 ≤ (1000001 : UInt64) ∧ (ofLoops 1000000).loops ≤ (ofLoops 1000001).loops) := by
  obtain ⟨-, -, -, -, -, -, -, -, -, hlost, hmonotone, -, hread⟩ :=
    ofLoops_greatest Format.defaultLoops
  have hbytes : ofBytes ⟨[1, 127], rfl⟩ = .ok ⟨1, 127, by decide⟩ := rfl
  refine ⟨⟨by decide, (hlost (by decide)).1⟩, ⟨hbytes, ?_⟩, by decide, hmonotone _ (by decide)⟩
  intro hsame
  exact absurd ((hread _ _ hbytes).1 hsame) (by decide)

end SealedArchive.WorkFactor
