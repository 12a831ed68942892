import SealedArchive.Key.Stretch
import SealedArchive.Proofs.Key.Rounds

/-!
# How many rounds there are

The number of rounds is the quotient of all that is to be hashed by the bytes of one round,
rounded down.  In 128 bits nothing of it is lost (`toNat_stretchRoundsInWords`), and it is
refused exactly when it is no word (`stretchRounds_exact`).

A passphrase of 56 bytes makes a round of 64, the bytes that a loop stands for.  So 56 is
where both thresholds lie: from there on no number of loops is too large
(`stretchRounds_total_iff`), and up to there each loop more is a round more
(`stretchRounds_strict_iff`).
-/

namespace SealedArchive

/-! ## In machine words -/

theorem toNat_widen (word : UInt64) : (widen word).toNat = word.toNat := by
  rw [widen, BitVec.toNat_setWidth, UInt64.toNat_toBitVec,
    Nat.mod_eq_of_lt (Nat.lt_trans word.toNat_lt (by decide))]

theorem narrowed?_of_lt {wide : BitVec 128} (hfits : wide.toNat < 2 ^ 64) :
    narrowed? wide = some (UInt64.ofNat wide.toNat) := by
  have hword : (⟨wide.setWidth 64⟩ : UInt64) = UInt64.ofNat wide.toNat := by
    apply UInt64.toNat_inj.1
    rw [UInt64.toNat_ofNat']
    exact BitVec.toNat_setWidth 64 wide
  have hsame : widen (UInt64.ofNat wide.toNat) = wide := by
    apply BitVec.eq_of_toNat_eq
    rw [toNat_widen, UInt64.toNat_ofNat', Nat.mod_eq_of_lt hfits]
  rw [narrowed?, hword, if_pos hsame]

theorem narrowed?_of_le {wide : BitVec 128} (hlarge : 2 ^ 64 ≤ wide.toNat) :
    narrowed? wide = none := by
  rw [narrowed?]
  apply if_neg
  intro hsame
  rw [← hsame, toNat_widen] at hlarge
  exact absurd (UInt64.toNat_lt _) (Nat.not_lt.2 hlarge)

variable (length loops : UInt64)

theorem umulOverflow_stretchVolume : (widen loops).umulOverflow 64 = false := by
  have hloops := loops.toNat_lt
  have hsixtyfour : (64 : BitVec 128).toNat = 64 := rfl
  rw [BitVec.umulOverflow, toNat_widen, hsixtyfour, decide_eq_false_iff_not]
  omega

theorem uaddOverflow_stretchWidth : (widen length).uaddOverflow 8 = false := by
  have hlength := length.toNat_lt
  have height : (8 : BitVec 128).toNat = 8 := rfl
  rw [BitVec.uaddOverflow, toNat_widen, height, decide_eq_false_iff_not]
  omega

theorem toNat_stretchVolume : (stretchVolume loops).toNat = loops.toNat * 64 := by
  have hfits := umulOverflow_stretchVolume loops
  rw [BitVec.umulOverflow, toNat_widen, decide_eq_false_iff_not, Nat.not_le] at hfits
  rw [stretchVolume, BitVec.toNat_mul, toNat_widen, Nat.mod_eq_of_lt hfits]
  rfl

theorem toNat_stretchWidth : (stretchWidth length).toNat = length.toNat + 8 := by
  have hfits := uaddOverflow_stretchWidth length
  rw [BitVec.uaddOverflow, toNat_widen, decide_eq_false_iff_not, Nat.not_le] at hfits
  rw [stretchWidth, BitVec.toNat_add, toNat_widen, Nat.mod_eq_of_lt hfits]
  rfl

theorem stretchWidth_ne_zero : stretchWidth length ≠ 0 := by
  intro hzero
  have hwidth := toNat_stretchWidth length
  rw [hzero] at hwidth
  exact absurd hwidth (by simp)

theorem toNat_stretchRoundsInWords :
    (stretchRoundsInWords length loops).map UInt64.toNat = stretchRounds length.toNat loops := by
  have hquotient : (stretchVolume loops / stretchWidth length).toNat =
      loops.toNat * 64 / (length.toNat + 8) := by
    rw [BitVec.toNat_udiv, toNat_stretchVolume, toNat_stretchWidth]
  rw [stretchRoundsInWords, stretchRounds, ← hquotient]
  rcases Nat.lt_or_ge (stretchVolume loops / stretchWidth length).toNat UInt64.size with
    hfits | hlarge
  · rw [narrowed?_of_lt hfits, if_pos hfits]
    exact congrArg Except.ok (UInt64.toNat_ofNat_of_lt hfits)
  · rw [narrowed?_of_le hlarge, if_neg (Nat.not_lt.2 hlarge)]
    rfl

/-! ## The quotient -/

variable {length : Nat} {loops : UInt64} {rounds : Nat}

theorem stretchRounds_exact :
    stretchRounds length loops = .ok rounds ↔
      rounds * (length + 8) ≤ 64 * loops.toNat ∧ 64 * loops.toNat < (rounds + 1) * (length + 8) ∧
        rounds < 2 ^ 64 := by
  have hquotient : loops.toNat * 64 / (length + 8) = rounds ↔
      rounds * (length + 8) ≤ 64 * loops.toNat ∧
        64 * loops.toNat < (rounds + 1) * (length + 8) := by
    have hwidth : 0 < length + 8 := Nat.succ_pos _
    rw [Nat.mul_comm loops.toNat, Nat.div_eq_iff hwidth, Nat.succ_mul rounds]
    omega
  rw [stretchRounds_eq_ok_iff, eq_comm, hquotient, and_assoc]
  rfl

theorem stretchRounds_refused_iff {error : Error} :
    stretchRounds length loops = .error error ↔
      2 ^ 64 * (length + 8) ≤ 64 * loops.toNat ∧ error = .tooManyLoops loops.toNat := by
  rw [stretchRounds_eq_error_iff, Nat.mul_comm loops.toNat,
    Nat.le_div_iff_mul_le (Nat.succ_pos _)]
  rfl

/-- Where a number of loops is refused, shorter rounds and more loops are refused as well. -/
theorem stretchRounds_refused_of_le {shorter : Nat} {more : UInt64} {error : Error}
    (hshorter : shorter ≤ length) (hmore : loops ≤ more)
    (hrefused : stretchRounds length loops = .error error) :
    stretchRounds shorter more = .error (.tooManyLoops more.toNat) := by
  obtain ⟨hlarge, -⟩ := stretchRounds_refused_iff.1 hrefused
  have hloops := UInt64.le_iff_toNat_le.1 hmore
  refine stretchRounds_refused_iff.2 ⟨?_, rfl⟩
  omega

/-! ## The two thresholds -/

/-- From 56 bytes on, and only there, every number of loops is let through. -/
theorem stretchRounds_total_iff (length : Nat) :
    56 ≤ length ↔ ∀ loops, ∃ rounds, stretchRounds length loops = .ok rounds := by
  constructor
  · intro hlong loops
    have hloops := loops.toNat_lt
    cases hrounds : stretchRounds length loops with
    | ok rounds => exact ⟨rounds, rfl⟩
    | error error =>
      obtain ⟨hlarge, -⟩ := stretchRounds_refused_iff.1 hrounds
      omega
  · intro htotal
    obtain ⟨rounds, hrounds⟩ := htotal 18446744073709551615
    obtain ⟨-, habove, hfits⟩ := stretchRounds_exact.1 hrounds
    have hlast : (18446744073709551615 : UInt64).toNat = 2 ^ 64 - 1 := rfl
    have hbound : (rounds + 1) * (length + 8) ≤ 2 ^ 64 * (length + 8) :=
      Nat.mul_le_mul_right _ hfits
    omega

/-- Up to 56 bytes, and only there, more loops make more rounds. -/
theorem stretchRounds_strict_iff (length : Nat) :
    length ≤ 56 ↔ ∀ fewer more : UInt64, fewer < more → ∀ low high,
      stretchRounds length fewer = .ok low → stretchRounds length more = .ok high →
      low < high := by
  constructor
  · intro hshort fewer more hmore low high hlow hhigh
    have hloops := UInt64.lt_iff_toNat_lt.1 hmore
    obtain ⟨hbelow, -, -⟩ := stretchRounds_exact.1 hlow
    obtain ⟨-, habove, -⟩ := stretchRounds_exact.1 hhigh
    -- one loop more is worth a whole round
    have hround : (low + 1) * (length + 8) < (high + 1) * (length + 8) := by
      rw [Nat.succ_mul]
      omega
    exact Nat.lt_of_succ_lt_succ (Nat.lt_of_mul_lt_mul_right hround)
  · intro hstrict
    apply Nat.le_of_not_lt
    intro hlong
    have hnone : stretchRounds length 0 = .ok 0 := stretchRounds_exact.2 (by simp)
    have hone : stretchRounds length 1 = .ok 0 := by
      have hloop : (1 : UInt64).toNat = 1 := rfl
      refine stretchRounds_exact.2 ⟨?_, ?_, by decide⟩ <;> omega
    exact Nat.lt_irrefl 0 (hstrict 0 1 (by decide) 0 0 hnone hone)

/-! ## Over all words -/

/-- On words the number of rounds is exact: nothing overflows on the way to the quotient, and
it is handed on rounded down, or refused if it is no word.  A longer passphrase never makes
more rounds, nor do fewer loops, and what is hashed in all lacks less than a round of what
the loops stand for. -/
theorem stretchRounds_over_words (length loops : UInt64) :
    ((widen loops).umulOverflow 64 = false ∧ (widen length).uaddOverflow 8 = false ∧
      stretchWidth length ≠ 0 ∧
      (stretchRoundsInWords length loops).map UInt64.toNat =
        stretchRounds length.toNat loops) ∧
    (∀ rounds, stretchRounds length.toNat loops = .ok rounds ↔
      rounds * (length.toNat + 8) ≤ 64 * loops.toNat ∧
      64 * loops.toNat < (rounds + 1) * (length.toNat + 8) ∧ rounds < 2 ^ 64) ∧
    (∀ error, stretchRounds length.toNat loops = .error error ↔
      2 ^ 64 * (length.toNat + 8) ≤ 64 * loops.toNat ∧ error = .tooManyLoops loops.toNat) ∧
    (∀ error, stretchRounds length.toNat loops = .error error → error.kind = .settings) ∧
    (56 ≤ length ↔ ∀ count, ∃ rounds, stretchRounds length.toNat count = .ok rounds) ∧
    (∀ shorter more : UInt64, shorter ≤ length → loops ≤ more →
      (∀ rounds, stretchRounds shorter.toNat more = .ok rounds →
        ∃ fewer, stretchRounds length.toNat loops = .ok fewer ∧ fewer ≤ rounds) ∧
      (∀ error, stretchRounds length.toNat loops = .error error →
        stretchRounds shorter.toNat more = .error (.tooManyLoops more.toNat))) ∧
    (length ≤ 56 ↔ ∀ fewer more : UInt64, fewer < more → ∀ low high,
      stretchRounds length.toNat fewer = .ok low → stretchRounds length.toNat more = .ok high →
      low < high) ∧
    (∀ rounds, stretchRounds length.toNat loops = .ok rounds →
      rounds * (length.toNat + 8) ≤ 64 * loops.toNat ∧
      64 * loops.toNat ≤ rounds * (length.toNat + 8) + (length.toNat + 7)) := by
  refine ⟨⟨umulOverflow_stretchVolume loops, uaddOverflow_stretchWidth length,
    stretchWidth_ne_zero length, toNat_stretchRoundsInWords length loops⟩,
    fun rounds => stretchRounds_exact, fun error => stretchRounds_refused_iff, ?_, ?_, ?_, ?_, ?_⟩
  · intro error hrefused
    obtain ⟨-, rfl⟩ := stretchRounds_refused_iff.1 hrefused
    rfl
  · rw [UInt64.le_iff_toNat_le]
    exact stretchRounds_total_iff length.toNat
  · intro shorter more hshorter hmore
    have hlength := UInt64.le_iff_toNat_le.1 hshorter
    refine ⟨fun rounds hrounds => exists_stretchRounds_of_le hlength hmore hrounds, ?_⟩
    intro error hrefused
    exact stretchRounds_refused_of_le hlength hmore hrefused
  · rw [UInt64.le_iff_toNat_le]
    exact stretchRounds_strict_iff length.toNat
  · intro rounds hrounds
    obtain ⟨hbelow, habove, -⟩ := stretchRounds_exact.1 hrounds
    rw [Nat.succ_mul rounds] at habove
    omega

/-- At 56 bytes the largest number of loops makes as many rounds, and at 55 it is refused and
so it is for every shorter passphrase. -/
theorem stretchRounds_over_words_frontier :
    (stretchRounds 56 18446744073709551615 = .ok 18446744073709551615 ∧
      18446744073709551615 * 64 ≤ 64 * 18446744073709551615) ∧
    (stretchRounds 55 18446744073709551615 = .error (.tooManyLoops 18446744073709551615) ∧
      stretchRounds 54 18446744073709551615 = .error (.tooManyLoops 18446744073709551615)) := by
  have hrounds : stretchRounds (56 : UInt64).toNat 18446744073709551615 =
      .ok 18446744073709551615 := rfl
  have hrefused : stretchRounds (55 : UInt64).toNat 18446744073709551615 =
      .error (.tooManyLoops 18446744073709551615) := rfl
  obtain ⟨-, -, -, -, -, -, -, hvolume⟩ := stretchRounds_over_words 56 18446744073709551615
  obtain ⟨-, -, -, -, -, hmonotone, -, -⟩ := stretchRounds_over_words 55 18446744073709551615
  exact ⟨⟨hrounds, (hvolume _ hrounds).1⟩, hrefused,
    (hmonotone 54 18446744073709551615 (by decide) (by decide)).2 _ hrefused⟩

end SealedArchive
