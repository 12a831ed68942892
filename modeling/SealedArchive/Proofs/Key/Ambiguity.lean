import Mathlib.Data.Nat.ModEq
import SealedArchive.Proofs.Session.Build

/-!
# Passphrases that stretching does not tell apart

Nothing in the message of the stretching rounds says where a passphrase ends.
`stretchStream_eq_iff` says when two passphrases have one message: when nothing
is hashed for either, or when the longer one is hashed once and reads like all
that is hashed for the shorter one.  From two rounds on there is no such case.

The two messages are words of two widths.  Where one word has the second or third
counter, the other can only have a byte of its passphrase, since its own counters
read otherwise there (`passphrase_of_counter`).  The bytes of a passphrase come
back in every round, and by the remainders of both widths some position shows one
byte of each passphrase at once.
-/

namespace SealedArchive

/-- A byte that is not a byte of the counters stands in the passphrase. -/
theorem passphrase_of_counter {passphrase : Bytes} {rounds position value : Nat}
    (hposition : position < rounds * roundWidth passphrase)
    (hbyte : (stretchStream passphrase rounds)[position]? = some (UInt8.ofNat value))
    (hpositive : 0 < value) (hvalue : value < 256)
    (hround : position / roundWidth passphrase < 256)
    (hother : position ≠ roundWidth passphrase * value) :
    Format.counterLength ≤ position % roundWidth passphrase ∧
      passphrase[position % roundWidth passphrase - Format.counterLength]? =
        some (UInt8.ofNat value) := by
  have hpassphrase : Format.counterLength ≤ position % roundWidth passphrase := by
    by_contra hcounter
    rw [getElem?_stretchStream_counter hposition (Nat.lt_of_not_le hcounter)] at hbyte
    have hsame := congrArg UInt8.toNat (Option.some.inj hbyte)
    rw [UInt8.toNat_ofNat', UInt8.toNat_ofNat'] at hsame
    have hdivision := Nat.div_add_mod position (roundWidth passphrase)
    by_cases hlow : position % roundWidth passphrase = 0
    · -- the low byte of a counter is the number of its round
      rw [hlow, Nat.pow_zero, Nat.div_one, Nat.mod_eq_of_lt hround, Nat.mod_eq_of_lt hvalue]
        at hsame
      rw [hlow, Nat.add_zero, hsame] at hdivision
      exact hother hdivision.symm
    · -- the higher bytes of the first 256 counters are zero
      have hpower : 256 ≤ 256 ^ (position % roundWidth passphrase) :=
        Nat.le_self_pow hlow 256
      rw [Nat.div_eq_of_lt (Nat.lt_of_lt_of_le hround hpower), Nat.mod_eq_of_lt hvalue] at hsame
      omega
  refine ⟨hpassphrase, ?_⟩
  rw [← getElem?_stretchStream_passphrase hposition hpassphrase]
  exact hbyte

/-- The low byte of a counter stands at the start of its round. -/
theorem getElem?_stretchStream_start {passphrase : Bytes} {rounds round : Nat}
    (hround : round < rounds) :
    (stretchStream passphrase rounds)[roundWidth passphrase * round]? =
      some (UInt8.ofNat round) := by
  have hwidth := roundWidth_pos passphrase
  have hposition : roundWidth passphrase * round < rounds * roundWidth passphrase := by
    rw [Nat.mul_comm]
    exact Nat.mul_lt_mul_of_pos_right hround hwidth
  rw [getElem?_stretchStream_counter hposition (by rw [Nat.mul_mod_right]; decide),
    Nat.mul_mod_right, Nat.mul_div_cancel_left _ hwidth, Nat.pow_zero, Nat.div_one]

/-- In any common multiple of two widths there is a position with a remainder of
each width, if the two remainders come from multiples of both widths' divisors. -/
theorem exists_position_of_remainders {width other total one two : Nat} (hwidth : 0 < width)
    (hother : 0 < other) (htotal : 0 < total) (hdvd : width ∣ total) (hotherDvd : other ∣ total)
    (hcommon : one ≡ two [MOD Nat.gcd width other]) :
    ∃ position < total, position % width = one % width ∧ position % other = two % other := by
  have hleast : Nat.lcm width other ≤ total :=
    Nat.le_of_dvd htotal (Nat.lcm_dvd hdvd hotherDvd)
  have hbound := Nat.chineseRemainder'_lt_lcm hcommon (Nat.ne_of_gt hwidth) (Nat.ne_of_gt hother)
  obtain ⟨hone, htwo⟩ := (Nat.chineseRemainder' hcommon).property
  exact ⟨_, Nat.lt_of_lt_of_le hbound hleast, hone, htwo⟩

/-! ## One message of two passphrases -/

section SameMessage

variable {passphrase other : Bytes} {rounds otherRounds : Nat}

theorem mul_roundWidth_eq
    (hsame : stretchStream passphrase rounds = stretchStream other otherRounds) :
    rounds * roundWidth passphrase = otherRounds * roundWidth other := by
  have hlength := congrArg List.length hsame
  rwa [length_stretchStream, length_stretchStream] at hlength

theorem rounds_eq_zero_of_stretchStream (hempty : stretchStream passphrase rounds = []) :
    rounds = 0 := by
  have hlength := congrArg List.length hempty
  rw [length_stretchStream, List.length_nil] at hlength
  exact (Nat.mul_eq_zero.1 hlength).resolve_right (Nat.ne_of_gt (roundWidth_pos passphrase))

/-- The shorter passphrase takes more rounds. -/
theorem lt_rounds_of_stretchStream_eq (hlonger : passphrase.length < other.length)
    (hrounds : 0 < otherRounds)
    (hsame : stretchStream passphrase rounds = stretchStream other otherRounds) :
    otherRounds < rounds := by
  have htotal := mul_roundWidth_eq hsame
  have hwidth : roundWidth passphrase < roundWidth other := Nat.add_lt_add_right hlonger _
  by_contra hfew
  have hfewer : rounds * roundWidth passphrase ≤ otherRounds * roundWidth passphrase :=
    Nat.mul_le_mul_right _ (Nat.le_of_not_lt hfew)
  have hwider : otherRounds * roundWidth passphrase < otherRounds * roundWidth other :=
    Nat.mul_lt_mul_of_pos_left hwidth hrounds
  omega

theorem eq_of_stretchStream_eq (hrounds : 0 < rounds)
    (hlength : passphrase.length = other.length)
    (hsame : stretchStream passphrase rounds = stretchStream other rounds) :
    passphrase = other := by
  rw [stretchStream_eq_spelled hrounds, stretchStream_eq_spelled hrounds,
    List.append_cancel_left_eq] at hsame
  exact (List.append_inj hsame hlength).1

/-- A message of one round is the message of another passphrase if it reads like
all that is hashed for that one. -/
theorem stretchStream_one_eq_iff (hrounds : 0 < rounds) :
    stretchStream passphrase rounds = stretchStream other 1 ↔
      other = spelledRounds passphrase rounds := by
  rw [stretchStream_eq_spelled hrounds, stretchStream_eq_spelled Nat.one_pos,
    List.append_cancel_left_eq]
  simp only [spelledRounds, List.range'_zero, List.flatMap_nil, List.append_nil, Nat.sub_self]
  exact eq_comm

/-- From the second round of the longer passphrase on, two passphrases of
different lengths have different messages. -/
theorem stretchStream_ne (hlonger : passphrase.length < other.length)
    (hlimit : other.length ≤ Format.passphraseLimit) (hrounds : 2 ≤ otherRounds) :
    stretchStream passphrase rounds ≠ stretchStream other otherRounds := by
  intro hsame
  have htotal := mul_roundWidth_eq hsame
  have hmore := lt_rounds_of_stretchStream_eq hlonger (by omega) hsame
  have hcounter : 8 ≤ roundWidth passphrase := counterLength_le_roundWidth passphrase
  have hwidth : roundWidth passphrase < roundWidth other := Nat.add_lt_add_right hlonger _
  have hwidest : roundWidth other ≤ 520 := Nat.add_le_add_right hlimit _
  have htwice : 2 * roundWidth other ≤ otherRounds * roundWidth other :=
    Nat.mul_le_mul_right _ hrounds
  -- the second counter of the longer passphrase
  have hone := @getElem?_stretchStream_start other otherRounds 1 (by omega)
  rw [Nat.mul_one, ← hsame] at hone
  obtain ⟨hshortIndex, hshortByte⟩ := passphrase_of_counter (by omega) hone (by decide) (by decide)
    (Nat.div_lt_of_lt_mul (by omega)) (by omega)
  -- the third counter of the shorter one
  have htwo := @getElem?_stretchStream_start passphrase rounds 2 (by omega)
  rw [hsame] at htwo
  obtain ⟨hlongIndex, hlongByte⟩ := passphrase_of_counter (by omega) htwo (by decide) (by decide)
    (Nat.div_lt_of_lt_mul (by omega)) (by omega)
  -- a position with the remainder of the first in one width and of the second in the other
  have hcommon : roundWidth other ≡ roundWidth passphrase * 2
      [MOD Nat.gcd (roundWidth passphrase) (roundWidth other)] := by
    have hleft := Nat.modEq_zero_iff_dvd.2
      (Nat.gcd_dvd_right (roundWidth passphrase) (roundWidth other))
    have hright := Nat.modEq_zero_iff_dvd.2
      ((Nat.gcd_dvd_left (roundWidth passphrase) (roundWidth other)).mul_right 2)
    exact hleft.trans hright.symm
  obtain ⟨position, hposition, hshort, hlong⟩ :=
    exists_position_of_remainders (by omega) (by omega) (by omega)
      (Nat.dvd_mul_left (roundWidth passphrase) rounds)
      (htotal ▸ Nat.dvd_mul_left (roundWidth other) otherRounds) hcommon
  have hread := getElem?_stretchStream_passphrase hposition (hshort ▸ hshortIndex)
  rw [hshort, hshortByte, hsame,
    getElem?_stretchStream_passphrase (htotal ▸ hposition) (hlong ▸ hlongIndex), hlong,
    hlongByte] at hread
  exact absurd hread (by decide)

end SameMessage

/-- Two different passphrases have the same message exactly when nothing is hashed
for either of them, or the longer one is hashed once and spells all the rounds of
the shorter one.  With two rounds each the messages differ, so one hash for both
sessions is a collision. -/
theorem stretchStream_eq_iff (loops : UInt64) {passphrase other : Bytes}
    {rounds otherRounds : Nat} (hdifferent : passphrase ≠ other)
    (hlength : passphrase.length ≤ other.length)
    (hlimit : other.length ≤ Format.passphraseLimit)
    (hrounds : stretchRounds passphrase.length loops = .ok rounds)
    (hotherRounds : stretchRounds other.length loops = .ok otherRounds) :
    (stretchStream passphrase rounds = stretchStream other otherRounds ↔
      (rounds = 0 ∧ otherRounds = 0) ∨
        (otherRounds = 1 ∧ 2 ≤ rounds ∧ other = spelledRounds passphrase rounds)) ∧
    (2 ≤ rounds → 2 ≤ otherRounds →
      stretchStream passphrase rounds ≠ stretchStream other otherRounds ∧
      ∀ session otherSession : Session, session.Built → otherSession.Built →
        session.loops = loops → otherSession.loops = loops →
        session.secrets.passphrase.bytes = passphrase →
        otherSession.secrets.passphrase.bytes = other →
        session.secrets.globalHash = otherSession.secrets.globalHash →
          Sha512.Collision (stretchStream passphrase rounds)
            (stretchStream other otherRounds)) := by
  have hiff : stretchStream passphrase rounds = stretchStream other otherRounds ↔
      (rounds = 0 ∧ otherRounds = 0) ∨
        (otherRounds = 1 ∧ 2 ≤ rounds ∧ other = spelledRounds passphrase rounds) := by
    constructor
    · intro hsame
      rcases Nat.lt_or_eq_of_le hlength with hlonger | hequal
      · have hfew : otherRounds < 2 := by
          by_contra hmany
          exact stretchStream_ne hlonger hlimit (Nat.le_of_not_lt hmany) hsame
        rcases Nat.lt_succ_iff_lt_or_eq.1 hfew with hnone | rfl
        · obtain rfl := Nat.lt_one_iff.1 hnone
          exact .inl ⟨rounds_eq_zero_of_stretchStream hsame, rfl⟩
        · have hmore := lt_rounds_of_stretchStream_eq hlonger Nat.one_pos hsame
          exact .inr ⟨rfl, hmore, (stretchStream_one_eq_iff (by omega)).1 hsame⟩
      · -- passphrases of one length have the same number of rounds
        rw [hequal, hotherRounds] at hrounds
        obtain rfl := Except.ok.inj hrounds
        by_cases hnone : otherRounds = 0
        · exact .inl ⟨hnone, hnone⟩
        · exact absurd (eq_of_stretchStream_eq (Nat.pos_of_ne_zero hnone) hequal hsame) hdifferent
    · rintro (⟨rfl, rfl⟩ | ⟨rfl, hmore, hspelled⟩)
      · rfl
      · exact (stretchStream_one_eq_iff (by omega)).2 hspelled
  refine ⟨hiff, ?_⟩
  intro hmany hotherMany
  have hne : stretchStream passphrase rounds ≠ stretchStream other otherRounds := by
    rw [Ne, hiff]
    omega
  refine ⟨hne, ?_⟩
  rintro session otherSession hbuilt hotherBuilt rfl hloops rfl rfl hhash
  refine ⟨hne, ?_⟩
  rw [← hbuilt.contents_globalHash hrounds, hhash, hotherBuilt.contents_globalHash]
  rw [hloops]
  exact hotherRounds

/-- Fifty-six bytes that spell the four rounds of eight bytes: with one loop both
passphrases have the same message. -/
theorem stretchStream_eq_iff_spelled :
    (List.replicate 8 7 ≠ spelledRounds (List.replicate 8 7) 4 ∧
      (List.replicate 8 (7 : UInt8)).length ≤ (spelledRounds (List.replicate 8 7) 4).length ∧
      (spelledRounds (List.replicate 8 7) 4).length ≤ Format.passphraseLimit ∧
      stretchRounds (List.replicate 8 (7 : UInt8)).length 1 = .ok 4 ∧
      stretchRounds (spelledRounds (List.replicate 8 7) 4).length 1 = .ok 1) ∧
    stretchStream (List.replicate 8 7) 4 =
      stretchStream (spelledRounds (List.replicate 8 7) 4) 1 :=
  ⟨⟨by decide, by decide, by decide, rfl, rfl⟩,
    (stretchStream_eq_iff 1 (by decide) (by decide) (by decide) rfl rfl).1.2
      (.inr ⟨rfl, by decide, rfl⟩)⟩

end SealedArchive
