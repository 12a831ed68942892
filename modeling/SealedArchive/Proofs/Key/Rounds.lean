import Mathlib.Algebra.Group.Nat.Defs
import SealedArchive.Format
import SealedArchive.Key.Stretch

/-!
# The message of the stretching rounds

The message is a word of rounds of one width: eight bytes of a counter, and then
the passphrase.  A position in it belongs to the round that it is divided into by
the width, and its remainder says what stands there: a byte of the counter
(`getElem?_stretchStream_counter`) or of the passphrase
(`getElem?_stretchStream_passphrase`).
-/

namespace SealedArchive

/-- The number of bytes of one round. -/
def roundWidth (passphrase : Bytes) : Nat := passphrase.length + Format.counterLength

theorem counterLength_le_roundWidth (passphrase : Bytes) :
    Format.counterLength ≤ roundWidth passphrase := Nat.le_add_left _ _

theorem roundWidth_pos (passphrase : Bytes) : 0 < roundWidth passphrase :=
  Nat.lt_of_lt_of_le (by decide) (counterLength_le_roundWidth passphrase)

variable {passphrase : Bytes} {rounds : Nat}

theorem stretchStream_succ (passphrase : Bytes) (rounds : Nat) :
    stretchStream passphrase (rounds + 1) =
      stretchStream passphrase rounds ++ (LittleEndian.digits 8 rounds ++ passphrase) := by
  simp only [stretchStream, List.range_succ, List.flatMap_append, List.flatMap_singleton]

/-- All that is hashed in some rounds after the first counter. -/
def spelledRounds (passphrase : Bytes) (rounds : Nat) : Bytes :=
  passphrase ++ (List.range' 1 (rounds - 1)).flatMap fun round =>
    LittleEndian.digits 8 round ++ passphrase

theorem stretchStream_eq_spelled (hrounds : 0 < rounds) :
    stretchStream passphrase rounds =
      LittleEndian.digits 8 0 ++ spelledRounds passphrase rounds := by
  obtain ⟨count, rfl⟩ := Nat.exists_eq_add_of_le' hrounds
  rw [stretchStream, List.range_eq_range', List.range'_succ, List.flatMap_cons, List.append_assoc]
  rfl

@[simp] theorem length_stretchStream (passphrase : Bytes) (rounds : Nat) :
    (stretchStream passphrase rounds).length = rounds * roundWidth passphrase := by
  induction rounds with
  | zero => simp [stretchStream]
  | succ rounds ih =>
    rw [stretchStream_succ, List.length_append, ih, List.length_append,
      LittleEndian.length_digits, Nat.succ_mul, Nat.add_comm 8]
    rfl

theorem getElem?_stretchStream {round index : Nat} (hround : round < rounds)
    (hindex : index < roundWidth passphrase) :
    (stretchStream passphrase rounds)[round * roundWidth passphrase + index]? =
      (LittleEndian.digits 8 round ++ passphrase)[index]? := by
  induction rounds with
  | zero => omega
  | succ rounds ih =>
    rw [stretchStream_succ]
    by_cases hlast : round = rounds
    · subst hlast
      rw [List.getElem?_append_right (by simp), length_stretchStream, Nat.add_sub_cancel_left]
    · have hbefore : round < rounds := by omega
      have hend : (round + 1) * roundWidth passphrase ≤ rounds * roundWidth passphrase :=
        Nat.mul_le_mul_right _ hbefore
      rw [Nat.succ_mul] at hend
      rw [List.getElem?_append_left (by rw [length_stretchStream]; omega), ih hbefore]

/-! ## The number of rounds -/

theorem stretchRounds_eq_ok_iff {length : Nat} {loops : UInt64} :
    stretchRounds length loops = .ok rounds ↔
      rounds = loops.toNat * 64 / (length + 8) ∧ rounds < UInt64.size := by
  simp only [stretchRounds]
  constructor
  · intro hrounds
    split at hrounds
    · next hfits =>
      obtain rfl := Except.ok.inj hrounds
      exact ⟨rfl, hfits⟩
    · cases hrounds
  · rintro ⟨rfl, hfits⟩
    exact if_pos hfits

theorem stretchRounds_eq_error_iff {length : Nat} {loops : UInt64} {error : Error} :
    stretchRounds length loops = .error error ↔
      UInt64.size ≤ loops.toNat * 64 / (length + 8) ∧ error = .tooManyLoops loops.toNat := by
  simp only [stretchRounds]
  constructor
  · intro hrefused
    split at hrefused
    · cases hrefused
    · next hmany => exact ⟨Nat.le_of_not_lt hmany, (Except.error.inj hrefused).symm⟩
  · rintro ⟨hmany, rfl⟩
    exact if_neg (Nat.not_lt.2 hmany)

/-- Fewer loops and longer rounds never come to too many rounds where more loops and shorter
rounds do not. -/
theorem exists_stretchRounds_of_le {length longer : Nat} {loops fewer : UInt64}
    (hlonger : length ≤ longer) (hle : fewer ≤ loops)
    (hrounds : stretchRounds length loops = .ok rounds) :
    ∃ count, stretchRounds longer fewer = .ok count ∧ count ≤ rounds := by
  obtain ⟨rfl, hfits⟩ := stretchRounds_eq_ok_iff.1 hrounds
  have hfewer : fewer.toNat * 64 / (longer + 8) ≤ loops.toNat * 64 / (length + 8) :=
    Nat.div_le_div (Nat.mul_le_mul_right 64 (UInt64.le_iff_toNat_le.1 hle))
      (Nat.add_le_add_right hlonger 8) (Nat.succ_ne_zero _)
  exact ⟨_, stretchRounds_eq_ok_iff.2 ⟨rfl, Nat.lt_of_le_of_lt hfewer hfits⟩, hfewer⟩

/-- The hash of a stretched passphrase is that of the whole message. -/
theorem stretch_of_rounds {passphrase : SecretBytes} {loops : UInt64} {rounds : Nat}
    (hrounds : stretchRounds passphrase.length loops = .ok rounds) :
    stretch passphrase loops =
      ⟨.ok ⟨Sha512.digest (stretchStream passphrase.bytes rounds)⟩,
        [Event.stretching loops.toNat rounds, .pinning Format.digestLength]⟩ := by
  rw [stretch, hrounds, Traced.ofExcept_ok_bind, ← finish_hashRounds]
  rfl

theorem stretch_of_refused {passphrase : SecretBytes} {loops : UInt64} {error : Error}
    (hrounds : stretchRounds passphrase.length loops = .error error) :
    stretch passphrase loops = ⟨.error error, []⟩ := by
  rw [stretch, hrounds]
  rfl

/-! ## What stands in a round -/

/-- Each byte is what is left of the number after as many divisions by 256. -/
theorem LittleEndian.getElem?_digits {count index : Nat} (number : Nat) (hindex : index < count) :
    (digits count number)[index]? = some (UInt8.ofNat (number / 256 ^ index)) := by
  induction count generalizing number index with
  | zero => omega
  | succ count ih =>
    cases index with
    | zero => simp [digits]
    | succ index =>
      rw [digits, List.getElem?_cons_succ, ih _ (by omega), Nat.div_div_eq_div_mul, Nat.pow_succ,
        Nat.mul_comm 256]

theorem getElem?_round_counter {index : Nat} (round : Nat)
    (hcounter : index < Format.counterLength) :
    (LittleEndian.digits 8 round ++ passphrase)[index]? =
      some (UInt8.ofNat (round / 256 ^ index)) := by
  rw [List.getElem?_append_left (by rw [LittleEndian.length_digits]; exact hcounter)]
  exact LittleEndian.getElem?_digits round hcounter

theorem getElem?_round_passphrase {index : Nat} (round : Nat)
    (hpassphrase : Format.counterLength ≤ index) :
    (LittleEndian.digits 8 round ++ passphrase)[index]? =
      passphrase[index - Format.counterLength]? := by
  rw [List.getElem?_append_right (by rw [LittleEndian.length_digits]; exact hpassphrase),
    LittleEndian.length_digits]

/-! ## What stands at a position -/

variable {position : Nat}

theorem getElem?_stretchStream_position (hposition : position < rounds * roundWidth passphrase) :
    (stretchStream passphrase rounds)[position]? =
      (LittleEndian.digits 8 (position / roundWidth passphrase) ++
        passphrase)[position % roundWidth passphrase]? := by
  have hround : position / roundWidth passphrase < rounds :=
    (Nat.div_lt_iff_lt_mul (roundWidth_pos passphrase)).2 hposition
  have hindex := Nat.mod_lt position (roundWidth_pos passphrase)
  have hsplit : position / roundWidth passphrase * roundWidth passphrase +
      position % roundWidth passphrase = position := by
    rw [Nat.mul_comm]
    exact Nat.div_add_mod _ _
  rw [← getElem?_stretchStream hround hindex, hsplit]

theorem getElem?_stretchStream_counter (hposition : position < rounds * roundWidth passphrase)
    (hcounter : position % roundWidth passphrase < Format.counterLength) :
    (stretchStream passphrase rounds)[position]? =
      some (UInt8.ofNat (position / roundWidth passphrase /
        256 ^ (position % roundWidth passphrase))) :=
  (getElem?_stretchStream_position hposition).trans (getElem?_round_counter _ hcounter)

theorem getElem?_stretchStream_passphrase
    (hposition : position < rounds * roundWidth passphrase)
    (hpassphrase : Format.counterLength ≤ position % roundWidth passphrase) :
    (stretchStream passphrase rounds)[position]? =
      passphrase[position % roundWidth passphrase - Format.counterLength]? :=
  (getElem?_stretchStream_position hposition).trans (getElem?_round_passphrase _ hpassphrase)

end SealedArchive
