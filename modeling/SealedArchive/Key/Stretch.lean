import SealedArchive.Format
import SealedArchive.Hash.Sha512
import SealedArchive.Octets.LittleEndian
import SealedArchive.Secret
import SealedArchive.Traced

/-!
# Stretching a passphrase

Before a passphrase is used it is hashed many times over, to make guessing
slow.  A single hash takes in round after round, each being the number of the
round in eight bytes and then the passphrase.  The number of rounds goes down
as the passphrase gets longer, so that 64 bytes are hashed for each loop
whatever the passphrase.

`stretchStream` is the message as a whole; `stretch` feeds it to a `Hasher` in
pieces.

`stretchRoundsInWords` is the number of rounds in machine words.  The length of a passphrase
and the number of loops are words of 64 bits, and so is the number of rounds.  In between
both are widened to 128 bits, and the quotient is narrowed again, which fails when it does
not fit.  Arithmetic on wide words wraps around, and no division by zero is refused: that
neither comes up is something to prove.
-/

namespace SealedArchive

open Format (counterLength digestLength)

/-- The hash of a stretched passphrase. -/
abbrev GlobalHash := SecretBuffer digestLength

/-- The number of rounds: as many as fit in 64 bytes for each loop. -/
def stretchRounds (passphraseLength : Nat) (loops : UInt64) : Except Error Nat :=
  let rounds := loops.toNat * digestLength / (passphraseLength + counterLength)
  if rounds < UInt64.size then .ok rounds else .error (.tooManyLoops loops.toNat)

/-- The message that is hashed in some rounds. -/
def stretchStream (passphrase : Bytes) (rounds : Nat) : Bytes :=
  (List.range rounds).flatMap fun round => LittleEndian.digits counterLength round ++ passphrase

/-- The state of the hash after some rounds. -/
def hashRounds (passphrase : Bytes) (rounds : Nat) : Sha512.Hasher :=
  rounds.fold
    (fun round _ hasher =>
      (hasher.absorb (LittleEndian.digits counterLength round)).absorb passphrase)
    Sha512.Hasher.start

/-- The hash of a stretched passphrase.  Its memory is taken when the rounds are done. -/
def stretch (passphrase : SecretBytes) (loops : UInt64) : Traced GlobalHash := do
  let rounds ← Traced.ofExcept (stretchRounds passphrase.length loops)
  Traced.emit (.stretching loops.toNat rounds)
  Traced.emit (.pinning digestLength)
  return ⟨(hashRounds passphrase.bytes rounds).finish⟩

/-- The rounds come to one hash of the whole message. -/
theorem finish_hashRounds (passphrase : Bytes) (rounds : Nat) :
    (hashRounds passphrase rounds).finish = Sha512.digest (stretchStream passphrase rounds) := by
  have hstate : hashRounds passphrase rounds =
      Sha512.Hasher.start.absorb (stretchStream passphrase rounds) := by
    unfold hashRounds stretchStream
    induction rounds with
    | zero => rfl
    | succ rounds ih =>
      rw [Nat.fold_succ, ih, List.range_succ, List.flatMap_append, Sha512.Hasher.absorb_append]
      simp [Sha512.Hasher.absorb_append]
  rw [hstate, Sha512.Hasher.finish_absorb]

/-! ## The number of rounds in machine words -/

/-- A word with twice as many bits. -/
def widen (word : UInt64) : BitVec 128 := word.toBitVec.setWidth 128

/-- The word that a wide word is the widened form of, if there is one. -/
def narrowed? (wide : BitVec 128) : Option UInt64 :=
  let word : UInt64 := ⟨wide.setWidth 64⟩
  if widen word = wide then some word else none

/-- All that is to be hashed: 64 bytes for each loop. -/
def stretchVolume (loops : UInt64) : BitVec 128 := widen loops * 64

/-- The bytes of one round, of which the counter takes 8. -/
def stretchWidth (passphraseLength : UInt64) : BitVec 128 := widen passphraseLength + 8

/-- The number of rounds, computed in words. -/
def stretchRoundsInWords (passphraseLength loops : UInt64) : Except Error UInt64 :=
  match narrowed? (stretchVolume loops / stretchWidth passphraseLength) with
  | some rounds => .ok rounds
  | none => .error (.tooManyLoops loops.toNat)

end SealedArchive
