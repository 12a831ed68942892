import SealedArchive.Error
import SealedArchive.Format
import SealedArchive.Inspection

/-!
# Stored work factors

An archive stores the number of stretching loops in two bytes, a mantissa and a
shift: the number is `mantissa * 2 ^ shift`.  A number of more than eight bits
loses its lowest bits when it is stored, so what is read back is the greatest
storable number that is not above it.
-/

namespace SealedArchive

/-- A number of loops as it is stored. -/
structure WorkFactor where
  shift : UInt8
  mantissa : UInt8
  /-- No bit of the mantissa is shifted out of 64 bits. -/
  shift_le : shift.toNat ≤ Format.shiftLimit
  deriving DecidableEq

namespace WorkFactor

/-- The bits to drop so that the rest fits in one byte. -/
def droppedBits (loops : Nat) : Nat := loops.log2 - 7

theorem droppedBits_le (loops : UInt64) : droppedBits loops.toNat ≤ Format.shiftLimit := by
  have hlog : loops.toNat.log2 < 64 := by
    by_cases hzero : loops.toNat = 0
    · rw [hzero]
      decide
    · exact (Nat.log2_lt hzero).2 loops.toNat_lt
  simp only [droppedBits, Format.shiftLimit]
  omega

/-- The bits of a number of loops are dropped one at a time, from the lowest on, until
the rest fits in one byte.  Gives the rest, and how many bits were dropped in all. -/
def narrow (rest : UInt64) (dropped : UInt8) : UInt64 × UInt8 :=
  if 255 < rest then narrow (rest >>> 1) (dropped + 1) else (rest, dropped)
termination_by rest.toNat
decreasing_by
  have hpositive : 255 < rest.toNat := UInt64.lt_iff_toNat_lt.1 ‹255 < rest›
  simp only [UInt64.toNat_shiftRight, Nat.shiftRight_eq_div_pow]
  exact Nat.div_lt_self (by omega) (by decide)

/-- The stored form of a number of loops: what `narrow` comes to, at once. -/
def ofLoops (loops : UInt64) : WorkFactor where
  shift := UInt8.ofNat (droppedBits loops.toNat)
  mantissa := UInt8.ofNat (loops.toNat >>> droppedBits loops.toNat)
  shift_le := by
    have hle := droppedBits_le loops
    have hmod := Nat.mod_le (droppedBits loops.toNat) 256
    simp only [UInt8.toNat_ofNat']
    omega

/-- The number of loops. -/
def loops (w : WorkFactor) : UInt64 := w.mantissa.toUInt64 <<< w.shift.toUInt64

/-- Two bytes, the shift first. -/
def toBytes (w : WorkFactor) : Octets 2 := ⟨[w.shift, w.mantissa], rfl⟩

/-- The work factor that two bytes store. -/
def ofBytes (bytes : Octets 2) : Except Error WorkFactor :=
  if h : (bytes.get 0).toNat ≤ Format.shiftLimit then .ok ⟨bytes.get 0, bytes.get 1, h⟩
  else .error (.shiftTooLarge (bytes.get 0).toNat)

/-- Whether storing the number of loops again gives the same bytes. -/
def isCanonical (w : WorkFactor) : Bool := ofLoops w.loops = w

/-- What is shown of a work factor: its two numbers as stored. -/
def shown (w : WorkFactor) : Shown :=
  .record "LoopCount" [("bits", .number w.shift.toNat), ("mantissa", .number w.mantissa.toNat)]

@[simp] theorem ofBytes_toBytes (w : WorkFactor) : ofBytes w.toBytes = .ok w := by
  have hle : (w.toBytes.get 0).toNat ≤ Format.shiftLimit := w.shift_le
  simp only [ofBytes, dif_pos hle]
  rfl

end WorkFactor

end SealedArchive
