import Mathlib.Algebra.BigOperators.Fin
import Mathlib.Algebra.BigOperators.Ring.Finset
import Mathlib.Tactic.MkIffOfInductiveProp
import SealedArchive.Proofs.Header.Packing

/-!
# The layout of a packed header

The four fields of a header tile its 25 bytes: the method is byte 0, and each number is the
sum of eight bytes, each worth 256 times as much as the one before it.  `Spells` says so
without a word on how a header is packed or unpacked, and every string of 25 bytes spells
exactly the header that unpacking gives (`spells_iff_unpack`).

Packing writes all the bytes, so what was in the room before is of no account
(`packInto_eq_pack`), and into any room it is a bijection from headers to strings of 25
bytes.
-/

namespace SealedArchive

/-- The number that eight bytes from an index on spell, the lowest byte first. -/
def Octets.numberAt {n : Nat} (bytes : Octets n) (start : Nat) (hrange : start + 8 ≤ n) : Nat :=
  ∑ i : Fin 8, (bytes.get ⟨start + i, by omega⟩).toNat * 256 ^ (i : Nat)

namespace LittleEndian

/-- What the bytes add up to, each with its own weight. -/
theorem value_eq_sum (bytes : Bytes) :
    value bytes = ∑ i ∈ Finset.range bytes.length, (bytes.getD i 0).toNat * 256 ^ i := by
  induction bytes with
  | nil => rfl
  | cons byte rest ih =>
    have hrest : 256 * value rest =
        ∑ i ∈ Finset.range rest.length, (rest.getD i 0).toNat * 256 ^ (i + 1) := by
      rw [ih, Finset.mul_sum]
      apply Finset.sum_congr rfl
      intro i _
      rw [Nat.pow_succ, Nat.mul_left_comm, Nat.mul_comm 256]
    rw [value, hrest, List.length_cons, Finset.sum_range_succ', Nat.add_comm]
    simp only [List.getD_cons_succ, List.getD_cons_zero, Nat.pow_zero, Nat.mul_one]

variable {n : Nat}

theorem toNat_toUInt64_slice (bytes : Octets n) (start : Nat) (hrange : start + 8 ≤ n) :
    (toUInt64 (bytes.slice start 8 hrange)).toNat = bytes.numberAt start hrange := by
  rw [toNat_toUInt64, value_eq_sum, Octets.length_toList, Finset.sum_range, Octets.numberAt]
  apply Finset.sum_congr rfl
  intro i _
  have hbyte : (bytes.slice start 8 hrange).toList.getD i 0 = bytes.get ⟨start + i, by omega⟩ := by
    rw [List.getD_eq_getElem?_getD, Octets.toList_slice, List.getElem?_take_of_lt i.isLt,
      List.getElem?_drop, bytes.getElem?_toList ⟨start + i, by omega⟩, Option.getD_some]
  rw [hbyte]

end LittleEndian

namespace Header

/-- The bytes spell the fields of the header. -/
@[mk_iff]
structure Spells (bytes : Octets 25) (h : Header) : Prop where
  method : bytes.get 0 = h.method
  storedLength : h.storedLength.toNat = bytes.numberAt 1 (by decide)
  uncompressedLength : h.uncompressedLength.toNat = bytes.numberAt 9 (by decide)
  previousOffset : h.previousOffset.toNat = bytes.numberAt 17 (by decide)

theorem spells_unpack (bytes : Octets 25) : Spells bytes (unpack bytes) where
  method := rfl
  storedLength := LittleEndian.toNat_toUInt64_slice bytes 1 _
  uncompressedLength := LittleEndian.toNat_toUInt64_slice bytes 9 _
  previousOffset := LittleEndian.toNat_toUInt64_slice bytes 17 _

/-- The bytes leave no choice of a field. -/
theorem Spells.unique {bytes : Octets 25} {h other : Header} (hspells : Spells bytes h)
    (hother : Spells bytes other) : h = other := by
  have hmethod := hspells.method.symm.trans hother.method
  have hstored := hspells.storedLength.trans hother.storedLength.symm
  have huncompressed := hspells.uncompressedLength.trans hother.uncompressedLength.symm
  have hprevious := hspells.previousOffset.trans hother.previousOffset.symm
  cases h
  cases other
  simp only [UInt64.toNat_inj] at hstored huncompressed hprevious
  simp only [mk.injEq]
  exact ⟨hmethod, hstored, huncompressed, hprevious⟩

theorem spells_iff_unpack {bytes : Octets 25} {h : Header} : Spells bytes h ↔ unpack bytes = h := by
  constructor
  · intro hspells
    exact (spells_unpack bytes).unique hspells
  · rintro rfl
    exact spells_unpack bytes

theorem packInto_eq_pack (h : Header) (room : Octets 25) : h.packInto room = h.pack := by
  apply Octets.ext
  rw [toList_packInto, toList_pack]

/-- The bytes that spell a header are the ones that it is packed into. -/
theorem spells_iff_packInto {bytes : Octets 25} {h : Header} (room : Octets 25) :
    Spells bytes h ↔ h.packInto room = bytes := by
  rw [spells_iff_unpack, packInto_eq_pack]
  constructor
  · rintro rfl
    exact pack_unpack bytes
  · rintro rfl
    exact unpack_pack h

/-- Packing writes over all 25 bytes of the room, whatever stood there, with bytes that come
from the header alone: the method first, then each number as the sum of its eight bytes,
weighted by the powers of 256.  No other bytes spell the header and the bytes spell no other
header, so unpacking is the inverse of packing on both sides, on every header and on every
string of 25 bytes. -/
theorem packInto_bijection :
    (∀ (h : Header) (room other : Octets 25), h.packInto room = h.packInto other) ∧
    (∀ (h : Header) (room bytes : Octets 25), h.packInto room = bytes ↔
      bytes.get 0 = h.method ∧
      h.storedLength.toNat = bytes.numberAt 1 (by decide) ∧
      h.uncompressedLength.toNat = bytes.numberAt 9 (by decide) ∧
      h.previousOffset.toNat = bytes.numberAt 17 (by decide)) ∧
    (∀ (h : Header) (room : Octets 25), unpack (h.packInto room) = h) ∧
    (∀ bytes room : Octets 25, (unpack bytes).packInto room = bytes) ∧
    (∀ room : Octets 25, Function.Bijective fun h : Header => h.packInto room) := by
  have hunpack (h : Header) (room : Octets 25) : unpack (h.packInto room) = h := by
    rw [packInto_eq_pack, unpack_pack]
  have hpack (bytes room : Octets 25) : (unpack bytes).packInto room = bytes := by
    rw [packInto_eq_pack, pack_unpack]
  refine ⟨?_, ?_, hunpack, hpack, ?_⟩
  · intro h room other
    rw [packInto_eq_pack, packInto_eq_pack]
  · intro h room bytes
    rw [← spells_iff_packInto room, spells_iff]
  · intro room
    exact ⟨Function.LeftInverse.injective fun h => hunpack h room,
      Function.RightInverse.surjective fun bytes => hpack bytes room⟩

/-- The lowest byte of a number stands first. -/
example : (pack ⟨3, 0x0102, 0x0a0b0c, 0xffffffffffffffff⟩).toList =
    [3, 2, 1, 0, 0, 0, 0, 0, 0, 0x0c, 0x0b, 0x0a, 0, 0, 0, 0, 0,
      0xff, 0xff, 0xff, 0xff, 0xff, 0xff, 0xff, 0xff] := by
  decide

end Header

end SealedArchive
