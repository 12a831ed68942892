import SealedArchive.Cipher
import SealedArchive.Cipher.Aes.Field
import SealedArchive.Cipher.Aes.Substitution

/-!
# The cipher state and its layers

The sixteen bytes of a block fill four columns of four bytes.  A round is made
of layers, each a permutation of the states: byte substitution, rotation of
the rows, mixing of the columns, and addition of a round key.  Each layer
stands beside its inverse, with the two equations that say so.
-/

namespace SealedArchive.Aes

/-- Four bytes, top to bottom. -/
structure Column where
  r0 : UInt8
  r1 : UInt8
  r2 : UInt8
  r3 : UInt8
  deriving DecidableEq

/-- Four columns, left to right. -/
structure State where
  c0 : Column
  c1 : Column
  c2 : Column
  c3 : Column
  deriving DecidableEq

/-! ## Columns -/

namespace Column

/-- The same function at each byte. -/
def map (f : UInt8 → UInt8) (c : Column) : Column := ⟨f c.r0, f c.r1, f c.r2, f c.r3⟩

/-- The sum of two columns. -/
def add (c d : Column) : Column :=
  ⟨c.r0 ^^^ d.r0, c.r1 ^^^ d.r1, c.r2 ^^^ d.r2, c.r3 ^^^ d.r3⟩

/-- The column with its top byte moved to the bottom. -/
def rotate (c : Column) : Column := ⟨c.r1, c.r2, c.r3, c.r0⟩

/-- One entry of the mixed column: the entry at the first byte given, the
others being the bytes below it, round and round. -/
def mixEntry (a b c d : UInt8) : UInt8 := double a ^^^ (times 3 b ^^^ (c ^^^ d))

/-- One entry of the unmixed column. -/
def unmixEntry (a b c d : UInt8) : UInt8 :=
  times 14 a ^^^ (times 11 b ^^^ (times 13 c ^^^ times 9 d))

/-- The product with the circulant matrix of first row 2, 3, 1, 1. -/
def mix (c : Column) : Column :=
  ⟨mixEntry c.r0 c.r1 c.r2 c.r3, mixEntry c.r1 c.r2 c.r3 c.r0,
    mixEntry c.r2 c.r3 c.r0 c.r1, mixEntry c.r3 c.r0 c.r1 c.r2⟩

/-- The product with the circulant matrix of first row 14, 11, 13, 9. -/
def unmix (c : Column) : Column :=
  ⟨unmixEntry c.r0 c.r1 c.r2 c.r3, unmixEntry c.r1 c.r2 c.r3 c.r0,
    unmixEntry c.r2 c.r3 c.r0 c.r1, unmixEntry c.r3 c.r0 c.r1 c.r2⟩

@[simp] theorem add_add (c d : Column) : (c.add d).add d = c := by
  have hbyte (a b : UInt8) : a ^^^ b ^^^ b = a := by
    rw [UInt8.xor_assoc, UInt8.xor_self, UInt8.xor_zero]
  simp only [add, hbyte]

/-- Unmixing collects, for each byte of the column, four multiples of it, and
only those at the byte itself are left over. -/
theorem unmixEntry_mixEntry (a b c d : UInt8) :
    unmixEntry (mixEntry a b c d) (mixEntry b c d a) (mixEntry c d a b) (mixEntry d a b c) = a := by
  have hgroups : unmixEntry (mixEntry a b c d) (mixEntry b c d a) (mixEntry c d a b)
      (mixEntry d a b c) =
      (times 14 (double a) ^^^ (times 11 a ^^^ (times 13 a ^^^ times 9 (times 3 a)))) ^^^
      (times 14 (times 3 b) ^^^ (times 11 (double b) ^^^ (times 13 b ^^^ times 9 b))) ^^^
      (times 14 c ^^^ (times 11 (times 3 c) ^^^ (times 13 (double c) ^^^ times 9 c))) ^^^
      (times 14 d ^^^ (times 11 d ^^^ (times 13 (times 3 d) ^^^ times 9 (double d)))) := by
    simp only [unmixEntry, mixEntry, times_xor]
    ac_rfl
  rw [hgroups, factors_same, factors_first, factors_second, factors_third]
  simp

theorem mixEntry_unmixEntry (a b c d : UInt8) :
    mixEntry (unmixEntry a b c d) (unmixEntry b c d a) (unmixEntry c d a b)
      (unmixEntry d a b c) = a := by
  have hgroups : mixEntry (unmixEntry a b c d) (unmixEntry b c d a) (unmixEntry c d a b)
      (unmixEntry d a b c) =
      (times 14 (double a) ^^^ (times 11 a ^^^ (times 13 a ^^^ times 9 (times 3 a)))) ^^^
      (times 14 (times 3 b) ^^^ (times 11 (double b) ^^^ (times 13 b ^^^ times 9 b))) ^^^
      (times 14 c ^^^ (times 11 (times 3 c) ^^^ (times 13 (double c) ^^^ times 9 c))) ^^^
      (times 14 d ^^^ (times 11 d ^^^ (times 13 (times 3 d) ^^^ times 9 (double d)))) := by
    simp only [unmixEntry, mixEntry, double_xor, double_times, times_xor, times_comm 3]
    ac_rfl
  rw [hgroups, factors_same, factors_first, factors_second, factors_third]
  simp

@[simp] theorem unmix_mix (c : Column) : c.mix.unmix = c := by
  simp [mix, unmix, unmixEntry_mixEntry]

@[simp] theorem mix_unmix (c : Column) : c.unmix.mix = c := by
  simp [mix, unmix, mixEntry_unmixEntry]

end Column

/-! ## States -/

namespace State

/-- The same function at each column. -/
def map (f : Column → Column) (s : State) : State := ⟨f s.c0, f s.c1, f s.c2, f s.c3⟩

/-- The sum of two states. -/
def add (s t : State) : State := ⟨s.c0.add t.c0, s.c1.add t.c1, s.c2.add t.c2, s.c3.add t.c3⟩

/-- Row `i` turned left by `i` columns. -/
def shiftRows (s : State) : State :=
  ⟨⟨s.c0.r0, s.c1.r1, s.c2.r2, s.c3.r3⟩, ⟨s.c1.r0, s.c2.r1, s.c3.r2, s.c0.r3⟩,
    ⟨s.c2.r0, s.c3.r1, s.c0.r2, s.c1.r3⟩, ⟨s.c3.r0, s.c0.r1, s.c1.r2, s.c2.r3⟩⟩

/-- Row `i` turned right by `i` columns. -/
def unshiftRows (s : State) : State :=
  ⟨⟨s.c0.r0, s.c3.r1, s.c2.r2, s.c1.r3⟩, ⟨s.c1.r0, s.c0.r1, s.c3.r2, s.c2.r3⟩,
    ⟨s.c2.r0, s.c1.r1, s.c0.r2, s.c3.r3⟩, ⟨s.c3.r0, s.c2.r1, s.c1.r2, s.c0.r3⟩⟩

/-- The substitution of every byte and the rotation of the rows. -/
def scramble (s : State) : State := (s.map (Column.map substitute)).shiftRows

/-- The way back from `scramble`. -/
def unscramble (s : State) : State := s.unshiftRows.map (Column.map restore)

@[simp] theorem add_add (s t : State) : (s.add t).add t = s := by simp [add]

@[simp] theorem unscramble_scramble (s : State) : s.scramble.unscramble = s := by
  simp [scramble, unscramble, shiftRows, unshiftRows, map, Column.map]

@[simp] theorem scramble_unscramble (s : State) : s.unscramble.scramble = s := by
  simp [scramble, unscramble, shiftRows, unshiftRows, map, Column.map]

@[simp] theorem map_unmix_mix (s : State) : (s.map Column.mix).map Column.unmix = s := by
  simp [map]

@[simp] theorem map_mix_unmix (s : State) : (s.map Column.unmix).map Column.mix = s := by
  simp [map]

/-! ## Blocks as states -/

/-- The bytes of a block fill the columns from top to bottom, left to right. -/
def ofBlock (b : Block) : State :=
  ⟨⟨b.get 0, b.get 1, b.get 2, b.get 3⟩, ⟨b.get 4, b.get 5, b.get 6, b.get 7⟩,
    ⟨b.get 8, b.get 9, b.get 10, b.get 11⟩, ⟨b.get 12, b.get 13, b.get 14, b.get 15⟩⟩

/-- The bytes of a state, column by column. -/
def toBlock (s : State) : Block :=
  ⟨[s.c0.r0, s.c0.r1, s.c0.r2, s.c0.r3, s.c1.r0, s.c1.r1, s.c1.r2, s.c1.r3,
    s.c2.r0, s.c2.r1, s.c2.r2, s.c2.r3, s.c3.r0, s.c3.r1, s.c3.r2, s.c3.r3], rfl⟩

@[simp] theorem ofBlock_toBlock (s : State) : ofBlock s.toBlock = s := rfl

@[simp] theorem toBlock_ofBlock (b : Block) : (ofBlock b).toBlock = b := by
  obtain ⟨bytes, hlength⟩ := b
  match bytes, hlength with
  | [_, _, _, _, _, _, _, _, _, _, _, _, _, _, _, _], _ => rfl

end State

end SealedArchive.Aes
