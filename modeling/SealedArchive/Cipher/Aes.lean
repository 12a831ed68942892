import SealedArchive.Cipher.Aes.State

/-!
# AES with a 128-bit key

The key is the first of eleven round keys.  A block is masked with the first
one, goes through nine full rounds and then one round without the mixing of
columns.  Deciphering undoes the layers in the reverse order under the same
round keys, so `Aes.cipher` is a `BlockCipher` for every key.
-/

namespace SealedArchive.Aes

/-! ## Round keys -/

/-- The round key that follows another one.  The last column, turned and
substituted, goes into the first column together with a constant; each further
column is added to the one before it. -/
def nextKey (key : State) (constant : UInt8) : State :=
  let c0 := key.c0.add ((key.c3.rotate.map substitute).add ⟨constant, 0, 0, 0⟩)
  let c1 := key.c1.add c0
  let c2 := key.c2.add c1
  ⟨c0, c1, c2, key.c3.add c2⟩

/-- The round keys after a given one, one for each of `count` constants, each
constant being the double of the one before it. -/
def laterKeys : (count : Nat) → (key : State) → (constant : UInt8) → List State
  | 0, _, _ => []
  | count + 1, key, constant =>
    let next := nextKey key constant
    next :: laterKeys count next (double constant)

/-- The round keys of a key: the first, the middle ones and the last. -/
structure Schedule where
  first : State
  middle : List State
  last : State

/-- The eleven round keys of a key. -/
def Schedule.ofKey (key : Octets 16) : Schedule :=
  let first := State.ofBlock key
  let later := laterKeys 10 first 1
  ⟨first, later.dropLast, later.getLastD first⟩

/-! ## Rounds -/

/-- A full round. -/
def round (s key : State) : State := (s.scramble.map Column.mix).add key

/-- The way back from a full round. -/
def unround (key s : State) : State := ((s.add key).map Column.unmix).unscramble

@[simp] theorem unround_round (s key : State) : unround key (round s key) = s := by
  simp [round, unround]

@[simp] theorem round_unround (s key : State) : round (unround key s) key = s := by
  simp [round, unround]

theorem foldr_unround_foldl_round (keys : List State) (s : State) :
    keys.foldr unround (keys.foldl round s) = s := by
  induction keys generalizing s with
  | nil => rfl
  | cons key keys ih => simp [ih]

theorem foldl_round_foldr_unround (keys : List State) (s : State) :
    keys.foldl round (keys.foldr unround s) = s := by
  induction keys generalizing s with
  | nil => rfl
  | cons key keys ih => simp [ih]

namespace Schedule

/-- A state enciphered under some round keys. -/
def encrypt (keys : Schedule) (s : State) : State :=
  (keys.middle.foldl round (s.add keys.first)).scramble.add keys.last

/-- A state deciphered under some round keys. -/
def decrypt (keys : Schedule) (s : State) : State :=
  (keys.middle.foldr unround (s.add keys.last).unscramble).add keys.first

@[simp] theorem decrypt_encrypt (keys : Schedule) (s : State) :
    keys.decrypt (keys.encrypt s) = s := by
  simp [encrypt, decrypt, foldr_unround_foldl_round]

@[simp] theorem encrypt_decrypt (keys : Schedule) (s : State) :
    keys.encrypt (keys.decrypt s) = s := by
  simp [encrypt, decrypt, foldl_round_foldr_unround]

/-- The block cipher of some round keys. -/
def cipher (keys : Schedule) : BlockCipher where
  encrypt block := (keys.encrypt (State.ofBlock block)).toBlock
  decrypt block := (keys.decrypt (State.ofBlock block)).toBlock
  decrypt_encrypt block := by simp
  encrypt_decrypt block := by simp

end Schedule

/-- The cipher under a key. -/
def cipher (key : Octets 16) : BlockCipher := (Schedule.ofKey key).cipher

/-- The standard's worked example. -/
example :
    ((cipher ⟨[0x00, 0x01, 0x02, 0x03, 0x04, 0x05, 0x06, 0x07,
        0x08, 0x09, 0x0a, 0x0b, 0x0c, 0x0d, 0x0e, 0x0f], rfl⟩).encrypt
      ⟨[0x00, 0x11, 0x22, 0x33, 0x44, 0x55, 0x66, 0x77,
        0x88, 0x99, 0xaa, 0xbb, 0xcc, 0xdd, 0xee, 0xff], rfl⟩).toList =
      [0x69, 0xc4, 0xe0, 0xd8, 0x6a, 0x7b, 0x04, 0x30,
        0xd8, 0xcd, 0xb7, 0x80, 0x70, 0xb4, 0xc5, 0x5a] := by
  decide +kernel

end SealedArchive.Aes
