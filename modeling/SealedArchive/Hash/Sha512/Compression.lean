import SealedArchive.Octets

/-!
# The SHA-512 compression function

A chaining value of eight words takes in one block of 128 bytes at a time.
The block is read as sixteen big-endian words, which start a schedule of
eighty; each schedule word goes through one step of the working registers, and
the registers are added to the chaining value at the end.

The schedule is kept as a window of its sixteen most recent words, since a word
depends on no older one.
-/

namespace SealedArchive.Sha512

/-! ## Words -/

/-- The word turned right by `count` bits, for `count` between 1 and 63. -/
def rotateRight (word count : UInt64) : UInt64 := (word >>> count) ||| (word <<< (64 - count))

/-- The word that a run of bytes spells, the highest byte first. -/
def bigEndian (bytes : Bytes) : UInt64 :=
  bytes.foldl (fun word byte => (word <<< 8) ||| byte.toUInt64) 0

/-- The eight bytes of a word, the highest first. -/
def wordBytes (word : UInt64) : Octets 8 :=
  ⟨[(word >>> 56).toUInt8, (word >>> 48).toUInt8, (word >>> 40).toUInt8, (word >>> 32).toUInt8,
    (word >>> 24).toUInt8, (word >>> 16).toUInt8, (word >>> 8).toUInt8, word.toUInt8], rfl⟩

/-- The big-endian words of a byte string of `8 * count` bytes. -/
def words : (count : Nat) → Bytes → List UInt64
  | 0, _ => []
  | count + 1, bytes => bigEndian (bytes.take 8) :: words count (bytes.drop 8)

/-! ## The schedule window -/

/-- Sixteen successive words of the schedule, the oldest first. -/
structure Window where
  w0 : UInt64
  w1 : UInt64
  w2 : UInt64
  w3 : UInt64
  w4 : UInt64
  w5 : UInt64
  w6 : UInt64
  w7 : UInt64
  w8 : UInt64
  w9 : UInt64
  w10 : UInt64
  w11 : UInt64
  w12 : UInt64
  w13 : UInt64
  w14 : UInt64
  w15 : UInt64

/-- The window before any word. -/
def Window.empty : Window := ⟨0, 0, 0, 0, 0, 0, 0, 0, 0, 0, 0, 0, 0, 0, 0, 0⟩

/-- The window with one more word, the oldest one being dropped. -/
def Window.push (w : Window) (word : UInt64) : Window :=
  ⟨w.w1, w.w2, w.w3, w.w4, w.w5, w.w6, w.w7, w.w8, w.w9, w.w10, w.w11, w.w12, w.w13, w.w14, w.w15,
    word⟩

/-- The word that follows the sixteen in the window. -/
def Window.next (w : Window) : UInt64 :=
  let σ0 := rotateRight w.w1 1 ^^^ rotateRight w.w1 8 ^^^ (w.w1 >>> 7)
  let σ1 := rotateRight w.w14 19 ^^^ rotateRight w.w14 61 ^^^ (w.w14 >>> 6)
  σ1 + w.w9 + σ0 + w.w0

/-- The window of the sixteen words of a block. -/
def Window.ofBlock (block : Octets 128) : Window :=
  (words 16 block.toList).foldl Window.push Window.empty

/-! ## The working registers -/

/-- Eight words: the chaining value, and the registers of a step. -/
structure Registers where
  a : UInt64
  b : UInt64
  c : UInt64
  d : UInt64
  e : UInt64
  f : UInt64
  g : UInt64
  h : UInt64
  deriving DecidableEq

/-- The first 64 bits of the fractional parts of the square roots of the first
eight primes. -/
def Registers.initial : Registers :=
  ⟨0x6a09e667f3bcc908, 0xbb67ae8584caa73b, 0x3c6ef372fe94f82b,
    0xa54ff53a5f1d36f1, 0x510e527fade682d1, 0x9b05688c2b3e6c1f,
    0x1f83d9abfb41bd6b, 0x5be0cd19137e2179⟩

/-- The registers after taking in one word, already added to its constant. -/
def Registers.step (r : Registers) (word : UInt64) : Registers :=
  let sum1 := rotateRight r.e 14 ^^^ rotateRight r.e 18 ^^^ rotateRight r.e 41
  let choice := (r.e &&& r.f) ^^^ (~~~r.e &&& r.g)
  let sum0 := rotateRight r.a 28 ^^^ rotateRight r.a 34 ^^^ rotateRight r.a 39
  let majority := (r.a &&& r.b) ^^^ (r.a &&& r.c) ^^^ (r.b &&& r.c)
  let t := r.h + sum1 + choice + word
  ⟨t + (sum0 + majority), r.a, r.b, r.c, r.d + t, r.e, r.f, r.g⟩

/-- The wordwise sum. -/
def Registers.add (r s : Registers) : Registers :=
  ⟨r.a + s.a, r.b + s.b, r.c + s.c, r.d + s.d, r.e + s.e, r.f + s.f, r.g + s.g, r.h + s.h⟩

/-- The eight words as bytes. -/
def Registers.toOctets (r : Registers) : Octets 64 :=
  ((wordBytes r.a).append <| (wordBytes r.b).append <| (wordBytes r.c).append <|
    (wordBytes r.d).append <| (wordBytes r.e).append <| (wordBytes r.f).append <|
    (wordBytes r.g).append (wordBytes r.h) :
      Octets (8 + (8 + (8 + (8 + (8 + (8 + (8 + 8))))))))

/-! ## One block -/

/-- The first 64 bits of the fractional parts of the cube roots of the first
eighty primes, one for each step. -/
def stepConstants : List UInt64 := [
  0x428a2f98d728ae22, 0x7137449123ef65cd, 0xb5c0fbcfec4d3b2f, 0xe9b5dba58189dbbc,
  0x3956c25bf348b538, 0x59f111f1b605d019, 0x923f82a4af194f9b, 0xab1c5ed5da6d8118,
  0xd807aa98a3030242, 0x12835b0145706fbe, 0x243185be4ee4b28c, 0x550c7dc3d5ffb4e2,
  0x72be5d74f27b896f, 0x80deb1fe3b1696b1, 0x9bdc06a725c71235, 0xc19bf174cf692694,
  0xe49b69c19ef14ad2, 0xefbe4786384f25e3, 0x0fc19dc68b8cd5b5, 0x240ca1cc77ac9c65,
  0x2de92c6f592b0275, 0x4a7484aa6ea6e483, 0x5cb0a9dcbd41fbd4, 0x76f988da831153b5,
  0x983e5152ee66dfab, 0xa831c66d2db43210, 0xb00327c898fb213f, 0xbf597fc7beef0ee4,
  0xc6e00bf33da88fc2, 0xd5a79147930aa725, 0x06ca6351e003826f, 0x142929670a0e6e70,
  0x27b70a8546d22ffc, 0x2e1b21385c26c926, 0x4d2c6dfc5ac42aed, 0x53380d139d95b3df,
  0x650a73548baf63de, 0x766a0abb3c77b2a8, 0x81c2c92e47edaee6, 0x92722c851482353b,
  0xa2bfe8a14cf10364, 0xa81a664bbc423001, 0xc24b8b70d0f89791, 0xc76c51a30654be30,
  0xd192e819d6ef5218, 0xd69906245565a910, 0xf40e35855771202a, 0x106aa07032bbd1b8,
  0x19a4c116b8d2d0c8, 0x1e376c085141ab53, 0x2748774cdf8eeb99, 0x34b0bcb5e19b48a8,
  0x391c0cb3c5c95a63, 0x4ed8aa4ae3418acb, 0x5b9cca4f7763e373, 0x682e6ff3d6b2b8a3,
  0x748f82ee5defb2fc, 0x78a5636f43172f60, 0x84c87814a1f0ab72, 0x8cc702081a6439ec,
  0x90befffa23631e28, 0xa4506cebde82bde9, 0xbef9a3f7b2c67915, 0xc67178f2e372532b,
  0xca273eceea26619c, 0xd186b8c721c0c207, 0xeada7dd6cde0eb1e, 0xf57d4f7fee6ed178,
  0x06f067aa72176fba, 0x0a637dc5a2c898a6, 0x113f9804bef90dae, 0x1b710b35131c471b,
  0x28db77f523047d84, 0x32caab7b40c72493, 0x3c9ebe0a15c9bebc, 0x431d67c49c100d4c,
  0x4cc5d4becb3e42b6, 0x597f299cfc657e2a, 0x5fcb6fab3ad6faec, 0x6c44198c4a475817
]

/-- The registers after one step for each of some constants, the schedule going
on from a window. -/
def runSteps : List UInt64 → Window → Registers → Registers
  | [], _, registers => registers
  | constant :: constants, window, registers =>
    runSteps constants (window.push window.next) (registers.step (constant + window.w0))

/-- The chaining value after one more block. -/
def compress (chaining : Registers) (block : Octets 128) : Registers :=
  chaining.add (runSteps stepConstants (Window.ofBlock block) chaining)

end SealedArchive.Sha512
