import SealedArchive.Hash.Sha512.Compression
import SealedArchive.Octets.Blocks

/-!
# SHA-512

`digest` is the hash of a whole message: the message is padded to a number of
blocks of 128 bytes, and the blocks go through the compression function in
order.  `Hasher` takes a message in pieces of any size and keeps no more than
the part of a block that is not complete yet; `finish_absorb` says that it
comes to the same digest however the message was cut.
-/

namespace SealedArchive

/-- The result of the hash. -/
abbrev Digest := Octets 64

namespace Sha512

/-! ## The hash of a whole message -/

/-- What follows a message of some length: a one bit, zeros up to sixteen bytes
before the end of a block, and the number of bits of the message as sixteen
bytes, the highest first. -/
def padding (length : Nat) : Bytes :=
  0x80 :: List.replicate ((239 - length % 128) % 128) 0 ++
    ((wordBytes (UInt64.ofNat (8 * length / UInt64.size))).toList ++
      (wordBytes (UInt64.ofNat (8 * length))).toList)

/-- The hash of a message. -/
def digest (message : Bytes) : Digest :=
  ((blocks 128 (message ++ padding message.length)).foldl compress Registers.initial).toOctets

/-- The standard's worked example of one block. -/
example : (digest [0x61, 0x62, 0x63]).toList =
    [0xdd, 0xaf, 0x35, 0xa1, 0x93, 0x61, 0x7a, 0xba, 0xcc, 0x41, 0x73, 0x49,
      0xae, 0x20, 0x41, 0x31, 0x12, 0xe6, 0xfa, 0x4e, 0x89, 0xa9, 0x7e, 0xa2,
      0x0a, 0x9e, 0xee, 0xe6, 0x4b, 0x55, 0xd3, 0x9a, 0x21, 0x92, 0x99, 0x2a,
      0x27, 0x4f, 0xc1, 0xa8, 0x36, 0xba, 0x3c, 0x23, 0xa3, 0xfe, 0xeb, 0xbd,
      0x45, 0x4d, 0x44, 0x23, 0x64, 0x3c, 0xe8, 0x0e, 0x2a, 0x9a, 0xc9, 0x4f,
      0xa5, 0x4c, 0xa4, 0x9f] := by
  decide +kernel

/-- Two messages with one digest. -/
structure Collision (one other : Bytes) : Prop where
  ne : one ≠ other
  digest_eq : digest one = digest other

/-! ## A message in pieces -/

/-- What is known of a message after a part of it: the chaining value of its
whole blocks, the bytes after them, the latest first, and the number of bytes
so far. -/
structure Hasher where
  chaining : Registers
  pending : Bytes
  count : Nat
  /-- Only the bytes after the last whole block are kept. -/
  length_pending : pending.length = count % 128

namespace Hasher

/-- The state before any byte. -/
def start : Hasher := ⟨Registers.initial, [], 0, rfl⟩

/-- The state after one more byte. -/
def push (h : Hasher) (byte : UInt8) : Hasher :=
  if hfull : h.count % 128 = 127 then
    ⟨compress h.chaining ⟨(byte :: h.pending).reverse, by simp [h.length_pending, hfull]⟩, [],
      h.count + 1, by simp; omega⟩
  else
    ⟨h.chaining, byte :: h.pending, h.count + 1, by simp [h.length_pending]; omega⟩

/-- The state after some more bytes. -/
def absorb (h : Hasher) (bytes : Bytes) : Hasher := bytes.foldl push h

/-- The hash of all bytes so far. -/
def finish (h : Hasher) : Digest := (h.absorb (padding h.count)).chaining.toOctets

theorem absorb_append (h : Hasher) (left right : Bytes) :
    h.absorb (left ++ right) = (h.absorb left).absorb right := by
  simp [absorb]

/-! ## The pieces of a message have the digest of the whole -/

/-- The state is the one after the bytes of a message. -/
structure HasRead (h : Hasher) (message : Bytes) : Prop where
  chaining : h.chaining = (blocks 128 message).foldl compress Registers.initial
  pending : h.pending.reverse = rest 128 message
  count : h.count = message.length

theorem hasRead_start : start.HasRead [] := ⟨rfl, rfl, rfl⟩

theorem HasRead.push {h : Hasher} {message : Bytes} (hread : h.HasRead message) (byte : UInt8) :
    (h.push byte).HasRead (message ++ [byte]) := by
  have hsplit : message ++ [byte] =
      join (blocks 128 message) ++ (rest 128 message ++ [byte]) := by
    rw [← List.append_assoc, join_blocks_append_rest]
  have hrest := @length_rest 128 message
  unfold Hasher.push
  split
  · next hfull =>
    let block : Octets 128 :=
      ⟨(byte :: h.pending).reverse, by simp [h.length_pending, hfull]⟩
    have hblock : message ++ [byte] = join (blocks 128 message ++ [block]) ++ [] := by
      simp [hsplit, block, hread.pending]
    refine ⟨?_, ?_, by simp [hread.count]⟩
    · rw [hblock, blocks_join_append _ _ (by decide), List.foldl_append, hread.chaining]
      rfl
    · rw [hblock, rest_join_append _ _ (by decide)]
      rfl
  · next hfull =>
    rw [hread.count] at hfull
    have htail : (rest 128 message ++ [byte]).length < 128 := by
      rw [List.length_append, hrest, List.length_singleton]
      omega
    refine ⟨?_, ?_, by simp [hread.count]⟩
    · rw [hsplit, blocks_join_append _ _ htail]
      exact hread.chaining
    · rw [hsplit, rest_join_append _ _ htail]
      simp [hread.pending]

theorem HasRead.absorb {h : Hasher} {message : Bytes} (hread : h.HasRead message)
    (bytes : Bytes) : (h.absorb bytes).HasRead (message ++ bytes) := by
  induction bytes generalizing h message with
  | nil => simpa [Hasher.absorb] using hread
  | cons byte bytes ih =>
    have hnext := ih (hread.push byte)
    rwa [List.append_assoc, List.singleton_append] at hnext

theorem HasRead.finish {h : Hasher} {message : Bytes} (hread : h.HasRead message) :
    h.finish = digest message := by
  have hpadded := hread.absorb (padding message.length)
  unfold Hasher.finish digest
  rw [hread.count, hpadded.chaining]

/-- Hashing a message in any number of pieces gives the hash of the message. -/
theorem finish_absorb (message : Bytes) : (start.absorb message).finish = digest message :=
  (hasRead_start.absorb message).finish

end Hasher

end Sha512

end SealedArchive
