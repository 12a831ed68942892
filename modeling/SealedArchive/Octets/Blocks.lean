import SealedArchive.Octets

/-!
# Whole blocks and the rest

A byte string of any length is a run of whole blocks of one width followed by
fewer bytes than a block.  `blocks` and `rest` are the two parts and `join`
puts blocks together again: `join_blocks_append_rest` says that nothing is
lost or reordered.
-/

namespace SealedArchive

/-- The number of bytes in the whole blocks of a string of some length. -/
def alignedLength (width length : Nat) : Nat := length - length % width

/-- The number of bytes after the last whole block. -/
def restLength (width length : Nat) : Nat := length % width

/-- The first `count` blocks of a string, a missing byte being zero. -/
def leadingBlocks (width : Nat) : (count : Nat) → Bytes → List (Octets width)
  | 0, _ => []
  | count + 1, bytes =>
    Octets.padded width bytes :: leadingBlocks width count (bytes.drop width)

/-- The whole blocks of a string, in order. -/
def blocks (width : Nat) (bytes : Bytes) : List (Octets width) :=
  leadingBlocks width (bytes.length / width) bytes

/-- The bytes after the last whole block. -/
def rest (width : Nat) (bytes : Bytes) : Bytes := bytes.drop (alignedLength width bytes.length)

/-- The bytes of some blocks, one after the other. -/
def join {width : Nat} (parts : List (Octets width)) : Bytes := parts.flatMap Octets.toList

/-- The exclusive or of the first block of `target` with the first block of
`mask`, the bytes of `target` after it being kept; nothing if either is
shorter than a block. -/
def maskFirstBlock? (width : Nat) (target mask : Bytes) : Option Bytes :=
  if width ≤ target.length ∧ width ≤ mask.length then
    some (xorBytes (target.take width) (mask.take width) ++ target.drop width)
  else none

variable {width : Nat}

@[simp] theorem length_leadingBlocks (count : Nat) (bytes : Bytes) :
    (leadingBlocks width count bytes).length = count := by
  induction count generalizing bytes with
  | zero => rfl
  | succ count ih => simp [leadingBlocks, ih]

@[simp] theorem length_blocks (bytes : Bytes) :
    (blocks width bytes).length = bytes.length / width := length_leadingBlocks _ _

theorem length_rest (bytes : Bytes) : (rest width bytes).length = bytes.length % width := by
  have hle := Nat.mod_le bytes.length width
  simp only [rest, alignedLength, List.length_drop]
  omega

@[simp] theorem join_nil : join ([] : List (Octets width)) = [] := rfl

@[simp] theorem join_cons (part : Octets width) (parts : List (Octets width)) :
    join (part :: parts) = part.toList ++ join parts := by simp [join]

@[simp] theorem join_append (left right : List (Octets width)) :
    join (left ++ right) = join left ++ join right := by simp [join]

@[simp] theorem length_join (parts : List (Octets width)) :
    (join parts).length = width * parts.length := by
  induction parts with
  | nil => rfl
  | cons part parts ih =>
    rw [join_cons, List.length_append, part.length_toList, ih, List.length_cons, Nat.mul_succ,
      Nat.add_comm]

theorem join_leadingBlocks (count : Nat) (bytes : Bytes)
    (hlength : width * count ≤ bytes.length) :
    join (leadingBlocks width count bytes) = bytes.take (width * count) := by
  induction count generalizing bytes with
  | zero => simp [leadingBlocks]
  | succ count ih =>
    rw [Nat.mul_succ] at hlength
    have hrest := ih (bytes.drop width) (by simp; omega)
    rw [leadingBlocks, join_cons, hrest, Nat.mul_succ, Nat.add_comm, List.take_add]
    congr 1
    simp [Octets.padded, Nat.min_eq_left (show width ≤ bytes.length by omega)]

theorem join_blocks (bytes : Bytes) :
    join (blocks width bytes) = bytes.take (alignedLength width bytes.length) := by
  have hdiv := Nat.div_add_mod bytes.length width
  rw [blocks, join_leadingBlocks _ _ (Nat.mul_div_le _ _)]
  congr 1
  simp only [alignedLength]
  omega

theorem join_blocks_of_aligned {bytes : Bytes} (haligned : bytes.length % width = 0) :
    join (blocks width bytes) = bytes := by
  rw [join_blocks, alignedLength, haligned, Nat.sub_zero, List.take_length]

/-- A string of a number of blocks is those blocks joined. -/
theorem exists_join_of_length {bytes : Bytes} {count : Nat} (hwidth : 0 < width)
    (hlength : bytes.length = width * count) :
    ∃ parts : List (Octets width), parts.length = count ∧ bytes = join parts := by
  refine ⟨blocks width bytes, ?_, (join_blocks_of_aligned ?_).symm⟩
  · rw [length_blocks, hlength, Nat.mul_div_cancel_left _ hwidth]
  · rw [hlength, Nat.mul_mod_right]

/-- The two parts make up the string. -/
theorem join_blocks_append_rest (bytes : Bytes) :
    join (blocks width bytes) ++ rest width bytes = bytes := by
  rw [join_blocks, rest, List.take_append_drop]

/-- Joined blocks followed by less than a block fall apart into those blocks. -/
theorem blocks_join_append (parts : List (Octets width)) (tail : Bytes)
    (htail : tail.length < width) : blocks width (join parts ++ tail) = parts := by
  have hcount : (join parts ++ tail).length / width = parts.length := by
    rw [List.length_append, length_join, Nat.mul_add_div (by omega), Nat.div_eq_of_lt htail,
      Nat.add_zero]
  rw [blocks, hcount]
  clear hcount
  induction parts with
  | nil => rfl
  | cons part parts ih =>
    have hdrop : (part.toList ++ (join parts ++ tail)).drop width = join parts ++ tail := by
      rw [List.drop_left' part.length_toList]
    have hhead : Octets.padded width (part.toList ++ (join parts ++ tail)) = part := by
      apply Octets.ext
      simp [Octets.padded, List.take_left' part.length_toList]
    simp only [join_cons, List.append_assoc, List.length_cons, leadingBlocks, hdrop, hhead, ih]

theorem blocks_join (hwidth : 0 < width) (parts : List (Octets width)) :
    blocks width (join parts) = parts := by
  simpa using blocks_join_append parts [] hwidth

theorem rest_join_append (parts : List (Octets width)) (tail : Bytes)
    (htail : tail.length < width) : rest width (join parts ++ tail) = tail := by
  have hjoin := @join_blocks_append_rest width (join parts ++ tail)
  rw [blocks_join_append parts tail htail] at hjoin
  exact List.append_cancel_left hjoin

theorem rest_join (hwidth : 0 < width) (parts : List (Octets width)) :
    rest width (join parts) = [] := by
  simpa using rest_join_append parts [] hwidth

end SealedArchive
