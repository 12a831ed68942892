/-!
# Byte strings

A byte string is a list of bytes.  `Octets n` is a byte string of exactly
`n` bytes: salts, cipher blocks, digests and packed headers all have a fixed
width, and the width is part of their type.

Every operation keeps the width by construction, so no caller checks one
again.  The view of a value is `toList`, and each operation has one lemma that
says what it does to that view.
-/

namespace SealedArchive

/-- A byte string of any length. -/
abbrev Bytes := List UInt8

/-- A byte string of exactly `n` bytes. -/
structure Octets (n : Nat) where
  /-- The bytes, first to last. -/
  toList : Bytes
  /-- There are `n` of them. -/
  length_toList : toList.length = n
  deriving DecidableEq

/-- The bytewise exclusive or of two byte strings, as long as the shorter. -/
def xorBytes (left right : Bytes) : Bytes := List.zipWith (· ^^^ ·) left right

@[simp] theorem length_xorBytes (left right : Bytes) :
    (xorBytes left right).length = min left.length right.length := by
  simp [xorBytes]

/-- Masking twice with the same bytes gives the first string back, as long as
the mask covers it. -/
theorem xorBytes_xorBytes (left mask : Bytes) (hlength : left.length ≤ mask.length) :
    xorBytes (xorBytes left mask) mask = left := by
  induction left generalizing mask with
  | nil => simp [xorBytes]
  | cons a left ih =>
    cases mask with
    | nil => simp at hlength
    | cons b mask =>
      have hrest := ih mask (by simpa using hlength)
      simp only [xorBytes] at hrest
      have hbyte : a ^^^ b ^^^ b = a := by rw [UInt8.xor_assoc, UInt8.xor_self, UInt8.xor_zero]
      simp [xorBytes, hrest, hbyte]

theorem xorBytes_comm (left right : Bytes) : xorBytes left right = xorBytes right left := by
  simp only [xorBytes]
  rw [List.zipWith_comm]
  simp only [UInt8.xor_comm]

/-- Two strings differ by the same bytes when both are masked alike. -/
theorem xorBytes_masked (one other mask : Bytes) (hone : one.length ≤ mask.length)
    (hother : other.length ≤ mask.length) :
    xorBytes (xorBytes one mask) (xorBytes other mask) = xorBytes one other := by
  induction mask generalizing one other with
  | nil =>
    obtain rfl := List.eq_nil_of_length_eq_zero (Nat.le_zero.1 hone)
    rfl
  | cons byte mask ih =>
    cases one with
    | nil => rfl
    | cons a one =>
      cases other with
      | nil => rfl
      | cons b other =>
        have hrest := ih one other (Nat.le_of_succ_le_succ hone) (Nat.le_of_succ_le_succ hother)
        have hbyte : (a ^^^ byte) ^^^ (b ^^^ byte) = a ^^^ b := by
          rw [UInt8.xor_comm b, UInt8.xor_assoc, ← UInt8.xor_assoc byte, UInt8.xor_self,
            UInt8.zero_xor]
        simp only [xorBytes] at hrest
        simp only [xorBytes, List.zipWith_cons_cons, hbyte, hrest]

theorem take_xorBytes (count : Nat) (left right : Bytes) :
    (xorBytes left right).take count = xorBytes (left.take count) (right.take count) :=
  List.take_zipWith

theorem drop_xorBytes (count : Nat) (left right : Bytes) :
    (xorBytes left right).drop count = xorBytes (left.drop count) (right.drop count) :=
  List.drop_zipWith

theorem xorBytes_self (bytes : Bytes) : xorBytes bytes bytes = List.replicate bytes.length 0 := by
  simp only [xorBytes, List.zipWith_self, UInt8.xor_self]
  exact List.map_const'

theorem xorBytes_zeros (bytes : Bytes) :
    xorBytes (List.replicate bytes.length 0) bytes = bytes := by
  induction bytes with
  | nil => rfl
  | cons byte bytes ih =>
    simp only [xorBytes] at ih
    simp [xorBytes, List.replicate_succ, ih]

/-- A string is what stands before a range, the range and what stands behind it. -/
theorem eq_parts_of_range (bytes : Bytes) {start stop : Nat} (hrange : start ≤ stop) :
    bytes = bytes.take start ++ ((bytes.drop start).take (stop - start) ++ bytes.drop stop) := by
  have hbehind : (bytes.drop start).drop (stop - start) = bytes.drop stop := by
    rw [List.drop_drop, Nat.add_sub_cancel' hrange]
  rw [← hbehind, List.take_append_drop, List.take_append_drop]

namespace Octets

variable {m n : Nat}

attribute [simp] length_toList

@[ext] theorem ext {a b : Octets n} (h : a.toList = b.toList) : a = b := by
  cases a; cases b; cases h; rfl

/-- The string as `n` bytes, if it has that many. -/
def ofList? (n : Nat) (bytes : Bytes) : Option (Octets n) :=
  if h : bytes.length = n then some ⟨bytes, h⟩ else none

/-- The string cut or filled up with zeros at its end, to make `n` bytes. -/
def padded (n : Nat) (bytes : Bytes) : Octets n :=
  let kept := bytes.take n
  ⟨kept ++ List.replicate (n - kept.length) 0, by
    rw [List.length_append, List.length_replicate]
    exact Nat.add_sub_cancel' (List.length_take_le n bytes)⟩

/-- `n` copies of one byte. -/
def replicate (n : Nat) (byte : UInt8) : Octets n := ⟨List.replicate n byte, by simp⟩

/-- `n` zero bytes. -/
def zero (n : Nat) : Octets n := replicate n 0

/-- The bytes of the first string and then those of the second. -/
def append (a : Octets m) (b : Octets n) : Octets (m + n) := ⟨a.toList ++ b.toList, by simp⟩

/-- The `count` bytes from index `start` on. -/
def slice (a : Octets n) (start count : Nat) (h : start + count ≤ n) :
    Octets count :=
  ⟨(a.toList.drop start).take count, by simp; omega⟩

/-- The bytes with those from index `start` on replaced by `bytes`. -/
def overwrite (a : Octets n) (start : Nat) (bytes : Bytes) (h : start + bytes.length ≤ n) :
    Octets n :=
  ⟨a.toList.take start ++ (bytes ++ a.toList.drop (start + bytes.length)), by simp; omega⟩

/-- The bytewise exclusive or. -/
def xor (a b : Octets n) : Octets n := ⟨xorBytes a.toList b.toList, by simp⟩

/-- The byte at an index. -/
def get (a : Octets n) (i : Fin n) : UInt8 := a.toList.get (i.cast a.length_toList.symm)

/-! ## The view of each operation -/

theorem ofList?_eq_some_iff {bytes : Bytes} {a : Octets n} :
    ofList? n bytes = some a ↔ bytes = a.toList := by
  unfold ofList?
  split
  · constructor
    · intro h; cases h; rfl
    · intro h; subst h; rfl
  · next hlength =>
    constructor
    · intro h; cases h
    · intro h; subst h; exact absurd a.length_toList hlength

@[simp] theorem ofList?_toList (a : Octets n) : ofList? n a.toList = some a :=
  ofList?_eq_some_iff.2 rfl

@[simp] theorem toList_zero : (zero n).toList = List.replicate n 0 := rfl

@[simp] theorem toList_append (a : Octets m) (b : Octets n) :
    (a.append b).toList = a.toList ++ b.toList := rfl

theorem toList_padded (bytes : Bytes) (hlength : bytes.length ≤ n) :
    (padded n bytes).toList = bytes ++ List.replicate (n - bytes.length) 0 := by
  simp only [padded, List.take_of_length_le hlength]

/-- A string that has the width already is left as it is. -/
theorem toList_padded_of_length_eq (bytes : Bytes) (hlength : bytes.length = n) :
    (padded n bytes).toList = bytes := by
  simp [toList_padded bytes (Nat.le_of_eq hlength), hlength]

@[simp] theorem padded_toList (a : Octets n) : padded n a.toList = a :=
  ext (toList_padded_of_length_eq _ a.length_toList)

@[simp] theorem toList_xor (a b : Octets n) :
    (a.xor b).toList = xorBytes a.toList b.toList := rfl

/-- Adding the same mask twice changes nothing. -/
@[simp] theorem xor_xor (a b : Octets n) : (a.xor b).xor b = a :=
  ext (xorBytes_xorBytes _ _ (by simp))

theorem xor_comm (a b : Octets n) : a.xor b = b.xor a := ext (xorBytes_comm _ _)

/-- A mask is no obstacle to telling two strings apart. -/
theorem xor_left_inj {a b mask : Octets n} : a.xor mask = b.xor mask ↔ a = b := by
  constructor
  · intro hsame
    rw [← xor_xor a mask, hsame, xor_xor]
  · rintro rfl
    rfl

theorem xor_masked (a b mask : Octets n) : (mask.xor a).xor (mask.xor b) = a.xor b := by
  apply ext
  rw [xor_comm mask a, xor_comm mask b]
  exact xorBytes_masked _ _ _ (by simp) (by simp)

/-- Where two strings agree their sum is zero, so what stands before that place,
filled up with zeros, is the sum. -/
theorem padded_take_xor {a b : Octets n} {count : Nat}
    (hagree : a.toList.drop count = b.toList.drop count) :
    padded n ((a.xor b).toList.take count) = a.xor b := by
  have hrest : (a.xor b).toList.drop count = List.replicate (n - count) 0 := by
    rw [toList_xor, drop_xorBytes, hagree, xorBytes_self, List.length_drop, b.length_toList]
  have hlength : ((a.xor b).toList.take count).length = min count n := by
    rw [List.length_take, length_toList]
  apply ext
  rw [toList_padded _ (by omega), hlength, show n - min count n = n - count by omega, ← hrest]
  exact List.take_append_drop count _

/-- Filling up with zeros adds nothing behind the bytes. -/
theorem drop_padded_xor (bytes : Bytes) (b : Octets n) (hlength : bytes.length ≤ n) :
    ((padded n bytes).xor b).toList.drop bytes.length = b.toList.drop bytes.length := by
  have hzeros : (bytes ++ List.replicate (n - bytes.length) 0).drop bytes.length =
      List.replicate (b.toList.drop bytes.length).length 0 := by
    rw [List.drop_left, List.length_drop, b.length_toList]
  rw [toList_xor, toList_padded _ hlength, drop_xorBytes, hzeros, xorBytes_zeros]

@[simp] theorem toList_slice (a : Octets n) (start count : Nat) (h : start + count ≤ n) :
    (a.slice start count h).toList = (a.toList.drop start).take count := rfl

theorem getElem?_toList (bytes : Octets n) (i : Fin n) :
    bytes.toList[i.val]? = some (bytes.get i) := by
  have hindex : i.val < bytes.toList.length := by
    rw [bytes.length_toList]
    exact i.isLt
  rw [List.getElem?_eq_getElem hindex]
  rfl

theorem getElem?_overwrite (a : Octets n) (start : Nat) (bytes : Bytes)
    (hrange : start + bytes.length ≤ n) (i : Nat) :
    (a.overwrite start bytes hrange).toList[i]? =
      if start ≤ i ∧ i < start + bytes.length then bytes[i - start]? else a.toList[i]? := by
  have hfront : (a.toList.take start).length = start := by
    rw [List.length_take, a.length_toList]
    omega
  simp only [overwrite, List.getElem?_append, hfront]
  by_cases hbefore : i < start
  · rw [if_pos hbefore, if_neg (by omega), List.getElem?_take_of_lt hbefore]
  · rw [if_neg hbefore]
    by_cases hwithin : i - start < bytes.length
    · rw [if_pos hwithin, if_pos (by omega)]
    · rw [if_neg hwithin, if_neg (by omega), List.getElem?_drop]
      congr 1
      omega

theorem exists_of_length {bytes : Bytes} (hlength : bytes.length = n) :
    ∃ octets : Octets n, bytes = octets.toList :=
  ⟨⟨bytes, hlength⟩, rfl⟩

theorem slice_eq_of_parts {start count : Nat} {bytes : Octets n} (front : Bytes)
    (part : Octets count) (back : Bytes) {hrange : start + count ≤ n}
    (hparts : bytes.toList = front ++ (part.toList ++ back)) (hfront : front.length = start) :
    bytes.slice start count hrange = part := by
  apply ext
  rw [toList_slice, hparts, List.drop_left' hfront]
  exact List.take_left' part.length_toList

end Octets

end SealedArchive
