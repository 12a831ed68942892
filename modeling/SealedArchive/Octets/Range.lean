import SealedArchive.Error
import SealedArchive.Octets

/-!
# Ranges of a buffer

Work in place reads and writes ranges of a buffer whose length stays the same.
A range that does not lie in the buffer, or that the new bytes do not fill, is a
fault in the work: then nothing is read or written.

The lemmas speak of a buffer that is cut at both ends of the range.
`range_of_parts` says what is read there, and `exists_setRange` what is left
after a write.
-/

namespace SealedArchive.Octets

variable {n : Nat}

/-- The bytes from index `start` up to index `stop`. -/
def range (a : Octets n) (start stop : Nat) : Except Error Bytes :=
  if start ≤ stop ∧ stop ≤ n then .ok ((a.toList.drop start).take (stop - start))
  else .error .outOfRange

/-- The buffer with the bytes from index `start` up to index `stop` replaced. -/
def setRange (a : Octets n) (start stop : Nat) (bytes : Bytes) : Except Error (Octets n) :=
  if h : start + bytes.length = stop ∧ stop ≤ n then
    .ok (a.overwrite start bytes (by omega))
  else .error .outOfRange

/-- The buffer with the bytes from index `start` up to index `stop` copied to
index `target`.  They are all read before one is written, so the two ranges may
overlap. -/
def copyRange (a : Octets n) (start stop target : Nat) : Except Error (Octets n) := do
  let copied ← a.range start stop
  a.setRange target (target + copied.length) copied

/-- The index that lies `count` bytes before another one. -/
def indexBefore (index count : Nat) : Except Error Nat :=
  if count ≤ index then .ok (index - count) else .error .outOfRange

/-- The buffer with its first bytes masked, as many as the mask has. -/
def maskFront (a : Octets n) (mask : Bytes) : Octets n :=
  ⟨xorBytes a.toList mask ++ a.toList.drop mask.length, by simp; omega⟩

@[simp] theorem toList_maskFront (a : Octets n) (mask : Bytes) :
    (a.maskFront mask).toList = xorBytes a.toList mask ++ a.toList.drop mask.length := rfl

/-! ## A buffer cut at both ends of a range -/

variable {a : Octets n} {left middle right : Bytes} {start stop : Nat}

theorem range_of_parts (hparts : a.toList = left ++ (middle ++ right))
    (hstart : left.length = start) (hstop : start + middle.length = stop) :
    a.range start stop = .ok middle := by
  have hlength := congrArg List.length hparts
  simp only [length_toList, List.length_append] at hlength
  rw [range, if_pos (by omega), hparts, List.drop_left' hstart, List.take_left' (by omega)]

theorem length_of_range {bytes : Bytes} (hread : a.range start stop = .ok bytes) :
    bytes.length = stop - start := by
  unfold range at hread
  split at hread
  · obtain rfl := Except.ok.inj hread
    rw [List.length_take, List.length_drop, a.length_toList]
    omega
  · cases hread

theorem exists_setRange (start stop : Nat) (bytes : Bytes)
    (hparts : a.toList = left ++ (middle ++ right)) (hstart : left.length = start)
    (hstop : start + middle.length = stop) (hbytes : bytes.length = middle.length) :
    ∃ b : Octets n, a.setRange start stop bytes = .ok b ∧ b.toList = left ++ (bytes ++ right) := by
  have hlength := congrArg List.length hparts
  simp only [length_toList, List.length_append] at hlength
  have hright : (left ++ (middle ++ right)).drop (start + bytes.length) = right := by
    rw [← List.append_assoc]
    exact List.drop_left' (by rw [List.length_append]; omega)
  refine ⟨_, by rw [setRange, dif_pos (by omega)], ?_⟩
  simp only [overwrite, hparts, List.take_left' hstart, hright]

/-- A range that is read lies between the two other parts of the buffer. -/
theorem exists_parts_of_range (hread : a.range start stop = .ok middle) :
    ∃ left right : Bytes, a.toList = left ++ (middle ++ right) ∧ left.length = start ∧
      start + middle.length = stop := by
  have hmiddle := length_of_range hread
  unfold range at hread
  split at hread
  · next hrange =>
    obtain rfl := Except.ok.inj hread
    refine ⟨_, _, eq_parts_of_range a.toList hrange.1, ?_, by omega⟩
    rw [List.length_take, a.length_toList]
    omega
  · cases hread

/-- A buffer that is written over as a whole holds what was written. -/
theorem setRange_all (a b : Octets n) : a.setRange 0 n b.toList = .ok b := by
  have hparts : a.toList = [] ++ (a.toList ++ []) := by rw [List.append_nil, List.nil_append]
  obtain ⟨after, hwrite, hafter⟩ := exists_setRange 0 n b.toList hparts rfl (by simp) (by simp)
  have hsame : after = b := by
    apply ext
    rw [hafter, List.append_nil, List.nil_append]
  rw [hwrite, hsame]

/-- A range is copied over another one that lies behind it. -/
theorem exists_copyRange {between behind : Bytes} (start stop target : Nat)
    (hparts : a.toList = left ++ (middle ++ (between ++ (behind ++ right))))
    (hstart : left.length = start) (hstop : start + middle.length = stop)
    (htarget : stop + between.length = target) (hbehind : behind.length = middle.length) :
    ∃ b : Octets n, a.copyRange start stop target = .ok b ∧
      b.toList = left ++ (middle ++ (between ++ (middle ++ right))) := by
  have hread : a.range start stop = .ok middle := range_of_parts hparts hstart hstop
  have hcut : a.toList = (left ++ (middle ++ between)) ++ (behind ++ right) := by
    simp only [hparts, List.append_assoc]
  have hfront : (left ++ (middle ++ between)).length = target := by
    simp only [List.length_append]
    omega
  obtain ⟨b, hwrite, hview⟩ :=
    exists_setRange _ _ middle hcut hfront (by rw [hbehind]) hbehind.symm
  refine ⟨b, ?_, by simp only [hview, List.append_assoc]⟩
  rw [copyRange, hread]
  exact hwrite

theorem indexBefore_add (index count : Nat) : indexBefore (index + count) count = .ok index := by
  simp [indexBefore]

end SealedArchive.Octets
