import SealedArchive.Secret

/-!
# What a secret buffer holds after any history

A byte of a secret buffer dates from the last plain write that covers it since the buffer was
last cleared, by a wipe or by the end of a scope.  Without such a write it is zero, or what
the buffer began with if it was never cleared.  `ByteLeft` is this rule, told by places in
the history and not by steps; `LeftBy` says that the contents of a buffer follow it at every
index.

* One use: `get_put` is the byte that a write leaves, `run_of_clears` the buffer of zeros
  that a wipe and a scope leave, and `ByteLeft.concat` the rule after one more use.
* A history: `byteLeft_runAll` is the induction, and `ByteLeft.get_runAll` says that the rule
  names no other byte, so that `leftBy_runAll` has it both ways.
* What is seen on the way: `observeAll_append` cuts a history at one use.
-/

namespace SealedArchive.SecretBuffer

variable {n : Nat}

/-- The byte that a write puts at an index, if it covers the index. -/
def Write.byteAt? (w : Write n) (i : Nat) : Option UInt8 :=
  if w.start ≤ i then w.bytes[i - w.start]? else none

theorem get_put (b : SecretBuffer n) (w : Write n) (i : Fin n) :
    (b.put w).contents.get i = (w.byteAt? i).getD (b.contents.get i) := by
  have hafter := (b.put w).contents.getElem?_toList i
  have hbefore := b.contents.getElem?_toList i
  apply Option.some.inj
  rw [← hafter, put, overwrite, Octets.getElem?_overwrite, Write.byteAt?]
  by_cases hcovered : w.start ≤ i ∧ i < w.start + w.bytes.length
  · have hindex : i - w.start < w.bytes.length := by omega
    rw [if_pos hcovered, if_pos hcovered.1, List.getElem?_eq_getElem hindex, Option.getD_some]
  · rw [if_neg hcovered, hbefore]
    split
    · next hstart =>
      rw [List.getElem?_eq_none (by omega), Option.getD_none]
    · rw [Option.getD_none]

namespace Edit

/-- A use after which the buffer is cleared: a wipe, or a scope when it ends. -/
def Clears : Edit n → Prop
  | write _ => False
  | wipe | scope _ => True

/-- The byte that a history leaves at an index of a buffer that began with some contents. -/
inductive ByteLeft (initial : Octets n) (i : Fin n) : List (Edit n) → UInt8 → Prop where
  /-- The last plain write that covers the index, with no clearing after it. -/
  | written (earlier : List (Edit n)) (w : Write n) {later : List (Write n)} {byte : UInt8}
      (hbyte : w.byteAt? i = some byte) (hlater : ∀ v ∈ later, v.byteAt? i = none) :
      ByteLeft initial i (earlier ++ write w :: later.map write) byte
  /-- The last clearing, with no plain write after it that covers the index. -/
  | cleared (earlier : List (Edit n)) {e : Edit n} {later : List (Write n)} (hclears : e.Clears)
      (hlater : ∀ v ∈ later, v.byteAt? i = none) :
      ByteLeft initial i (earlier ++ e :: later.map write) 0
  /-- No clearing at all, and no plain write that covers the index. -/
  | kept {writes : List (Write n)} (hwrites : ∀ v ∈ writes, v.byteAt? i = none) :
      ByteLeft initial i (writes.map write) (initial.get i)

/-- The contents that a history leaves of some contents at the start. -/
def LeftBy (initial : Octets n) (edits : List (Edit n)) (contents : Octets n) : Prop :=
  ∀ (i : Fin n) (byte : UInt8), contents.get i = byte ↔ ByteLeft initial i edits byte

variable {initial : Octets n} {i : Fin n} {edits : List (Edit n)} {b : SecretBuffer n}
  {byte : UInt8}

/-! ## One use -/

theorem run_of_clears {e : Edit n} (b : SecretBuffer n) (hclears : e.Clears) :
    e.run b = zeroed n := by
  cases e with
  | write w => exact hclears.elim
  | wipe => rfl
  | scope writes => rfl

theorem get_zeroed (i : Fin n) : (zeroed n).contents.get i = 0 := by
  simp [zeroed, Octets.get]

/-- One more write puts its own byte in the place of the one before, where it has one. -/
theorem ByteLeft.concat_write (hleft : ByteLeft initial i edits byte) (w : Write n) :
    ByteLeft initial i (edits ++ [write w]) ((w.byteAt? i).getD byte) := by
  cases hbyte : w.byteAt? i with
  | some given => exact .written edits w hbyte (List.forall_mem_nil _)
  | none =>
    -- the write only lengthens the run of plain writes that miss the index
    have hmore {later : List (Write n)} (hlater : ∀ v ∈ later, v.byteAt? i = none) :
        ∀ v ∈ later ++ [w], v.byteAt? i = none := by
      rw [List.forall_mem_append, List.forall_mem_singleton]
      exact ⟨hlater, hbyte⟩
    cases hleft with
    | written earlier v hgiven hlater =>
      have hmoved : ByteLeft initial i _ byte := .written earlier v hgiven (hmore hlater)
      simpa using hmoved
    | cleared earlier hclears hlater =>
      have hmoved : ByteLeft initial i _ 0 := .cleared earlier hclears (hmore hlater)
      simpa using hmoved
    | kept hwrites =>
      have hmoved : ByteLeft initial i _ (initial.get i) := .kept (hmore hwrites)
      simpa using hmoved

theorem ByteLeft.concat (hleft : ByteLeft initial i edits (b.contents.get i)) (e : Edit n) :
    ByteLeft initial i (edits ++ [e]) ((e.run b).contents.get i) := by
  by_cases hclears : e.Clears
  · rw [run_of_clears b hclears, get_zeroed]
    exact .cleared edits hclears (List.forall_mem_nil _)
  · cases e with
    | write w =>
      rw [run_write, get_put]
      exact hleft.concat_write w
    | wipe | scope => exact absurd trivial hclears

/-! ## A history -/

theorem byteLeft_runAll (later : List (Edit n))
    (hleft : ByteLeft initial i edits (b.contents.get i)) :
    ByteLeft initial i (edits ++ later) ((runAll later b).contents.get i) := by
  induction later generalizing edits b with
  | nil =>
    rw [List.append_nil]
    exact hleft
  | cons e later ih =>
    rw [List.append_cons]
    exact ih (hleft.concat e)

theorem get_runAll_of_uncovered {writes : List (Write n)} (b : SecretBuffer n)
    (hwrites : ∀ v ∈ writes, v.byteAt? i = none) :
    (runAll (writes.map write) b).contents.get i = b.contents.get i := by
  induction writes generalizing b with
  | nil => rfl
  | cons w writes ih =>
    obtain ⟨hfirst, hrest⟩ := List.forall_mem_cons.1 hwrites
    calc (runAll ((w :: writes).map write) b).contents.get i
        = (b.put w).contents.get i := ih _ hrest
      _ = b.contents.get i := by rw [get_put, hfirst, Option.getD_none]

theorem runAll_append (earlier later : List (Edit n)) (b : SecretBuffer n) :
    runAll (earlier ++ later) b = runAll later (runAll earlier b) :=
  List.foldl_append

theorem runAll_concat (earlier : List (Edit n)) (e : Edit n) (b : SecretBuffer n) :
    runAll (earlier ++ [e]) b = e.run (runAll earlier b) := by
  rw [runAll_append]
  rfl

/-- A byte comes from a plain write, from a clearing or from the start. -/
theorem ByteLeft.origin (hleft : ByteLeft initial i edits byte) :
    (∃ w, write w ∈ edits ∧ w.byteAt? i = some byte) ∨ byte = 0 ∨ byte = initial.get i := by
  cases hleft with
  | written earlier w hbyte hlater => exact .inl ⟨w, by simp, hbyte⟩
  | cleared earlier hclears hlater => exact .inr (.inl rfl)
  | kept hwrites => exact .inr (.inr rfl)

/-- The rule names the byte that is there and no other. -/
theorem ByteLeft.get_runAll (hleft : ByteLeft b.contents i edits byte) :
    (runAll edits b).contents.get i = byte := by
  cases hleft with
  | written earlier w hbyte hlater =>
    rw [runAll_append]
    calc _ = ((runAll earlier b).put w).contents.get i := get_runAll_of_uncovered _ hlater
      _ = byte := by rw [get_put, hbyte, Option.getD_some]
  | @cleared earlier e later hclears hlater =>
    rw [runAll_append]
    calc _ = (e.run (runAll earlier b)).contents.get i := get_runAll_of_uncovered _ hlater
      _ = 0 := by rw [run_of_clears _ hclears, get_zeroed]
  | kept hwrites => exact get_runAll_of_uncovered b hwrites

theorem leftBy_runAll (edits : List (Edit n)) (b : SecretBuffer n) :
    LeftBy b.contents edits (runAll edits b).contents := by
  intro i byte
  constructor
  · rintro rfl
    exact byteLeft_runAll edits (.kept (List.forall_mem_nil _))
  · exact ByteLeft.get_runAll

/-- Inside of a scope the buffer is written to as outside. -/
theorem foldl_put_eq (writes : List (Write n)) (b : SecretBuffer n) :
    writes.foldl put b = runAll (writes.map write) b := by
  rw [runAll, List.foldl_map]
  rfl

theorem leftBy_foldl_put (earlier : List (Edit n)) (writes : List (Write n))
    (b : SecretBuffer n) :
    LeftBy b.contents (earlier ++ writes.map write)
      (writes.foldl put (runAll earlier b)).contents := by
  rw [foldl_put_eq, ← runAll_append]
  exact leftBy_runAll _ b

theorem runAll_of_clears (earlier later : List (Edit n)) {e : Edit n} (b : SecretBuffer n)
    (hclears : e.Clears) : runAll (earlier ++ e :: later) b = runAll later (zeroed n) := by
  rw [runAll_append, ← run_of_clears (runAll earlier b) hclears]
  rfl

/-! ## What is seen on the way -/

theorem after_observe (e : Edit n) (b : SecretBuffer n) :
    (e.observe b).1.after = (e.run b).contents := by
  cases e <;> rfl

theorem length_observeAll (edits : List (Edit n)) (b : SecretBuffer n) :
    (observeAll edits b).length = edits.length := by
  induction edits generalizing b with
  | nil => rfl
  | cons e edits ih => rw [observeAll, List.length_cons, ih, List.length_cons]

theorem observeAll_append (earlier later : List (Edit n)) (b : SecretBuffer n) :
    observeAll (earlier ++ later) b =
      observeAll earlier b ++ observeAll later (runAll earlier b) := by
  induction earlier generalizing b with
  | nil => rfl
  | cons e earlier ih =>
    rw [List.cons_append, observeAll, ih, observeAll, List.cons_append]
    rfl

theorem drop_observeAll (earlier later : List (Edit n)) (b : SecretBuffer n) :
    (observeAll (earlier ++ later) b).drop earlier.length =
      observeAll later (runAll earlier b) := by
  rw [observeAll_append, List.drop_left' (length_observeAll earlier b)]

theorem getElem?_observeAll (earlier later : List (Edit n)) (e : Edit n) (b : SecretBuffer n) :
    (observeAll (earlier ++ e :: later) b)[earlier.length]? =
      some (e.observe (runAll earlier b)).1 := by
  rw [← List.head?_drop, drop_observeAll]
  rfl

theorem drop_observeAll_of_clears (earlier later : List (Edit n)) {e : Edit n}
    (b : SecretBuffer n) (hclears : e.Clears) :
    (observeAll (earlier ++ e :: later) b).drop (earlier.length + 1) =
      observeAll later (zeroed n) := by
  rw [← List.drop_drop, drop_observeAll, observeAll, run_of_clears _ hclears]
  rfl

/-- After every use of a buffer its length is what it was, and each byte is the one of the
last plain write that covers it since the last wipe or end of a scope, or without such a
write zero if there was a wipe or a scope and what the buffer began with if there was none.
A scope sees these contents, is written to in the same way, and leaves zeros.

So two runs that end in the same uses from some wipe or end of a scope on show the same from
there on, whatever they did before and inside of that scope and whatever the two buffers
began with.  No byte is left then but zeros and those of plain writes that came later. -/
theorem wipe_keeps_nothing :
    (∀ (b : SecretBuffer n) (edits : List (Edit n)),
      (runAll edits b).contents.toList.length = n ∧
      LeftBy b.contents edits (runAll edits b).contents ∧
      (observeAll edits b).length = edits.length) ∧
    (∀ (b : SecretBuffer n) (earlier later : List (Edit n)) (e : Edit n),
      ∃ seen, (observeAll (earlier ++ e :: later) b)[earlier.length]? = some seen ∧
        seen.after.toList.length = n ∧ LeftBy b.contents (earlier ++ [e]) seen.after) ∧
    (∀ (b : SecretBuffer n) (earlier later : List (Edit n)) (writes : List (Write n)),
      ∃ before inside,
        (observeAll (earlier ++ scope writes :: later) b)[earlier.length]? =
          some ⟨some (before, inside), Octets.zero n⟩ ∧
        LeftBy b.contents earlier before ∧
        LeftBy b.contents (earlier ++ writes.map write) inside) ∧
    (∀ (b other : SecretBuffer n) (earlier others later : List (Edit n)) (e f : Edit n),
      e.Clears → f.Clears →
      runAll (earlier ++ e :: later) b = runAll (others ++ f :: later) other ∧
      ((observeAll (earlier ++ e :: later) b).drop earlier.length).map Sighting.after =
        ((observeAll (others ++ f :: later) other).drop others.length).map Sighting.after ∧
      (observeAll (earlier ++ e :: later) b).drop (earlier.length + 1) =
        (observeAll (others ++ f :: later) other).drop (others.length + 1)) ∧
    (∀ (b : SecretBuffer n) (earlier later : List (Edit n)) (e : Edit n) (i : Fin n),
      e.Clears →
      let byte := (runAll (earlier ++ e :: later) b).contents.get i
      (∃ w, write w ∈ later ∧ w.byteAt? i = some byte) ∨ byte = 0) := by
  refine ⟨?_, ?_, ?_, ?_, ?_⟩
  · intro b edits
    exact ⟨Octets.length_toList _, leftBy_runAll edits b, length_observeAll edits b⟩
  · intro b earlier later e
    refine ⟨_, getElem?_observeAll earlier later e b, Octets.length_toList _, ?_⟩
    rw [after_observe, ← runAll_concat]
    exact leftBy_runAll _ b
  · intro b earlier later writes
    exact ⟨_, _, getElem?_observeAll earlier later (scope writes) b, leftBy_runAll earlier b,
      leftBy_foldl_put earlier writes b⟩
  · intro b other earlier others later e f hclears hother
    refine ⟨?_, ?_, ?_⟩
    · rw [runAll_of_clears earlier later b hclears, runAll_of_clears others later other hother]
    · simp only [drop_observeAll, observeAll, List.map_cons, after_observe,
        run_of_clears _ hclears, run_of_clears _ hother]
    · rw [drop_observeAll_of_clears earlier later b hclears,
        drop_observeAll_of_clears others later other hother]
  · intro b earlier later e i hclears byte
    have hleft : ByteLeft (zeroed n).contents i later byte := by
      refine (leftBy_runAll later (zeroed n) i byte).1 ?_
      rw [← runAll_of_clears earlier later b hclears]
    obtain hwritten | hzero | hstart := hleft.origin
    · exact .inl hwritten
    · exact .inr hzero
    · exact .inr (hstart.trans (get_zeroed i))

/-- A scope in one run and a wipe in the other, with a write behind them that covers one of
three bytes. -/
theorem wipe_keeps_nothing_between :
    let secret : Write 3 := ⟨0, [7, 8, 9], by decide⟩
    let later : List (Edit 3) := [write ⟨2, [5], by decide⟩]
    (scope [secret]).Clears ∧ (wipe : Edit 3).Clears ∧
    runAll (write secret :: scope [secret] :: later) (zeroed 3) =
      runAll (wipe :: later) ⟨⟨[1, 2, 3], by decide⟩⟩ ∧
    (runAll (wipe :: later) ⟨⟨[1, 2, 3], by decide⟩⟩).contents.toList = [0, 0, 5] := by
  intro secret later
  refine ⟨trivial, trivial, ?_, by decide⟩
  exact (wipe_keeps_nothing.2.2.2.1 (zeroed 3) ⟨⟨[1, 2, 3], by decide⟩⟩ [write secret] []
    later (scope [secret]) wipe trivial trivial).1

end Edit

end SealedArchive.SecretBuffer
