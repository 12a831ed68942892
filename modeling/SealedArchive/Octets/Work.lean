import SealedArchive.Octets.Blocks
import SealedArchive.Octets.Range

/-!
# Work on a buffer that stays

A function from buffers to buffers has no buffer to show when it fails.  `Work n` is work on
a buffer of `n` bytes that stays there: its steps read and write parts of the buffer, and
when one of them fails the buffer is left as the steps before it have made it.

Every access is checked.  A range that does not lie in the buffer, new bytes that do not
fill it, and bytes that are no block where one is asked for end the work with
`Error.outOfRange`.

The lemmas say what comes of each step on a buffer.
-/

namespace SealedArchive

/-- Work on a buffer of `n` bytes.  It ends well or in an error, and leaves the buffer
either way. -/
abbrev Work (n : Nat) := ExceptT Error (StateM (Octets n))

namespace Work

variable {m n : Nat} {α β : Type}

/-- What comes of the work on a buffer, and the buffer that it leaves. -/
def runOn (work : Work n α) (buffer : Octets n) : Except Error α × Octets n :=
  work.run.run buffer

/-- The bytes from index `start` up to index `stop`. -/
def read (start stop : Nat) : Work n Bytes := do
  ofExcept ((← get).range start stop)

/-- Replaces the buffer by a change of it, unless the change fails. -/
def edit (change : Octets n → Except Error (Octets n)) : Work n Unit := do
  set (← ofExcept (change (← get)))

/-- Replaces the bytes from index `start` up to index `stop`. -/
def write (start stop : Nat) (bytes : Bytes) : Work n Unit :=
  edit fun buffer => buffer.setRange start stop bytes

/-- Copies the bytes from index `start` up to index `stop` to index `target`. -/
def copy (start stop target : Nat) : Work n Unit :=
  edit fun buffer => buffer.copyRange start stop target

/-- Replaces the bytes of a range by what is made of them, if they are fit for it. -/
def revise (make : Bytes → Option Bytes) (start stop : Nat) : Work n Unit := do
  match make (← read start stop) with
  | some made => write start stop made
  | none => throw .outOfRange

/-- Masks the first block of a range with the first block of a mask. -/
def mask (mask : Bytes) (start stop : Nat) : Work n Unit :=
  revise (fun bytes => maskFirstBlock? 16 bytes mask) start stop

/-- Replaces a range that is one block by what a map makes of that block. -/
def mapBlock (f : Octets 16 → Octets 16) (start stop : Nat) : Work n Unit :=
  revise (fun bytes => (Octets.ofList? 16 bytes).map fun block => (f block).toList) start stop

/-- Work on another buffer.  What comes of it is handed on with that buffer, and this one
stays as it is. -/
def beside (work : Work m α) (other : Octets m) : Work n (α × Octets m) :=
  match work.runOn other with
  | (.ok value, after) => return (value, after)
  | (.error error, _) => throw error

/-! ## What comes of each step -/

variable {buffer : Octets n}

theorem runOn_pure (value : α) : (pure value : Work n α).runOn buffer = (.ok value, buffer) := rfl

theorem runOn_bind (work : Work n α) (next : α → Work n β) :
    (work >>= next).runOn buffer =
      match work.runOn buffer with
      | (.ok value, after) => (next value).runOn after
      | (.error error, after) => (.error error, after) := by
  simp only [runOn, ExceptT.run_bind, StateT.run_bind]
  rcases work.run.run buffer with ⟨result, after⟩
  cases result <;> rfl

theorem runOn_ofExcept (result : Except Error α) :
    (ofExcept result : Work n α).runOn buffer = (result, buffer) := by
  cases result <;> rfl

theorem runOn_read (start stop : Nat) :
    (read start stop).runOn buffer = (buffer.range start stop, buffer) :=
  runOn_ofExcept _

theorem runOn_edit (change : Octets n → Except Error (Octets n)) :
    (edit change).runOn buffer =
      match change buffer with
      | .ok after => (.ok (), after)
      | .error error => (.error error, buffer) := by
  have hsteps : (edit change).runOn buffer =
      (ofExcept (change buffer) >>= fun after => set after : Work n Unit).runOn buffer := rfl
  rw [hsteps, runOn_bind, runOn_ofExcept]
  cases change buffer <;> rfl

theorem runOn_write {start stop : Nat} {bytes : Bytes} {after : Octets n}
    (hwrite : buffer.setRange start stop bytes = .ok after) :
    (write start stop bytes).runOn buffer = (.ok (), after) := by
  rw [write, runOn_edit, hwrite]

theorem runOn_copy {start stop target : Nat} {after : Octets n}
    (hcopy : buffer.copyRange start stop target = .ok after) :
    (copy start stop target).runOn buffer = (.ok (), after) := by
  rw [copy, runOn_edit, hcopy]

theorem runOn_beside {work : Work m α} {other after : Octets m} {value : α}
    (hwork : work.runOn other = (.ok value, after)) :
    (beside work other).runOn buffer = (.ok (value, after), buffer) := by
  rw [beside, hwork, runOn_pure]

/-! ## A buffer cut at both ends of a range -/

variable {left middle right : Bytes} {start stop : Nat}

theorem exists_revise {make : Bytes → Option Bytes} {made : Bytes}
    (hparts : buffer.toList = left ++ (middle ++ right)) (hstart : left.length = start)
    (hstop : start + middle.length = stop) (hmade : make middle = some made)
    (hlength : made.length = middle.length) :
    ∃ after : Octets n, (revise make start stop).runOn buffer = (.ok (), after) ∧
      after.toList = left ++ (made ++ right) := by
  obtain ⟨after, hwrite, hafter⟩ :=
    Octets.exists_setRange start stop made hparts hstart hstop hlength
  refine ⟨after, ?_, hafter⟩
  simp only [revise, runOn_bind, runOn_read, Octets.range_of_parts hparts hstart hstop, hmade,
    runOn_write hwrite]

variable {block : Octets 16}

theorem exists_mask (mask : Octets 16) (hparts : buffer.toList = left ++ (block.toList ++ right))
    (hstart : left.length = start) :
    ∃ after : Octets n,
      (Work.mask mask.toList start (start + 16)).runOn buffer = (.ok (), after) ∧
      after.toList = left ++ ((block.xor mask).toList ++ right) := by
  have hmade : maskFirstBlock? 16 block.toList mask.toList = some (block.xor mask).toList := by
    simp [maskFirstBlock?, List.take_of_length_le]
  exact exists_revise hparts hstart (by simp) hmade (by simp)

theorem exists_mapBlock (f : Octets 16 → Octets 16)
    (hparts : buffer.toList = left ++ (block.toList ++ right)) (hstart : left.length = start) :
    ∃ after : Octets n, (mapBlock f start (start + 16)).runOn buffer = (.ok (), after) ∧
      after.toList = left ++ ((f block).toList ++ right) :=
  exists_revise hparts hstart (by simp) (by simp) (by simp)

/-! ## A block that is worked on as a whole -/

theorem runOn_mask_block (mask : Octets 16) :
    (Work.mask mask.toList 0 16).runOn block = (.ok (), block.xor mask) := by
  have hparts : block.toList = [] ++ (block.toList ++ []) := by simp
  obtain ⟨after, hmask, hafter⟩ := exists_mask mask hparts rfl
  have hsame : after = block.xor mask := Octets.ext (by simpa using hafter)
  rw [hsame] at hmask
  exact hmask

theorem runOn_mapBlock_block (f : Octets 16 → Octets 16) :
    (mapBlock f 0 16).runOn block = (.ok (), f block) := by
  have hparts : block.toList = [] ++ (block.toList ++ []) := by simp
  obtain ⟨after, hmap, hafter⟩ := exists_mapBlock f hparts rfl
  have hsame : after = f block := Octets.ext (by simpa using hafter)
  rw [hsame] at hmap
  exact hmap

end Work

end SealedArchive
