import SealedArchive.Octets

/-!
# Secrets in memory

A secret buffer holds key material of `n` bytes.  It is written in place and
can be wiped, after which nothing of what it held is left.  `lend` lends a
buffer to some work and wipes it when the work is over, however it ends; scratch
space is used in no other way.  An `Edit` is one use of a buffer, and `Edit.runAll` is a
whole history of them.

A passphrase is a secret of any length.  It is put together from its parts in
one step, so no part of it is ever held apart from the whole.
-/

namespace SealedArchive

/-! ## Buffers of fixed width -/

/-- Key material of `n` bytes. -/
structure SecretBuffer (n : Nat) where
  contents : Octets n
  deriving DecidableEq

namespace SecretBuffer

variable {n : Nat} {α : Type}

/-- A buffer of zeros. -/
def zeroed (n : Nat) : SecretBuffer n := ⟨Octets.zero n⟩

/-- The buffer with every byte set to zero. -/
def wipe (_ : SecretBuffer n) : SecretBuffer n := zeroed n

/-- The buffer with the bytes from index `start` on replaced. -/
def overwrite (b : SecretBuffer n) (start : Nat) (bytes : Bytes)
    (h : start + bytes.length ≤ n) : SecretBuffer n :=
  ⟨b.contents.overwrite start bytes h⟩

/-- Lends the buffer to some work and wipes it afterwards. -/
def lend (b : SecretBuffer n) (work : SecretBuffer n → α × SecretBuffer n) :
    α × SecretBuffer n :=
  let (answer, used) := work b
  (answer, used.wipe)

@[simp] theorem fst_lend (b : SecretBuffer n) (work : SecretBuffer n → α × SecretBuffer n) :
    (b.lend work).1 = (work b).1 := rfl

/-! ### Histories -/

/-- Bytes for a buffer of `n` bytes, and where they go. -/
structure Write (n : Nat) where
  start : Nat
  bytes : Bytes
  inRange : start + bytes.length ≤ n

/-- One use of a buffer. -/
inductive Edit (n : Nat) where
  /-- Some bytes are replaced. -/
  | write (w : Write n)
  /-- The buffer is wiped. -/
  | wipe
  /-- The buffer is lent out, written to, and wiped when it comes back. -/
  | scope (writes : List (Write n))

/-- The buffer after a write. -/
def put (b : SecretBuffer n) (w : Write n) : SecretBuffer n :=
  b.overwrite w.start w.bytes w.inRange

/-- What is seen of one use: the contents at the start and at the end of a
scope, and the contents left behind. -/
structure Sighting (n : Nat) where
  inScope : Option (Octets n × Octets n)
  after : Octets n

namespace Edit

/-- One use, with what is seen of it. -/
def observe (e : Edit n) (b : SecretBuffer n) : Sighting n × SecretBuffer n :=
  match e with
  | write w => (⟨none, (b.put w).contents⟩, b.put w)
  | wipe => (⟨none, b.wipe.contents⟩, b.wipe)
  | scope writes =>
    let (seen, left) := b.lend fun lent =>
      let used := writes.foldl put lent
      ((lent.contents, used.contents), used)
    (⟨some seen, left.contents⟩, left)

/-- The buffer after one use. -/
def run (e : Edit n) (b : SecretBuffer n) : SecretBuffer n := (e.observe b).2

/-- The buffer after some uses in order. -/
def runAll (edits : List (Edit n)) (b : SecretBuffer n) : SecretBuffer n :=
  edits.foldl (fun b e => e.run b) b

/-- What is seen of some uses in order. -/
def observeAll : List (Edit n) → SecretBuffer n → List (Sighting n)
  | [], _ => []
  | e :: edits, b => (e.observe b).1 :: observeAll edits (e.run b)

@[simp] theorem run_write (w : Write n) (b : SecretBuffer n) : (write w).run b = b.put w := rfl

end Edit

end SecretBuffer

/-! ## Strings of any length -/

/-- A secret byte string. -/
structure SecretBytes where
  bytes : Bytes
  deriving DecidableEq

namespace SecretBytes

/-- The parts one after the other. -/
def concat (parts : List Bytes) : SecretBytes := ⟨parts.flatten⟩

/-- The number of bytes. -/
def length (s : SecretBytes) : Nat := s.bytes.length

/-- Whether there is no byte. -/
def isEmpty (s : SecretBytes) : Bool := s.bytes.isEmpty

/-- The passphrase with the salt of its archive in front. -/
def salted (archiveSalt : Bytes) (passphrase : SecretBytes) : SecretBytes :=
  concat [archiveSalt, passphrase.bytes]

@[simp] theorem bytes_salted (archiveSalt : Bytes) (passphrase : SecretBytes) :
    (salted archiveSalt passphrase).bytes = archiveSalt ++ passphrase.bytes := by
  simp [salted, concat]

@[simp] theorem length_salted (archiveSalt : Bytes) (passphrase : SecretBytes) :
    (salted archiveSalt passphrase).length = archiveSalt.length + passphrase.length := by
  simp [length]

end SecretBytes

end SealedArchive
