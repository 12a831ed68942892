import SealedArchive.Format

/-!
# What can go wrong

Every operation that can fail says why with an `Error`.  The causes fall into
seven kinds, and `Error.message` is the text that a user reads.
-/

namespace SealedArchive

/-- The part of the work that an error comes from. -/
inductive ErrorKind where
  /-- Reading or writing records. -/
  | stream
  /-- The lengths of keys, starting blocks and passphrases. -/
  | keySetup
  /-- The cipher mode. -/
  | transform
  /-- The length of a record. -/
  | recordLength
  /-- The content of a stored header or work factor. -/
  | header
  /-- The settings of a session. -/
  | settings
  /-- A range that does not lie in its buffer: a fault in the work itself. -/
  | range
  deriving DecidableEq

/-- The cause of a failure. -/
inductive Error where
  /-- The stream ended before a record was complete. -/
  | streamEnded
  /-- The stream took no more bytes before a record was complete. -/
  | streamFull
  /-- The stream failed with a report of its own. -/
  | streamFailed (report : String)
  /-- The cipher key has the wrong length. -/
  | cipherKeyLength (actual : Nat)
  /-- The starting block of a chain has the wrong length. -/
  | startLength (actual : Nat)
  /-- The passphrase does not fit into key derivation. -/
  | passphraseLength (actual : Nat)
  /-- A chained piece is not a whole number of blocks. -/
  | unaligned (actual : Nat)
  /-- A record has the wrong length. -/
  | recordLength (actual : Nat)
  /-- The shift of a stored work factor is too large. -/
  | shiftTooLarge (shift : Nat)
  /-- A sealed header was to be opened by encrypting it. -/
  | openedForEncryption
  /-- A session needs a passphrase. -/
  | passphraseMissing
  /-- A session needs at least one loop. -/
  | noLoops
  /-- The archive salt and the passphrase are too long together. -/
  | saltedPassphraseLength (actual : Nat)
  /-- The number of stretching rounds does not fit in 64 bits. -/
  | tooManyLoops (loops : Nat)
  /-- A range does not lie in its buffer. -/
  | outOfRange
  deriving DecidableEq

namespace Error

/-- The part of the work that the error comes from. -/
def kind : Error → ErrorKind
  | streamEnded | streamFull | streamFailed _ => .stream
  | cipherKeyLength _ | startLength _ | passphraseLength _ => .keySetup
  | unaligned _ => .transform
  | recordLength _ => .recordLength
  | shiftTooLarge _ | openedForEncryption => .header
  | passphraseMissing | noLoops | saltedPassphraseLength _ | tooManyLoops _ => .settings
  | outOfRange => .range

/-- The text of the error. -/
def message : Error → String
  | streamEnded => "I/O error: failed to fill whole buffer"
  | streamFull => "I/O error: failed to write whole buffer"
  | streamFailed report => s!"I/O error: {report}"
  | cipherKeyLength actual =>
    s!"Key setup error: AES key must be {Format.cipherKeyLength} bytes, got {actual}"
  | startLength actual =>
    s!"Key setup error: CBC IV must be {Format.blockLength} bytes, got {actual}"
  | passphraseLength actual =>
    s!"Key setup error: passphrase of {actual} bytes exceeds the " ++
      s!"{Format.passphraseLimit}-byte derivation limit"
  | unaligned actual => s!"Transform error: CBC input of {actual} bytes is not block aligned"
  | recordLength actual =>
    s!"Invalid length: expected {Format.recordLength} bytes, got {actual}"
  | shiftTooLarge shift => s!"Header error: loop count shift {shift} exceeds {Format.shiftLimit}"
  | openedForEncryption =>
    "Header error: cannot open an encrypted header with Direction::Encrypt"
  | passphraseMissing => "Config error: passphrase is required"
  | noLoops => "Config error: loop count must be ≥1"
  | saltedPassphraseLength actual =>
    s!"Config error: salted passphrase is {actual} bytes, limit is {Format.passphraseLimit}"
  | tooManyLoops loops => s!"Config error: loop count {loops} is too large"
  | outOfRange => "range outside of the buffer"

end Error

/-- Two steps that go well together go well one after the other. -/
theorem exists_of_bind_eq_ok {α β : Type} {first : Except Error α} {next : α → Except Error β}
    {value : β} (hsteps : first >>= next = .ok value) :
    ∃ between, first = .ok between ∧ next between = .ok value := by
  cases first with
  | error error => cases hsteps
  | ok between => exact ⟨between, rfl, hsteps⟩

end SealedArchive
