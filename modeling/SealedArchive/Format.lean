/-!
# The sizes of the format

The widths of the fields of an encrypted archive, and the limits that its
writers and readers keep to.  The widths of single fields are abbreviations that `simp`
unfolds, so that arithmetic on places in a buffer sees their numbers.
-/

namespace SealedArchive.Format

/-- The bytes of a digest, and of every secret derived as one. -/
@[simp] abbrev digestLength : Nat := 64

/-- The bytes of the salt in front of each header. -/
@[simp] abbrev saltLength : Nat := 16

/-- The bytes of a cipher block. -/
@[simp] abbrev blockLength : Nat := 16

/-- The bytes of a cipher key. -/
@[simp] abbrev cipherKeyLength : Nat := 16

/-- The most bytes that a passphrase may have, its archive salt included. -/
def passphraseLimit : Nat := 512

/-- The bytes of the counter in each stretching round. -/
@[simp] abbrev counterLength : Nat := 8

/-- The bytes of a packed header. -/
@[simp] abbrev headerLength : Nat := 25

/-- The bytes of a sealed header: the salt and the encrypted header. -/
@[simp] abbrev recordLength : Nat := saltLength + headerLength

/-- The bytes that one pass of key derivation hashes at most: a digest, the salt
and the passphrase. -/
def scratchLength : Nat := digestLength + saltLength + passphraseLimit

/-- The bytes that a payload has at least. -/
def payloadMinimum : Nat := blockLength

/-- The work factor of an archive whose writer names none. -/
def defaultLoops : UInt64 := 1000000

/-- The largest shift of a stored work factor: a larger one could push an
eight-bit mantissa out of 64 bits. -/
def shiftLimit : Nat := 56

end SealedArchive.Format
