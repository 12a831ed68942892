import SealedArchive.Octets.LittleEndian
import SealedArchive.Payload

/-!
# Block headers

A header tells how a block was compressed, its two lengths and where the header
before it stands.  It is packed into 25 bytes: the method, then the three
numbers as eight little-endian bytes each.  Every string of 25 bytes is a packed
header, so an encrypted one can be carried in the same four fields.

A header is stored encrypted, with the salt of its block in clear before it: a
record of 41 bytes.  The record is opened under the salt that it carries, which
is also the salt of the payload.
-/

namespace SealedArchive

open Format (saltLength headerLength recordLength)

/-- The description of a block. -/
structure Header where
  /-- The method of compression. -/
  method : UInt8
  /-- The number of stored bytes. -/
  storedLength : UInt64
  /-- The number of bytes before compression. -/
  uncompressedLength : UInt64
  /-- The offset of the header before this one. -/
  previousOffset : UInt64
  deriving DecidableEq

namespace Header

/-- The header whose fields are all zero. -/
def blank : Header := ⟨0, 0, 0, 0⟩

/-- The header written over 25 bytes, field by field. -/
def packInto (h : Header) (room : Octets headerLength) : Octets headerLength :=
  let stored := LittleEndian.ofUInt64 h.storedLength
  let uncompressed := LittleEndian.ofUInt64 h.uncompressedLength
  let previous := LittleEndian.ofUInt64 h.previousOffset
  (((room.overwrite 0 [h.method] (by simp)).overwrite 1 stored.toList (by simp)).overwrite
    9 uncompressed.toList (by simp)).overwrite 17 previous.toList (by simp)

/-- The 25 bytes of a header. -/
def pack (h : Header) : Octets headerLength := h.packInto (Octets.zero headerLength)

/-- The fields cover the whole room, so nothing of what was there is left. -/
theorem toList_packInto (h : Header) (room : Octets headerLength) :
    (h.packInto room).toList =
      h.method :: ((LittleEndian.ofUInt64 h.storedLength).toList ++
        ((LittleEndian.ofUInt64 h.uncompressedLength).toList ++
          (LittleEndian.ofUInt64 h.previousOffset).toList)) := by
  have hdrop : room.toList.drop headerLength = [] := List.drop_of_length_le (by simp)
  simp [packInto, Octets.overwrite, List.take_append, List.drop_append, List.take_of_length_le,
    hdrop]

/-- The header that 25 bytes spell. -/
def unpack (bytes : Octets headerLength) : Header where
  method := bytes.get 0
  storedLength := LittleEndian.toUInt64 (bytes.slice 1 8 (by decide))
  uncompressedLength := LittleEndian.toUInt64 (bytes.slice 9 8 (by decide))
  previousOffset := LittleEndian.toUInt64 (bytes.slice 17 8 (by decide))

/-- The header encrypted or decrypted under the keys of a salt.  Memory is taken for its
packed bytes. -/
def transform (h : Header) (secrets : Secrets) (salt : Salt) (action : Action) :
    Traced Header := do
  Traced.emit (.pinning headerLength)
  let packed ← secrets.transformInPlace salt action h.pack
  return unpack packed

/-- The same in place: a header that cannot be encrypted or decrypted stays as
it was. -/
def protect (h : Header) (secrets : Secrets) (salt : Salt) (action : Action) :
    Traced Unit × Header :=
  (h.transform secrets salt action).replace h

/-- The header encrypted or decrypted through a scratch buffer: how it went, and the header
afterwards. -/
def protectHere (h : Header) (secrets : Secrets) (salt : Salt) (action : Action) :
    Traced Unit × Header :=
  let (work, scratch) := secrets.transformHere salt action (h.packInto (Octets.zero headerLength))
  let done := do
    Traced.emit (.pinning headerLength)
    work
  match done.result with
  | .ok () => (done, unpack scratch)
  | .error _ => (done, h)

/-- What is shown of a header: its four fields. -/
def shown (h : Header) : Shown :=
  .record "BlockHeader" [("c_type", .number h.method.toNat),
    ("c_len", .number h.storedLength.toNat), ("u_len", .number h.uncompressedLength.toNat),
    ("last_head", .number h.previousOffset.toNat)]

end Header

/-! ## Sealed headers -/

/-- A stored record. -/
structure SealedHeader where
  salt : Salt
  body : Octets headerLength
  deriving DecidableEq

namespace SealedHeader

/-- The 41 bytes of a record. -/
def toOctets (r : SealedHeader) : Octets recordLength := r.salt.append r.body

/-- The record that 41 bytes spell. -/
def ofOctets (bytes : Octets recordLength) : SealedHeader :=
  ⟨bytes.slice 0 saltLength (by decide), bytes.slice saltLength headerLength (by decide)⟩

/-- The record that some bytes spell, if there are 41 of them. -/
def ofBytes (bytes : Bytes) : Except Error SealedHeader :=
  match Octets.ofList? recordLength bytes with
  | some octets => .ok (ofOctets octets)
  | none => .error (.recordLength bytes.length)

/-- The record of a header under a salt. -/
def ofHeader (header : Header) (secrets : Secrets) (salt : Salt) : Traced SealedHeader := do
  let encrypted ← header.transform secrets salt .encrypt
  return ⟨salt, encrypted.pack⟩

/-- The header in a record.  A record is opened by decrypting it, with or
without a line in the log. -/
def reveal (r : SealedHeader) (secrets : Secrets) (action : Action) : Traced Header :=
  if action = .encrypt then .fail .openedForEncryption
  else (Header.unpack r.body).transform secrets r.salt action

/-- What is shown of a record: its bytes, the salt apart. -/
def shown (r : SealedHeader) : Shown :=
  .record "EncryptedHeader" [("salt", .ofBytes r.salt.toList), ("body", .ofBytes r.body.toList)]

end SealedHeader

end SealedArchive
