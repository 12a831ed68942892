import SealedArchive.Header

/-!
# Packed headers and records

A packed header and a stored record are their fields one after the other, and
nothing is lost on the way in or out: 25 bytes are the header that they spell,
41 bytes the record (`pack_unpack`, `toOctets_ofOctets`), and each spells back to
what it came from.
-/

namespace SealedArchive

open Format (saltLength headerLength recordLength)

namespace Header

theorem toList_pack (h : Header) :
    h.pack.toList =
      h.method :: ((LittleEndian.ofUInt64 h.storedLength).toList ++
        ((LittleEndian.ofUInt64 h.uncompressedLength).toList ++
          (LittleEndian.ofUInt64 h.previousOffset).toList)) :=
  toList_packInto h _

@[simp] theorem unpack_pack (h : Header) : unpack h.pack = h := by
  have hmethod : h.pack.get 0 = h.method := by
    have hfirst := Octets.getElem?_toList h.pack 0
    rw [toList_pack] at hfirst
    exact (Option.some.inj hfirst).symm
  have hstored : h.pack.slice 1 8 (by decide) = LittleEndian.ofUInt64 h.storedLength :=
    Octets.slice_eq_of_parts [h.method] _ _ (toList_pack h) rfl
  have huncompressed :
      h.pack.slice 9 8 (by decide) = LittleEndian.ofUInt64 h.uncompressedLength :=
    Octets.slice_eq_of_parts (h.method :: (LittleEndian.ofUInt64 h.storedLength).toList) _ _
      (toList_pack h) (by simp)
  have hprevious : h.pack.slice 17 8 (by decide) = LittleEndian.ofUInt64 h.previousOffset := by
    apply Octets.slice_eq_of_parts (h.method :: ((LittleEndian.ofUInt64 h.storedLength).toList ++
      (LittleEndian.ofUInt64 h.uncompressedLength).toList)) _ []
    · rw [List.append_nil, List.cons_append, List.append_assoc, toList_pack]
    · simp
  simp only [unpack, hmethod, hstored, huncompressed, hprevious, LittleEndian.toUInt64_ofUInt64]

@[simp] theorem pack_unpack (bytes : Octets headerLength) : (unpack bytes).pack = bytes := by
  apply Octets.ext
  rw [toList_pack]
  simp only [unpack, LittleEndian.ofUInt64_toUInt64, Octets.toList_slice]
  obtain ⟨list, hlength⟩ := bytes
  cases list with
  | nil => exact absurd hlength (by decide)
  | cons byte rest =>
    have hrest : rest.length = 24 := by simpa using hlength
    have hlast : (rest.drop 16).take 8 = rest.drop 16 := by
      apply List.take_of_length_le
      rw [List.length_drop]
      omega
    have hmiddle : (rest.drop 8).take 8 ++ rest.drop 16 = rest.drop 8 := by
      rw [show rest.drop 16 = (rest.drop 8).drop 8 by rw [List.drop_drop], List.take_append_drop]
    change byte :: (rest.take 8 ++ ((rest.drop 8).take 8 ++ (rest.drop 16).take 8)) = byte :: rest
    rw [hlast, hmiddle, List.take_append_drop]

end Header

namespace SealedHeader

theorem toList_toOctets (r : SealedHeader) :
    r.toOctets.toList = r.salt.toList ++ r.body.toList := rfl

theorem take_toOctets (r : SealedHeader) :
    r.toOctets.toList.take saltLength = r.salt.toList := by
  rw [toList_toOctets]
  exact List.take_left' r.salt.length_toList

@[simp] theorem ofOctets_toOctets (r : SealedHeader) : ofOctets r.toOctets = r := by
  have hsalt : r.toOctets.slice 0 saltLength (by decide) = r.salt :=
    Octets.slice_eq_of_parts [] _ _ (toList_toOctets r) rfl
  have hbody : r.toOctets.slice saltLength headerLength (by decide) = r.body := by
    apply Octets.slice_eq_of_parts r.salt.toList r.body [] _ r.salt.length_toList
    rw [List.append_nil, toList_toOctets]
  rw [ofOctets, hsalt, hbody]

@[simp] theorem toOctets_ofOctets (bytes : Octets recordLength) :
    (ofOctets bytes).toOctets = bytes := by
  have hbody :
      (bytes.toList.drop saltLength).take headerLength = bytes.toList.drop saltLength := by
    apply List.take_of_length_le
    exact Nat.le_of_eq (by simp)
  apply Octets.ext
  rw [toList_toOctets]
  simp only [ofOctets, Octets.toList_slice, List.drop_zero, hbody]
  exact List.take_append_drop saltLength _

theorem ofBytes_toList (bytes : Octets recordLength) :
    ofBytes bytes.toList = .ok (ofOctets bytes) := by
  rw [ofBytes, Octets.ofList?_toList]

@[simp] theorem ofBytes_toOctets (r : SealedHeader) : ofBytes r.toOctets.toList = .ok r := by
  rw [ofBytes_toList, ofOctets_toOctets]

theorem ofBytes_of_length_ne {bytes : Bytes} (hlength : bytes.length ≠ recordLength) :
    ofBytes bytes = .error (.recordLength bytes.length) := by
  have hnone : Octets.ofList? recordLength bytes = none := dif_neg hlength
  rw [ofBytes, hnone]

theorem ofBytes_eq_ok_iff {bytes : Bytes} {r : SealedHeader} :
    ofBytes bytes = .ok r ↔ bytes = r.toOctets.toList := by
  by_cases hlength : bytes.length = recordLength
  · obtain ⟨octets, rfl⟩ := Octets.exists_of_length hlength
    rw [ofBytes_toList]
    constructor
    · intro hrecord
      rw [← Except.ok.inj hrecord, toOctets_ofOctets]
    · intro hsame
      rw [Octets.ext hsame, ofOctets_toOctets]
  · rw [ofBytes_of_length_ne hlength]
    constructor
    · intro hrecord
      cases hrecord
    · intro hsame
      rw [hsame, Octets.length_toList] at hlength
      exact absurd rfl hlength

theorem exists_ofBytes_iff {bytes : Bytes} :
    (∃ r, ofBytes bytes = .ok r) ↔ bytes.length = recordLength := by
  constructor
  · rintro ⟨r, hrecord⟩
    rw [ofBytes_eq_ok_iff.1 hrecord]
    exact r.toOctets.length_toList
  · intro hlength
    obtain ⟨octets, rfl⟩ := Octets.exists_of_length hlength
    exact ⟨_, ofBytes_toList octets⟩

/-- The bytes of some records, one after the other. -/
def stream (records : List SealedHeader) : Bytes :=
  records.flatMap fun r => r.toOctets.toList

end SealedHeader

end SealedArchive
