import Mathlib.Data.List.Forall2
import SealedArchive.Proofs.Payload.Atomic
import SealedArchive.Proofs.Payload.Permutation
import SealedArchive.Proofs.Session.Build
import SealedArchive.Session

/-!
# A batch does not depend on the order of its members

A member is transformed under keys of its own, which come from the session and from its salt,
so what is left of it does not depend on the members that were transformed before.  Once some
different indices have had their turn, the members at them are transformed and all others are
as they were (`transformInOrder_of_nodup`).  An order of all indices leaves every member
transformed, which is what the batch comes to as a whole (`transformInOrder_of_perm`,
`transformAll_of_length`).

No member fails in a session that was built, so no order ends before its last index.
-/

namespace SealedArchive.Session

variable {s : Session} {action : Action}

/-! ## One member -/

/-- A member that is transformed in place holds what its transform gives. -/
theorem transform_eq_transformMember (s : Session) (action : Action) (member : Bytes × Salt) :
    s.transform member.2 action member.1 =
      ⟨(s.transformMember action member).1.result.map fun _ =>
          (s.transformMember action member).2.1,
        (s.transformMember action member).1.events⟩ := by
  have hwork := Traced.bind_return_eq_replace
    (s.secrets.transformInPlace member.2 action (⟨member.1, rfl⟩ : Octets member.1.length))
    ⟨member.1, rfl⟩ Octets.toList
  rw [← Secrets.transformHere_eq] at hwork
  exact hwork

/-- What happens at the member at an index. -/
def memberEvents (action : Action) (batch : List (Bytes × Salt)) (index : Nat) : List Event :=
  batch[index]?.elim [] fun member => action.events member.1.length

/-- A member elsewhere in the batch does not change it. -/
theorem memberEvents_set {batch : List (Bytes × Salt)} {index other : Nat} {member : Bytes × Salt}
    (hother : other ≠ index) :
    memberEvents action (batch.set index member) other = memberEvents action batch other := by
  rw [memberEvents, memberEvents, List.getElem?_set_ne hother.symm]

/-- The member after its transform. -/
def memberAfter (s : Session) (action : Action) (member : Bytes × Salt) : Bytes × Salt :=
  (s.transformMember action member).2

variable (hlength : s.secrets.passphrase.length ≤ Format.passphraseLimit)

include hlength

theorem transformMember_of_length (action : Action) (member : Bytes × Salt) :
    s.transformMember action member =
      (⟨.ok (), action.events member.1.length⟩, s.memberAfter action member) :=
  Prod.ext (Secrets.transformHere_of_length member.2 action ⟨member.1, rfl⟩ hlength) rfl

theorem transform_of_length (action : Action) (member : Bytes × Salt) :
    s.transform member.2 action member.1 =
      ⟨.ok (s.memberAfter action member).1, action.events member.1.length⟩ := by
  rw [transform_eq_transformMember, transformMember_of_length hlength]
  rfl

/-- What was encrypted is restored under the same salt. -/
theorem memberAfter_memberAfter {undo : Action} (hundo : undo ≠ .encrypt)
    (member : Bytes × Salt) :
    s.memberAfter undo (s.memberAfter .encrypt member) = member := by
  obtain ⟨hidden, hencrypt, -, hrestore⟩ :=
    @Secrets.exists_encrypted s.secrets member.2 hlength member.1
  have hafter := transform_of_length hlength .encrypt member
  have hagain := transform_of_length hlength undo (s.memberAfter .encrypt member)
  obtain rfl : hidden = (s.memberAfter .encrypt member).1 :=
    Except.ok.inj (hencrypt.symm.trans (congrArg Traced.result hafter))
  exact Prod.ext
    (Except.ok.inj ((congrArg Traced.result hagain).symm.trans (hrestore undo hundo))) rfl

/-! ## Some members, in some order -/

theorem transformAt_of_lt {batch : List (Bytes × Salt)} {index : Nat}
    (hindex : index < batch.length) :
    s.transformAt action index batch =
      (⟨.ok (), memberEvents action batch index⟩,
        batch.set index (s.memberAfter action batch[index])) := by
  rw [transformAt, memberEvents, List.getElem?_eq_getElem hindex]
  simp only [transformMember_of_length hlength, Option.elim_some]

/-- After some different indices the members at them are transformed, and no other. -/
theorem transformInOrder_of_nodup {order : List Nat} {batch : List (Bytes × Salt)}
    (hnodup : order.Nodup) (hinside : ∀ index ∈ order, index < batch.length) :
    s.transformInOrder action order batch =
      (⟨.ok (), order.flatMap (memberEvents action batch)⟩,
        batch.mapIdx fun index member =>
          if index ∈ order then s.memberAfter action member else member) := by
  induction order generalizing batch with
  | nil =>
    have hsame : batch.mapIdx (fun _ member => member) = batch := by
      apply List.ext_getElem?
      intro position
      rw [List.getElem?_mapIdx, Option.map_id']
    simp only [transformInOrder, List.not_mem_nil, if_false, hsame]
    rfl
  | cons index order ih =>
    obtain ⟨hfresh, hrest⟩ := List.nodup_cons.1 hnodup
    have hindex := hinside index List.mem_cons_self
    have hlater : ∀ other ∈ order,
        other < (batch.set index (s.memberAfter action batch[index])).length := by
      intro other hother
      rw [List.length_set]
      exact hinside other (List.mem_cons_of_mem _ hother)
    have hevents : order.flatMap (memberEvents action
          (batch.set index (s.memberAfter action batch[index]))) =
        order.flatMap (memberEvents action batch) := by
      apply List.flatMap_congr
      intro other hother
      exact memberEvents_set fun hsame : other = index => hfresh (hsame ▸ hother)
    simp only [transformInOrder, transformAt_of_lt hlength hindex, ih hrest hlater, hevents,
      List.flatMap_cons]
    congr 1
    apply List.ext_getElem?
    intro position
    rw [List.getElem?_mapIdx, List.getElem?_mapIdx, List.getElem?_set]
    -- the index has had its turn, and no later one is its own
    by_cases hposition : index = position
    · subst hposition
      simp [hindex, hfresh]
    · simp [hposition, Ne.symm hposition]

/-- In whatever order all members are transformed, they all are in the end. -/
theorem transformInOrder_of_perm {order : List Nat} {batch : List (Bytes × Salt)}
    (hperm : order.Perm (List.range batch.length)) :
    s.transformInOrder action order batch =
      (⟨.ok (), order.flatMap (memberEvents action batch)⟩,
        batch.map (s.memberAfter action)) := by
  have hmember : ∀ index, index ∈ order ↔ index < batch.length := fun index =>
    hperm.mem_iff.trans List.mem_range
  rw [transformInOrder_of_nodup hlength (hperm.nodup_iff.2 List.nodup_range)
    fun index => (hmember index).1]
  congr 1
  apply List.ext_getElem?
  intro position
  rw [List.getElem?_mapIdx, List.getElem?_map]
  by_cases hposition : position < batch.length
  · simp only [(hmember position).2 hposition, if_true]
  · rw [List.getElem?_eq_none (Nat.le_of_not_lt hposition)]
    rfl

/-- A batch as a whole leaves the same buffers, and its events in the order of its members. -/
theorem transformAll_of_length (action : Action) (members : List (Bytes × Salt)) :
    s.transformAll action members =
      ⟨.ok ((members.map (s.memberAfter action)).map Prod.fst),
        (List.range members.length).flatMap (memberEvents action members)⟩ := by
  induction members with
  | nil => rfl
  | cons member members ih =>
    have hfirst := transform_of_length hlength action member
    rw [transformAll, Traced.bind_of_ok _ (congrArg Traced.result hfirst),
      Traced.bind_of_ok _ (congrArg Traced.result ih), hfirst, ih]
    simp only [Traced.result_pure, Traced.events_pure, List.append_nil, List.length_cons,
      List.range_succ_eq_map, List.flatMap_cons, List.flatMap_map, List.map_cons]
    rfl

omit hlength

/-! ## A session that was built -/

/-- A batch in a built session goes well, and leaves each member as the transform of its own
buffer under its own salt does.  The members transformed in place, one at a time and in any
order, come to the same list, with the same events in another order.  So a batch that
was encrypted is restored by either kind of decryption, whatever the two orders were. -/
theorem Built.batch_in_any_order {s : Session} (hbuilt : s.Built) (action : Action)
    (members : List (Bytes × Salt)) :
    ∃ left : List (Bytes × Salt),
      (s.transformAll action members).result = .ok (left.map Prod.fst) ∧
      List.Forall₂ (fun member after =>
        (s.transform member.2 action member.1).result = .ok after.1 ∧
        after.2 = member.2 ∧ after.1.length = member.1.length) members left ∧
      (∀ order : List Nat, order.Perm (List.range members.length) →
        (s.transformInOrder action order members).1.result = .ok () ∧
        (s.transformInOrder action order members).2 = left ∧
        (s.transformInOrder action order members).1.events.Perm
          (s.transformAll action members).events) ∧
      (action = .encrypt → ∀ undo : Action, undo ≠ .encrypt →
        (s.transformAll undo left).result = .ok (members.map Prod.fst) ∧
        ∀ order : List Nat, order.Perm (List.range members.length) →
          (s.transformInOrder undo order left).1.result = .ok () ∧
          (s.transformInOrder undo order left).2 = members) := by
  have hlength := hbuilt.length_le
  have hrestored : ∀ undo : Action, undo ≠ .encrypt →
      (members.map (s.memberAfter .encrypt)).map (s.memberAfter undo) = members := by
    intro undo hundo
    rw [List.map_map]
    exact List.map_id'' (memberAfter_memberAfter hlength hundo) members
  refine ⟨members.map (s.memberAfter action), ?_, ?_, ?_, ?_⟩
  · rw [transformAll_of_length hlength]
  · rw [List.forall₂_map_right_iff, List.forall₂_same]
    intro member _
    refine ⟨congrArg Traced.result (transform_of_length hlength action member), rfl, ?_⟩
    exact Octets.length_toList _
  · intro order hperm
    rw [transformInOrder_of_perm hlength hperm, transformAll_of_length hlength]
    exact ⟨rfl, rfl, hperm.flatMap_right _⟩
  · rintro rfl undo hundo
    constructor
    · rw [transformAll_of_length hlength, hrestored undo hundo]
    · intro order hperm
      rw [← List.length_map (s.memberAfter .encrypt)] at hperm
      rw [transformInOrder_of_perm hlength hperm, hrestored undo hundo]
      exact ⟨rfl, rfl⟩

/-- A block and a byte under one salt, the last of them first, and back again. -/
theorem Built.batch_in_any_order_pair :
    ∃ s : Session, (Session.ofPassphrase [1, 2] 1).result = .ok s ∧
      [1, 0].Perm (List.range 2) ∧
      ∃ left, (s.transformInOrder .encrypt [1, 0]
          [(List.replicate 16 3, Octets.zero 16), ([4], Octets.zero 16)]).2 = left ∧
        (s.transformInOrder .validate [0, 1] left).2 =
          [(List.replicate 16 3, Octets.zero 16), ([4], Octets.zero 16)] := by
  have hbuild : (Session.ofPassphrase [1, 2] 1).result = .ok _ := rfl
  have hperm : [1, 0].Perm (List.range 2) := by decide
  obtain ⟨left, -, -, hordered, hrestored⟩ :=
    Built.batch_in_any_order (.ofPassphrase [1, 2] 1 hbuild) .encrypt
      [(List.replicate 16 3, Octets.zero 16), ([4], Octets.zero 16)]
  exact ⟨_, hbuild, hperm, left, (hordered [1, 0] hperm).2.1,
    ((hrestored rfl .validate (by decide)).2 [0, 1] (by decide)).2⟩

end SealedArchive.Session
