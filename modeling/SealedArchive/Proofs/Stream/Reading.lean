import SealedArchive.Proofs.Stream.Delivery

/-!
# What a reader gets from a stream without failures

A stream without failures has a single run.  Where its bytes are cut and how often
it is interrupted makes no difference, so a reader of records gets them all from
any stream that delivers them, and is then told that the stream has ended
(`readRecords_of_ahead`).
-/

namespace SealedArchive

/-! ## The next failure -/

namespace Delivery

/-- The bytes before the next failure. -/
def ahead : List Delivery → Bytes
  | [] => []
  | .data bytes :: later => bytes ++ ahead later
  | .interrupted :: later => ahead later
  | .failure _ :: _ => []

/-- The next failure, and what is offered after it. -/
def behind : List Delivery → Option (String × List Delivery)
  | [] => none
  | .data _ :: later => behind later
  | .interrupted :: later => behind later
  | .failure report :: later => some (report, later)

theorem runs_of_behind {deliveries : List Delivery} (hbehind : behind deliveries = none) :
    runs deliveries = .last (ahead deliveries) := by
  induction deliveries with
  | nil => rfl
  | cons delivery deliveries ih =>
    cases delivery with
    | data bytes =>
      rw [runs, ih hbehind]
      rfl
    | interrupted => exact ih hbehind
    | failure report => cases hbehind

end Delivery

/-! ## Streams without failures -/

/-- A stream delivers some bytes, in runs of any length and with interruptions
between them, and ends. -/
inductive Delivers : List Delivery → Bytes → Prop
  | ended : Delivers [] []
  | data {later : List Delivery} {rest : Bytes} (bytes : Bytes) (hlater : Delivers later rest) :
      Delivers (.data bytes :: later) (bytes ++ rest)
  | interrupted {later : List Delivery} {rest : Bytes} (hlater : Delivers later rest) :
      Delivers (.interrupted :: later) rest

theorem Delivers.ahead_behind {deliveries : List Delivery} {bytes : Bytes}
    (hdelivers : Delivers deliveries bytes) :
    Delivery.ahead deliveries = bytes ∧ Delivery.behind deliveries = none := by
  induction hdelivers with
  | ended => exact ⟨rfl, rfl⟩
  | data bytes _ ih => exact ⟨congrArg (bytes ++ ·) ih.1, ih.2⟩
  | interrupted _ ih => exact ih

/-! ## Records -/

/-- The answers to as many requests as there are records, and one more. -/
theorem Runs.answers_stream (records : List SealedHeader) (consumed : Nat) :
    (last (SealedHeader.stream records)).answers (records.length + 1) consumed =
      records.mapIdx (fun index r => (.ok r, consumed + Format.recordLength * (index + 1))) ++
        [(.error .streamEnded, consumed + Format.recordLength * records.length)] := by
  induction records generalizing consumed with
  | nil => exact answers_last_nil 1 consumed
  | cons r records ih =>
    have hwidth : r.toOctets.toList.length = Format.recordLength := r.toOctets.length_toList
    have hcollect : (last (SealedHeader.stream (r :: records))).collect Format.recordLength =
        (.ok r.toOctets.toList, Format.recordLength, last (SealedHeader.stream records)) := by
      have hstream : SealedHeader.stream (r :: records) =
          r.toOctets.toList ++ SealedHeader.stream records := rfl
      rw [hstream, collect_of_le (by rw [ahead, List.length_append]; omega), ahead, drop,
        List.take_left' hwidth, List.drop_left' hwidth]
    have hcount (index : Nat) :
        consumed + Format.recordLength + Format.recordLength * index =
          consumed + Format.recordLength * (index + 1) := by
      rw [Nat.mul_succ]
      omega
    rw [List.length_cons, answers, hcollect]
    simp only [Except.bind, SealedHeader.ofBytes_toOctets, ih, hcount, List.mapIdx_cons,
      Nat.zero_add, Nat.mul_one, List.cons_append]

theorem Source.readRecords_of_ahead (records : List SealedHeader) {s : Source}
    (hahead : Delivery.ahead s.deliveries = SealedHeader.stream records)
    (hbehind : Delivery.behind s.deliveries = none) :
    (s.readRecords (records.length + 1)).map (fun answer => (answer.1, answer.2.consumed)) =
      records.mapIdx (fun index r => (.ok r, s.consumed + Format.recordLength * (index + 1))) ++
        [(.error .streamEnded, s.consumed + Format.recordLength * records.length)] := by
  rw [map_readRecords, Delivery.runs_of_behind hbehind, hahead, Runs.answers_stream]

end SealedArchive
