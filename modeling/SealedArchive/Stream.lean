import SealedArchive.Header

/-!
# Records on a stream

A stream delivers its bytes in runs of any length, with interruptions and
failures between them, until it ends.  `Source.readExact` collects a given
number of bytes: it goes on after an interruption and gives up at a failure or
at the end.  The bytes collected until then are lost, and the next read goes on
behind the failure.

A stream that is written to has room for a number of bytes, and takes at most so many of
them at a time as its pace allows.  `Sink.writeAll` hands over the rest of some bytes again
and again until all are taken, and gives up when none is.  What was taken until
then stays written.
-/

namespace SealedArchive

/-! ## Reading -/

/-- What a stream has to offer next. -/
inductive Delivery where
  /-- Some bytes. -/
  | data (bytes : Bytes)
  /-- Nothing this time; asking again helps. -/
  | interrupted
  /-- A failure with a report. -/
  | failure (report : String)

/-- The answer to a request for bytes, what is left of the stream, and the
number of bytes that were taken from it. -/
structure Intake where
  result : Except Error Bytes
  later : List Delivery
  taken : Nat

/-- Collects a number of bytes. -/
def Delivery.collect : List Delivery → (count : Nat) → Intake
  | deliveries, 0 => ⟨.ok [], deliveries, 0⟩
  | [], _ + 1 => ⟨.error .streamEnded, [], 0⟩
  | .interrupted :: later, count + 1 => collect later (count + 1)
  | .failure report :: later, _ + 1 => ⟨.error (.streamFailed report), later, 0⟩
  | .data bytes :: later, count + 1 =>
    if bytes.length ≤ count then
      let more := collect later (count + 1 - bytes.length)
      ⟨more.result.map (bytes ++ ·), more.later, bytes.length + more.taken⟩
    else ⟨.ok (bytes.take (count + 1)), .data (bytes.drop (count + 1)) :: later, count + 1⟩

/-- A stream, and the number of bytes read from it so far. -/
structure Source where
  deliveries : List Delivery
  consumed : Nat

namespace Source

/-- A stream from its beginning. -/
def ofDeliveries (deliveries : List Delivery) : Source := ⟨deliveries, 0⟩

/-- The next bytes of the stream, as many as asked for. -/
def readExact (s : Source) (count : Nat) : Except Error Bytes × Source :=
  let intake := Delivery.collect s.deliveries count
  (intake.result, ⟨intake.later, s.consumed + intake.taken⟩)

/-- The next record of the stream. -/
def readRecord (s : Source) : Except Error SealedHeader × Source :=
  let (result, later) := s.readExact Format.recordLength
  (result.bind SealedHeader.ofBytes, later)

/-- The answers to a number of requests for a record, each with the stream
after it. -/
def readRecords : (count : Nat) → Source → List (Except Error SealedHeader × Source)
  | 0, _ => []
  | count + 1, s => s.readRecord :: readRecords count s.readRecord.2

end Source

/-! ## Writing -/

/-- A stream that is written to. -/
structure Sink where
  /-- The number of bytes that it takes in all. -/
  room : Nat
  /-- The most bytes that it takes at each time that it is asked. -/
  pace : Nat → Nat
  /-- The number of times that it was asked. -/
  requests : Nat
  /-- The bytes that it has taken. -/
  written : Bytes

namespace Sink

/-- A stream before anything was written, which takes `step` bytes at a time. -/
def ofRoom (room step : Nat) : Sink := ⟨room, fun _ => step, 0, []⟩

/-- The number of bytes that the stream takes of some bytes. -/
def acceptance (s : Sink) (bytes : Bytes) : Nat :=
  min bytes.length (min (s.pace s.requests) (s.room - s.written.length))

/-- The stream after it was asked to take some bytes. -/
def accept (s : Sink) (bytes : Bytes) : Sink :=
  { s with
    requests := s.requests + 1
    written := s.written ++ bytes.take (s.acceptance bytes) }

/-- Hands some bytes over to the stream. -/
def writeAll (s : Sink) (bytes : Bytes) : Except Error Unit × Sink :=
  if bytes = [] then (.ok (), s)
  else if 0 < s.acceptance bytes then
    (s.accept bytes).writeAll (bytes.drop (s.acceptance bytes))
  else (.error .streamFull, s.accept bytes)
termination_by bytes.length
decreasing_by
  have hle : s.acceptance bytes ≤ bytes.length := Nat.min_le_left _ _
  simp only [List.length_drop]
  omega

/-- Writes a record. -/
def writeSealed (s : Sink) (r : SealedHeader) : Except Error Unit × Sink :=
  s.writeAll r.toOctets.toList

/-- Writes the record that some bytes spell. -/
def writeRecord (s : Sink) (bytes : Bytes) : Except Error Unit × Sink :=
  match SealedHeader.ofBytes bytes with
  | .ok r => s.writeSealed r
  | .error error => (.error error, s)

/-- The answers to some requests to write a record, each with the stream after
it. -/
def writeRecords : List Bytes → Sink → List (Except Error Unit × Sink)
  | [], _ => []
  | bytes :: later, s => s.writeRecord bytes :: writeRecords later (s.writeRecord bytes).2

end Sink

end SealedArchive
