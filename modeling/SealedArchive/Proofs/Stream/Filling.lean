import SealedArchive.Proofs.Header.Packing
import SealedArchive.Stream

/-!
# Records fill a stream up to its room

A stream with room for a number of bytes may take any number of the bytes that it is
offered, but at least one until it is full.  `Takes` is one such offer, `WritesAll`
the loop that offers the rest again and gives up when none is taken, and
`WritesRecords` any number of byte strings, each of which is written if it spells a
record.

Whatever the stream decides, it holds the front of all that it was offered, as far as
there is room (`WritesAll.result_after`).  What was offered before and whether it
failed therefore makes no difference to a record: it is written if and only if there
is room for it behind all records before it (`WritesRecord.result_after`).  `Sink` is
one of these streams, at any pace (`Sink.writesRecords_writeRecords`).

A stream that has room for some bytes, and takes at least one whenever it is
asked, takes them all in the end, in however many pieces (`Sink.writeAll_of_room`).
-/

namespace SealedArchive

/-! ## A stream with room enough -/

namespace Sink

theorem acceptance_pos {s : Sink} {bytes : Bytes} (hpace : ∀ request, 0 < s.pace request)
    (hroom : s.written.length + bytes.length ≤ s.room) (hbytes : bytes ≠ []) :
    0 < s.acceptance bytes := by
  have hlength : 0 < bytes.length := List.length_pos_iff.2 hbytes
  have hstep := hpace s.requests
  simp only [acceptance]
  omega

theorem acceptance_le (s : Sink) (bytes : Bytes) : s.acceptance bytes ≤ bytes.length :=
  Nat.min_le_left _ _

theorem writeAll_of_room {s : Sink} {bytes : Bytes} (hpace : ∀ request, 0 < s.pace request)
    (hroom : s.written.length + bytes.length ≤ s.room) :
    ∃ requests, s.writeAll bytes =
      (.ok (), { s with requests := requests, written := s.written ++ bytes }) := by
  fun_induction writeAll s bytes with
  | case1 s => exact ⟨s.requests, by rw [List.append_nil]⟩
  | case2 s bytes hbytes hpos ih =>
    have hle := acceptance_le s bytes
    obtain ⟨requests, hrest⟩ := ih hpace (by
      simp only [accept, List.length_append, List.length_take, List.length_drop]
      omega)
    refine ⟨requests, ?_⟩
    rw [hrest]
    simp only [accept, List.append_assoc, List.take_append_drop]
  | case3 s bytes hbytes hfull => exact absurd (acceptance_pos hpace hroom hbytes) hfull

end Sink

/-! ## One offer -/

/-- A stream with room for `room` bytes, some of which are written, is offered some
bytes and takes `count` of them, `step` at most. -/
inductive Takes (room step : Nat) (written bytes : Bytes) : (count : Nat) → Prop
  | some {count : Nat} (hpositive : 0 < count) (hstep : count ≤ step)
      (hbytes : count ≤ bytes.length) (hroom : written.length + count ≤ room) :
      Takes room step written bytes count
  | none (hfull : room ≤ written.length) : Takes room step written bytes 0

/-- Offers some bytes until all are taken, or none is: the answer, and all that is
written then. -/
inductive WritesAll (room step : Nat) : (written bytes : Bytes) → Except Error Unit →
    (after : Bytes) → Prop
  | done {written : Bytes} : WritesAll room step written [] (.ok ()) written
  | more {written bytes after : Bytes} {count : Nat} {result : Except Error Unit}
      (hbytes : bytes ≠ []) (hpositive : 0 < count) (htakes : Takes room step written bytes count)
      (hmore : WritesAll room step (written ++ bytes.take count) (bytes.drop count) result
        after) :
      WritesAll room step written bytes result after
  | full {written bytes : Bytes} (hbytes : bytes ≠ []) (htakes : Takes room step written bytes 0) :
      WritesAll room step written bytes (.error .streamFull) written

/-- However many bytes are taken at a time, the front of them is written, and the
answer says whether that is all. -/
theorem WritesAll.result_after {room step : Nat} {written bytes after : Bytes}
    {result : Except Error Unit} (hwrites : WritesAll room step written bytes result after)
    (hroom : written.length ≤ room) :
    result = (if written.length + bytes.length ≤ room then .ok () else .error .streamFull) ∧
      after = (written ++ bytes).take room := by
  induction hwrites with
  | done =>
    rw [List.append_nil, List.take_of_length_le hroom]
    exact ⟨(if_pos hroom).symm, rfl⟩
  | @more written bytes after count result _ hpositive htakes _ ih =>
    cases htakes with
    | none => omega
    | some _ _ hcount hfits =>
      have hlength : (written ++ bytes.take count).length = written.length + count := by
        rw [List.length_append, List.length_take_of_le hcount]
      obtain ⟨hresult, hafter⟩ := ih (by omega)
      rw [hlength, List.length_drop,
        show written.length + count + (bytes.length - count) = written.length + bytes.length by
          omega] at hresult
      rw [List.append_assoc, List.take_append_drop] at hafter
      exact ⟨hresult, hafter⟩
  | @full written bytes hbytes htakes =>
    have hlength : 0 < bytes.length := List.length_pos_iff.2 hbytes
    cases htakes with
    | some hpositive => omega
    | none hfull =>
      rw [if_neg (by omega), List.take_append_of_le_length hfull, List.take_of_length_le hroom]
      exact ⟨rfl, rfl⟩

/-! ## Records -/

/-- Writes the record that some bytes spell: the answer, and all that is written
then. -/
inductive WritesRecord (room step : Nat) (written bytes : Bytes) : Except Error Unit →
    (after : Bytes) → Prop
  | refused {error : Error} (hrefused : SealedHeader.ofBytes bytes = .error error) :
      WritesRecord room step written bytes (.error error) written
  | offered {r : SealedHeader} {result : Except Error Unit} {after : Bytes}
      (hrecord : SealedHeader.ofBytes bytes = .ok r)
      (hwrites : WritesAll room step written r.toOctets.toList result after) :
      WritesRecord room step written bytes result after

/-- Writes the records that some byte strings spell: the answers, each with all that
is written then, and all that is written in the end. -/
inductive WritesRecords (room step : Nat) : (written : Bytes) → (entries : List Bytes) →
    List (Except Error Unit × Bytes) → (final : Bytes) → Prop
  | done {written : Bytes} : WritesRecords room step written [] [] written
  | entry {written bytes after final : Bytes} {entries : List Bytes}
      {result : Except Error Unit} {answers : List (Except Error Unit × Bytes)}
      (hwrite : WritesRecord room step written bytes result after)
      (hlater : WritesRecords room step after entries answers final) :
      WritesRecords room step written (bytes :: entries) ((result, after) :: answers) final

/-- Those of some byte strings that spell a record. -/
def spelledRecords (entries : List Bytes) : List Bytes :=
  entries.filter fun bytes => bytes.length = Format.recordLength

/-- The bytes that some records take up before the room of the stream ends. -/
def filledBy (room : Nat) (entries : List Bytes) : Bytes :=
  (spelledRecords entries).flatten.take
    (min room (Format.recordLength * (spelledRecords entries).length))

/-- What becomes of some bytes behind some others. -/
def verdict (room : Nat) (earlier : List Bytes) (bytes : Bytes) : Except Error Unit :=
  if bytes.length = Format.recordLength then
    if Format.recordLength * ((spelledRecords earlier).length + 1) ≤ room then .ok ()
    else .error .streamFull
  else .error (.recordLength bytes.length)

section

variable {room step : Nat} {entries earlier : List Bytes} {bytes : Bytes}

theorem spelledRecords_append (earlier entries : List Bytes) :
    spelledRecords (earlier ++ entries) = spelledRecords earlier ++ spelledRecords entries :=
  List.filter_append earlier entries

theorem spelledRecords_of_length (hlength : bytes.length = Format.recordLength) :
    spelledRecords [bytes] = [bytes] :=
  List.filter_cons_of_pos (by simpa using hlength)

theorem spelledRecords_of_length_ne (hlength : bytes.length ≠ Format.recordLength) :
    spelledRecords [bytes] = [] :=
  List.filter_cons_of_neg (by simpa using hlength)

theorem length_flatten_spelledRecords (entries : List Bytes) :
    (spelledRecords entries).flatten.length =
      Format.recordLength * (spelledRecords entries).length := by
  have hwidths : (spelledRecords entries).map List.length =
      List.replicate (spelledRecords entries).length Format.recordLength := by
    refine List.eq_replicate_iff.2 ⟨List.length_map _, ?_⟩
    intro width hwidth
    obtain ⟨bytes, hbytes, rfl⟩ := List.mem_map.1 hwidth
    simpa using (List.mem_filter.1 hbytes).2
  rw [List.length_flatten, hwidths, List.sum_replicate_nat, Nat.mul_comm]

theorem filledBy_eq_take (room : Nat) (entries : List Bytes) :
    filledBy room entries = (spelledRecords entries).flatten.take room := by
  rw [filledBy, ← length_flatten_spelledRecords, ← List.take_eq_take_min]

theorem length_filledBy (room : Nat) (entries : List Bytes) :
    (filledBy room entries).length =
      min room (Format.recordLength * (spelledRecords entries).length) := by
  rw [filledBy_eq_take, List.length_take, length_flatten_spelledRecords]

/-- A record goes behind those before it, as far as there is room left. -/
theorem filledBy_concat (hlength : bytes.length = Format.recordLength) :
    filledBy room (earlier ++ [bytes]) = (filledBy room earlier ++ bytes).take room := by
  rw [filledBy_eq_take, filledBy_eq_take, spelledRecords_append, spelledRecords_of_length hlength,
    List.flatten_append, List.flatten_singleton, List.take_append, List.take_append,
    List.take_take, Nat.min_self, List.length_take]
  congr 2
  omega

theorem filledBy_concat_of_ne (hlength : bytes.length ≠ Format.recordLength) :
    filledBy room (earlier ++ [bytes]) = filledBy room earlier := by
  rw [filledBy, spelledRecords_append, spelledRecords_of_length_ne hlength, List.append_nil,
    ← filledBy]

end

/-- The answer to a record depends on the room and on the number of records before it
alone. -/
theorem WritesRecord.result_after {room step : Nat} {earlier : List Bytes} {bytes after : Bytes}
    {result : Except Error Unit}
    (hwrite : WritesRecord room step (filledBy room earlier) bytes result after) :
    result = verdict room earlier bytes ∧ after = filledBy room (earlier ++ [bytes]) := by
  have hfilled := length_filledBy room earlier
  cases hwrite with
  | refused hrefused =>
    by_cases hlength : bytes.length = Format.recordLength
    · obtain ⟨r, hrecord⟩ := SealedHeader.exists_ofBytes_iff.2 hlength
      rw [hrecord] at hrefused
      cases hrefused
    · rw [SealedHeader.ofBytes_of_length_ne hlength] at hrefused
      cases hrefused
      rw [verdict, if_neg hlength, filledBy_concat_of_ne hlength]
      exact ⟨rfl, rfl⟩
  | offered hrecord hwrites =>
    have hlength := SealedHeader.exists_ofBytes_iff.1 ⟨_, hrecord⟩
    rw [← SealedHeader.ofBytes_eq_ok_iff.1 hrecord] at hwrites
    obtain ⟨hresult, hafter⟩ := hwrites.result_after (by omega)
    have hfits : (filledBy room earlier).length + bytes.length ≤ room ↔
        Format.recordLength * ((spelledRecords earlier).length + 1) ≤ room := by
      have hwidth : 0 < Format.recordLength := by decide
      rw [Nat.mul_add, Nat.mul_one]
      omega
    rw [verdict, if_pos hlength, filledBy_concat hlength]
    simp only [hfits] at hresult
    exact ⟨hresult, hafter⟩

/-- Each of some byte strings gets its answer behind those before it, and the stream
is filled by all of them. -/
theorem WritesRecords.answers_final {room step : Nat} {written final : Bytes}
    {entries : List Bytes} {answers : List (Except Error Unit × Bytes)}
    (hwrites : WritesRecords room step written entries answers final) {earlier : List Bytes}
    (hwritten : written = filledBy room earlier) :
    final = filledBy room (earlier ++ entries) ∧ answers.length = entries.length ∧
      ∀ front bytes back, entries = front ++ bytes :: back →
        answers[front.length]? = some (verdict room (earlier ++ front) bytes,
          filledBy room (earlier ++ (front ++ [bytes]))) := by
  induction hwrites generalizing earlier with
  | done =>
    refine ⟨by rw [hwritten, List.append_nil], rfl, ?_⟩
    intro front bytes back hentries
    simp at hentries
  | entry hwrite _ ih =>
    subst hwritten
    obtain ⟨rfl, rfl⟩ := hwrite.result_after
    obtain ⟨hfinal, hcount, hanswers⟩ := ih rfl
    refine ⟨by simpa using hfinal, congrArg Nat.succ hcount, ?_⟩
    intro front bytes back hentries
    cases front with
    | nil =>
      obtain ⟨rfl, rfl⟩ := List.cons.inj hentries
      simp
    | cons first front =>
      obtain ⟨rfl, hlater⟩ := List.cons.inj hentries
      simpa using hanswers front bytes back hlater

/-! ## The stream at its own pace -/

namespace Sink

variable {s : Sink} {step : Nat}

theorem takes_acceptance {bytes : Bytes}
    (hpace : ∀ request, 0 < s.pace request ∧ s.pace request ≤ step) (hbytes : bytes ≠ []) :
    Takes s.room step s.written bytes (s.acceptance bytes) := by
  have hlength : 0 < bytes.length := List.length_pos_iff.2 hbytes
  obtain ⟨hpositive, hstep⟩ := hpace s.requests
  have hacceptance : s.acceptance bytes =
      min bytes.length (min (s.pace s.requests) (s.room - s.written.length)) := rfl
  by_cases hfull : s.room ≤ s.written.length
  · have hnone : s.acceptance bytes = 0 := by omega
    rw [hnone]
    exact .none hfull
  · exact .some (by omega) (by omega) (by omega) (by omega)

theorem writesAll_writeAll (hpace : ∀ request, 0 < s.pace request ∧ s.pace request ≤ step)
    (bytes : Bytes) :
    WritesAll s.room step s.written bytes (s.writeAll bytes).1 (s.writeAll bytes).2.written := by
  fun_induction writeAll s bytes with
  | case1 => exact .done
  | case2 s bytes hbytes hpositive ih =>
    exact .more hbytes hpositive (takes_acceptance hpace hbytes) (ih hpace)
  | case3 s bytes hbytes hnone =>
    have htakes := takes_acceptance hpace hbytes
    have hzero : s.acceptance bytes = 0 := by omega
    have hkept : (s.accept bytes).written = s.written := by
      rw [accept, hzero, List.take_zero, List.append_nil]
    rw [hzero] at htakes
    rw [hkept]
    exact .full hbytes htakes

/-- The room and the pace of a stream are not changed by writing to it. -/
theorem room_pace_writeRecord (s : Sink) (bytes : Bytes) :
    (s.writeRecord bytes).2.room = s.room ∧ (s.writeRecord bytes).2.pace = s.pace := by
  have hwriteAll (bytes : Bytes) :
      (s.writeAll bytes).2.room = s.room ∧ (s.writeAll bytes).2.pace = s.pace := by
    fun_induction writeAll s bytes with
    | case1 | case3 => exact ⟨rfl, rfl⟩
    | case2 _ _ _ _ ih => exact ih
  unfold writeRecord
  split
  · exact hwriteAll _
  · exact ⟨rfl, rfl⟩

theorem writesRecord_writeRecord
    (hpace : ∀ request, 0 < s.pace request ∧ s.pace request ≤ step) (bytes : Bytes) :
    WritesRecord s.room step s.written bytes (s.writeRecord bytes).1
      (s.writeRecord bytes).2.written := by
  unfold writeRecord
  split
  · next r hrecord => exact .offered hrecord (writesAll_writeAll hpace _)
  · next error hrefused => exact .refused hrefused

/-- The stream after some requests to write a record. -/
def afterRecords (s : Sink) (entries : List Bytes) : Sink :=
  entries.foldl (fun s bytes => (s.writeRecord bytes).2) s

theorem writesRecords_writeRecords (entries : List Bytes)
    (hpace : ∀ request, 0 < s.pace request ∧ s.pace request ≤ step) :
    WritesRecords s.room step s.written entries
      ((s.writeRecords entries).map fun answer => (answer.1, answer.2.written))
      (s.afterRecords entries).written := by
  induction entries generalizing s with
  | nil => exact .done
  | cons bytes entries ih =>
    obtain ⟨hroom, hsame⟩ := room_pace_writeRecord s bytes
    have hlater := ih (s := (s.writeRecord bytes).2) (by rw [hsame]; exact hpace)
    rw [hroom] at hlater
    exact .entry (writesRecord_writeRecord hpace bytes) hlater

end Sink

/-- A stream of some room that is empty at first holds the front of all records that it
was to take, whatever pieces it took them in.  A byte string that is no record is
refused and leaves no trace; a record is written if there is room for it behind the
records before it, and otherwise the stream is full. -/
theorem records_fill_room (room step : Nat) (entries : List Bytes) :
    (∀ (answers : List (Except Error Unit × Bytes)) (final : Bytes),
      WritesRecords room step [] entries answers final →
      answers.length = entries.length ∧
      final = (spelledRecords entries).flatten.take
        (min room (Format.recordLength * (spelledRecords entries).length)) ∧
      ∀ front bytes back, entries = front ++ bytes :: back →
        ∃ result after, answers[front.length]? = some (result, after) ∧
          after = filledBy room (front ++ [bytes]) ∧
          (bytes.length ≠ Format.recordLength →
            result = .error (.recordLength bytes.length) ∧ after = filledBy room front) ∧
          (bytes.length = Format.recordLength →
            (result = .ok () ↔
              Format.recordLength * ((spelledRecords front).length + 1) ≤ room) ∧
            (result ≠ .ok () → result = .error .streamFull))) ∧
    (∀ s : Sink, s.room = room → s.written = [] →
      (∀ request, 0 < s.pace request ∧ s.pace request ≤ step) →
      WritesRecords room step [] entries
        ((s.writeRecords entries).map fun answer => (answer.1, answer.2.written))
        (s.afterRecords entries).written) ∧
    (∀ actual, (Error.recordLength actual).kind = .recordLength ∧
      (Error.recordLength actual).message =
        s!"Invalid length: expected 41 bytes, got {actual}") ∧
    Error.streamFull.kind = .stream ∧
    Error.streamFull.message = "I/O error: failed to write whole buffer" := by
  refine ⟨?_, ?_, fun actual => ⟨rfl, rfl⟩, rfl, rfl⟩
  · intro answers final hwrites
    have hnothing : [] = filledBy room [] := by simp [filledBy, spelledRecords]
    obtain ⟨hfinal, hcount, hanswers⟩ := hwrites.answers_final hnothing
    refine ⟨hcount, hfinal, ?_⟩
    intro front bytes back hentries
    refine ⟨_, _, hanswers front bytes back hentries, rfl, ?_, ?_⟩
    · intro hlength
      exact ⟨if_neg hlength, filledBy_concat_of_ne hlength⟩
    · intro hlength
      rw [List.nil_append, verdict, if_pos hlength]
      simp
  · intro s hroom hempty hpace
    rw [← hroom, ← hempty]
    exact Sink.writesRecords_writeRecords entries hpace

/-- A stream of 50 bytes that takes seven at a time holds one record and the front of
the next, with nothing of the two bytes between them. -/
theorem records_fill_room_torn :
    (∀ request, 0 < (Sink.ofRoom 50 7).pace request ∧ (Sink.ofRoom 50 7).pace request ≤ 7) ∧
    ((Sink.ofRoom 50 7).afterRecords
      [List.replicate 41 1, [8, 9], List.replicate 41 2]).written =
        List.replicate 41 1 ++ List.replicate 9 2 := by
  have hpace : ∀ request,
      0 < (Sink.ofRoom 50 7).pace request ∧ (Sink.ofRoom 50 7).pace request ≤ 7 :=
    fun _ => ⟨Nat.succ_pos _, Nat.le_refl _⟩
  obtain ⟨hany, hown, -⟩ :=
    records_fill_room 50 7 [List.replicate 41 1, [8, 9], List.replicate 41 2]
  obtain ⟨-, hfinal, -⟩ := hany _ _ (hown (Sink.ofRoom 50 7) rfl rfl hpace)
  exact ⟨hpace, hfinal⟩

end SealedArchive
