import SealedArchive.Proofs.Header.Packing
import SealedArchive.Stream

/-!
# Records do not depend on their delivery

A stream delivers bytes in pieces, with interruptions and failures between them.
What a reader of records can learn of it are its runs: the bytes before each
failure and those before the end.  `Runs.answers` computes the answers to any
number of requests from the runs alone.

A reader asks for the bytes that it still lacks, and a read may give it any number
of them, but at least one and from one delivery only.  `HandsOut` is one such
read, `Collects` the loop that asks again until it has enough, and `Answers` any
number of requests.  Whatever the reads decide, the answers are those of the runs
(`Answers.eq_answers`); `Source.readRecords`, where each read gives as much as it
can, is one of these readers (`answers_readRecords`).
-/

namespace SealedArchive

/-! ## Runs -/

/-- The bytes of a stream between its failures. -/
inductive Runs where
  /-- The bytes up to the end of the stream. -/
  | last (bytes : Bytes)
  /-- The bytes up to a failure, its report, and what comes behind it. -/
  | failing (bytes : Bytes) (report : String) (later : Runs)

namespace Runs

/-- The bytes up to the next failure or the end. -/
def ahead : Runs → Bytes
  | last bytes | failing bytes _ _ => bytes

/-- What ends the bytes ahead. -/
def error : Runs → Error
  | last _ => .streamEnded
  | failing _ report _ => .streamFailed report

/-- What is said of that. -/
def report : Runs → String
  | last _ => "failed to fill whole buffer"
  | failing _ report _ => report

/-- What comes behind the bytes ahead; the end is not passed. -/
def next : Runs → Runs
  | last _ => last []
  | failing _ _ later => later

/-- The runs without some of the bytes ahead. -/
def drop (count : Nat) : Runs → Runs
  | last bytes => last (bytes.drop count)
  | failing bytes report later => failing (bytes.drop count) report later

/-- The runs with some more bytes ahead. -/
def prepend (front : Bytes) : Runs → Runs
  | last bytes => last (front ++ bytes)
  | failing bytes report later => failing (front ++ bytes) report later

/-- The answer to a request for some bytes, their number, and what is left. -/
def collect (runs : Runs) (count : Nat) : Except Error Bytes × Nat × Runs :=
  if count ≤ runs.ahead.length then (.ok (runs.ahead.take count), count, runs.drop count)
  else (.error runs.error, runs.ahead.length, runs.next)

/-- The answers to some requests for a record, each with the number of bytes read
so far. -/
def answers : (count : Nat) → (consumed : Nat) → Runs → List (Except Error SealedHeader × Nat)
  | 0, _, _ => []
  | count + 1, consumed, runs =>
    let (bytes, taken, later) := runs.collect Format.recordLength
    (bytes.bind SealedHeader.ofBytes, consumed + taken) ::
      later.answers count (consumed + taken)

@[simp] theorem ahead_prepend (front : Bytes) (runs : Runs) :
    (runs.prepend front).ahead = front ++ runs.ahead := by
  cases runs <;> rfl

@[simp] theorem error_prepend (front : Bytes) (runs : Runs) :
    (runs.prepend front).error = runs.error := by
  cases runs <;> rfl

@[simp] theorem next_prepend (front : Bytes) (runs : Runs) :
    (runs.prepend front).next = runs.next := by
  cases runs <;> rfl

@[simp] theorem prepend_nil (runs : Runs) : runs.prepend [] = runs := by
  cases runs <;> rfl

theorem prepend_prepend (front middle : Bytes) (runs : Runs) :
    (runs.prepend middle).prepend front = runs.prepend (front ++ middle) := by
  cases runs <;> simp [prepend]

@[simp] theorem drop_zero (runs : Runs) : runs.drop 0 = runs := by
  cases runs <;> rfl

theorem drop_prepend {front : Bytes} {count : Nat} (hfront : front.length ≤ count)
    (runs : Runs) : (runs.prepend front).drop count = runs.drop (count - front.length) := by
  cases runs <;> simp [prepend, drop, List.drop_append, List.drop_of_length_le hfront]

theorem kind_error (runs : Runs) : runs.error.kind = .stream := by
  cases runs <;> rfl

theorem message_error (runs : Runs) : runs.error.message = "I/O error: " ++ runs.report := by
  cases runs with
  | last bytes =>
    show Error.streamEnded.message = "I/O error: " ++ "failed to fill whole buffer"
    decide
  | failing bytes report later => rfl

theorem collect_of_le {runs : Runs} {count : Nat} (hcount : count ≤ runs.ahead.length) :
    runs.collect count = (.ok (runs.ahead.take count), count, runs.drop count) :=
  if_pos hcount

theorem collect_of_lt {runs : Runs} {count : Nat} (hcount : runs.ahead.length < count) :
    runs.collect count = (.error runs.error, runs.ahead.length, runs.next) :=
  if_neg (Nat.not_le_of_lt hcount)

/-- Bytes that are asked for anyway may be taken off first. -/
theorem collect_prepend {front : Bytes} {count : Nat} (hfront : front.length ≤ count)
    (runs : Runs) :
    (runs.prepend front).collect count =
      let (bytes, taken, later) := runs.collect (count - front.length)
      (bytes.map (front ++ ·), front.length + taken, later) := by
  by_cases hcount : count - front.length ≤ runs.ahead.length
  · rw [collect_of_le hcount, collect_of_le (by rw [ahead_prepend, List.length_append]; omega)]
    simp only [ahead_prepend, List.take_append, List.take_of_length_le hfront,
      drop_prepend hfront, Except.map]
    rw [Nat.add_sub_of_le hfront]
  · rw [collect_of_lt (Nat.lt_of_not_le hcount),
      collect_of_lt (by rw [ahead_prepend, List.length_append]; omega)]
    simp only [ahead_prepend, error_prepend, next_prepend, List.length_append, Except.map]

theorem answers_last_nil (count consumed : Nat) :
    (last []).answers count consumed = List.replicate count (.error .streamEnded, consumed) := by
  induction count with
  | zero => rfl
  | succ count ih =>
    have hshort : (last []).ahead.length < Format.recordLength := by decide
    rw [answers, collect_of_lt hshort, List.replicate_succ, ← ih]
    rfl

end Runs

/-- The runs of a stream. -/
def Delivery.runs : List Delivery → Runs
  | [] => .last []
  | .data bytes :: later => (runs later).prepend bytes
  | .interrupted :: later => runs later
  | .failure report :: later => .failing [] report (runs later)

/-! ## One read -/

/-- What a read gives. -/
inductive Handout where
  /-- Some of the bytes that were asked for. -/
  | bytes (piece : Bytes)
  | interrupted
  | failed (report : String)
  /-- No byte, as the stream is at its end. -/
  | ended

/-- A read with room for a number of bytes, what it gives, and what is left of the
stream. -/
inductive HandsOut : List Delivery → (room : Nat) → Handout → List Delivery → Prop
  | bytes {later : List Delivery} {room : Nat} (bytes : Bytes) (count : Nat)
      (hpositive : 0 < count) (hcount : count ≤ bytes.length) (hroom : count ≤ room) :
      HandsOut (.data bytes :: later) room (.bytes (bytes.take count))
        (.data (bytes.drop count) :: later)
  /-- A delivery without a byte is passed over. -/
  | empty {later rest : List Delivery} {room : Nat} {handout : Handout}
      (hlater : HandsOut later room handout rest) :
      HandsOut (.data [] :: later) room handout rest
  | interrupted {later : List Delivery} {room : Nat} :
      HandsOut (.interrupted :: later) room .interrupted later
  | failed {later : List Delivery} {room : Nat} (report : String) :
      HandsOut (.failure report :: later) room (.failed report) later
  | ended {room : Nat} : HandsOut [] room .ended []

/-- What a read says of the runs before and after it. -/
def Handout.Relates (before after : Runs) : Handout → Prop
  | bytes piece => before = after.prepend piece
  | interrupted => before = after
  | failed report => before = .failing [] report after
  | ended => before = .last [] ∧ after = .last []

namespace HandsOut

variable {deliveries rest : List Delivery} {room : Nat} {handout : Handout}

theorem relates (hread : HandsOut deliveries room handout rest) :
    handout.Relates (Delivery.runs deliveries) (Delivery.runs rest) := by
  induction hread with
  | bytes bytes count _ _ _ =>
    show (Delivery.runs _).prepend bytes = ((Delivery.runs _).prepend _).prepend _
    rw [Runs.prepend_prepend, List.take_append_drop]
  | empty _ ih => simpa only [Delivery.runs, Runs.prepend_nil] using ih
  | interrupted => rfl
  | failed report => rfl
  | ended => exact ⟨rfl, rfl⟩

theorem length_le {piece : Bytes} (hread : HandsOut deliveries room (.bytes piece) rest) :
    piece.length ≤ room := by
  generalize hhandout : Handout.bytes piece = handout at hread
  induction hread with
  | bytes bytes count _ _ hroom =>
    cases hhandout
    exact Nat.le_trans (List.length_take_le count bytes) hroom
  | empty _ ih => exact ih hhandout
  | interrupted | failed | ended => cases hhandout

end HandsOut

/-! ## Reads until there are enough bytes -/

/-- Asks for a number of bytes until they are all there: the answer, the number of
bytes that were handed out, and what is left of the stream. -/
inductive Collects : List Delivery → (count : Nat) → Except Error Bytes → (taken : Nat) →
    List Delivery → Prop
  | full {deliveries : List Delivery} : Collects deliveries 0 (.ok []) 0 deliveries
  | more {deliveries rest later : List Delivery} {count taken : Nat} {piece : Bytes}
      {result : Except Error Bytes}
      (hread : HandsOut deliveries (count + 1) (.bytes piece) rest)
      (hmore : Collects rest (count + 1 - piece.length) result taken later) :
      Collects deliveries (count + 1) (result.map (piece ++ ·)) (piece.length + taken) later
  | again {deliveries rest later : List Delivery} {count taken : Nat}
      {result : Except Error Bytes}
      (hread : HandsOut deliveries (count + 1) .interrupted rest)
      (hmore : Collects rest (count + 1) result taken later) :
      Collects deliveries (count + 1) result taken later
  | failed {deliveries rest : List Delivery} {count : Nat} {report : String}
      (hread : HandsOut deliveries (count + 1) (.failed report) rest) :
      Collects deliveries (count + 1) (.error (.streamFailed report)) 0 rest
  | ended {deliveries rest : List Delivery} {count : Nat}
      (hread : HandsOut deliveries (count + 1) .ended rest) :
      Collects deliveries (count + 1) (.error .streamEnded) 0 rest

namespace Collects

variable {deliveries later : List Delivery} {count taken : Nat} {result : Except Error Bytes}

/-- However the bytes are handed out, the answer is that of the runs. -/
theorem eq_collect (hcollects : Collects deliveries count result taken later) :
    (Delivery.runs deliveries).collect count = (result, taken, Delivery.runs later) := by
  induction hcollects with
  | full =>
    rw [Runs.collect_of_le (Nat.zero_le _), List.take_zero, Runs.drop_zero]
  | more hread _ ih =>
    have hbefore := hread.relates
    simp only [Handout.Relates] at hbefore
    rw [hbefore, Runs.collect_prepend hread.length_le, ih]
  | again hread _ ih =>
    have hbefore := hread.relates
    simp only [Handout.Relates] at hbefore
    rw [hbefore, ih]
  | failed hread =>
    have hbefore := hread.relates
    simp only [Handout.Relates] at hbefore
    rw [hbefore]
    rfl
  | ended hread =>
    obtain ⟨hbefore, hafter⟩ := hread.relates
    rw [hbefore, hafter]
    rfl

theorem empty (hcollects : Collects deliveries (count + 1) result taken later) :
    Collects (.data [] :: deliveries) (count + 1) result taken later := by
  cases hcollects with
  | more hread hmore => exact .more (.empty hread) hmore
  | again hread hmore => exact .again (.empty hread) hmore
  | failed hread => exact .failed (.empty hread)
  | ended hread => exact .ended (.empty hread)

theorem whole {bytes : Bytes} (hbytes : bytes.length ≤ count)
    (hcollects : Collects deliveries (count + 1 - bytes.length) result taken later) :
    Collects (.data bytes :: deliveries) (count + 1) (result.map (bytes ++ ·))
      (bytes.length + taken) later := by
  obtain ⟨lacking, hlacking⟩ : ∃ lacking, count + 1 - bytes.length = lacking + 1 :=
    ⟨count - bytes.length, by omega⟩
  rw [hlacking] at hcollects
  by_cases hnone : bytes = []
  · subst hnone
    obtain rfl : count = lacking := by simpa using hlacking
    cases result <;> simpa [Except.map] using hcollects.empty
  · have hread : HandsOut (.data bytes :: deliveries) (count + 1) (.bytes bytes)
        (.data [] :: deliveries) := by
      simpa using HandsOut.bytes bytes bytes.length (List.length_pos_iff.2 hnone)
        (Nat.le_refl _) (Nat.le_succ_of_le hbytes)
    exact .more hread (hlacking ▸ hcollects.empty)

theorem part {bytes : Bytes} (hbytes : count < bytes.length) :
    Collects (.data bytes :: deliveries) (count + 1) (.ok (bytes.take (count + 1))) (count + 1)
      (.data (bytes.drop (count + 1)) :: deliveries) := by
  have hread : HandsOut (.data bytes :: deliveries) (count + 1)
      (.bytes (bytes.take (count + 1))) (.data (bytes.drop (count + 1)) :: deliveries) :=
    .bytes bytes (count + 1) (Nat.succ_pos _) hbytes (Nat.le_refl _)
  have hlength : (bytes.take (count + 1)).length = count + 1 := by
    rw [List.length_take]
    omega
  have hall := Collects.more hread (by rw [hlength, Nat.sub_self]; exact .full)
  simpa only [Except.map, List.append_nil, hlength, Nat.add_zero] using hall

/-- Reads that give as much as they can are among these. -/
theorem collect (deliveries : List Delivery) (count : Nat) :
    Collects deliveries count (Delivery.collect deliveries count).result
      (Delivery.collect deliveries count).taken (Delivery.collect deliveries count).later := by
  induction deliveries generalizing count with
  | nil =>
    cases count with
    | zero => exact .full
    | succ count => exact .ended .ended
  | cons delivery deliveries ih =>
    cases count with
    | zero =>
      rw [Delivery.collect]
      exact .full
    | succ count =>
      cases delivery with
      | interrupted =>
        rw [Delivery.collect]
        exact .again .interrupted (ih (count + 1))
      | failure report => exact .failed (.failed report)
      | data bytes =>
        rw [Delivery.collect]
        by_cases hbytes : bytes.length ≤ count
        · rw [if_pos hbytes]
          exact whole hbytes (ih _)
        · rw [if_neg hbytes]
          exact part (Nat.lt_of_not_le hbytes)

end Collects

/-! ## Requests for records -/

/-- Reads a record: the answer, the number of bytes that were handed out, and what
is left of the stream. -/
inductive ReadsRecord : List Delivery → Except Error SealedHeader → (taken : Nat) →
    List Delivery → Prop
  | of {deliveries later : List Delivery} {bytes : Except Error Bytes} {taken : Nat}
      (hcollects : Collects deliveries Format.recordLength bytes taken later) :
      ReadsRecord deliveries (bytes.bind SealedHeader.ofBytes) taken later

/-- Reads some records one after the other, some bytes having been read before: the
answers, each with the number of bytes read so far. -/
inductive Answers : List Delivery → (consumed : Nat) →
    List (Except Error SealedHeader × Nat) → Prop
  | done {deliveries : List Delivery} {consumed : Nat} : Answers deliveries consumed []
  | request {deliveries later : List Delivery} {consumed taken : Nat}
      {result : Except Error SealedHeader} {answers : List (Except Error SealedHeader × Nat)}
      (hread : ReadsRecord deliveries result taken later)
      (hlater : Answers later (consumed + taken) answers) :
      Answers deliveries consumed ((result, consumed + taken) :: answers)

namespace ReadsRecord

variable {deliveries later : List Delivery} {result : Except Error SealedHeader} {taken : Nat}

theorem of_le (hread : ReadsRecord deliveries result taken later)
    (hcount : Format.recordLength ≤ (Delivery.runs deliveries).ahead.length) :
    ∃ r : SealedHeader, result = .ok r ∧
      r.toOctets.toList = (Delivery.runs deliveries).ahead.take Format.recordLength ∧
      taken = Format.recordLength ∧
      Delivery.runs later = (Delivery.runs deliveries).drop Format.recordLength := by
  obtain ⟨hcollects⟩ := hread
  have hanswer := hcollects.eq_collect
  rw [Runs.collect_of_le hcount, Prod.mk.injEq, Prod.mk.injEq] at hanswer
  obtain ⟨rfl, rfl, hlater⟩ := hanswer
  have hwidth : ((Delivery.runs deliveries).ahead.take Format.recordLength).length =
      Format.recordLength := List.length_take_of_le hcount
  obtain ⟨r, hrecord⟩ := SealedHeader.exists_ofBytes_iff.2 hwidth
  exact ⟨r, hrecord, (SealedHeader.ofBytes_eq_ok_iff.1 hrecord).symm, rfl, hlater.symm⟩

theorem of_lt (hread : ReadsRecord deliveries result taken later)
    (hcount : (Delivery.runs deliveries).ahead.length < Format.recordLength) :
    result = .error (Delivery.runs deliveries).error ∧
      taken = (Delivery.runs deliveries).ahead.length ∧
      Delivery.runs later = (Delivery.runs deliveries).next := by
  obtain ⟨hcollects⟩ := hread
  have hanswer := hcollects.eq_collect
  rw [Runs.collect_of_lt hcount, Prod.mk.injEq, Prod.mk.injEq] at hanswer
  obtain ⟨rfl, rfl, hlater⟩ := hanswer
  exact ⟨rfl, rfl, hlater.symm⟩

theorem exists_ok_iff (hread : ReadsRecord deliveries result taken later) :
    (∃ r, result = .ok r) ↔
      Format.recordLength ≤ (Delivery.runs deliveries).ahead.length := by
  constructor
  · intro ⟨r, hresult⟩
    subst hresult
    rcases Nat.lt_or_ge (Delivery.runs deliveries).ahead.length Format.recordLength
      with hcount | hcount
    · obtain ⟨hresult, -⟩ := hread.of_lt hcount
      cases hresult
    · exact hcount
  · intro hcount
    obtain ⟨r, hresult, -⟩ := hread.of_le hcount
    exact ⟨r, hresult⟩

/-- A stream that is at its end stays there. -/
theorem runs_of_streamEnded (hread : ReadsRecord deliveries (.error .streamEnded) taken later) :
    Delivery.runs later = .last [] := by
  rcases Nat.lt_or_ge (Delivery.runs deliveries).ahead.length Format.recordLength
    with hcount | hcount
  · obtain ⟨hended, -, hlater⟩ := hread.of_lt hcount
    rw [hlater]
    cases hruns : Delivery.runs deliveries with
    | last bytes => rfl
    | failing bytes report next =>
      rw [hruns] at hended
      cases hended
  · obtain ⟨r, hresult, -⟩ := hread.of_le hcount
    cases hresult

end ReadsRecord

namespace Answers

variable {deliveries : List Delivery} {consumed : Nat}
  {answers : List (Except Error SealedHeader × Nat)}

/-- The answers are those of the runs. -/
theorem eq_answers (hanswers : Answers deliveries consumed answers) :
    answers = (Delivery.runs deliveries).answers answers.length consumed := by
  induction hanswers with
  | done => rfl
  | request hread _ ih =>
    obtain ⟨hcollects⟩ := hread
    rw [List.length_cons, Runs.answers, hcollects.eq_collect]
    exact congrArg _ ih

theorem of_ended (hanswers : Answers deliveries consumed answers)
    (hended : Delivery.runs deliveries = .last []) :
    answers = List.replicate answers.length (.error .streamEnded, consumed) := by
  rw [← Runs.answers_last_nil, ← hended]
  exact hanswers.eq_answers

end Answers

theorem readsRecord_readRecord (s : Source) :
    ReadsRecord s.deliveries s.readRecord.1
      (Delivery.collect s.deliveries Format.recordLength).taken s.readRecord.2.deliveries :=
  .of (.collect _ _)

/-- The stream's own reader, asked for some records. -/
theorem answers_readRecords (count : Nat) (s : Source) :
    Answers s.deliveries s.consumed
      ((s.readRecords count).map fun answer => (answer.1, answer.2.consumed)) := by
  induction count generalizing s with
  | zero => exact .done
  | succ count ih => exact .request (readsRecord_readRecord s) (ih s.readRecord.2)

theorem Source.length_readRecords (count : Nat) (s : Source) :
    (s.readRecords count).length = count := by
  induction count generalizing s with
  | zero => rfl
  | succ count ih => exact congrArg Nat.succ (ih s.readRecord.2)

theorem Source.map_readRecords (count : Nat) (s : Source) :
    ((s.readRecords count).map fun answer => (answer.1, answer.2.consumed)) =
      (Delivery.runs s.deliveries).answers count s.consumed := by
  have hanswers := (answers_readRecords count s).eq_answers
  rwa [List.length_map, length_readRecords] at hanswers

/-- The answers to any number of requests for a record depend on the runs of the
stream alone: a request is met if the bytes ahead make a record, and otherwise
loses them and says what ended them. -/
theorem answers_depend_on_runs :
    (∀ (one other : List Delivery) (consumed : Nat)
      (answers others : List (Except Error SealedHeader × Nat)),
      Delivery.runs one = Delivery.runs other →
      Answers one consumed answers → Answers other consumed others →
      answers.length = others.length → answers = others) ∧
    (∀ (deliveries later : List Delivery) (result : Except Error SealedHeader) (taken : Nat),
      ReadsRecord deliveries result taken later →
      ((∃ r, result = .ok r) ↔
        Format.recordLength ≤ (Delivery.runs deliveries).ahead.length) ∧
      (∀ r, result = .ok r →
        r.toOctets.toList = (Delivery.runs deliveries).ahead.take Format.recordLength ∧
        taken = Format.recordLength ∧
        Delivery.runs later = (Delivery.runs deliveries).drop Format.recordLength) ∧
      (∀ error, result = .error error →
        error = (Delivery.runs deliveries).error ∧ error.kind = .stream ∧
        error.message = "I/O error: " ++ (Delivery.runs deliveries).report ∧
        taken = (Delivery.runs deliveries).ahead.length ∧ taken < Format.recordLength ∧
        Delivery.runs later = (Delivery.runs deliveries).next)) ∧
    (∀ (deliveries later : List Delivery) (consumed taken : Nat)
      (answers : List (Except Error SealedHeader × Nat)),
      ReadsRecord deliveries (.error .streamEnded) taken later →
      Answers later consumed answers →
      ∀ answer ∈ answers, answer = (.error .streamEnded, consumed)) ∧
    (∀ s : Source, ∃ taken,
      ReadsRecord s.deliveries s.readRecord.1 taken s.readRecord.2.deliveries ∧
      s.readRecord.2.consumed = s.consumed + taken) ∧
    (∀ (count : Nat) (s : Source), (s.readRecords count).length = count ∧
      Answers s.deliveries s.consumed
        ((s.readRecords count).map fun answer => (answer.1, answer.2.consumed))) := by
  refine ⟨?_, ?_, ?_, fun s => ⟨_, readsRecord_readRecord s, rfl⟩,
    fun count s => ⟨s.length_readRecords count, answers_readRecords count s⟩⟩
  · intro one other consumed answers others hruns hanswers hothers hlength
    rw [hanswers.eq_answers, hothers.eq_answers, hruns, hlength]
  · intro deliveries later result taken hread
    refine ⟨hread.exists_ok_iff, ?_, ?_⟩
    · intro r hresult
      obtain ⟨other, hother, hmet⟩ := hread.of_le (hread.exists_ok_iff.1 ⟨r, hresult⟩)
      rw [hresult] at hother
      cases hother
      exact hmet
    · intro error hresult
      have hshort : (Delivery.runs deliveries).ahead.length < Format.recordLength := by
        refine Nat.lt_of_not_le fun hcount => ?_
        obtain ⟨r, hother⟩ := hread.exists_ok_iff.2 hcount
        rw [hresult] at hother
        cases hother
      obtain ⟨hother, rfl, hlater⟩ := hread.of_lt hshort
      rw [hresult] at hother
      cases hother
      exact ⟨rfl, Runs.kind_error _, Runs.message_error _, rfl, hshort, hlater⟩
  · intro deliveries later consumed taken answers hread hanswers answer hanswer
    rw [hanswers.of_ended hread.runs_of_streamEnded] at hanswer
    exact List.eq_of_mem_replicate hanswer

/-- A record and two bytes more, delivered at once and with an interruption in the record. -/
theorem answers_depend_on_runs_interrupted :
    let whole := Source.ofDeliveries [.data (List.replicate 41 1 ++ [2, 2])]
    let parts := Source.ofDeliveries
      [.data (List.replicate 20 1), .interrupted, .data (List.replicate 21 1), .data [2, 2]]
    Delivery.runs whole.deliveries = Delivery.runs parts.deliveries ∧
    ((whole.readRecords 3).map fun answer => (answer.1, answer.2.consumed)) =
      ((parts.readRecords 3).map fun answer => (answer.1, answer.2.consumed)) ∧
    (∃ r, parts.readRecord.1 = .ok r ∧ r.toOctets.toList = List.replicate 41 1) ∧
    parts.readRecord.2.readRecord.1 = .error .streamEnded ∧
    ∀ answer ∈ (parts.readRecord.2.readRecord.2.readRecords 2).map fun answer =>
      (answer.1, answer.2.consumed), answer = (.error .streamEnded, 43) := by
  intro whole parts
  obtain ⟨hsame, hread, hended, hown, hall⟩ := answers_depend_on_runs
  have hruns : Delivery.runs whole.deliveries = Delivery.runs parts.deliveries := rfl
  obtain ⟨hlength, hanswers⟩ := hall 3 whole
  obtain ⟨hotherLength, hothers⟩ := hall 3 parts
  refine ⟨hruns, ?_, ?_, rfl, ?_⟩
  · apply hsame _ _ _ _ _ hruns hanswers hothers
    rw [List.length_map, List.length_map, hlength, hotherLength]
  · obtain ⟨taken, hfirst, -⟩ := hown parts
    obtain ⟨hmet, hrecord, -⟩ := hread _ _ _ _ hfirst
    obtain ⟨r, hr⟩ := hmet.2 (by decide)
    exact ⟨r, hr, (hrecord r hr).1⟩
  · obtain ⟨taken, hsecond, -⟩ := hown parts.readRecord.2
    obtain ⟨-, hlater⟩ := hall 2 parts.readRecord.2.readRecord.2
    exact hended _ _ _ _ _ hsecond hlater

end SealedArchive
