import BufferedReading.Proofs.Contact
import BufferedReading.Proofs.Search
import BufferedReading.Source.Script

/-!
# The stream behind a script

What a script has to say, however it is cut into steps, is a stream of events: its bytes one by one,
and marks where it ends or fails (`Script.events`). Behind the last event the stream is at its end
for ever. `StreamEvent.next`, `StreamEvent.exact` and `StreamEvent.line` are the reads of a byte, of
a number of bytes and of a line as they would be without a buffer: they see the events and the limit
on lines, and nothing else.

`Script.read_cases` says what one answer of a script takes from its stream.
-/

namespace BufferedReading

/-- What comes next in a stream. -/
inductive StreamEvent where
  /-- A byte. -/
  | byte (byte : UInt8)
  /-- The end of the stream, which may go on behind it. -/
  | ended
  /-- A failure. -/
  | failed (cause : Failure)
  deriving DecidableEq, Repr

/-- A read of bytes from the front of a stream. -/
structure Reading (α : Type) where
  /-- The result. -/
  result : α
  /-- The bytes taken. -/
  taken : List UInt8
  /-- The stream behind them. -/
  rest : List StreamEvent

namespace Reading

variable {α : Type}

/-- The reading with bytes taken in front of it. -/
def behind (bytes : List UInt8) (reading : Reading α) : Reading α :=
  { reading with taken := bytes ++ reading.taken }

@[simp] theorem behind_nil (reading : Reading α) : reading.behind [] = reading := rfl

@[simp] theorem behind_behind (bytes bytes' : List UInt8) (reading : Reading α) :
    (reading.behind bytes').behind bytes = reading.behind (bytes ++ bytes') := by
  simp [behind]

end Reading

namespace StreamEvent

/-- Takes a byte, or the mark in front of it. -/
def next : List StreamEvent → Except ReadError (Option UInt8) × List StreamEvent
  | [] => (.ok none, [])
  | .byte b :: events => (.ok (some b), events)
  | .ended :: events => (.ok none, events)
  | .failed cause :: events => (.error (.source cause), events)

/-- Takes so many bytes, or those in front of the first mark and the mark. -/
def exact : Nat → List StreamEvent → Reading (Except ReadError Unit)
  | 0, events => ⟨.ok (), [], events⟩
  | _ + 1, [] => ⟨.error (.source .bufferNotFilled), [], []⟩
  | count + 1, .byte b :: events => (exact count events).behind [b]
  | _ + 1, .ended :: events => ⟨.error (.source .bufferNotFilled), [], events⟩
  | _ + 1, .failed cause :: events => ⟨.error (.source cause), [], events⟩

/-- Takes the bytes up to the delimiter, unless the limit is reached before it, counting from
`count` on, or a mark stands before it; the mark is taken too. -/
def line (delim : UInt8) (limit : Option Nat) (count : Nat) :
    List StreamEvent → Reading (Except ReadError Bool)
  | [] =>
    match limit.filter (· ≤ count) with
    | some limit => ⟨.error (.lineTooLong limit), [], []⟩
    | none => ⟨.ok false, [], []⟩
  | event :: events =>
    match limit.filter (· ≤ count) with
    | some limit => ⟨.error (.lineTooLong limit), [], event :: events⟩
    | none =>
      match event with
      | .byte b =>
        if b = delim then ⟨.ok true, [b], events⟩
        else (line delim limit (count + 1) events).behind [b]
      | .ended => ⟨.ok false, [], events⟩
      | .failed cause => ⟨.error (.source cause), [], events⟩

/-- The stream is at its end, and `rest` is what is behind the mark of it. -/
def Ends (events rest : List StreamEvent) : Prop :=
  events = [] ∧ rest = [] ∨ events = .ended :: rest

theorem Ends.next_eq {events rest : List StreamEvent} (h : Ends events rest) :
    next events = (.ok none, rest) := by
  rcases h with ⟨rfl, rfl⟩ | rfl <;> rfl

theorem Ends.exact_eq {events rest : List StreamEvent} (h : Ends events rest) (count : Nat) :
    exact (count + 1) events = ⟨.error (.source .bufferNotFilled), [], rest⟩ := by
  rcases h with ⟨rfl, rfl⟩ | rfl <;> rfl

/-- Bytes that are not too many are taken first. -/
theorem exact_append {bytes : List UInt8} {count : Nat} (h : bytes.length ≤ count)
    (events : List StreamEvent) :
    exact count (bytes.map .byte ++ events) =
      (exact (count - bytes.length) events).behind bytes := by
  induction bytes generalizing count with
  | nil => rfl
  | cons b bytes ih =>
    obtain ⟨m, rfl⟩ : ∃ m, count = m + 1 := ⟨count - 1, by simp at h; omega⟩
    have hle : bytes.length ≤ m := by simpa using h
    rw [List.map_cons, List.cons_append, exact, ih hle, Reading.behind_behind, List.length_cons,
      Nat.add_sub_add_right, List.singleton_append]

/-- A search is over its limit as a line is. -/
theorem filter_limit_eq (scan : Scan) :
    scan.limit.filter (· ≤ scan.taken) =
      match scan.unmet with
      | .overlong limit => some limit
      | _ => none := by
  unfold Scan.unmet
  cases scan.limit with
  | none => rfl
  | some limit =>
    by_cases h : limit ≤ scan.taken
    · simp [h]
    · simp [h, Nat.lt_of_not_le h]

/-- A line over its limit takes nothing. -/
theorem line_of_overlong {scan : Scan} {limit : Nat} (h : scan.unmet = .overlong limit)
    (events : List StreamEvent) :
    line scan.delim scan.limit scan.taken events = ⟨.error (.lineTooLong limit), [], events⟩ := by
  have hfilter := filter_limit_eq scan
  rw [h] at hfilter
  cases events <;> simp only [line, hfilter]

/-- A line that meets the end of the stream within its limit is not complete. -/
theorem Ends.line_eq {events rest : List StreamEvent} (h : Ends events rest) {scan : Scan}
    (hu : scan.unmet = .starved) :
    line scan.delim scan.limit scan.taken events = ⟨.ok false, [], rest⟩ := by
  have hfilter := filter_limit_eq scan
  rw [hu] at hfilter
  rcases h with ⟨rfl, rfl⟩ | rfl <;> simp only [line, hfilter]

/-- A line that meets a failure within its limit fails. -/
theorem line_of_failed {scan : Scan} (hu : scan.unmet = .starved) (cause : Failure)
    (rest : List StreamEvent) :
    line scan.delim scan.limit scan.taken (.failed cause :: rest) =
      ⟨.error (.source cause), [], rest⟩ := by
  have hfilter := filter_limit_eq scan
  rw [hu] at hfilter
  simp only [line, hfilter]

/-- A line takes from the bytes in front what a search takes from them, and goes on behind them only
if the search is starved. -/
theorem line_append (scan : Scan) (bytes : List UInt8) (events : List StreamEvent) :
    line scan.delim scan.limit scan.taken (bytes.map .byte ++ events) =
      match (scan.walk bytes).verdict with
      | .found => ⟨.ok true, (scan.walk bytes).taken, (scan.walk bytes).rest.map .byte ++ events⟩
      | .overlong limit =>
        ⟨.error (.lineTooLong limit), (scan.walk bytes).taken,
          (scan.walk bytes).rest.map .byte ++ events⟩
      | .starved =>
        let next := scan.add (scan.walk bytes).taken.length
        (line next.delim next.limit next.taken events).behind (scan.walk bytes).taken := by
  induction bytes generalizing scan with
  | nil =>
    cases hu : scan.unmet with
    | found => exact absurd hu scan.unmet_ne_found
    | starved => simp [Scan.walk, hu]
    | overlong limit =>
      rw [List.map_nil, List.nil_append, line_of_overlong hu]
      simp [Scan.walk, hu]
  | cons b bytes ih =>
    cases hu : scan.unmet with
    | found => exact absurd hu scan.unmet_ne_found
    | overlong limit =>
      rw [line_of_overlong hu]
      simp [Scan.walk, hu]
    | starved =>
      have hfilter := filter_limit_eq scan
      have hnext := ih (scan.add 1)
      rw [hu] at hfilter
      rw [List.map_cons, List.cons_append, line, hfilter, Scan.walk, hu]
      by_cases hb : b = scan.delim
      · simp [hb]
      · simp only [if_neg hb]
        rw [Scan.delim_add, Scan.limit_add] at hnext
        change (line scan.delim scan.limit (scan.add 1).taken _).behind [b] = _
        rw [hnext]
        cases hv : ((scan.add 1).walk bytes).verdict with
        | found => simp [Scan.Walk.cons, hv, Reading.behind]
        | overlong limit => simp [Scan.Walk.cons, hv, Reading.behind]
        | starved => simp [Scan.Walk.cons, hv, Nat.add_comm 1]

end StreamEvent

/-! ### The events of a script -/

/-- The events of a step. A false count is none, and a delay is of no account to one who waits. -/
def Step.events : Step → List StreamEvent
  | .data bytes => if bytes.size = 0 then [.ended] else bytes.toList.map .byte
  | .ended => [.ended]
  | .fail cause => [.failed cause]
  | .overcount _ => []
  | .delay _ => []

/-- Whether a step counts the bytes that it writes. -/
def Step.isFaithful : Step → Bool
  | .overcount _ => false
  | _ => true

namespace Script

/-- The events of a script, step by step. -/
def events (script : Script) : List StreamEvent := script.flatMap Step.events

/-- No step of a faithful script makes a false count. -/
def Faithful (script : Script) : Prop := ∀ step ∈ script, step.isFaithful = true

instance (script : Script) : Decidable script.Faithful :=
  inferInstanceAs (Decidable (∀ step ∈ script, step.isFaithful = true))

/-- A faithful script answers a request for at least one byte with bytes from the front of its
stream, or with the mark there. -/
theorem read_cases {script rest : Script} {answer : Answer} {n : Nat} (h : script.Faithful)
    (hn : 0 < n) (hread : script.read n = (answer, rest)) :
    rest.Faithful ∧
      ((∃ bytes : Bytes, bytes.size ≠ 0 ∧ bytes.size ≤ n ∧ answer = .honest bytes ∧
          script.events = bytes.toList.map .byte ++ rest.events) ∨
        (answer = .honest #[] ∧ StreamEvent.Ends script.events rest.events) ∨
        ∃ cause, answer = .failed cause ∧ script.events = .failed cause :: rest.events) := by
  induction script with
  | nil =>
    obtain ⟨rfl, rfl⟩ := Prod.mk.inj hread
    exact ⟨h, .inr (.inl ⟨rfl, .inl ⟨rfl, rfl⟩⟩)⟩
  | cons step script ih =>
    have hfaithful : Faithful script := fun step hstep => h step (List.mem_cons_of_mem _ hstep)
    cases step with
    | data bytes =>
      by_cases hle : bytes.size ≤ n
      · rw [read, if_pos hle] at hread
        obtain ⟨rfl, rfl⟩ := Prod.mk.inj hread
        refine ⟨hfaithful, ?_⟩
        by_cases hz : bytes.size = 0
        · have hnil : bytes = #[] := Array.eq_empty_of_size_eq_zero hz
          subst hnil
          exact .inr (.inl ⟨rfl, .inr rfl⟩)
        · exact .inl ⟨bytes, hz, hle, rfl, by simp [events, Step.events, hz]⟩
      · have hsize : (bytes.extract 0 n).size = n := by simp; omega
        have hz : bytes.size ≠ 0 := by omega
        have hz' : (bytes.extract n bytes.size).size ≠ 0 := by simp; omega
        have hback : (bytes.toList.drop n).take (bytes.size - n) = bytes.toList.drop n :=
          List.take_of_length_le (by simp)
        rw [read, if_neg hle] at hread
        obtain ⟨rfl, rfl⟩ := Prod.mk.inj hread
        refine ⟨?_, .inl ⟨bytes.extract 0 n, by omega, by omega, rfl, ?_⟩⟩
        · intro step hstep
          rcases List.mem_cons.1 hstep with rfl | hstep
          · rfl
          · exact hfaithful step hstep
        · simp only [events, List.flatMap_cons, Step.events, if_neg hz, if_neg hz']
          rw [← List.append_assoc, ← List.map_append]
          congr 2
          simp [hback]
    | ended =>
      obtain ⟨rfl, rfl⟩ := Prod.mk.inj hread
      exact ⟨hfaithful, .inr (.inl ⟨rfl, .inr rfl⟩)⟩
    | fail cause =>
      obtain ⟨rfl, rfl⟩ := Prod.mk.inj hread
      exact ⟨hfaithful, .inr (.inr ⟨cause, rfl, rfl⟩)⟩
    | overcount surplus => simpa [Step.isFaithful] using h _ List.mem_cons_self
    | delay times => exact ih hfaithful hread

end Script

end BufferedReading
