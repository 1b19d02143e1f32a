import BufferedReading.Reader.Polled
import BufferedReading.Reader.Blocking
import BufferedReading.Source.Recorded

/-!
# What passes between a reader and its source

A reader turns to its source in two ways: to refill its window, or to fill a buffer of the caller
past the window. A `Contact` is one request made in either way, with its answer, and
`Answer.outcome` is what the answer means to the one who asked. The equations of this module say
once what a refill of an empty window (`Reader.exists_refill_eq`, `Reader.exists_pollRefill_eq`) and
a bypassing read (`Reader.bypass_eq`, `Reader.pollBypass_eq`) do with an answer, whatever it is.

A reader over a `Recorded` source keeps a history of its contacts, and its journal has the records
it took of each: `Reader.Passage` relates two states of a reader by the contacts between them.
-/

namespace BufferedReading

/-! ### What an answer means -/

/-- Bytes that fit are written over the start of a buffer. -/
theorem Bytes.toList_overwrite_zero {buffer bytes : Bytes} (h : bytes.size ≤ buffer.size) :
    (buffer.overwrite 0 bytes).toList = bytes.toList ++ buffer.toList.drop bytes.size := by
  rw [toList_overwrite, List.take_zero, List.nil_append, Nat.sub_zero, Nat.zero_add,
    List.take_of_length_le (by rwa [Array.length_toList])]

/-- What an answer means to the one who asked. -/
inductive Outcome where
  /-- So many bytes, at least one and no more than were asked for. -/
  | bytes (count : Nat)
  /-- The end of the stream. -/
  | ended
  /-- A failure of the source, or a count beyond what was asked for. -/
  | failed (cause : Failure)
  deriving DecidableEq, Repr

namespace Outcome

/-- The number of bytes brought. -/
def count : Outcome → Nat
  | bytes count => count
  | _ => 0

/-- The outcome of a refill. -/
def fill : Outcome → Except ReadError Fill
  | bytes count => .ok (.added count)
  | ended => .ok .ended
  | failed cause => .error (.source cause)

end Outcome

namespace Answer

/-- What an answer means to the one who asked for at most `asked` bytes. -/
def outcome (asked : Nat) : Answer → Outcome
  | supplied _ count =>
    if count = 0 then .ended
    else if count ≤ asked then .bytes count else .failed (.overcount count asked)
  | failed cause => .failed cause

/-- The bytes that an answer brings to the one who asked for at most `asked` bytes. -/
def brought (asked : Nat) : Answer → List UInt8
  | supplied written count => if count ≤ asked then written.toList.take count else []
  | failed _ => []

/-- An answer is covered if it counts no byte that was not written, unless its count is beyond what
was asked for and thereby seen to be false. -/
def Covered (asked : Nat) : Answer → Prop
  | supplied written count => count ≤ asked → count ≤ written.size
  | failed _ => True

/-- An answer is within bounds if it counts no more bytes than were asked for. -/
def WithinBounds (asked : Nat) : Answer → Prop
  | supplied _ count => count ≤ asked
  | failed _ => True

instance (asked : Nat) (answer : Answer) : Decidable (answer.Covered asked) := by
  cases answer
  · exact inferInstanceAs (Decidable (_ → _))
  · exact inferInstanceAs (Decidable True)

instance (asked : Nat) (answer : Answer) : Decidable (answer.WithinBounds asked) := by
  cases answer
  · exact inferInstanceAs (Decidable (_ ≤ _))
  · exact inferInstanceAs (Decidable True)

/-- The count of an answer, whatever was asked for. -/
def count : Answer → Except ReadError Nat
  | supplied _ count => .ok count
  | failed cause => .error (.source cause)

/-- A buffer with the bytes that an answer writes to its start. -/
def onto (buffer : Bytes) : Answer → Bytes
  | supplied written _ => buffer.overwrite 0 written
  | failed _ => buffer

/-- An outcome with bytes has at least one, and no more than were asked for. -/
theorem bounds_of_outcome {asked count : Nat} {answer : Answer}
    (h : answer.outcome asked = .bytes count) : 0 < count ∧ count ≤ asked := by
  cases answer with
  | failed cause => simp [outcome] at h
  | supplied written n =>
    simp only [outcome] at h
    split at h
    · simp at h
    · split at h
      · rw [Outcome.bytes.injEq] at h
        omega
      · simp at h

/-- An outcome with bytes has as many as the answer counts. -/
theorem count_of_outcome {asked k : Nat} {answer : Answer}
    (h : answer.outcome asked = .bytes k) : answer.count = .ok k := by
  cases answer with
  | failed cause => simp [outcome] at h
  | supplied written n =>
    simp only [outcome] at h
    split at h
    · simp at h
    · split at h
      · rw [Outcome.bytes.injEq] at h
        rw [count, h]
      · simp at h

/-- An answer within bounds counts no byte exactly at the end of the stream. -/
theorem count_eq_ok_zero_iff {asked : Nat} {answer : Answer} (h : answer.WithinBounds asked) :
    answer.count = .ok 0 ↔ answer.outcome asked = .ended := by
  cases answer with
  | failed cause => simp [outcome, count]
  | supplied written n =>
    have hle : n ≤ asked := h
    by_cases hz : n = 0 <;> simp [outcome, count, hz, hle]

/-- An answer within bounds fails exactly if its source does. -/
theorem count_eq_error_iff {asked : Nat} {answer : Answer} {cause : Failure}
    (h : answer.WithinBounds asked) :
    answer.count = .error (.source cause) ↔ answer.outcome asked = .failed cause := by
  cases answer with
  | failed cause => simp [outcome, count]
  | supplied written n =>
    have hle : n ≤ asked := h
    by_cases hz : n = 0 <;> simp [outcome, count, hz, hle]

end Answer

/-- The bytes that an exchange brought. -/
def Exchange.brought (e : Exchange) : List UInt8 :=
  match e.answer with
  | .pending => []
  | .ready answer => answer.brought e.asked

/-! ### Contacts -/

/-- How a reader turns to its source. -/
inductive Route where
  /-- To fill the free space of its window. -/
  | refill
  /-- To fill a buffer of the caller, past the window. -/
  | bypass
  deriving DecidableEq, Repr

/-- A request of a reader to its source, and the answer. -/
structure Contact where
  /-- How the reader turned to the source. -/
  route : Route
  /-- The number of bytes asked for. -/
  asked : Nat
  /-- The answer. -/
  answer : Poll Answer
  deriving DecidableEq, Repr

namespace Contact

/-- The contact as the source sees it. -/
def exchange (c : Contact) : Exchange := ⟨c.asked, c.answer⟩

/-- The records that a reader takes of a contact. -/
def records : Contact → List Record
  | ⟨.refill, _, .pending⟩ => []
  | ⟨.refill, asked, .ready (.supplied written count)⟩ =>
    .refill asked count ::
      match (Answer.supplied written count).outcome asked with
      | .bytes _ => []
      | .ended => [.endOfStream]
      | .failed cause => [.sourceFailed cause]
  | ⟨.refill, _, .ready (.failed cause)⟩ => [.sourceFailed cause]
  | ⟨.bypass, asked, .ready (.failed cause)⟩ => [.bypass asked, .sourceFailed cause]
  | ⟨.bypass, asked, _⟩ => [.bypass asked]

/-- What a contact came to, if the source answered. -/
def outcome? (c : Contact) : Option Outcome :=
  match c.answer with
  | .pending => none
  | .ready answer => some (answer.outcome c.asked)

/-- The bytes that a contact brought. -/
def brought (c : Contact) : List UInt8 := c.exchange.brought

end Contact

/-! ### Taking in an answer -/

namespace Window

/-- What an empty window makes of a supply: the outcome is that of the answer, and the bytes brought
are the unread ones. -/
theorem exists_commit_stage_eq {w : Window} (h : w.toList = []) (hfree : w.free = w.capacity)
    (written : Bytes) (count : Nat) :
    ∃ w' : Window,
      (w.stage written).commit count =
        (match (Answer.supplied written count).outcome w.capacity with
          | .bytes count => .ok (.added count)
          | .ended => .ok .ended
          | .failed cause => .error cause, w') ∧
      w'.capacity = w.capacity ∧ w'.readPos = w.readPos ∧
      w'.buffered = ((Answer.supplied written count).outcome w.capacity).count ∧
      ((Answer.supplied written count).Covered w.capacity →
        w'.toList = (Answer.supplied written count).brought w.capacity) := by
  have hb : w.buffered = 0 := by rw [← length_toList, h, List.length_nil]
  simp only [commit, Answer.outcome, Answer.Covered, Answer.brought, free_stage, hfree]
  by_cases hz : count = 0
  · exact ⟨w.stage written, by simp [hz], by simp, rfl, by simp [hz, hb, Outcome.count],
      fun _ => by simp [hz, h]⟩
  · by_cases hle : count ≤ w.capacity
    · have hroom : count ≤ (w.stage written).free := by rwa [free_stage, hfree]
      refine ⟨(w.stage written).extend count hroom, by simp [hz, hle], by simp, rfl, ?_, ?_⟩
      · simp [hz, hle, hb, Outcome.count]
      · intro hcov
        rw [if_pos hle, toList_extend_stage w written count hroom (hcov hle), h, List.nil_append]
    · exact ⟨w.stage written, by simp [hz, hle], by simp, rfl,
        by simp [hz, hle, hb, Outcome.count], fun _ => by simp [hle, h]⟩

end Window

namespace Reader

variable {σ : Type}

/-- The reader with the source behind a contact and the records taken of it. -/
def meet (r : Reader σ) (c : Contact) (source : σ) : Reader σ :=
  { r with source, journal := r.journal ++ c.records }

@[simp] theorem window_meet (r : Reader σ) (c : Contact) (source : σ) :
    (r.meet c source).window = r.window := rfl

@[simp] theorem source_meet (r : Reader σ) (c : Contact) (source : σ) :
    (r.meet c source).source = source := rfl

@[simp] theorem journal_meet (r : Reader σ) (c : Contact) (source : σ) :
    (r.meet c source).journal = r.journal ++ c.records := rfl

/-- The reader with another window. -/
def withWindow (r : Reader σ) (window : Window) : Reader σ := { r with window }

@[simp] theorem window_withWindow (r : Reader σ) (w : Window) : (r.withWindow w).window = w := rfl

/-- What a window holds that has taken in an answer, having been empty. -/
structure Filled (capacity : Nat) (answer : Answer) (w : Window) : Prop where
  capacity_eq : w.capacity = capacity
  readPos_eq : w.readPos = 0
  buffered_eq : w.buffered = (answer.outcome capacity).count
  toList_eq : answer.Covered capacity → w.toList = answer.brought capacity

theorem Filled.eq_nil {capacity : Nat} {answer : Answer} {w : Window}
    (h : Filled capacity answer w) (ho : (answer.outcome capacity).count = 0) : w.toList = [] := by
  rw [← List.length_eq_zero_iff, Window.length_toList, h.buffered_eq, ho]

theorem Filled.ne_nil {capacity count : Nat} {answer : Answer} {w : Window}
    (h : Filled capacity answer w) (ho : answer.outcome capacity = .bytes count) :
    w.toList ≠ [] := by
  rw [ne_eq, ← List.length_eq_zero_iff, Window.length_toList, h.buffered_eq, ho]
  exact Nat.ne_of_gt (Answer.bounds_of_outcome ho).1

/-- A refill of an empty window asks for as many bytes as the window can hold, and its outcome is
that of the answer. -/
theorem exists_refill_eq [ByteSource σ] {r : Reader σ} (h : r.window.toList = []) {answer : Answer}
    {source : σ} (ha : ByteSource.read r.source r.capacity = (answer, source)) :
    ∃ w : Window, Filled r.capacity answer w ∧
      r.refill = ((answer.outcome r.capacity).fill,
        (r.meet ⟨.refill, r.capacity, .ready answer⟩ source).withWindow w) := by
  have hempty : r.window.compact.toList = [] := by rw [Window.toList_compact, h]
  have hb : r.window.buffered = 0 := by rw [← Window.length_toList, h, List.length_nil]
  have hfree : r.window.compact.free = r.capacity := by simp [capacity, hb]
  have hpos : r.capacity ≠ 0 := Nat.ne_of_gt r.window.capacity_pos
  unfold refill Window.fillFrom
  simp only [hfree, if_neg hpos, ha]
  cases answer with
  | failed cause =>
    refine ⟨r.window.compact, ⟨by simp [capacity], by simp,
      by simp [hb, Answer.outcome, Outcome.count], fun _ => hempty⟩, ?_⟩
    simp [Window.receive, settle, note, meet, withWindow, Contact.records, Answer.outcome,
      Outcome.fill]
  | supplied written count =>
    obtain ⟨w, hcommit, hcap, hpos', hbuf, hlist⟩ :=
      Window.exists_commit_stage_eq hempty (by simp [hfree, capacity]) written count
    rw [Window.capacity_compact] at hcommit hcap hbuf hlist
    refine ⟨w, ⟨hcap, hpos'.trans (Window.readPos_compact _), hbuf, hlist⟩, ?_⟩
    simp only [Window.receive, hcommit, hfree, settle, note, meet, withWindow, Contact.records,
      capacity]
    cases (Answer.supplied written count).outcome r.window.capacity <;> simp [Outcome.fill]

/-- An attempt at a refill of an empty window asks for as many bytes as the window can hold. It is
pending if the answer is, and then the window is still empty. In any case it is compact. -/
theorem exists_pollRefill_eq [PolledSource σ] {r : Reader σ} (h : r.window.toList = [])
    {answer : Poll Answer} {source : σ}
    (ha : PolledSource.poll r.source r.capacity = (answer, source)) :
    ∃ w : Window,
      (match answer with
        | .pending => w.toList = [] ∧ w.capacity = r.capacity ∧ w.readPos = 0
        | .ready answer => Filled r.capacity answer w) ∧
      r.pollRefill = (answer.map fun answer => (answer.outcome r.capacity).fill,
        (r.meet ⟨.refill, r.capacity, answer⟩ source).withWindow w) := by
  have hempty : r.window.compact.toList = [] := by rw [Window.toList_compact, h]
  have hb : r.window.buffered = 0 := by rw [← Window.length_toList, h, List.length_nil]
  have hfree : r.window.compact.free = r.capacity := by simp [capacity, hb]
  have hpos : r.capacity ≠ 0 := Nat.ne_of_gt r.window.capacity_pos
  unfold pollRefill
  simp only [hfree, if_neg hpos, ha]
  cases answer with
  | pending =>
    refine ⟨r.window.compact, ⟨hempty, by simp [capacity], by simp⟩, ?_⟩
    simp [Poll.map, meet, withWindow, Contact.records]
  | ready answer =>
    cases answer with
    | failed cause =>
      refine ⟨r.window.compact, ⟨by simp [capacity], by simp,
        by simp [hb, Answer.outcome, Outcome.count], fun _ => hempty⟩, ?_⟩
      simp [Poll.map, note, meet, withWindow, Contact.records, Answer.outcome, Outcome.fill]
    | supplied written count =>
      obtain ⟨w, hcommit, hcap, hpos', hbuf, hlist⟩ :=
        Window.exists_commit_stage_eq hempty (by simp [hfree, capacity]) written count
      rw [Window.capacity_compact] at hcommit hcap hbuf hlist
      refine ⟨w, ⟨hcap, hpos'.trans (Window.readPos_compact _), hbuf, hlist⟩, ?_⟩
      simp only [hcommit, note, meet, withWindow, Contact.records, Poll.map, capacity]
      cases (Answer.supplied written count).outcome r.window.capacity <;> simp [Outcome.fill]

/-- A bypassing read returns the count of the answer as it is, and its buffer has what the source
wrote. The window stays as it was. -/
theorem bypass_eq [ByteSource σ] {r : Reader σ} {buffer : Bytes} {answer : Answer} {source : σ}
    (ha : ByteSource.read r.source buffer.size = (answer, source)) :
    r.bypass buffer = ⟨answer.count, answer.onto buffer,
      r.meet ⟨.bypass, buffer.size, .ready answer⟩ source⟩ := by
  unfold bypass note
  simp only [ha]
  cases answer <;> simp [Answer.count, Answer.onto, meet, Contact.records]

/-- An attempt at a bypassing read is pending if the answer is, and then its buffer is as before. -/
theorem pollBypass_eq [PolledSource σ] {r : Reader σ} {buffer : Bytes} {answer : Poll Answer}
    {source : σ} (ha : PolledSource.poll r.source buffer.size = (answer, source)) :
    r.pollBypass buffer = ⟨answer.map Answer.count,
      match answer with
        | .pending => buffer
        | .ready answer => answer.onto buffer,
      r.meet ⟨.bypass, buffer.size, answer⟩ source⟩ := by
  unfold pollBypass note
  simp only [ha]
  cases answer with
  | pending => simp [Poll.map, meet, Contact.records]
  | ready answer =>
    cases answer <;> simp [Poll.map, Answer.count, Answer.onto, meet, Contact.records]

end Reader

/-! ### The contacts between two states -/

/-- A request to a source under observation. -/
theorem Recorded.read_eq {σ : Type} [ByteSource σ] {source : Recorded σ} {n : Nat} {answer : Answer}
    {rest : σ} (h : ByteSource.read source.source n = (answer, rest)) :
    ByteSource.read source n = (answer, source.note n (.ready answer) rest) := by
  change ((ByteSource.read source.source n).1, source.note n
    (.ready (ByteSource.read source.source n).1) (ByteSource.read source.source n).2) = _
  rw [h]

/-- An attempt at a source under observation. -/
theorem Recorded.poll_eq {σ : Type} [PolledSource σ] {source : Recorded σ} {n : Nat}
    {answer : Poll Answer} {rest : σ} (h : PolledSource.poll source.source n = (answer, rest)) :
    PolledSource.poll source n = (answer, source.note n answer rest) := by
  change ((PolledSource.poll source.source n).1, source.note n
    (PolledSource.poll source.source n).1 (PolledSource.poll source.source n).2) = _
  rw [h]

namespace Reader

variable {σ : Type}

/-- A reader over a source under observation comes from one state to another by the given contacts:
the source has answered these and no others in between, and the journal has their records. -/
structure Passage (r : Reader (Recorded σ)) (cs : List Contact) (r' : Reader (Recorded σ)) :
    Prop where
  history : r'.source.history.toList = r.source.history.toList ++ cs.map Contact.exchange
  journal : r'.journal.toList = r.journal.toList ++ cs.flatMap Contact.records
  config : r'.config = r.config
  capacity : r'.capacity = r.capacity

namespace Passage

variable {r r' r'' : Reader (Recorded σ)} {cs cs' : List Contact}

theorem refl (r : Reader (Recorded σ)) : r.Passage [] r := by
  constructor <;> simp

/-- What a reader does with its window alone needs no contact. -/
theorem withWindow {w : Window} (h : r.Passage cs r') (hw : w.capacity = r'.capacity) :
    r.Passage cs (r'.withWindow w) :=
  ⟨h.history, h.journal, h.config, hw.trans h.capacity⟩

theorem trans (h : r.Passage cs r') (h' : r'.Passage cs' r'') : r.Passage (cs ++ cs') r'' where
  history := by rw [h'.history, h.history, List.map_append, List.append_assoc]
  journal := by rw [h'.journal, h.journal, List.flatMap_append, List.append_assoc]
  config := h'.config.trans h.config
  capacity := h'.capacity.trans h.capacity

theorem meet (r : Reader (Recorded σ)) (c : Contact) (source : σ) :
    r.Passage [c] (r.meet c (r.source.note c.asked c.answer source)) := by
  constructor
  · simp [Recorded.note, Contact.exchange]
  · simp
  · rfl
  · rfl

end Passage

end Reader

end BufferedReading
