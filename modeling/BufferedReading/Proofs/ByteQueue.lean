import BufferedReading.Proofs.Contact
import BufferedReading.Proofs.Mirror
import BufferedReading.Proofs.Search
import BufferedReading.Session.Window

/-!
# A window is a bounded byte queue

A `ByteQueue` is a list of bytes that is never longer than its capacity: bytes are taken from its
front, and what a source brings goes to its end. A `QueueSession` carries out the operations of a
session with a bare window on such a queue. It has no arena and no cursors, and nothing to compact.

`WindowSession.queue` forgets where the cursors of a window stand and which bytes lie outside them.
`WindowSession.perform_queue` says that every operation forgets along with it, if no byte is made
readable that was not written and bytes are passed over only as far as a word reaches, and
`WindowSession.performAll_eq_queue` says so of any number of operations. So two windows of one
capacity with the same unread bytes answer alike for ever.
-/

namespace BufferedReading

/-! ### Byte queues -/

/-- A list of bytes that is never longer than its capacity. -/
structure ByteQueue where
  /-- The greatest number of bytes. -/
  capacity : Nat
  /-- The bytes, the first to be taken in front. -/
  bytes : List UInt8
  length_le : bytes.length ≤ capacity
  deriving DecidableEq, Repr

namespace ByteQueue

/-- A queue without bytes. -/
def empty (capacity : Nat) : ByteQueue := ⟨capacity, [], Nat.zero_le capacity⟩

/-- The number of bytes that still fit. -/
def room (q : ByteQueue) : Nat := q.capacity - q.bytes.length

/-- The queue without its first bytes. -/
def drop (q : ByteQueue) (count : Nat) : ByteQueue where
  capacity := q.capacity
  bytes := q.bytes.drop count
  length_le := Nat.le_trans (List.drop_sublist count q.bytes).length_le q.length_le

/-- The queue with bytes at its end that still fit. -/
def append (q : ByteQueue) (more : List UInt8) (h : more.length ≤ q.room) : ByteQueue where
  capacity := q.capacity
  bytes := q.bytes ++ more
  length_le := by
    have := q.length_le
    unfold room at h
    rw [List.length_append]
    omega

/-- What a queue makes of an answer to a request for all bytes that still fit: the bytes counted go
to its end. The end of the stream, a failure and a count of more bytes than fit leave it as it
was. -/
def receive (q : ByteQueue) : Answer → Except Failure Fill × ByteQueue
  | .supplied written count =>
    if count = 0 then (.ok .ended, q)
    else if h : count ≤ q.room then
      (.ok (.added count),
        q.append (written.toList.take count) (Nat.le_trans (List.length_take_le ..) h))
    else (.error (.overcount count q.room), q)
  | .failed cause => (.error cause, q)

/-- A queue that takes in an answer keeps its capacity. -/
theorem capacity_receive (q : ByteQueue) (answer : Answer) :
    (q.receive answer).2.capacity = q.capacity := by
  cases answer with
  | failed cause => rfl
  | supplied written count =>
    simp only [receive]
    split
    · rfl
    · split <;> rfl

end ByteQueue

/-- The note that a refill takes of an answer to a request for so many bytes. -/
def Answer.refillNotes (asked : Nat) : Answer → Journal
  | .supplied _ count => #[.refill asked count]
  | .failed _ => #[]

/-! ### Sessions with a byte queue -/

/-- A byte queue with a source, a search and an accumulator. -/
structure QueueSession (σ : Type) where
  /-- The queue. -/
  queue : ByteQueue
  /-- The source it is refilled from. -/
  source : σ
  /-- The search. -/
  scan : Scan
  /-- The accumulator of the search. -/
  out : Bytes := #[]
  /-- The records taken so far. -/
  journal : Journal := #[]

namespace QueueSession

variable {σ : Type}

/-- A session with an empty queue and a search for the end of a text line. -/
def start (capacity : Nat) (source : σ) : QueueSession σ :=
  { queue := .empty capacity, source, scan := .start newline none }

variable [ByteSource σ]

/-- Carries out an operation of a window on a queue. -/
def perform (s : QueueSession σ) : WindowOperation → WindowReply × QueueSession σ
  | .fill =>
    if s.queue.room = 0 then (.filled (.ok .full), s)
    else
      let (answer, source) := ByteSource.read s.source s.queue.room
      let (outcome, queue) := s.queue.receive answer
      (.filled outcome,
        { s with queue, source, journal := s.journal ++ answer.refillNotes s.queue.room })
  | .consume count => (.done, { s with queue := s.queue.drop count })
  | .take count =>
    (.taken (s.queue.bytes.take count).toArray, { s with queue := s.queue.drop count })
  | .pop => (.byte s.queue.bytes.head?, { s with queue := s.queue.drop 1 })
  | .find delim reach => (.index ((s.queue.bytes.take reach).idxOf? delim), s)
  | .compact => (.done, s)
  | .put bytes count =>
    if s.queue.room = 0 then (.filled (.ok .full), s)
    else
      let (outcome, queue) := s.queue.receive (.supplied bytes count)
      (.written s.queue.room outcome, { s with queue })
  | .commit count =>
    let (outcome, queue) := s.queue.receive (.supplied #[] count)
    (.filled outcome, { s with queue })
  | .search delim limit => (.done, { s with scan := .start delim limit, out := #[] })
  | .reset => (.done, { s with scan := s.scan.reset })
  | .advance =>
    let walk := s.scan.walk s.queue.bytes
    let out := s.out ++ walk.taken.toArray
    (.advanced walk.verdict out,
      { s with
        queue := s.queue.drop walk.taken.length
        scan := s.scan.add walk.taken.length
        out })

/-- Carries out operations in turn, and lists their replies. -/
def performAll (s : QueueSession σ) : List WindowOperation → List WindowReply × QueueSession σ
  | [] => ([], s)
  | op :: ops =>
    let (reply, s) := s.perform op
    let (replies, s) := performAll s ops
    (reply :: replies, s)

/-- An operation keeps the capacity. -/
theorem capacity_perform (s : QueueSession σ) (op : WindowOperation) :
    (s.perform op).2.queue.capacity = s.queue.capacity := by
  cases op with
  | fill =>
    simp only [perform]
    split
    · rfl
    · exact s.queue.capacity_receive _
  | put bytes count =>
    simp only [perform]
    split
    · rfl
    · exact s.queue.capacity_receive _
  | commit count => exact s.queue.capacity_receive (.supplied #[] count)
  | consume _ | take _ | pop | find _ _ | compact | search _ _ | reset | advance => rfl

/-- Operations keep the capacity. -/
theorem capacity_performAll (s : QueueSession σ) (ops : List WindowOperation) :
    (s.performAll ops).2.queue.capacity = s.queue.capacity := by
  induction ops generalizing s with
  | nil => rfl
  | cons op ops ih => exact (ih _).trans (s.capacity_perform op)

/-- Whether an operation makes no byte readable that was not written: a count that fits is covered
by the bytes that the source, or the caller, wrote. A count that is reported without writing
anything is zero. -/
def Permits (s : QueueSession σ) : WindowOperation → Prop
  | .fill => s.queue.room ≠ 0 →
    (ByteSource.read s.source s.queue.room).1.Covered s.queue.room
  | .put bytes count => (Answer.supplied bytes count).Covered s.queue.room
  | .commit count => count = 0
  | _ => True

/-- Whether no operation makes a byte readable that was not written. -/
def PermitsAll (s : QueueSession σ) : List WindowOperation → Prop
  | [] => True
  | op :: ops => s.Permits op ∧ (s.perform op).2.PermitsAll ops

instance (s : QueueSession σ) (op : WindowOperation) : Decidable (s.Permits op) :=
  match op with
  | .fill => inferInstanceAs (Decidable (_ → _))
  | .put bytes count => inferInstanceAs (Decidable ((Answer.supplied bytes count).Covered _))
  | .commit count => inferInstanceAs (Decidable (count = 0))
  | .consume _ | .take _ | .pop | .find _ _ | .compact | .search _ _ | .reset | .advance =>
    inferInstanceAs (Decidable True)

instance decidablePermitsAll :
    (s : QueueSession σ) → (ops : List WindowOperation) → Decidable (s.PermitsAll ops)
  | _, [] => inferInstanceAs (Decidable True)
  | s, op :: ops =>
    have := decidablePermitsAll (s.perform op).2 ops
    inferInstanceAs (Decidable (s.Permits op ∧ (s.perform op).2.PermitsAll ops))

end QueueSession

/-! ### The queue in a window -/

namespace Window

/-- A window as a queue of its unread bytes. -/
def queue (w : Window) : ByteQueue where
  capacity := w.capacity
  bytes := w.toList
  length_le := by
    rw [length_toList]
    exact w.buffered_le_capacity

variable (w : Window)

/-- Windows of one capacity with the same unread bytes are the same queue. -/
theorem queue_eq_iff {w w' : Window} :
    w.queue = w'.queue ↔ w.capacity = w'.capacity ∧ w.toList = w'.toList :=
  ByteQueue.mk.injEq .. ▸ Iff.rfl

/-- A new window is an empty queue. -/
theorem queue_ofCapacity {capacity : Nat} (h : 0 < capacity) :
    (ofCapacity capacity).queue = .empty capacity := by
  simp [queue, ByteQueue.empty, Nat.max_eq_left h]

/-- A window has room for what is not unread. -/
theorem room_queue : w.queue.room = w.capacity - w.buffered := by
  rw [ByteQueue.room, queue, length_toList]

/-- Consuming drops bytes from the front of the queue. -/
@[simp] theorem queue_skip (count : Nat) : (w.skip count).queue = w.queue.drop count := by
  simp [queue, ByteQueue.drop]

/-- Popping drops the first byte of the queue. -/
@[simp] theorem queue_pop : w.pop.2.queue = w.queue.drop 1 := by
  simp [queue, ByteQueue.drop, toList_pop]

/-- Compaction leaves the queue as it is. -/
@[simp] theorem queue_compact : w.compact.queue = w.queue := by
  simp [queue]

/-- Behind compaction all the room of the queue is free. -/
theorem free_compact_queue : w.compact.free = w.queue.room := by
  rw [free_compact, room_queue]

/-- Bytes that are not readable are no part of the queue. -/
@[simp] theorem queue_stage (bytes : Bytes) : (w.stage bytes).queue = w.queue := by
  simp [queue]

/-- A count reported over bytes written behind the unread ones, in all the room that there is, is
taken as the queue takes it, unless bytes are counted that were not written. -/
theorem commit_stage_eq (written : Bytes) (count : Nat)
    (hcovered : (Answer.supplied written count).Covered w.queue.room) :
    ((w.compact.stage written).commit count).1 = (w.queue.receive (.supplied written count)).1 ∧
      ((w.compact.stage written).commit count).2.queue =
        (w.queue.receive (.supplied written count)).2 := by
  have hfree := w.free_compact_queue
  by_cases hz : count = 0
  · simp [commit, ByteQueue.receive, hz]
  · by_cases hle : count ≤ w.queue.room
    · have hroom : count ≤ (w.compact.stage written).free := by rwa [free_stage, hfree]
      have hlist := toList_extend_stage w.compact written count hroom (hcovered hle)
      simp only [commit, ByteQueue.receive, if_neg hz, dif_pos hle, dif_pos hroom, true_and]
      simp [queue, ByteQueue.append, hlist]
    · simp [commit, ByteQueue.receive, hz, hle, hfree]

end Window

/-! ### Sessions with a window as sessions with a queue -/

namespace WindowSession

variable {σ : Type}

/-- A session with a window as a session with the queue in it. -/
def queue (s : WindowSession σ) : QueueSession σ :=
  { queue := s.window.queue
    source := s.source
    scan := s.scan
    out := s.out
    journal := s.journal }

/-- The session with another window. -/
def withWindow (s : WindowSession σ) (window : Window) : WindowSession σ := { s with window }

/-- A session with a window holds what a session with a queue does: the unread bytes are those of
the queue, and there is nothing else to tell them apart. -/
structure Holds (s : WindowSession σ) (t : QueueSession σ) : Prop where
  capacity : s.window.capacity = t.queue.capacity
  unread : s.window.unread.toList = t.queue.bytes
  buffered : s.window.buffered = t.queue.bytes.length
  isEmpty : s.window.isEmpty = t.queue.bytes.isEmpty
  source : s.source = t.source
  scan : s.scan = t.scan
  out : s.out = t.out
  journal : s.journal = t.journal

/-- A session with a window holds the queue in it. -/
theorem holds_queue (s : WindowSession σ) : s.Holds s.queue := by
  refine ⟨rfl, rfl, s.window.length_toList.symm, ?_, rfl, rfl, rfl, rfl⟩
  rw [Bool.eq_iff_iff, s.window.isEmpty_iff_toList, List.isEmpty_iff]
  rfl

variable [ByteSource σ]

/-- Whether a word reaches to the place up to which an operation passes over bytes. -/
def InReach (s : WindowSession σ) : WindowOperation → Prop
  | .consume count => s.window.readPos + count < wordSize
  | _ => True

/-- Whether a word reaches to every such place. -/
def AllInReach (s : WindowSession σ) : List WindowOperation → Prop
  | [] => True
  | op :: ops => s.InReach op ∧ (s.perform op).2.AllInReach ops

instance (s : WindowSession σ) (op : WindowOperation) : Decidable (s.InReach op) :=
  match op with
  | .consume count => inferInstanceAs (Decidable (s.window.readPos + count < wordSize))
  | .fill | .take _ | .pop | .find _ _ | .compact | .put _ _ | .commit _ | .search _ _ | .reset
  | .advance => inferInstanceAs (Decidable True)

instance decidableAllInReach :
    (s : WindowSession σ) → (ops : List WindowOperation) → Decidable (s.AllInReach ops)
  | _, [] => inferInstanceAs (Decidable True)
  | s, op :: ops =>
    have := decidableAllInReach (s.perform op).2 ops
    inferInstanceAs (Decidable (s.InReach op ∧ (s.perform op).2.AllInReach ops))

/-- A refill of a window is one of the queue in it. -/
theorem perform_fill_queue {s : WindowSession σ} (h : s.queue.Permits .fill) :
    s.queue.perform .fill = ((s.perform .fill).1, (s.perform .fill).2.queue) := by
  have hfree := s.window.free_compact_queue
  by_cases hroom : s.window.queue.room = 0
  · simp [perform, QueueSession.perform, Window.fillFrom, queue, hfree, hroom]
  · obtain ⟨answer, source, hread⟩ : ∃ answer source,
        ByteSource.read s.source s.window.queue.room = (answer, source) := ⟨_, _, rfl⟩
    have hcovered : answer.Covered s.window.queue.room := by
      have hanswer := h hroom
      rwa [queue, hread] at hanswer
    cases answer with
    | failed cause =>
      simp [perform, QueueSession.perform, Window.fillFrom, Window.receive, queue, hfree, hroom,
        hread, ByteQueue.receive, Answer.refillNotes]
    | supplied written count =>
      obtain ⟨houtcome, hqueue⟩ := s.window.commit_stage_eq written count hcovered
      simp [perform, QueueSession.perform, Window.fillFrom, Window.receive, queue, hfree, hroom,
        hread, houtcome, hqueue, Answer.refillNotes]

/-- Bytes put into a window are put into the queue in it. -/
theorem perform_put_queue {s : WindowSession σ} {bytes : Bytes} {count : Nat}
    (h : s.queue.Permits (.put bytes count)) :
    s.queue.perform (.put bytes count) =
      ((s.perform (.put bytes count)).1, (s.perform (.put bytes count)).2.queue) := by
  have hfree := s.window.free_compact_queue
  by_cases hroom : s.window.queue.room = 0
  · simp [perform, QueueSession.perform, queue, hfree, hroom]
  · obtain ⟨houtcome, hqueue⟩ := s.window.commit_stage_eq bytes count h
    simp [perform, QueueSession.perform, queue, hfree, hroom, houtcome, hqueue]

/-- A step of a search over a window is one over the queue in it. -/
theorem perform_advance_queue (s : WindowSession σ) :
    s.queue.perform .advance = ((s.perform .advance).1, (s.perform .advance).2.queue) := by
  obtain ⟨hverdict, hscan, hrest, hout⟩ := s.scan.advance_eq_walk s.window s.out
  have hcapacity := (s.scan.advance_keeps s.window s.out).2.2
  have hbytes := s.scan.taken_append_rest s.window.toList
  have hqueue : (s.scan.advance s.window s.out).window.queue =
      s.window.queue.drop (s.scan.walk s.window.toList).taken.length := by
    have hdrop := congrArg (List.drop (s.scan.walk s.window.toList).taken.length) hbytes
    rw [List.drop_left] at hdrop
    simp only [Window.queue, ByteQueue.drop, hcapacity, hrest, hdrop]
  have hout' : (s.scan.advance s.window s.out).out =
      s.out ++ (s.scan.walk s.window.toList).taken.toArray := by
    apply Array.toList_inj.1
    rw [hout, Array.toList_append]
  simp only [perform, QueueSession.perform, queue, hverdict, hscan, hout', hqueue]
  rfl

/-- An operation on a window that makes no byte readable that was not written, and passes over bytes
in reach only, is the operation on the queue in it: the replies are the same, and so are the queues
behind it. -/
theorem perform_queue {s : WindowSession σ} {op : WindowOperation} (h : s.queue.Permits op)
    (hreach : s.InReach op) :
    s.queue.perform op = ((s.perform op).1, (s.perform op).2.queue) := by
  cases op with
  | fill => exact perform_fill_queue h
  | consume count =>
    have hconsume := Window.consume_of_lt s.window hreach
    simp [perform, QueueSession.perform, queue, hconsume]
  | take count =>
    have htaken : s.window.front count = (s.window.queue.bytes.take count).toArray :=
      Array.toList_inj.1 (s.window.toList_front count)
    simp [perform, QueueSession.perform, queue, htaken]
  | pop =>
    have hbyte : s.window.pop.1 = s.window.queue.bytes.head? := s.window.pop_fst
    simp [perform, QueueSession.perform, queue, hbyte]
  | find delim reach =>
    have hindex : s.window.find? delim reach = (s.window.queue.bytes.take reach).idxOf? delim :=
      s.window.find?_eq_idxOf? delim reach
    simp [perform, QueueSession.perform, queue, hindex]
  | compact => simp [perform, QueueSession.perform, queue]
  | put bytes count => exact perform_put_queue h
  | commit count =>
    obtain rfl : count = 0 := h
    rfl
  | search delim limit => rfl
  | reset => rfl
  | advance => exact s.perform_advance_queue

/-- Operations carried out in turn on a window are those on the queue in it. -/
theorem performAll_queue {s : WindowSession σ} {ops : List WindowOperation}
    (h : s.queue.PermitsAll ops) (hreach : s.AllInReach ops) :
    s.queue.performAll ops = ((s.performAll ops).1, (s.performAll ops).2.queue) := by
  induction ops generalizing s with
  | nil => rfl
  | cons op ops ih =>
    obtain ⟨hop, hops⟩ := h
    obtain ⟨hreach, hlater⟩ := hreach
    have hstep := perform_queue hop hreach
    rw [hstep] at hops
    simp only [performAll, QueueSession.performAll, hstep, ih hops hlater]

/-- A new window is a bounded byte queue: whatever is done with it, as long as no byte is made
readable that was not written and bytes are passed over in reach only, the replies are those of a
queue of its capacity, which is never exceeded, and the window then holds the bytes of the queue.
The requests to the source and the notes taken of them are those of the queue as well. And two
windows of one capacity with the same unread bytes answer alike for ever, wherever their cursors
stand and whatever else is in their arenas. -/
theorem performAll_eq_queue {capacity : Nat} (hpos : 0 < capacity) (source : σ)
    {ops : List WindowOperation} (h : (QueueSession.start capacity source).PermitsAll ops)
    (hreach : (start capacity source).AllInReach ops) :
    let result := (start capacity source).performAll ops
    let expected := (QueueSession.start capacity source).performAll ops
    result.1 = expected.1 ∧ result.2.Holds expected.2 ∧ expected.2.queue.capacity = capacity ∧
      ∀ (s : WindowSession σ) (w w' : Window), w.capacity = w'.capacity → w.toList = w'.toList →
        ∀ later : List WindowOperation, (s.withWindow w).queue.PermitsAll later →
          (s.withWindow w).AllInReach later → (s.withWindow w').AllInReach later →
          ((s.withWindow w).performAll later).1 = ((s.withWindow w').performAll later).1 ∧
          ((s.withWindow w).performAll later).2.queue =
            ((s.withWindow w').performAll later).2.queue := by
  have hstart : (start capacity source).queue = QueueSession.start capacity source := by
    simp only [queue, start, QueueSession.start, Window.queue_ofCapacity hpos, newline]
  have hrun := performAll_queue (s := start capacity source) (hstart ▸ h) hreach
  rw [hstart] at hrun
  rw [hrun]
  refine ⟨rfl, holds_queue _, ?_, ?_⟩
  · have hcapacity := (QueueSession.start capacity source).capacity_performAll ops
    rwa [hrun] at hcapacity
  · intro s w w' hcapacity hlist later hlater hreach hreach'
    have hqueue : (s.withWindow w).queue = (s.withWindow w').queue := by
      simp only [queue, withWindow, Window.queue_eq_iff.2 ⟨hcapacity, hlist⟩]
    have hrun := performAll_queue hlater hreach
    have hrun' := performAll_queue (hqueue ▸ hlater) hreach'
    rw [hqueue, hrun'] at hrun
    obtain ⟨hreplies, hafter⟩ := Prod.mk.inj hrun
    exact ⟨hreplies.symm, hafter.symm⟩

/-- A source that counts too many bytes, fails and ends between its pieces. -/
def unevenSource : Script :=
  [.data #[1, 2, 3, 4, 5], .overcount 3, .fail .bufferNotFilled, .ended, .data #[6, 7]]

/-- Refills of a full and of partly full windows, with stale bytes behind the unread ones. -/
def unevenOperations : List WindowOperation :=
  [.fill, .fill, .consume 3, .fill, .find 5 2, .find 5 1, .fill, .fill, .fill, .put #[9, 8] 1,
    .put #[9] 5, .compact, .pop, .take 9, .pop]

/-- Two bytes behind one that was passed over. -/
def behindPassed : Window := ⟨#[7, 1, 2, 0], 1, 3, by decide, by decide, by decide⟩

/-- The same two bytes at the start of the arena. -/
def atStart : Window := ⟨#[1, 2, 8, 8], 0, 2, by decide, by decide, by decide⟩

/-- A window of four bytes is a queue of four over the uneven source, and where two bytes stand in
it makes no difference to what comes next. -/
theorem performAll_unevenSource :
    0 < 4 ∧ (QueueSession.start 4 unevenSource).PermitsAll unevenOperations ∧
      (start 4 unevenSource).AllInReach unevenOperations ∧
      ((start 4 unevenSource).performAll unevenOperations).1 =
        [.filled (.ok (.added 4)), .filled (.ok .full), .done, .filled (.ok (.added 1)),
          .index (some 1), .index none, .filled (.error (.overcount 5 2)),
          .filled (.error .bufferNotFilled), .filled (.ok .ended), .written 2 (.ok (.added 1)),
          .written 1 (.error (.overcount 5 1)), .done, .byte (some 4), .taken #[5, 9],
          .byte none] ∧
      (((start 4 unevenSource).withWindow behindPassed).performAll
          [.consume 1, .fill, .take 4]).1 =
        (((start 4 unevenSource).withWindow atStart).performAll
          [.consume 1, .fill, .take 4]).1 := by
  have hpermits : (QueueSession.start 4 unevenSource).PermitsAll unevenOperations := by decide
  have hreach : (start 4 unevenSource).AllInReach unevenOperations := by decide
  obtain ⟨hreplies, -, -, halike⟩ :=
    performAll_eq_queue (by decide) unevenSource hpermits hreach
  refine ⟨by decide, hpermits, hreach, ?_, ?_⟩
  · rw [hreplies]
    rfl
  · exact (halike (start 4 unevenSource) behindPassed atStart (by decide) (by decide)
      [.consume 1, .fill, .take 4] (by decide) (by decide) (by decide)).1

end WindowSession

end BufferedReading
