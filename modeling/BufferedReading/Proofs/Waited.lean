import BufferedReading.Proofs.Courses
import BufferedReading.Reader.Finite

/-!
# Waiting is polling a source that is always ready

A source that is waited for is one that is polled and never puts off an answer
(`PolledSource.ofWaited`). Over such a source an attempt at an operation is the operation: it comes
to its end, with the same result. So the courses of `BufferedReading.Proofs.Courses` are also those
of the operations of a reader whose source is waited for.
-/

namespace BufferedReading

/-- A source that is waited for, as one that is polled and always ready. -/
@[reducible] def PolledSource.ofWaited (σ : Type) [ByteSource σ] : PolledSource σ where
  poll s n := (.ready (ByteSource.read s n).1, (ByteSource.read s n).2)

namespace Reader

variable {σ : Type} [ByteSource σ] (r : Reader σ)

/-- Polled, a source that is waited for answers at once. -/
theorem poll_ofWaited {s s' : σ} {n : Nat} {answer : Answer}
    (h : ByteSource.read s n = (answer, s')) :
    @PolledSource.poll σ (.ofWaited σ) s n = (.ready answer, s') := by
  change (Poll.ready (ByteSource.read s n).1, (ByteSource.read s n).2) = _
  rw [h]

/-- An attempt at a refill is a refill. -/
theorem pollRefill_ofWaited :
    @pollRefill σ (.ofWaited σ) r = (.ready r.refill.1, r.refill.2) := by
  unfold pollRefill refill Window.fillFrom
  by_cases hfree : r.window.compact.free = 0
  · simp only [if_pos hfree]
    rfl
  · obtain ⟨answer, source, hread⟩ : ∃ answer source,
        ByteSource.read r.source r.window.compact.free = (answer, source) := ⟨_, _, rfl⟩
    simp only [if_neg hfree, hread, poll_ofWaited hread]
    cases answer with
    | failed cause => rfl
    | supplied written count =>
      simp only [Window.receive]
      rcases (r.window.compact.stage written).commit count with ⟨cause | fill, w⟩
      · rfl
      · cases fill <;> rfl

/-- An attempt at a bypassing read is a bypassing read. -/
theorem pollBypass_ofWaited (buffer : Bytes) :
    @pollBypass σ (.ofWaited σ) r buffer = (r.bypass buffer).ready := by
  obtain ⟨answer, source, hread⟩ :
      ∃ answer source, ByteSource.read r.source buffer.size = (answer, source) := ⟨_, _, rfl⟩
  rw [bypass_eq hread, @pollBypass_eq σ (.ofWaited σ) r buffer _ _ (poll_ofWaited hread)]
  rfl

/-- An attempt at a read is a read. -/
theorem pollRead_ofWaited (buffer : Bytes) :
    @pollRead σ (.ofWaited σ) r buffer = (r.read buffer).ready := by
  unfold pollRead read
  rw [pollRefill_ofWaited, pollBypass_ofWaited]
  split
  · rfl
  · split
    · split
      · rfl
      · rcases r.refill with ⟨e | fill, r'⟩
        · rfl
        · cases fill <;> rfl
    · rfl

/-- An attempt at a read of one byte is a read of one byte. -/
theorem pollByte_ofWaited :
    @pollByte σ (.ofWaited σ) r = (.ready r.readByte.1, r.readByte.2) := by
  unfold pollByte readByte
  rw [pollRefill_ofWaited]
  split
  · rcases r.refill with ⟨e | fill, r'⟩ <;> rfl
  · rfl

/-- An attempt at a look at the unread bytes is such a look. -/
theorem pollFillBuffer_ofWaited :
    @pollFillBuffer σ (.ofWaited σ) r = (.ready r.fillBuffer.1, r.fillBuffer.2) := by
  unfold pollFillBuffer fillBuffer
  rw [pollRefill_ofWaited]
  split
  · rcases r.refill with ⟨e | fill, r'⟩ <;> rfl
  · rfl

/-- An attempt at a delimiter read is a delimiter read. -/
theorem lineWithin_eq_ofWaited (rounds : Nat) (scan : Scan) (out : Bytes) :
    (lineWithin rounds scan r out).map Call.ready =
      (@pollLineWithin σ (.ofWaited σ) rounds r scan out).map fun attempt =>
        ⟨attempt.result, attempt.out, attempt.reader⟩ := by
  induction rounds generalizing r scan out with
  | zero => rfl
  | succ rounds ih =>
    simp only [lineWithin, pollLineWithin, pollRefill_ofWaited]
    cases (scan.advance r.window out).verdict with
    | found => rfl
    | overlong limit => rfl
    | starved =>
      simp only
      rcases ({ r with window := (scan.advance r.window out).window } : Reader σ).refill
        with ⟨e | fill, r'⟩
      · rfl
      · cases fill with
        | added count => exact ih _ _ _
        | ended => rfl
        | full => rfl

/-- An attempt to fill a buffer fills it. -/
theorem pollExact_ofWaited (done rest : Bytes) :
    let attempt := @pollExact σ (.ofWaited σ) r done rest
    attempt.result = .ready (r.readExactFrom done rest).result ∧
      attempt.done ++ attempt.rest = (r.readExactFrom done rest).buffer ∧
      attempt.reader = (r.readExactFrom done rest).reader := by
  fun_induction readExactFrom r done rest with
  | case1 r done rest hsize =>
    rw [@pollExact_of_full σ (.ofWaited σ) r done rest hsize]
    exact ⟨rfl, rfl, rfl⟩
  | case2 r done rest hsize e buffer r' hread =>
    rw [@pollExact_eq σ (.ofWaited σ) r done rest hsize, pollRead_ofWaited, hread]
    exact ⟨rfl, rfl, rfl⟩
  | case3 r done rest hsize buffer r' hread =>
    rw [@pollExact_eq σ (.ofWaited σ) r done rest hsize, pollRead_ofWaited, hread]
    exact ⟨rfl, rfl, rfl⟩
  | case4 r done rest hsize count buffer r' hread hz hover =>
    rw [@pollExact_eq σ (.ofWaited σ) r done rest hsize, pollRead_ofWaited, hread]
    simp only [Call.ready, if_neg hz, if_pos hover, true_and, and_true]
    rw [Bytes.append_extract_append_extract]
  | case5 r done rest hsize count buffer r' hread hz hover ih =>
    rw [@pollExact_eq σ (.ofWaited σ) r done rest hsize, pollRead_ofWaited, hread]
    simp only [Call.ready, if_neg hz, if_neg hover]
    exact ih

/-! ### Courses -/

/-- The course of a read. It asks the source once at most, and not at all while bytes are unread or
if the buffer has no room. -/
theorem exists_course_read (buffer : Bytes) :
    ∃ ms, @Course σ (.ofWaited σ) r (some buffer.size) ms (r.read buffer).delivered
        (r.read buffer).reader ∧
      (@exchanges σ (.ofWaited σ) r ms).length ≤ 1 ∧
      (buffer.size = 0 ∨ r.window.toList ≠ [] → @exchanges σ (.ofWaited σ) r ms = []) := by
  obtain ⟨ms, hcourse, hlength, hidle, -⟩ := @exists_course_pollRead σ (.ofWaited σ) r buffer
  rw [pollRead_ofWaited, Call.handed_ready] at hcourse
  exact ⟨ms, hcourse, hlength, hidle⟩

/-- The course of a read of one byte. -/
theorem exists_course_readByte :
    ∃ ms taken, @Course σ (.ofWaited σ) r none ms taken r.readByte.2 := by
  obtain ⟨ms, taken, hcourse, -⟩ := @exists_course_pollByte σ (.ofWaited σ) r
  rw [pollByte_ofWaited] at hcourse
  exact ⟨ms, taken, hcourse⟩

/-- The course of a look at the unread bytes. -/
theorem exists_course_fillBuffer :
    ∃ ms, @Course σ (.ofWaited σ) r none ms [] r.fillBuffer.2 := by
  obtain ⟨ms, hcourse, -⟩ := @exists_course_pollFillBuffer σ (.ofWaited σ) r
  rw [pollFillBuffer_ofWaited] at hcourse
  exact ⟨ms, hcourse⟩

/-- The course of a delimiter read. -/
theorem exists_course_lineWithin {r : Reader σ} {rounds : Nat} {scan : Scan} {out : Bytes}
    {call : Call (Reader σ) (Except ReadError Bool)}
    (h : lineWithin rounds scan r out = some call) :
    ∃ ms taken, @Course σ (.ofWaited σ) r none ms taken call.reader := by
  have heq := lineWithin_eq_ofWaited r rounds scan out
  rw [h, Option.map_some, eq_comm, Option.map_eq_some_iff] at heq
  obtain ⟨attempt, hattempt, hcall⟩ := heq
  obtain ⟨ms, taken, hcourse, -⟩ :=
    @exists_course_pollLineWithin σ (.ofWaited σ) _ _ _ _ _ hattempt
  have hreader : attempt.reader = call.reader := congrArg Call.reader hcall
  exact ⟨ms, taken, hreader ▸ hcourse⟩

/-- A delimiter read and an attempt at it are unfinished in the same number of rounds. -/
theorem pollLineWithin_eq_none_of_ofWaited {r : Reader σ} {rounds : Nat} {scan : Scan} {out : Bytes}
    (h : lineWithin rounds scan r out = none) :
    @pollLineWithin σ (.ofWaited σ) rounds r scan out = none := by
  have heq := lineWithin_eq_ofWaited r rounds scan out
  rw [h, Option.map_none, eq_comm, Option.map_eq_none_iff] at heq
  exact heq

/-- What is made of an attempt at a delimiter read is made of the read, if the search that is left
plays no part in it. -/
theorem map_pollLineWithin_ofWaited {β : Type} {rounds : Nat} {scan : Scan} {out : Bytes}
    {f : LineAttempt σ → β} {g : Call (Reader σ) (Except ReadError Bool) → β}
    (hfg : ∀ (scan : Scan) (call : Call (Reader σ) (Except ReadError Bool)),
      f ⟨.ready call.result, scan, call.buffer, call.reader⟩ = g call) :
    (@pollLineWithin σ (.ofWaited σ) rounds r scan out).map f =
      (r.lineWithin rounds scan out).map g := by
  have heq := r.lineWithin_eq_ofWaited rounds scan out
  cases hline : r.lineWithin rounds scan out with
  | none =>
    rw [pollLineWithin_eq_none_of_ofWaited hline]
    rfl
  | some call =>
    rw [hline, Option.map_some, eq_comm, Option.map_eq_some_iff] at heq
    obtain ⟨⟨p, scan', out', r'⟩, hattempt, hcall⟩ := heq
    obtain rfl : p = .ready call.result := congrArg Call.result hcall
    obtain rfl : out' = call.buffer := congrArg Call.buffer hcall
    obtain rfl : r' = call.reader := congrArg Call.reader hcall
    exact Option.map_eq_some_iff.2 ⟨_, hattempt, hfg scan' call⟩

/-- The course of filling a buffer. -/
theorem exists_course_readExact (buffer : Bytes) :
    ∃ ms taken, @Course σ (.ofWaited σ) r (some buffer.size) ms taken
      (r.readExact buffer).reader := by
  obtain ⟨ms, taken, hcourse, -⟩ := @exists_course_pollExact σ (.ofWaited σ) r #[] buffer
  obtain ⟨-, -, hreader⟩ := r.pollExact_ofWaited #[] buffer
  rw [hreader] at hcourse
  exact ⟨ms, taken, hcourse⟩

end Reader

end BufferedReading
