import Mathlib.Control.Monad.Basic
import BufferedReading.Proofs.FaultlessRuns

/-!
# No operation meets a fault

Whatever is done with a reader in whatever order, carried out in machine words it comes to what it
comes to in natural numbers: no slice lies outside its array, no difference is negative, no sum is
too large for a word and no assertion fails, whatever a source says of the bytes it has written
(`no_operation_faults`). Behind each operation the cursors of the window are in order and inside an
arena of the size that was asked for, and a search is within its limit.

A session that waits is seen as one that polls a source which is always ready. An operation on it is
one that is attempted once (`Session.onReader_ofWaited`), so that only the lines of a splitter and
the loops of its callers have to be followed on their own.
-/

namespace BufferedReading

open Checked

namespace Reader

variable {σ : Type} [ByteSource σ] (r : Reader σ)

/-- An attempt to ask the source itself asks it. -/
theorem pollSource_ofWaited (buffer : Bytes) :
    @pollSource σ (.ofWaited σ) r buffer = (r.readSource buffer).ready := by
  obtain ⟨answer, source, hread⟩ :
      ∃ answer source, ByteSource.read r.source buffer.size = (answer, source) := ⟨_, _, rfl⟩
  simp only [pollSource, readSource, hread, poll_ofWaited hread]
  cases answer with
  | supplied written count => rfl
  | failed cause => rfl

end Reader

/-! ### Loops of a caller that waits -/

namespace Reader

variable {σ : Type} {r : Reader σ} {taken : Nat}

/-- What follows on passing over unread bytes and counting them settles. The count fits in a word,
for there were no fewer taken in all. -/
theorem settles_passOver {α : Type} {f : RawWindow → Nat → Checked α} {P : α → Nat → Prop}
    (hr : r.raw.InOrder) {used count : Nat} (hused : used ≤ r.window.buffered)
    (hcount : count ≤ taken)
    (hf : ∀ taken', count + used ≤ taken' →
      (f (r.window.skip used).raw (count + used)).Settles taken' P) :
    Settles
      (do
        let window ← r.raw.window.consume used
        let total ← add count used
        f window total)
      taken P := by
  refine (RawWindow.settles_consume (RawWindow.readPos_add_lt hr.size_lt hused)).bind ?_
  rintro _ taken' ⟨rfl, rfl, hlt⟩
  rw [Nat.min_eq_left hused] at hlt ⊢
  rw [add_eq (by omega), pure_bind]
  exact hf _ (Nat.add_le_add_right hcount used)

variable [ByteSource σ]

/-- Filling a buffer with new attempts after interruptions settles. -/
theorem settles_fill (hr : r.raw.InOrder) (rounds : Nat) (done rest : Bytes) :
    (@RawReader.fill σ (.ofWaited σ) rounds r.raw done rest).SettlesOn taken
      ((r.fillWithin rounds done rest).map
        fun call => (.ready call.result, call.buffer, call.reader.raw))
      fun p _ => p.2.2.InOrder := by
  let _ : PolledSource σ := .ofWaited σ
  induction rounds generalizing r done rest taken with
  | zero => exact settles_pure ⟨rfl, nofun⟩
  | succ rounds ih =>
    rw [RawReader.fill, fillWithin]
    by_cases hz : rest.size = 0
    · rw [if_pos hz, if_pos hz]
      exact settlesOn_some hr
    · rw [if_neg hz, if_neg hz]
      refine Settles.bind (settles_pollRead hr.size_lt rest) ?_
      rintro _ taken' ⟨rfl, -, hbound⟩
      obtain ⟨ms, hcourse, -⟩ := r.exists_course_pollRead rest
      have hr' := hr.of_course hcourse
      have hbuffer := r.size_buffer_read rest
      rw [pollRead_ofWaited] at hbound hr' ⊢
      rw [readPlain]
      generalize r.read rest = call at hbound hr' hbuffer ⊢
      obtain ⟨result, buffer, r'⟩ := call
      cases result with
      | error e =>
        simp only [Call.raw, Call.ready, Except.mapError]
        by_cases hagain : e.toFailure.isInterruption = true
        · rw [if_pos hagain, if_pos hagain]
          exact ih hr' done buffer
        · rw [if_neg hagain, if_neg hagain]
          exact settlesOn_some hr'
      | ok count =>
        simp only [Call.raw, Call.ready, Except.mapError]
        by_cases hcount : count = 0
        · rw [if_pos hcount, if_pos hcount]
          exact settlesOn_some hr'
        · -- a read that is not excused delivers no more than there was room for
          have hroom : count ≤ rest.size := hbound count rfl
          have hle : count ≤ buffer.size := hbuffer ▸ hroom
          rw [if_neg hcount, if_neg hcount, if_neg (Nat.not_lt.2 hroom),
            slice_eq hle (Nat.le_refl _), pure_bind]
          exact ih hr' _ _

/-- Appending bytes up to a delimiter with new attempts after interruptions settles. -/
theorem settles_readUntil (hr : r.raw.InOrder) (delim : UInt8) (rounds : Nat) (out : Bytes)
    {count : Nat} (hcount : count ≤ taken) :
    (@RawReader.readUntil σ (.ofWaited σ) delim rounds r.raw out count).SettlesOn taken
      ((r.untilWithin delim rounds out count).map
        fun call => (.ready call.result, call.buffer, call.reader.raw))
      fun p _ => p.2.2.InOrder := by
  let _ : PolledSource σ := .ofWaited σ
  induction rounds generalizing r out count taken with
  | zero => exact settles_pure ⟨rfl, nofun⟩
  | succ rounds ih =>
    rw [RawReader.readUntil, untilWithin, pollFillBuffer_raw hr.size_lt, pure_bind]
    obtain ⟨ms, hcourse, -⟩ := r.exists_course_pollFillBuffer
    have hr' := hr.of_course hcourse
    rw [pollFillBuffer_ofWaited] at hr' ⊢
    cases hlook : r.fillBuffer with
    | mk result r' =>
      rw [hlook] at hr'
      cases result with
      | error cause =>
        simp only
        by_cases hagain : cause.isInterruption = true
        · rw [if_pos hagain, if_pos hagain]
          exact ih hr' out hcount
        · rw [if_neg hagain, if_neg hagain]
          exact settlesOn_some hr'
      | ok available =>
        have hunread := unread_fillBuffer (congrArg Prod.fst hlook)
        rw [hlook] at hunread
        obtain rfl : r'.unread = available := hunread
        have hsize : r'.unread.size = r'.window.buffered := r'.window.size_unread
        simp only
        cases hfound : r'.unread.indexIn? delim 0 r'.unread.size with
        | some i =>
          have hi : i < r'.unread.size := by
            obtain ⟨-, hlt, -⟩ := Bytes.indexIn?_eq_some_iff.1 hfound
            omega
          have hle : i + 1 ≤ r'.window.buffered := hsize ▸ hi
          have hsum := RawWindow.readPos_add_lt hr'.size_lt hle
          simp only
          rw [add_eq (Nat.lt_of_le_of_lt (Nat.le_add_left ..) hsum), pure_bind,
            slice_eq (Nat.zero_le _) hi, pure_bind]
          exact settles_passOver hr' hle hcount fun _ _ => settlesOn_some (hr'.skip (i + 1))
        | none =>
          simp only
          refine settles_passOver hr' (Nat.le_of_eq hsize) hcount fun taken' hcount' => ?_
          by_cases hz : r'.unread.size = 0
          · have hempty : r'.unread = #[] := Array.eq_empty_of_size_eq_zero hz
            rw [if_pos hz, if_pos hz, hz, hempty, Array.append_empty, Window.skip_zero]
            exact settlesOn_some hr'
          · rw [if_neg hz, if_neg hz]
            exact ih (hr'.skip _) _ hcount'

end Reader

/-! ### Lines of a splitter -/

namespace Splitter

variable {σ : Type} {taken : Nat}

/-- What a splitter yields after a delimiter read does not depend on the search that is left. -/
theorem conclude_raw (delim : UInt8) (scan : Scan)
    (call : Call (Reader σ) (Except ReadError Bool)) :
    RawSplitter.conclude delim
        (LineAttempt.raw ⟨.ready call.result, scan, call.buffer, call.reader⟩) =
      (.ready (conclude delim call).1, (conclude delim call).2.raw) := by
  rcases call with ⟨e | complete, buffer, r⟩
  · rfl
  · cases complete <;> rfl

theorem inOrder_conclude {outcome : Poll (Except ReadError Bool) × (Scan × Bytes) × RawReader σ}
    (h : outcome.2.2.InOrder) (delim : UInt8) :
    (RawSplitter.conclude delim outcome).2.reader.InOrder := by
  rcases outcome with ⟨_ | e | complete, ⟨scan, out⟩, r⟩
  · exact h
  · exact h
  · cases complete <;> exact h

variable [ByteSource σ]

/-- What a splitter yields after an attempt at a delimiter read is what it yields after the read. -/
theorem map_conclude_ofWaited (delim : UInt8) (rounds : Nat) (r : Reader σ) (scan : Scan)
    (out : Bytes) :
    ((@Reader.pollLineWithin σ (.ofWaited σ) rounds r scan out).map LineAttempt.raw).map
        (RawSplitter.conclude delim) =
      ((r.lineWithin rounds scan out).map (conclude delim)).map
        fun p => (.ready p.1, p.2.raw) := by
  rw [Option.map_map, Option.map_map]
  exact r.map_pollLineWithin_ofWaited (conclude_raw delim)

/-- The next item settles. -/
theorem settles_next {splitter : Splitter σ} (h : splitter.reader.raw.InOrder) (rounds : Nat) :
    (@RawSplitter.next σ (.ofWaited σ) rounds splitter.raw).SettlesOn taken
      ((splitter.nextWithin rounds).map fun p => (.ready p.1, p.2.raw))
      fun p _ => p.2.reader.InOrder := by
  let _ : PolledSource σ := .ofWaited σ
  rw [RawSplitter.next, nextWithin]
  by_cases hfinished : splitter.finished = true
  · rw [if_pos (show splitter.raw.finished = true from hfinished), if_pos hfinished]
    exact settlesOn_some h
  · rw [if_neg (show ¬ splitter.raw.finished = true from hfinished), if_neg hfinished,
      ← map_conclude_ofWaited]
    exact (RawSession.settles_pollLine h (Scan.withinLimit_start _ _) (Nat.zero_le _) rounds
      #[]).map fun _ _ hkeeps => inOrder_conclude hkeeps.1 splitter.delim

/-- All items still to come settle. -/
theorem settles_collect {splitter : Splitter σ} (h : splitter.reader.raw.InOrder) (rounds : Nat)
    (items : Array Item) :
    (@RawSplitter.collect σ (.ofWaited σ) rounds items splitter.raw).SettlesOn taken
      ((splitter.foldWithin Array.push rounds items).map fun p => (.ready p.1, p.2.raw))
      fun p _ => p.2.reader.InOrder := by
  let _ : PolledSource σ := .ofWaited σ
  induction rounds generalizing splitter items taken with
  | zero => exact settles_pure ⟨rfl, by rintro _ ⟨⟩⟩
  | succ rounds ih =>
    rw [RawSplitter.collect, foldWithin]
    refine Settles.bind (settles_next h rounds) ?_
    rintro _ taken' ⟨rfl, hkeeps⟩
    cases hnext : splitter.nextWithin rounds with
    | none => exact settles_pure ⟨rfl, by rintro _ ⟨⟩⟩
    | some outcome =>
      obtain ⟨item?, splitter'⟩ := outcome
      rw [hnext] at hkeeps
      have hsplitter : splitter'.reader.raw.InOrder := hkeeps _ rfl
      cases item? with
      | none => exact settlesOn_some hsplitter
      | some item => exact ih hsplitter (items.push item)

end Splitter

/-! ### Operations -/

/-- What an operation comes to, as a machine has it. -/
def Session.rawOutcome {σ : Type} (outcome : Reply × Session σ) : Reply × RawSession σ :=
  (outcome.1, outcome.2.raw)

/-- What an event came to, as a machine has it. -/
def Event.raw {σ : Type} (event : Event σ) : Reply × RawSession σ :=
  (event.reply, event.after.raw)

namespace Session

variable {σ : Type} [ByteSource σ]

/-- A delimiter read is one that is attempted once. -/
theorem map_driveLine_ofWaited {β : Type} (rounds : Nat) (r : Reader σ) (delim : UInt8)
    (out : Bytes) {f : Poll (Except ReadError Bool) × Nat × (Scan × Bytes) × Reader σ → β}
    {g : Call (Reader σ) (Except ReadError Bool) → β}
    (hfg : ∀ (scan : Scan) (call : Call (Reader σ) (Except ReadError Bool)),
      f (.ready call.result, 1, (scan, call.buffer), call.reader) = g call) :
    (@PolledSession.driveLine σ (.ofWaited σ) rounds 1 r delim out).map f =
      (r.lineWithin rounds (.start delim r.config.lineLimit) out).map g := by
  let _ : PolledSource σ := .ofWaited σ
  have hdrive : PolledSession.driveLine rounds 1 r delim out =
      (Reader.pollLineWithin rounds r (.start delim r.config.lineLimit) out).map
        fun attempt => (attempt.result, 1, (attempt.scan, attempt.out), attempt.reader) :=
    (Poll.drive_one _ _).trans (Option.map_map ..)
  rw [hdrive, Option.map_map]
  exact r.map_pollLineWithin_ofWaited hfg

/-- An operation on a reader that does not depend on the mode is one that is attempted once. -/
theorem onReader_ofWaited (rounds : Nat) (out : Bytes) (r : Reader σ) {op : Operation}
    (hmode : op.dependsOnMode = false) :
    (@PolledSession.onReader σ (.ofWaited σ) rounds 1 ⟨.reader r, out⟩ r op).map Performance.raw =
      ((⟨.reader r, out⟩ : Session σ).onReader rounds r op).map rawOutcome := by
  let _ : PolledSource σ := .ofWaited σ
  cases op with
  | read buffer | readPlain buffer =>
    have h := PolledSession.driveBuffer_of_ready (r.pollRead_ofWaited buffer) 0
    exact Option.map_eq_some_iff.2 ⟨_, Option.map_eq_some_iff.2 ⟨_, h, rfl⟩, rfl⟩
  | readSource buffer =>
    have h := PolledSession.driveBuffer_of_ready (r.pollSource_ofWaited buffer) 0
    exact Option.map_eq_some_iff.2 ⟨_, Option.map_eq_some_iff.2 ⟨_, h, rfl⟩, rfl⟩
  | readExact buffer =>
    obtain ⟨hresult, hbuffer, hreader⟩ := r.pollExact_ofWaited #[] buffer
    generalize hattempt : r.pollExact #[] buffer = attempt at hresult hbuffer hreader
    obtain ⟨p, done, rest, r'⟩ := attempt
    obtain rfl : p = .ready (r.readExact buffer).result := hresult
    have h := PolledSession.driveExact_of_ready hattempt 0
    refine Option.map_eq_some_iff.2 ⟨_, Option.map_eq_some_iff.2 ⟨_, h, rfl⟩, ?_⟩
    obtain rfl : r' = (r.readExact buffer).reader := hreader
    have hbuffer : done ++ rest = (r.readExact buffer).buffer := hbuffer
    simp only [hbuffer]
    rfl
  | readByte =>
    have h := PolledSession.driveReader_of_ready r.pollByte_ofWaited 0
    exact Option.map_eq_some_iff.2 ⟨_, Option.map_eq_some_iff.2 ⟨_, h, rfl⟩, rfl⟩
  | fillBuffer =>
    have h := PolledSession.driveReader_of_ready r.pollFillBuffer_ofWaited 0
    exact Option.map_eq_some_iff.2 ⟨_, Option.map_eq_some_iff.2 ⟨_, h, rfl⟩, rfl⟩
  | readLine delim =>
    refine (Option.map_map ..).trans (.trans ?_ (Option.map_map ..).symm)
    exact map_driveLine_ofWaited rounds r delim #[] fun _ _ => rfl
  | readLineInto delim =>
    refine (Option.map_map ..).trans (.trans ?_ (Option.map_map ..).symm)
    exact map_driveLine_ofWaited rounds r delim out fun _ _ => rfl
  | consume count =>
    simp only [PolledSession.onReader_consume, onReader_consume, PolledSession.passOver, passOver]
    cases r.consume count <;> rfl
  | split delim | fill buffer | readUntil delim => cases hmode
  | _ => rfl

end Session

namespace RawSession

variable {σ : Type} {taken : Nat} {out : Bytes}

/-- A session of a machine that waits starts as a session does. -/
theorem start?_waits (source : σ) (start : Start) :
    start? .waits source start = (Session.start? source start).map Session.raw := by
  rw [start?, Session.start?]
  cases start.reader? source with
  | error e => rfl
  | ok r => cases start <;> rfl

theorem onSource_waits (s : Session σ) (source : σ) (op : Operation) :
    s.raw.onSource .waits source op = Session.rawOutcome (s.onSource source op) := by
  cases op with
  | wrap start =>
    rw [onSource, Session.onSource, start?_waits]
    cases Session.start? source start with
    | error e => rfl
    | ok fresh => rfl
  | _ => rfl

variable [ByteSource σ]

/-- Every operation on a reader that waits settles. -/
theorem settles_onReader_waits {r : Reader σ} (hr : r.raw.InOrder) (rounds : Nat) {op : Operation}
    (hfits : op.Fits) :
    (@onReader σ (.ofWaited σ) .waits rounds 1 ⟨.reader r.raw, out⟩ r.raw op).SettlesOn taken
      (((⟨.reader r, out⟩ : Session σ).onReader rounds r op).map Session.rawOutcome)
      fun p taken' => p.2.Sound taken' := by
  let _ : PolledSource σ := .ofWaited σ
  -- what does not depend on the mode has been seen to settle where the source is polled
  cases hmode : op.dependsOnMode with
  | false =>
    rw [← Session.onReader_ofWaited rounds out r hmode]
    exact settles_onReader hr rounds 1 hfits fun h => absurd (hmode.symm.trans h) Bool.false_ne_true
  | true =>
    cases op with
    | split delim => exact settlesOn_some (sound_lines hr .waits delim)
    | fill buffer =>
      exact (Reader.settles_fill hr rounds #[] buffer).map_raw (fun _ => rfl)
        fun _ _ h => sound_reader h
    | readUntil delim =>
      exact (Reader.settles_readUntil hr delim rounds out (Nat.zero_le _)).map_raw (fun _ => rfl)
        fun _ _ h => sound_reader h
    | _ => cases hmode

/-- Every operation on the lines of a splitter settles. -/
theorem settles_onSplitter {splitter : Splitter σ} (h : splitter.reader.raw.InOrder) (rounds : Nat)
    (op : Operation) :
    (@onSplitter σ (.ofWaited σ) rounds 1 ⟨.splitter splitter.raw, out⟩ splitter.raw op).SettlesOn
      taken (((⟨.splitter splitter, out⟩ : Session σ).onSplitter rounds splitter op).map
        Session.rawOutcome)
      fun p taken' => p.2.Sound taken' := by
  let _ : PolledSource σ := .ofWaited σ
  cases op with
  | next =>
    rw [onSplitter, drive_one]
    exact (Splitter.settles_next h rounds).map_raw (fun _ => rfl) fun _ _ h => sound_splitter h
  | collect =>
    exact (Splitter.settles_collect h rounds #[]).map_raw (fun _ => rfl)
      fun _ _ h => sound_splitter h
  | reclaim => exact settlesOn_some (sound_reader h)
  | _ => exact settlesOn_some (sound_splitter h)

/-- Every operation of a session that waits settles. -/
theorem settles_perform_waits {s : Session σ} (h : s.raw.Sound taken) (rounds : Nat)
    {op : Operation} (hfits : op.Fits) :
    (@perform σ (.ofWaited σ) .waits rounds 1 s.raw op).SettlesOn taken
      ((s.performWithin rounds op).map Session.rawOutcome) fun p taken' => p.2.Sound taken' := by
  let _ : PolledSource σ := .ofWaited σ
  rw [perform, Session.performWithin]
  by_cases htakeOut : op = .takeOut
  · rw [if_pos htakeOut, if_pos htakeOut]
    exact settlesOn_some (sound_withOut h #[])
  · rw [if_neg htakeOut, if_neg htakeOut]
    rcases s with ⟨r | splitter | source, out⟩
    · exact settles_onReader_waits h.inOrder rounds hfits
    · exact settles_onSplitter h.inOrder rounds op
    · rw [Option.map_some, ← onSource_waits]
      exact settlesOn_some (sound_onSource h op .waits source)

/-- Every sequence of operations of a session that waits settles. -/
theorem settles_trace_waits (rounds : Nat) {ops : List Operation} {s : Session σ}
    (h : s.raw.Sound taken) (hops : ∀ op ∈ ops, op.Fits) :
    (@trace σ (.ofWaited σ) .waits rounds s.raw (ops.map (·, 1))).SettlesOn taken
      ((s.traceWithin rounds ops).map fun events => events.map Event.raw)
      fun steps _ => ∀ step ∈ steps, step.2.InOrder := by
  let _ : PolledSource σ := .ofWaited σ
  induction ops generalizing s taken with
  | nil => exact settlesOn_some (List.forall_mem_nil _)
  | cons op ops ih =>
    obtain ⟨hfits, hrest⟩ := List.forall_mem_cons.1 hops
    rw [List.map_cons, trace, Session.traceWithin]
    refine Settles.bind (settles_perform_waits h rounds hfits) ?_
    rintro _ taken' ⟨rfl, hsound⟩
    cases hperform : s.performWithin rounds op with
    | none => exact settles_pure ⟨rfl, by rintro _ ⟨⟩⟩
    | some outcome =>
      obtain ⟨reply, s'⟩ := outcome
      rw [hperform] at hsound
      have hsound : s'.raw.Sound taken' := hsound _ rfl
      exact (ih hsound hrest).map_raw (fun _ => rfl) fun steps _ hsteps =>
        List.forall_mem_cons.2 ⟨hsound.inOrder, hsteps⟩

end RawSession

/-! ### Every sequence of operations -/

/-- A computation that is begun before any bytes were taken does not stop with a fault. Unless it is
excused it is unfinished or has a result as expected, and `I` holds of the result. -/
structure Checked.Faultless {α : Type} (m : Checked (Option α)) (expected : Option α)
    (I : α → Prop) : Prop where
  ne_fault : ∀ fault, m 0 ≠ .error (.fault fault)
  eq_expected : ∀ result? taken, m 0 = .ok (result?, taken) → result? = expected
  keeps : ∀ result taken, m 0 = .ok (some result, taken) → I result

theorem Checked.SettlesOn.faultless {α : Type} {m : Checked (Option α)} {expected : Option α}
    {I : α → Prop} (h : m.SettlesOn 0 expected fun result _ => I result) :
    m.Faultless expected I := by
  unfold SettlesOn Settles at h
  refine ⟨fun fault hrun => ?_, fun result? taken hrun => ?_, fun result taken hrun => ?_⟩
  · rw [hrun] at h
    exact h
  · rw [hrun] at h
    exact h.1
  · rw [hrun] at h
    exact h.2 result h.1.symm

/-- In whatever order operations are carried out on a reader and on what is made of it, none of them
meets a fault in machine words. They come to what they come to in natural numbers, and every session
on the way is in order. The buffers to be filled have sizes that fit in a word. Nothing is promised
once a bypassing read counts bytes that its caller has no room for, once unread bytes
are passed over up to a place that no word holds, and once more bytes were taken than a word
counts. -/
theorem no_operation_faults (σ τ : Type) [ByteSource σ] [PolledSource τ] :
    (∀ (source : σ) (start : Start) (s : Session σ) (ops : List Operation) (rounds : Nat),
      Session.start? source start = .ok s →
      (∀ op ∈ ops, op.Fits) →
      s.raw.InOrder ∧
        (@RawSession.trace σ (.ofWaited σ) .waits rounds s.raw (ops.map (·, 1))).Faultless
          ((s.traceWithin rounds ops).map fun events => events.map Event.raw)
          fun steps => ∀ step ∈ steps, step.2.InOrder) ∧
    ∀ (source : τ) (start : Start) (s : PolledSession τ) (ops : List (Operation × Nat))
      (rounds : Nat),
      PolledSession.start? source start = .ok s →
      (∀ p ∈ ops, p.1.Fits) →
      s.raw.InOrder ∧
        (RawSession.trace .polls rounds s.raw ops).Faultless
          ((s.traceWithin rounds ops).map fun events => events.map PolledEvent.raw)
          fun steps => ∀ step ∈ steps, step.2.InOrder := by
  refine ⟨?_, ?_⟩
  · intro source start s ops rounds hstart hops
    have hraw : RawSession.start? .waits source start = .ok s.raw := by
      rw [RawSession.start?_waits, hstart]
      rfl
    have hsound : s.raw.Sound 0 := RawSession.sound_start hraw
    exact ⟨hsound.inOrder, (RawSession.settles_trace_waits rounds hsound hops).faultless⟩
  · intro source start s ops rounds hstart hops
    have hraw : RawSession.start? .polls source start = .ok s.raw := by
      rw [RawSession.start?_polls, hstart]
      rfl
    have hsound : s.raw.Sound 0 := RawSession.sound_start hraw
    exact ⟨hsound.inOrder, (RawSession.settles_trace_polls rounds hsound hops).faultless⟩

/-- Whether a computation comes to a result. -/
def Checked.finishes {α : Type} (m : Checked (Option α)) : Bool :=
  match m 0 with
  | .ok (some _, _) => true
  | _ => false

theorem Checked.Faultless.exists_of_finishes {α : Type} {m : Checked (Option α)}
    {expected : Option α} {I : α → Prop} (h : m.Faultless expected I) (hm : m.finishes = true) :
    ∃ result taken, m 0 = .ok (some result, taken) ∧ I result := by
  unfold finishes at hm
  split at hm
  · next result taken hrun => exact ⟨result, taken, hrun, h.keeps result taken hrun⟩
  · cases hm

/-- A line, a count of bytes that were never written, a delay, and bytes without an end. -/
def overstated : Script := [.data #[1, 2, 10, 3], .overcount 3, .delay 1, .data #[4, 5]]

/-- Operations that meet all of them: the line is read and the byte behind it passed over, the false
count is refused, the bytes behind it are a line that is put off if the source is polled, and the
source is given to another reader. -/
def encounters : List Operation :=
  [.readLine newline, .fillBuffer, .consume 7, .fillBuffer, .split newline, .next, .reclaim,
    .release, .wrap (.ofCapacity 1), .read #[0, 0], .readByte, .unread]

/-- They are carried out to the end in machine words, and every session on the way is in order. -/
theorem no_operation_faults_overstated :
    (∃ steps taken,
      @RawSession.trace Script (.ofWaited Script) .waits 5
        (⟨.reader (.build overstated ⟨3, some 3⟩), #[]⟩ : Session Script).raw
        (encounters.map (·, 1)) 0 = .ok (some steps, taken) ∧
      ∀ step ∈ steps, step.2.InOrder) ∧
    ∃ steps taken,
      RawSession.trace .polls 5
        (⟨.reader (.build overstated ⟨3, some 3⟩), #[]⟩ : PolledSession Script).raw
        (encounters.map (·, 1)) 0 = .ok (some steps, taken) ∧
      ∀ step ∈ steps, step.2.InOrder := by
  obtain ⟨hwaits, hpolls⟩ := no_operation_faults Script Script
  refine ⟨?_, ?_⟩
  · have hops : ∀ op ∈ encounters, op.Fits := by decide
    have hstart : Session.start? overstated (.ofConfig ⟨3, some 3⟩) =
        .ok (⟨.reader (.build overstated ⟨3, some 3⟩), #[]⟩ : Session Script) := rfl
    obtain ⟨-, hfaultless⟩ := hwaits _ _ _ encounters 5 hstart hops
    exact hfaultless.exists_of_finishes (by decide +kernel)
  · have hops : ∀ p ∈ encounters.map (·, 1), p.1.Fits := by decide
    have hstart : PolledSession.start? overstated (.ofConfig ⟨3, some 3⟩) =
        .ok (⟨.reader (.build overstated ⟨3, some 3⟩), #[]⟩ : PolledSession Script) := rfl
    obtain ⟨-, hfaultless⟩ := hpolls _ _ _ (encounters.map (·, 1)) 5 hstart hops
    exact hfaultless.exists_of_finishes (by decide +kernel)

end BufferedReading
