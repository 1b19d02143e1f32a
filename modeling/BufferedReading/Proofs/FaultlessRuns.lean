import BufferedReading.Machine.Session
import BufferedReading.Proofs.Discipline
import BufferedReading.Proofs.Faultless

/-!
# Attempts and operations in machine words

A polled session of a machine carries out what a polled session carries out, and no operation of it
meets a fault. An operation may be unfinished when its rounds are over, and then it is unfinished in
words as well: `Checked.SettlesOn` says that a computation comes to what is expected of it, and that
something holds of what it comes to.

What holds from operation to operation is that the session is `RawSession.Sound`: its reader is in
order, and a search that a stream keeps has taken no more bytes than were taken in all. A course
leaves a reader in order (`RawReader.InOrder.of_course`), so that nothing but the searches has to be
followed here.
-/

namespace BufferedReading

open Checked

/-! ### Computations that may be unfinished -/

namespace Checked

variable {α β γ δ ς ς' : Type} {taken : Nat}

/-- A computation that is begun when so many bytes have been taken settles on what is expected of
it: it is unfinished or has a result as expected, and `I` holds of the result and of the number of
bytes taken then. -/
def SettlesOn (m : Checked (Option α)) (taken : Nat) (expected : Option α)
    (I : α → Nat → Prop) : Prop :=
  m.Settles taken fun result? taken' =>
    result? = expected ∧ ∀ result, expected = some result → I result taken'

theorem settlesOn_some {a : α} {I : α → Nat → Prop} (h : I a taken) :
    SettlesOn (pure (some a)) taken (some a) I := by
  refine settles_pure ⟨rfl, ?_⟩
  rintro _ ⟨⟩
  exact h

theorem SettlesOn.mono {m : Checked (Option α)} {expected : Option α} {I J : α → Nat → Prop}
    (h : m.SettlesOn taken expected I) (himp : ∀ a taken', I a taken' → J a taken') :
    m.SettlesOn taken expected J :=
  Settles.mono h fun _ taken' hsettled =>
    ⟨hsettled.1, fun a ha => himp a taken' (hsettled.2 a ha)⟩

/-- What is made of a result is what is made of the expected one. -/
theorem SettlesOn.map {m : Checked (Option α)} {expected : Option α} {I : α → Nat → Prop}
    {g : α → β} {J : β → Nat → Prop} (h : m.SettlesOn taken expected I)
    (hkeeps : ∀ a taken', I a taken' → J (g a) taken') :
    SettlesOn (m >>= fun result? => pure (result?.map g)) taken (expected.map g) J := by
  refine Settles.bind h ?_
  rintro _ taken' ⟨rfl, hI⟩
  refine settles_pure ⟨rfl, fun b hb => ?_⟩
  obtain ⟨a, ha, rfl⟩ := Option.map_eq_some_iff.1 hb
  exact hkeeps a taken' (hI a ha)

/-- The same of a result that is expected in the form that a machine has it, if what is made of it
in words is the form that a machine has of what is made of it. -/
theorem SettlesOn.map_raw {m : Checked (Option β)} {typed? : Option α} {raw : α → β}
    {I : β → Nat → Prop} {f : α → γ} {g : β → δ} {raw' : γ → δ} {J : δ → Nat → Prop}
    (h : m.SettlesOn taken (typed?.map raw) I) (heq : ∀ a, g (raw a) = raw' (f a))
    (hkeeps : ∀ b taken', I b taken' → J (g b) taken') :
    SettlesOn (m >>= fun result? => pure (result?.map g)) taken ((typed?.map f).map raw') J := by
  have hmap := h.map hkeeps
  rwa [Option.map_map, show g ∘ raw = raw' ∘ f from funext heq, ← Option.map_map] at hmap

/-- Attempts settle if each of them does. -/
theorem settlesOn_drive {attempt : ς → Option (Poll α × ς)}
    {attempt' : ς' → Checked (Option (Poll α × ς'))} (raw : ς → ς') (I : ς' → Nat → Prop)
    (hstep : ∀ s taken, I (raw s) taken →
      (attempt' (raw s)).SettlesOn taken ((attempt s).map fun p => (p.1, raw p.2))
        fun p taken' => I p.2 taken')
    {attempts made : Nat} {s : ς} (h : I (raw s) taken) :
    (drive attempt' attempts (raw s)).SettlesOn taken
      ((Poll.drive attempt attempts made s).map fun p => (p.1, raw p.2.2))
      fun p taken' => I p.2 taken' := by
  -- an attempt that is put off leaves a state in which the next one may be made
  induction attempts generalizing made taken s with
  | zero => exact settlesOn_some h
  | succ attempts ih =>
    rw [drive, Poll.drive]
    refine Settles.bind (hstep s taken h) ?_
    rintro _ taken' ⟨rfl, hkeeps⟩
    cases hattempt : attempt s with
    | none => exact settles_pure ⟨rfl, by simp⟩
    | some outcome =>
      obtain ⟨p, s'⟩ := outcome
      rw [hattempt] at hkeeps
      have hs' : I (raw s') taken' := hkeeps _ rfl
      cases p with
      | pending => exact ih hs'
      | ready a => exact settlesOn_some hs'

/-- A single attempt is the attempt. -/
theorem drive_one (attempt : ς → Checked (Option (Poll α × ς))) (s : ς) :
    drive attempt 1 s = attempt s := by
  rw [← bind_pure (attempt s), drive]
  refine congrArg (attempt s >>= ·) (funext fun outcome? => ?_)
  cases outcome? with
  | none => rfl
  | some outcome =>
    obtain ⟨p, s'⟩ := outcome
    cases p with
    | pending => rfl
    | ready a => rfl

end Checked

/-! ### Attempts -/

/-- A course leaves a reader in order. -/
theorem RawReader.InOrder.of_course {σ : Type} [PolledSource σ] {r r' : Reader σ}
    {room : Option Nat} {ms : List Move} {bytes : List UInt8} (hr : r.raw.InOrder)
    (h : r.Course room ms bytes r') : r'.raw.InOrder := by
  have hcapacity : r'.window.arena.size = r.window.arena.size := h.capacity
  constructor
  · exact RawWindow.ordered_raw r'.window
  · exact hcapacity.trans (hr.size_eq.trans (congrArg Config.capacity h.config.symm))
  · exact hcapacity ▸ hr.size_lt

/-- Passing over bytes leaves a reader in order. -/
theorem RawReader.InOrder.skip {σ : Type} {r : Reader σ} (hr : r.raw.InOrder) (count : Nat) :
    (r.skip count).raw.InOrder :=
  ⟨RawWindow.ordered_raw _, hr.size_eq, hr.size_lt⟩

namespace RawSession

variable {σ α : Type} {r : Reader σ} {taken : Nat}

/-- The attempts of a read that works on a buffer settle if each of them does. -/
theorem settles_driveBuffer {attempt : Reader σ → Bytes → Call (Reader σ) (Poll α)}
    {attempt' : RawReader σ → Bytes → Checked (Call (RawReader σ) (Poll α))}
    (hattempt : ∀ (a : Reader σ) buffer taken, a.raw.InOrder →
      (attempt' a.raw buffer).Settles taken fun call _ =>
        call = (attempt a buffer).raw ∧ call.reader.InOrder)
    (hr : r.raw.InOrder) (attempts : Nat) (buffer : Bytes) :
    (driveBuffer attempt' attempts r.raw buffer).SettlesOn taken
      ((PolledSession.driveBuffer attempt attempts r buffer).map
        fun p => (p.1, p.2.2.1, p.2.2.2.raw))
      fun p _ => p.2.2.InOrder := by
  refine settlesOn_drive (s := (buffer, r)) (fun s => (s.1, s.2.raw)) (fun s _ => s.2.InOrder)
    ?_ hr
  rintro ⟨held, a⟩ taken ha
  refine Settles.bind (hattempt a held taken ha) ?_
  rintro _ taken' ⟨rfl, hkeeps⟩
  exact settlesOn_some hkeeps

/-- The attempts of a read that works on the reader alone settle if each of them does. -/
theorem settles_driveReader {attempt : Reader σ → Poll α × Reader σ}
    {attempt' : RawReader σ → Checked (Poll α × RawReader σ)}
    (hattempt : ∀ (a : Reader σ) taken, a.raw.InOrder →
      (attempt' a.raw).Settles taken fun outcome _ =>
        outcome = ((attempt a).1, (attempt a).2.raw) ∧ outcome.2.InOrder)
    (hr : r.raw.InOrder) (attempts : Nat) :
    (driveReader attempt' attempts r.raw).SettlesOn taken
      ((PolledSession.driveReader attempt attempts r).map fun p => (p.1, p.2.2.raw))
      fun p _ => p.2.InOrder := by
  refine settlesOn_drive Reader.raw (fun a _ => a.InOrder) ?_ hr
  intro a taken ha
  refine Settles.map ((hattempt a taken ha).mono ?_)
  rintro _ taken' ⟨rfl, hkeeps⟩
  refine ⟨rfl, ?_⟩
  rintro _ ⟨⟩
  exact hkeeps

variable [PolledSource σ]

/-- An attempt at a read leaves the reader in order. -/
theorem settles_pollRead (hr : r.raw.InOrder) (buffer : Bytes) :
    (r.raw.pollRead buffer).Settles taken fun call _ =>
      call = (r.pollRead buffer).raw ∧ call.reader.InOrder := by
  refine (Reader.settles_pollRead hr.size_lt buffer).mono ?_
  rintro _ taken' ⟨rfl, -, -⟩
  obtain ⟨ms, hcourse, -⟩ := r.exists_course_pollRead buffer
  exact ⟨rfl, hr.of_course hcourse⟩

/-- An attempt to ask the source leaves the reader in order. -/
theorem settles_pollSource (hr : r.raw.InOrder) (buffer : Bytes) :
    (r.raw.pollSource buffer).Settles taken fun call _ =>
      call = (r.pollSource buffer).raw ∧ call.reader.InOrder := by
  obtain ⟨p, source, hpoll⟩ : ∃ p source,
      PolledSource.poll r.source buffer.size = (p, source) := ⟨_, _, rfl⟩
  have hr' : ({ r.raw with source } : RawReader σ).InOrder := ⟨hr.ordered, hr.size_eq, hr.size_lt⟩
  simp only [RawReader.pollSource, Reader.pollSource, Reader.source_raw, hpoll]
  cases p with
  | pending => exact settles_pure ⟨rfl, hr'⟩
  | ready answer =>
    cases answer with
    | supplied written count => exact settles_pure ⟨rfl, hr'⟩
    | failed cause => exact settles_pure ⟨rfl, hr'⟩

/-- An attempt at a read of one byte leaves the reader in order. -/
theorem settles_pollByte (hr : r.raw.InOrder) :
    r.raw.pollByte.Settles taken fun outcome _ =>
      outcome = (r.pollByte.1, r.pollByte.2.raw) ∧ outcome.2.InOrder := by
  refine (Reader.settles_pollByte hr.size_lt).mono ?_
  rintro _ taken' ⟨rfl, -⟩
  obtain ⟨ms, bytes, hcourse, -⟩ := r.exists_course_pollByte
  exact ⟨rfl, hr.of_course hcourse⟩

/-- An attempt at a look at the unread bytes leaves the reader in order. -/
theorem settles_pollFillBuffer (hr : r.raw.InOrder) :
    r.raw.pollFillBuffer.Settles taken fun outcome _ =>
      outcome = (r.pollFillBuffer.1, r.pollFillBuffer.2.raw) ∧ outcome.2.InOrder := by
  rw [Reader.pollFillBuffer_raw hr.size_lt]
  obtain ⟨ms, hcourse, -⟩ := r.exists_course_pollFillBuffer
  exact settles_pure ⟨rfl, hr.of_course hcourse⟩

/-- An attempt at a delimiter read leaves the reader in order. The search that it leaves has taken
no more bytes than were taken in all and no more than its limit allows. -/
theorem settles_pollLine {scan : Scan} (hr : r.raw.InOrder) (hlimit : scan.WithinLimit)
    (htaken : scan.taken ≤ taken) (rounds : Nat) (out : Bytes) :
    (r.raw.pollLine rounds scan out).SettlesOn taken
      ((r.pollLineWithin rounds scan out).map LineAttempt.raw)
      fun p taken' => p.2.2.InOrder ∧ p.2.1.1.WithinLimit ∧ p.2.1.1.taken ≤ taken' := by
  refine (Reader.settles_pollLine hr.size_lt hlimit htaken out).mono ?_
  rintro _ taken' ⟨rfl, -, hscan⟩
  refine ⟨rfl, fun outcome houtcome => ?_⟩
  obtain ⟨attempt, hattempt, rfl⟩ := Option.map_eq_some_iff.1 houtcome
  obtain ⟨ms, bytes, hcourse, -⟩ := Reader.exists_course_pollLineWithin hattempt
  exact ⟨hr.of_course hcourse, hscan attempt hattempt⟩

/-- The attempts of a read that fills a buffer settle, and keep the size of the buffer. -/
theorem settles_driveExact (hr : r.raw.InOrder) (attempts : Nat) {buffer : Bytes}
    (hsize : buffer.size < wordSize) :
    (driveExact attempts r.raw buffer).SettlesOn taken
      ((PolledSession.driveExact attempts r buffer).map
        fun p => (p.1, (p.2.2.1.1 ++ p.2.2.1.2, p.2.2.1.1.size), p.2.2.2.raw))
      fun p _ => p.2.2.InOrder ∧ p.2.1.1.size = buffer.size := by
  -- in words a buffer is one array and a count; the two parts of it are what the induction is on
  have hstart : driveExact attempts r.raw buffer = Checked.drive
      (fun s => some <$> s.2.pollExact s.1.1 s.1.2) attempts
        ((#[] ++ buffer, (#[] : Bytes).size), r.raw) := by
    rw [Array.empty_append]
    rfl
  rw [hstart]
  refine settlesOn_drive (s := ((#[], buffer), r))
    (fun s => ((s.1.1 ++ s.1.2, s.1.1.size), s.2.raw))
    (fun s _ => s.2.InOrder ∧ s.1.1.size = buffer.size) ?_
    ⟨hr, congrArg Array.size Array.empty_append⟩
  rintro ⟨⟨done, rest⟩, a⟩ taken ⟨ha, hparts⟩
  have hparts : done.size + rest.size = buffer.size := Array.size_append.symm.trans hparts
  refine Settles.map ((Reader.settles_pollExact ha.size_lt done rest (by omega)).mono ?_)
  rintro _ taken' ⟨rfl, -⟩
  refine ⟨rfl, ?_⟩
  rintro _ ⟨⟩
  obtain ⟨ms, bytes, hcourse, hdone, hlength, -⟩ := a.exists_course_pollExact done rest
  have hadded := congrArg List.length hdone
  rw [List.length_append, Array.length_toList, Array.length_toList] at hadded
  refine ⟨ha.of_course hcourse, ?_⟩
  simp only [Array.size_append]
  omega

/-- The attempts of a delimiter read settle. The search that they leave has taken no more bytes than
were taken in all and no more than its limit allows. -/
theorem settles_driveLine (hr : r.raw.InOrder) (rounds attempts : Nat) (delim : UInt8)
    (out : Bytes) :
    (driveLine rounds attempts r.raw delim out).SettlesOn taken
      ((PolledSession.driveLine rounds attempts r delim out).map
        fun p => (p.1, p.2.2.1, p.2.2.2.raw))
      fun p taken' => p.2.2.InOrder ∧ p.2.1.1.WithinLimit ∧ p.2.1.1.taken ≤ taken' := by
  refine settlesOn_drive (s := ((Scan.start delim r.config.lineLimit, out), r))
    (fun s => (s.1, s.2.raw))
    (fun s taken => s.2.InOrder ∧ Scan.WithinLimit s.1.1 ∧ Scan.taken s.1.1 ≤ taken) ?_
    ⟨hr, Scan.withinLimit_start _ _, Nat.zero_le _⟩
  rintro ⟨⟨scan, held⟩, a⟩ taken ⟨ha, hlimit, htaken⟩
  simp only [Option.map_map]
  exact settles_pollLine ha hlimit htaken rounds held

end RawSession

/-! ### Lines of a stream -/

/-- A stream is in order, and its search has taken no more bytes than were taken in all and no more
than its limit allows. -/
structure RawStream.Sound {σ : Type} (stream : RawStream σ) (taken : Nat) : Prop where
  inOrder : stream.reader.InOrder
  withinLimit : stream.scan.WithinLimit
  taken_le : stream.scan.taken ≤ taken

/-- What a line leaves of the search is the search or one begun anew. -/
theorem RawStream.sound_conclude {σ : Type} {taken : Nat}
    {outcome : Poll (Except ReadError Bool) × (Scan × Bytes) × RawReader σ}
    (hr : outcome.2.2.InOrder) (hlimit : outcome.2.1.1.WithinLimit)
    (htaken : outcome.2.1.1.taken ≤ taken) (delim : UInt8) :
    (conclude delim outcome).2.Sound taken := by
  have hreset := Scan.withinLimit_reset outcome.2.1.1
  rcases outcome with ⟨_ | e | complete, ⟨scan, out⟩, r⟩
  · exact ⟨hr, hlimit, htaken⟩
  · exact ⟨hr, hreset, Nat.zero_le _⟩
  · cases complete with
    | true => exact ⟨hr, hreset, Nat.zero_le _⟩
    | false => exact ⟨hr, hreset, Nat.zero_le _⟩

namespace LineStream

variable {σ : Type} {taken : Nat}

theorem conclude_raw (delim : UInt8) (attempt : LineAttempt σ) :
    RawStream.conclude delim attempt.raw =
      ((conclude delim attempt).1, (conclude delim attempt).2.raw) := by
  rcases attempt with ⟨_ | e | complete, scan, out, r⟩
  · rfl
  · rfl
  · cases complete <;> rfl

variable [PolledSource σ]

/-- An attempt at the next line settles. -/
theorem settles_pollNext {stream : LineStream σ} (h : stream.raw.Sound taken) (rounds : Nat) :
    (stream.raw.pollNext rounds).SettlesOn taken
      ((stream.pollNextWithin rounds).map fun p => (p.1, p.2.raw))
      fun p taken' => p.2.Sound taken' := by
  rw [RawStream.pollNext, pollNextWithin]
  by_cases hfinished : stream.finished = true
  · rw [if_pos (show stream.raw.finished = true from hfinished), if_pos hfinished]
    exact settlesOn_some h
  · rw [if_neg (show ¬ stream.raw.finished = true from hfinished), if_neg hfinished]
    exact (RawSession.settles_pollLine h.inOrder h.withinLimit h.taken_le rounds
      stream.pending).map_raw (conclude_raw stream.delim)
        fun _ _ hkeeps => RawStream.sound_conclude hkeeps.1 hkeeps.2.1 hkeeps.2.2 stream.delim

/-- The attempts at the next line settle. -/
theorem settles_driveNext {stream : LineStream σ} (h : stream.raw.Sound taken)
    (rounds attempts : Nat) :
    (Checked.drive (RawStream.pollNext rounds) attempts stream.raw).SettlesOn taken
      ((PolledSession.driveNext rounds attempts stream).map fun p => (p.1, p.2.2.raw))
      fun p taken' => p.2.Sound taken' :=
  settlesOn_drive raw RawStream.Sound (fun _ _ h => settles_pollNext h rounds) h

/-- The attempts at all items still to come settle. -/
theorem settles_harvest {stream : LineStream σ} (h : stream.raw.Sound taken)
    (rounds attempts : Nat) (items : Array Item) (made : Nat) :
    (stream.raw.harvest rounds attempts items).SettlesOn taken
      ((stream.harvestWithin rounds attempts items made).map
        fun harvest => (harvest.items, harvest.ended, harvest.stream.raw))
      fun p taken' => p.2.2.Sound taken' := by
  induction attempts generalizing stream items made taken with
  | zero => exact settlesOn_some h
  | succ attempts ih =>
    rw [RawStream.harvest, harvestWithin]
    refine Settles.bind (settles_pollNext h rounds) ?_
    rintro _ taken' ⟨rfl, hkeeps⟩
    cases hnext : stream.pollNextWithin rounds with
    | none => exact settles_pure ⟨rfl, by simp⟩
    | some outcome =>
      obtain ⟨p, stream'⟩ := outcome
      rw [hnext] at hkeeps
      have hstream : stream'.raw.Sound taken' := hkeeps _ rfl
      rcases p with _ | _ | item
      · exact ih hstream items (made + 1)
      · exact settlesOn_some hstream
      · exact ih hstream (items.push item) (made + 1)

end LineStream

/-! ### Operations -/

/-- The size of a buffer that an operation is to fill fits in a word. -/
def Operation.Fits : Operation → Prop
  | readExact buffer => buffer.size < wordSize
  | _ => True

instance : DecidablePred Operation.Fits := fun op =>
  match op with
  | .readExact buffer => inferInstanceAs (Decidable (buffer.size < wordSize))
  | .read _ | .readPlain _ | .readSource _ | .fill _ | .readByte | .readLine _ | .readLineInto _
  | .readUntil _ | .fillBuffer | .consume _ | .unread | .describe | .split _ | .release | .wrap _
  | .next | .collect | .delimiter | .reclaim | .takeOut => .isTrue trivial

/-- What a session that waits does in a way of its own: the loops that callers make of reads, and
making lines of a reader. -/
def Operation.dependsOnMode : Operation → Bool
  | fill _ | readUntil _ | split _ => true
  | _ => false

/-- A session is in order, and a search that it keeps has taken no more bytes than were taken in
all. -/
structure RawSession.Sound {σ : Type} (s : RawSession σ) (taken : Nat) : Prop where
  inOrder : s.InOrder
  taken_le : ∀ stream, s.holding = .stream stream → stream.scan.taken ≤ taken

/-- What an operation comes to, as a machine has it. -/
def Performance.raw {σ : Type} (performance : Performance σ) : Reply × RawSession σ :=
  (performance.reply, performance.session.raw)

/-- What an event came to, as a machine has it. -/
def PolledEvent.raw {σ : Type} (event : PolledEvent σ) : Reply × RawSession σ :=
  event.performance.raw

namespace RawSession

variable {σ : Type} {taken : Nat} {out : Bytes}

theorem sound_reader {r : RawReader σ} (h : r.InOrder) : Sound ⟨.reader r, out⟩ taken := ⟨h, nofun⟩

theorem sound_splitter {splitter : RawSplitter σ} (h : splitter.reader.InOrder) :
    Sound ⟨.splitter splitter, out⟩ taken := ⟨h, nofun⟩

theorem sound_source (source : σ) : Sound ⟨.source source, out⟩ taken := ⟨trivial, nofun⟩

theorem sound_stream {stream : RawStream σ} (h : stream.Sound taken) :
    Sound ⟨.stream stream, out⟩ taken := by
  refine ⟨⟨h.inOrder, h.withinLimit⟩, ?_⟩
  rintro _ ⟨⟩
  exact h.taken_le

/-- A reader of which lines are made is in order, and nothing has been searched yet. -/
theorem sound_lines {r : RawReader σ} (h : r.InOrder) (mode : Mode) (delim : UInt8) :
    Sound ⟨mode.lines r delim, out⟩ taken := by
  cases mode with
  | waits => exact sound_splitter h
  | polls => exact sound_stream ⟨h, Scan.withinLimit_start _ _, Nat.zero_le _⟩

/-- Passing over unread bytes settles. A caller is answerable for how far it goes. -/
theorem settles_consume {r : Reader σ} (hr : r.raw.InOrder) (count : Nat) :
    SettlesOn
      (if wordSize ≤ r.raw.window.readPos + count then excuse .farConsume
      else do
        let window ← r.raw.window.consume count
        pure (some (Reply.done, withReader ⟨.reader r.raw, out⟩ { r.raw with window })))
      taken (some (PolledSession.passOver ⟨.reader r, out⟩ r count).raw)
      fun p taken' => p.2.Sound taken' := by
  by_cases hfar : wordSize ≤ r.raw.window.readPos + count
  · rw [if_pos hfar]
    exact settles_excuse
  · rw [if_neg hfar]
    rw [PolledSession.passOver_of_lt _ (Nat.not_le.1 hfar)]
    refine Settles.bind (RawWindow.settles_consume (Nat.not_le.1 hfar)) ?_
    rintro _ taken' ⟨rfl, -, -⟩
    exact settlesOn_some (sound_reader (hr.skip count))

variable [PolledSource σ]

/-- Every operation on a reader that is polled settles, and so does one on a reader that waits if it
does the same there. -/
theorem settles_onReader {r : Reader σ} (hr : r.raw.InOrder) {mode : Mode} (rounds attempts : Nat)
    {op : Operation} (hfits : op.Fits) (hmode : op.dependsOnMode = true → mode = .polls) :
    (onReader mode rounds attempts ⟨.reader r.raw, out⟩ r.raw op).SettlesOn taken
      ((PolledSession.onReader rounds attempts ⟨.reader r, out⟩ r op).map Performance.raw)
      fun p taken' => p.2.Sound taken' := by
  cases op with
  | read buffer =>
    exact (settles_driveBuffer (fun _ buffer _ ha => settles_pollRead ha buffer) hr attempts
      buffer).map_raw (fun _ => rfl) fun _ _ h => sound_reader h
  | readPlain buffer =>
    exact (settles_driveBuffer (fun _ buffer _ ha => settles_pollRead ha buffer) hr attempts
      buffer).map_raw (fun _ => rfl) fun _ _ h => sound_reader h
  | readSource buffer =>
    exact (settles_driveBuffer (fun _ buffer _ ha => settles_pollSource ha buffer) hr attempts
      buffer).map_raw (fun _ => rfl) fun _ _ h => sound_reader h
  | readExact buffer =>
    exact (settles_driveExact hr attempts hfits).map_raw (fun _ => rfl)
      fun _ _ h => sound_reader h.1
  | readByte =>
    exact (settles_driveReader (fun _ _ ha => settles_pollByte ha) hr attempts).map_raw
      (fun _ => rfl) fun _ _ h => sound_reader h
  | readLine delim =>
    exact (settles_driveLine hr rounds attempts delim #[]).map_raw (fun _ => rfl)
      fun _ _ h => sound_reader h.1
  | readLineInto delim =>
    exact (settles_driveLine hr rounds attempts delim out).map_raw (fun _ => rfl)
      fun _ _ h => sound_reader h.1
  | fillBuffer =>
    exact (settles_driveReader (fun _ _ ha => settles_pollFillBuffer ha) hr attempts).map_raw
      (fun _ => rfl) fun _ _ h => sound_reader h
  | consume count =>
    exact settles_consume hr count
  | unread =>
    refine Settles.bind (RawWindow.settles_unread r.window) ?_
    rintro _ taken' rfl
    exact settlesOn_some (sound_reader hr)
  | describe =>
    refine Settles.bind (RawWindow.settles_buffered r.window) ?_
    rintro _ taken' rfl
    exact settlesOn_some (sound_reader hr)
  | split delim =>
    obtain rfl := hmode rfl
    exact settlesOn_some (sound_lines hr .polls delim)
  | release => exact settlesOn_some (sound_source r.source)
  | fill buffer | readUntil delim =>
    obtain rfl := hmode rfl
    exact settlesOn_some (sound_reader hr)
  | wrap start | next | collect | delimiter | reclaim | takeOut =>
    exact settlesOn_some (sound_reader hr)

/-- Every operation on the lines of a stream settles. -/
theorem settles_onStream {stream : LineStream σ} (h : stream.raw.Sound taken)
    (rounds attempts : Nat) (op : Operation) :
    (onStream rounds attempts ⟨.stream stream.raw, out⟩ stream.raw op).SettlesOn taken
      ((PolledSession.onStream rounds attempts ⟨.stream stream, out⟩ stream op).map
        Performance.raw)
      fun p taken' => p.2.Sound taken' := by
  cases op with
  | next =>
    exact (LineStream.settles_driveNext h rounds attempts).map_raw (fun _ => rfl)
      fun _ _ h => sound_stream h
  | collect =>
    exact (LineStream.settles_harvest h rounds attempts #[] 0).map_raw (fun _ => rfl)
      fun _ _ h => sound_stream h
  | reclaim => exact settlesOn_some (sound_reader h.inOrder)
  | _ => exact settlesOn_some (sound_stream h)

end RawSession

/-- A reader that has just been made is in order. -/
theorem Start.inOrder_of_reader? {σ : Type} {source : σ} {start : Start} {r : Reader σ}
    (h : start.reader? source = .ok r) : r.raw.InOrder := by
  rcases start.reader?_cases σ with ⟨stop, hstop⟩ | ⟨config, hmax, hbuild⟩
  · cases (hstop source).symm.trans h
  · obtain rfl := Except.ok.inj ((hbuild source).symm.trans h)
    have hsize : (Reader.build source config).window.arena.size = config.capacity :=
      Array.size_replicate.trans (Nat.max_eq_left config.capacity_pos)
    have hword : maxSize < wordSize := by decide
    refine ⟨RawWindow.ordered_raw _, hsize, ?_⟩
    rw [Reader.window_raw, Window.arena_raw, hsize]
    exact Nat.lt_of_le_of_lt hmax hword

namespace RawSession

variable {σ : Type} {taken rounds : Nat} {start : Start} {source : σ}

/-- A polled session of a machine starts as a polled session does. -/
theorem start?_polls (source : σ) (start : Start) :
    start? .polls source start = (PolledSession.start? source start).map PolledSession.raw := by
  rw [start?, PolledSession.start?]
  cases start.reader? source with
  | error e => rfl
  | ok r => cases start <;> rfl

/-- A session that has just been started is sound. -/
theorem sound_start {mode : Mode} {s : RawSession σ}
    (h : start? mode source start = .ok s) : s.Sound taken := by
  rw [start?] at h
  cases hr : start.reader? source with
  | error e => rw [hr] at h; cases h
  | ok r =>
    rw [hr] at h
    have hinOrder := Start.inOrder_of_reader? hr
    cases start with
    | lines delim => exact Except.ok.inj h ▸ sound_lines hinOrder mode delim
    | plain => exact Except.ok.inj h ▸ sound_reader hinOrder
    | ofCapacity capacity => exact Except.ok.inj h ▸ sound_reader hinOrder
    | ofConfig config => exact Except.ok.inj h ▸ sound_reader hinOrder

theorem sound_withOut {s : RawSession σ} (h : s.Sound taken) (out : Bytes) :
    ({ s with out } : RawSession σ).Sound taken := ⟨h.inOrder, h.taken_le⟩

/-- An operation on a bare source leaves a sound session. -/
theorem sound_onSource {s : RawSession σ} (h : s.Sound taken) (op : Operation) (mode : Mode)
    (source : σ) : (s.onSource mode source op).2.Sound taken := by
  cases op with
  | wrap start =>
    rw [onSource]
    cases hstart : start? mode source start with
    | error e => exact h
    | ok fresh => exact sound_withOut (sound_start hstart) s.out
  | _ => exact h

theorem onSource_polls (s : PolledSession σ) (source : σ) (op : Operation) :
    s.raw.onSource .polls source op = (s.onSource source op).raw := by
  cases op with
  | wrap start =>
    rw [onSource, PolledSession.onSource, start?_polls]
    cases PolledSession.start? source start with
    | error e => rfl
    | ok fresh => rfl
  | _ => rfl

variable [PolledSource σ]

/-- Every operation of a polled session settles. -/
theorem settles_perform_polls {s : PolledSession σ} (h : s.raw.Sound taken) (rounds attempts : Nat)
    {op : Operation} (hfits : op.Fits) :
    (s.raw.perform .polls rounds attempts op).SettlesOn taken
      ((s.performWithin rounds attempts op).map Performance.raw)
      fun p taken' => p.2.Sound taken' := by
  rw [perform, PolledSession.performWithin]
  by_cases htakeOut : op = .takeOut
  · rw [if_pos htakeOut, if_pos htakeOut]
    exact settlesOn_some (sound_withOut h #[])
  · rw [if_neg htakeOut, if_neg htakeOut]
    rcases s with ⟨r | stream | source, out⟩
    · exact settles_onReader h.inOrder rounds attempts hfits fun _ => rfl
    · exact settles_onStream ⟨h.inOrder.1, h.inOrder.2, h.taken_le _ rfl⟩ rounds attempts op
    · rw [Option.map_some, ← onSource_polls]
      exact settlesOn_some (sound_onSource h op .polls source)

/-- Every sequence of operations of a polled session settles. -/
theorem settles_trace_polls (rounds : Nat) {ops : List (Operation × Nat)} {s : PolledSession σ}
    (h : s.raw.Sound taken) (hops : ∀ p ∈ ops, p.1.Fits) :
    (trace .polls rounds s.raw ops).SettlesOn taken
      ((s.traceWithin rounds ops).map fun events => events.map PolledEvent.raw)
      fun steps _ => ∀ step ∈ steps, step.2.InOrder := by
  induction ops generalizing s taken with
  | nil => exact settlesOn_some (List.forall_mem_nil _)
  | cons p ops ih =>
    obtain ⟨op, attempts⟩ := p
    obtain ⟨hfits, hrest⟩ := List.forall_mem_cons.1 hops
    rw [trace, PolledSession.traceWithin]
    refine Settles.bind (settles_perform_polls h rounds attempts hfits) ?_
    rintro _ taken' ⟨rfl, hsound⟩
    cases hperform : s.performWithin rounds attempts op with
    | none => exact settles_pure ⟨rfl, by simp⟩
    | some performance =>
      rw [hperform] at hsound
      have hsound := hsound _ rfl
      exact (ih hsound hrest).map_raw (fun _ => rfl) fun steps _ hsteps =>
        List.forall_mem_cons.2 ⟨hsound.inOrder, hsteps⟩

end RawSession

end BufferedReading
