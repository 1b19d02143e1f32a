import BufferedReading.Proofs.Promptness

/-!
# What the unread bytes decide

An operation whose want is decided by the unread bytes does not turn to the source at all. What it
answers and the window that it leaves do not depend on the source, whatever that would do: two
sessions that differ in nothing but their sources answer alike and stay alike, and each source is as
it was. `Operation.exists_settled`, `Splitter.exists_settled` and `LineStream.exists_settled` say
what the operations come to in terms of the window and the configuration only.

`no_needless_request` puts this together with the rule that a reader asks only in need, for sessions
that wait and for sessions that are polled.
-/

namespace BufferedReading

/-! ### Reads -/

namespace Reader

/-- A read that wants no more than is unread is settled by the window. -/
theorem exists_read_of_decided {window : Window} {buffer : Bytes}
    (h : (Want.part buffer.size).Decided window.toList) :
    ∃ result buffer' w,
      (∀ {σ : Type} [ByteSource σ] (r : Reader σ), r.window = window →
        r.read buffer = ⟨result, buffer', r.withWindow w⟩) ∧
      ∀ {σ : Type} [PolledSource σ] (r : Reader σ), r.window = window →
        r.pollRead buffer = ⟨.ready result, buffer', r.withWindow w⟩ := by
  by_cases hsize : buffer.size = 0
  · refine ⟨.ok 0, buffer, window, ?_, ?_⟩
    · rintro σ _ r rfl
      rw [read, if_pos hsize]
      rfl
    · rintro σ _ r rfl
      rw [pollRead, if_pos hsize]
      rfl
  · have hunread := h.resolve_left hsize
    refine ⟨.ok (min buffer.size window.buffered),
      buffer.overwrite 0 (window.front (min buffer.size window.buffered)),
      window.skip (min buffer.size window.buffered), ?_, ?_⟩
    · rintro σ _ r rfl
      rw [read_of_unread hsize hunread]
      rfl
    · rintro σ _ r rfl
      rw [pollRead_of_unread hsize hunread]
      rfl

/-- A read of one byte is settled by a window with an unread byte. -/
theorem exists_readByte_of_decided {window : Window} (h : (Want.part 1).Decided window.toList) :
    ∃ result w,
      (∀ {σ : Type} [ByteSource σ] (r : Reader σ), r.window = window →
        r.readByte = (result, r.withWindow w)) ∧
      ∀ {σ : Type} [PolledSource σ] (r : Reader σ), r.window = window →
        r.pollByte = (.ready result, r.withWindow w) := by
  have hunread := h.resolve_left Nat.one_ne_zero
  refine ⟨.ok window.pop.1, window.pop.2, ?_, ?_⟩
  · rintro σ _ r rfl
    exact readByte_of_unread hunread
  · rintro σ _ r rfl
    exact pollByte_of_unread hunread

/-- A look at the unread bytes is settled by a window with an unread byte. -/
theorem exists_fillBuffer_of_decided {window : Window}
    (h : (Want.part 1).Decided window.toList) :
    ∃ result w,
      (∀ {σ : Type} [ByteSource σ] (r : Reader σ), r.window = window →
        r.fillBuffer = (result, r.withWindow w)) ∧
      ∀ {σ : Type} [PolledSource σ] (r : Reader σ), r.window = window →
        r.pollFillBuffer = (.ready result, r.withWindow w) := by
  have hunread := h.resolve_left Nat.one_ne_zero
  refine ⟨.ok window.unread, window, ?_, ?_⟩
  · rintro σ _ r rfl
    exact fillBuffer_of_unread hunread
  · rintro σ _ r rfl
    exact pollFillBuffer_of_unread hunread

/-- Filling a buffer for which enough bytes are unread is settled by the window. -/
theorem exists_readExact_of_decided {window : Window} {buffer : Bytes}
    (h : (Want.whole buffer.size).Decided window.toList) :
    ∃ result done rest w,
      (∀ {σ : Type} [ByteSource σ] (r : Reader σ), r.window = window →
        r.readExact buffer = ⟨result, done ++ rest, r.withWindow w⟩) ∧
      ∀ {σ : Type} [PolledSource σ] (r : Reader σ), r.window = window →
        r.pollExact #[] buffer = ⟨.ready result, done, rest, r.withWindow w⟩ := by
  by_cases hsize : buffer.size = 0
  · refine ⟨.ok (), #[], buffer, window, ?_, ?_⟩
    · rintro σ _ r rfl
      rw [readExact, readExactFrom, dif_pos hsize]
      rfl
    · rintro σ _ r rfl
      rw [pollExact_of_full r #[] hsize]
      rfl
  · have hle : buffer.size ≤ window.buffered := window.length_toList ▸ h
    have hcount : min buffer.size window.buffered = buffer.size := Nat.min_eq_left hle
    have hunread : window.toList ≠ [] := by
      rw [ne_eq, ← List.length_eq_zero_iff, window.length_toList]
      omega
    -- one read fills the buffer, and nothing is left to be filled behind it
    have hrest : ((buffer.overwrite 0 (window.front buffer.size)).extract buffer.size
        (buffer.overwrite 0 (window.front buffer.size)).size).size = 0 := by
      simp
    refine ⟨.ok (), #[] ++ (buffer.overwrite 0 (window.front buffer.size)).extract 0 buffer.size,
      (buffer.overwrite 0 (window.front buffer.size)).extract buffer.size
        (buffer.overwrite 0 (window.front buffer.size)).size, window.skip buffer.size, ?_, ?_⟩
    · rintro σ _ r rfl
      rw [readExact, readExactFrom_eq r #[] hsize, read_of_unread hsize hunread]
      simp only [deliver, hcount, if_neg hsize, Nat.lt_irrefl, false_and, if_false]
      rw [readExactFrom, dif_pos hrest]
      rfl
    · rintro σ _ r rfl
      rw [pollExact_eq r #[] hsize, pollRead_of_unread hsize hunread]
      simp only [Call.ready, deliver, hcount, if_neg hsize, Nat.lt_irrefl, false_and, if_false]
      rw [pollExact_of_full _ _ hrest]
      rfl

/-- A delimiter read that meets the delimiter or its limit among the unread bytes is settled by the
window. -/
theorem exists_line_of_decided {window : Window} {scan : Scan}
    (h : (Want.line scan).Decided window.toList) (out : Bytes) :
    ∃ result scan' out' w,
      (∀ {σ : Type} [ByteSource σ] (r : Reader σ) (rounds : Nat), r.window = window →
        lineWithin (rounds + 1) scan r out = some ⟨result, out', r.withWindow w⟩) ∧
      ∀ {σ : Type} [PolledSource σ] (r : Reader σ) (rounds : Nat), r.window = window →
        pollLineWithin (rounds + 1) r scan out =
          some ⟨.ready result, scan', out', r.withWindow w⟩ := by
  obtain ⟨hverdict, -⟩ := scan.advance_eq_walk window out
  cases hv : (scan.walk window.toList).verdict with
  | starved => exact absurd h (Want.not_decided_line.2 hv)
  | found =>
    refine ⟨.ok true, (scan.advance window out).scan, (scan.advance window out).out,
      (scan.advance window out).window, ?_, ?_⟩
    · rintro σ _ r rounds rfl
      exact lineWithin_of_found (hverdict.trans hv)
    · rintro σ _ r rounds rfl
      exact pollLineWithin_of_found (hverdict.trans hv)
  | overlong limit =>
    refine ⟨.error (.lineTooLong limit), (scan.advance window out).scan,
      (scan.advance window out).out, (scan.advance window out).window, ?_, ?_⟩
    · rintro σ _ r rounds rfl
      exact lineWithin_of_overlong (hverdict.trans hv)
    · rintro σ _ r rounds rfl
      exact pollLineWithin_of_overlong (hverdict.trans hv)

end Reader

/-! ### Operations -/

/-- An operation on a reader that wants no more than is unread is settled by the window and the
accumulator. -/
theorem Operation.exists_settled {op : Operation} {limit : Option Nat} {want : Want}
    {window : Window} (hwant : op.want? limit = some want)
    (h : want.Decided window.toList) (out : Bytes) :
    ∃ reply w out',
      (∀ {σ : Type} [ByteSource σ] (s : Session σ) (r : Reader σ) (rounds : Nat),
        r.window = window → r.config.lineLimit = limit → s.out = out →
        s.onReader (rounds + 1) r op = some (reply, ⟨.reader (r.withWindow w), out'⟩)) ∧
      ∀ {σ : Type} [PolledSource σ] (s : PolledSession σ) (r : Reader σ) (rounds attempts : Nat),
        r.window = window → r.config.lineLimit = limit → s.out = out →
        s.onReader (rounds + 1) (attempts + 1) r op =
          some ⟨reply, 1, ⟨.reader (r.withWindow w), out'⟩⟩ := by
  cases op with
  | read buffer =>
    obtain rfl := Option.some.inj hwant
    obtain ⟨result, buffer', w, hwaits, hpolls⟩ := Reader.exists_read_of_decided h
    refine ⟨.count result buffer', w, out, ?_, ?_⟩
    · intro σ _ s r rounds hwindow _ hout
      subst hout
      exact congrArg
        (fun call => some (Reply.count call.result call.buffer, s.withReader call.reader))
        (hwaits r hwindow)
    · intro σ _ s r rounds attempts hwindow _ hout
      subst hout
      exact Option.map_eq_some_iff.2
        ⟨_, PolledSession.driveBuffer_of_ready (hpolls r hwindow) attempts, rfl⟩
  | readPlain buffer =>
    obtain rfl := Option.some.inj hwant
    obtain ⟨result, buffer', w, hwaits, hpolls⟩ := Reader.exists_read_of_decided h
    refine ⟨.plainCount (result.mapError ReadError.toFailure) buffer', w, out, ?_, ?_⟩
    · intro σ _ s r rounds hwindow _ hout
      subst hout
      exact congrArg
        (fun call => some (Reply.plainCount (call.result.mapError ReadError.toFailure) call.buffer,
          s.withReader call.reader))
        (hwaits r hwindow)
    · intro σ _ s r rounds attempts hwindow _ hout
      subst hout
      exact Option.map_eq_some_iff.2
        ⟨_, PolledSession.driveBuffer_of_ready (hpolls r hwindow) attempts, rfl⟩
  | readExact buffer =>
    obtain rfl := Option.some.inj hwant
    obtain ⟨result, done, rest, w, hwaits, hpolls⟩ := Reader.exists_readExact_of_decided h
    refine ⟨.filled result (done ++ rest), w, out, ?_, ?_⟩
    · intro σ _ s r rounds hwindow _ hout
      subst hout
      exact congrArg
        (fun call => some (Reply.filled call.result call.buffer, s.withReader call.reader))
        (hwaits r hwindow)
    · intro σ _ s r rounds attempts hwindow _ hout
      subst hout
      exact Option.map_eq_some_iff.2
        ⟨_, PolledSession.driveExact_of_ready (hpolls r hwindow) attempts, rfl⟩
  | readByte =>
    obtain rfl := Option.some.inj hwant
    obtain ⟨result, w, hwaits, hpolls⟩ := Reader.exists_readByte_of_decided h
    refine ⟨.byte result, w, out, ?_, ?_⟩
    · intro σ _ s r rounds hwindow _ hout
      subst hout
      exact congrArg (fun read => some (Reply.byte read.1, s.withReader read.2)) (hwaits r hwindow)
    · intro σ _ s r rounds attempts hwindow _ hout
      subst hout
      exact Option.map_eq_some_iff.2
        ⟨_, PolledSession.driveReader_of_ready (hpolls r hwindow) attempts, rfl⟩
  | fillBuffer =>
    obtain rfl := Option.some.inj hwant
    obtain ⟨result, w, hwaits, hpolls⟩ := Reader.exists_fillBuffer_of_decided h
    refine ⟨.available result, w, out, ?_, ?_⟩
    · intro σ _ s r rounds hwindow _ hout
      subst hout
      exact congrArg (fun look => some (Reply.available look.1, s.withReader look.2))
        (hwaits r hwindow)
    · intro σ _ s r rounds attempts hwindow _ hout
      subst hout
      exact Option.map_eq_some_iff.2
        ⟨_, PolledSession.driveReader_of_ready (hpolls r hwindow) attempts, rfl⟩
  | readLine delim =>
    obtain rfl := Option.some.inj hwant
    obtain ⟨result, scan, line, w, hwaits, hpolls⟩ := Reader.exists_line_of_decided h #[]
    refine ⟨.line (result.map fun complete => ⟨line, complete⟩), w, out, ?_, ?_⟩
    · intro σ _ s r rounds hwindow hlimit hout
      subst hlimit hout
      exact Option.map_eq_some_iff.2 ⟨_, hwaits r rounds hwindow, rfl⟩
    · intro σ _ s r rounds attempts hwindow hlimit hout
      subst hlimit hout
      exact Option.map_eq_some_iff.2
        ⟨_, PolledSession.driveLine_of_ready (hpolls r rounds hwindow) attempts, rfl⟩
  | readLineInto delim =>
    obtain rfl := Option.some.inj hwant
    obtain ⟨result, scan, out', w, hwaits, hpolls⟩ := Reader.exists_line_of_decided h out
    refine ⟨.appended result out', w, out', ?_, ?_⟩
    · intro σ _ s r rounds hwindow hlimit hout
      subst hlimit hout
      exact Option.map_eq_some_iff.2 ⟨_, hwaits r rounds hwindow, rfl⟩
    · intro σ _ s r rounds attempts hwindow hlimit hout
      subst hlimit hout
      exact Option.map_eq_some_iff.2
        ⟨_, PolledSession.driveLine_of_ready (hpolls r rounds hwindow) attempts, rfl⟩
  | _ => cases hwant

/-- What a delimiter read yields and whether the splitter is finished by it do not depend on the
reader. -/
theorem Splitter.exists_conclude (delim : UInt8) (result : Except ReadError Bool) (line : Bytes) :
    ∃ item? finished, ∀ {σ : Type} (r : Reader σ),
      conclude delim ⟨result, line, r⟩ = (item?, ⟨r, delim, finished⟩) := by
  rcases result with e | complete
  · exact ⟨some (.error e), true, fun r => rfl⟩
  · cases complete with
    | true => exact ⟨some (.ok ⟨line, true⟩), false, fun r => rfl⟩
    | false =>
      exact ⟨if line.isEmpty then none else some (.ok ⟨line, false⟩), true, fun r => rfl⟩

/-- The next line of a splitter that wants no more than is unread is settled by the window. -/
theorem Splitter.exists_settled {delim : UInt8} {finished : Bool} {limit : Option Nat}
    {window : Window}
    (h : (if finished then Want.part 0 else .line (.start delim limit)).Decided
      window.toList) :
    ∃ item? w finished', ∀ {σ : Type} [ByteSource σ] (r : Reader σ) (rounds : Nat),
      r.window = window → r.config.lineLimit = limit →
      nextWithin (rounds + 1) ⟨r, delim, finished⟩ =
        some (item?, ⟨r.withWindow w, delim, finished'⟩) := by
  cases finished with
  | true =>
    refine ⟨none, window, true, ?_⟩
    rintro σ _ r rounds rfl -
    rfl
  | false =>
    obtain ⟨result, -, line, w, hwaits, -⟩ := Reader.exists_line_of_decided h #[]
    obtain ⟨item?, finished', hconclude⟩ := exists_conclude delim result line
    refine ⟨item?, w, finished', ?_⟩
    rintro σ _ r rounds hwindow rfl
    rw [nextWithin, if_neg Bool.false_ne_true, hwaits r rounds hwindow, Option.map_some, hconclude]

/-- What an attempt yields that comes to its end, and the stream behind it, do not depend on the
reader. -/
theorem LineStream.exists_conclude (delim : UInt8) (result : Except ReadError Bool) (scan : Scan)
    (out : Bytes) :
    ∃ item? scan' pending finished, ∀ {σ : Type} (r : Reader σ),
      conclude delim ⟨.ready result, scan, out, r⟩ =
        (.ready item?, ⟨r, delim, scan', pending, finished⟩) := by
  rcases result with e | complete
  · exact ⟨some (.error e), scan.reset, out, true, fun r => rfl⟩
  · cases complete with
    | true => exact ⟨some (.ok ⟨out, true⟩), scan.reset, #[], false, fun r => rfl⟩
    | false =>
      exact ⟨if out.isEmpty then none else some (.ok ⟨out, false⟩), scan.reset, #[], true,
        fun r => rfl⟩

/-- The next line of a stream that wants no more than is unread is settled by the window and what
the stream keeps of the line under way. -/
theorem LineStream.exists_settled {delim : UInt8} {scan : Scan} {pending : Bytes} {finished : Bool}
    {window : Window}
    (h : (if finished then Want.part 0 else .line scan).Decided window.toList) :
    ∃ item? w scan' pending' finished', ∀ {σ : Type} [PolledSource σ] (r : Reader σ) (rounds : Nat),
      r.window = window → pollNextWithin (rounds + 1) ⟨r, delim, scan, pending, finished⟩ =
        some (.ready item?, ⟨r.withWindow w, delim, scan', pending', finished'⟩) := by
  cases finished with
  | true =>
    refine ⟨none, window, scan, pending, true, ?_⟩
    rintro σ _ r rounds rfl
    rfl
  | false =>
    obtain ⟨result, scan', out, w, -, hpolls⟩ := Reader.exists_line_of_decided h pending
    obtain ⟨item?, scan'', pending', finished', hconclude⟩ := exists_conclude delim result scan' out
    refine ⟨item?, w, scan'', pending', finished', ?_⟩
    rintro σ _ r rounds hwindow
    rw [pollNextWithin, if_neg Bool.false_ne_true, hpolls r rounds hwindow, Option.map_some,
      hconclude]

/-! ### Two sessions over different sources -/

section Twins

variable {σ τ : Type}

/-- Two readers of the same window and the same configuration. Their sources and what they have
asked of them may be anything. -/
structure Reader.Twins (r : Reader σ) (t : Reader τ) : Prop where
  window_eq : r.window = t.window
  config_eq : r.config = t.config

/-- Two sessions that differ in nothing but the sources of their readers and the journals. -/
inductive Session.Twins : Session σ → Session τ → Prop where
  | reader {r : Reader σ} {t : Reader τ} (out : Bytes) (h : r.Twins t) :
    Twins ⟨.reader r, out⟩ ⟨.reader t, out⟩
  | splitter {r : Reader σ} {t : Reader τ} (delim : UInt8) (finished : Bool) (out : Bytes)
    (h : r.Twins t) :
    Twins ⟨.splitter ⟨r, delim, finished⟩, out⟩ ⟨.splitter ⟨t, delim, finished⟩, out⟩

/-- Two polled sessions that differ in nothing but the sources of their readers and the journals. -/
inductive PolledSession.Twins : PolledSession σ → PolledSession τ → Prop where
  | reader {r : Reader σ} {t : Reader τ} (out : Bytes) (h : r.Twins t) :
    Twins ⟨.reader r, out⟩ ⟨.reader t, out⟩
  | stream {r : Reader σ} {t : Reader τ} (delim : UInt8) (scan : Scan) (pending : Bytes)
    (finished : Bool) (out : Bytes) (h : r.Twins t) :
    Twins ⟨.stream ⟨r, delim, scan, pending, finished⟩, out⟩
      ⟨.stream ⟨t, delim, scan, pending, finished⟩, out⟩

/-- An operation comes to its end, answers alike in two sessions and leaves them alike, and neither
session has asked its source for anything. -/
structure Session.SettledAlike [ByteSource σ] [ByteSource τ] (rounds : Nat) (op : Operation)
    (s s' : Session σ) (t t' : Session τ) (reply : Reply) : Prop where
  first : s.performWithin rounds op = some (reply, s')
  second : t.performWithin rounds op = some (reply, t')
  twins : s'.Twins t'
  source_first : s'.source = s.source
  source_second : t'.source = t.source
  journal_first : s'.journal = s.journal
  journal_second : t'.journal = t.journal

/-- An operation comes to its end in one attempt, answers alike in two polled sessions and leaves
them alike, and neither session has asked its source for anything. -/
structure PolledSession.SettledAlike [PolledSource σ] [PolledSource τ] (rounds attempts : Nat)
    (op : Operation) (s s' : PolledSession σ) (t t' : PolledSession τ) (reply : Reply) :
    Prop where
  first : s.performWithin rounds attempts op = some ⟨reply, 1, s'⟩
  second : t.performWithin rounds attempts op = some ⟨reply, 1, t'⟩
  twins : s'.Twins t'
  source_first : s'.source = s.source
  source_second : t'.source = t.source
  journal_first : s'.journal = s.journal
  journal_second : t'.journal = t.journal

theorem Session.performWithin_next [ByteSource σ] (rounds : Nat) (splitter : Splitter σ)
    (out : Bytes) :
    (⟨.splitter splitter, out⟩ : Session σ).performWithin rounds .next =
      (splitter.nextWithin rounds).map fun (item?, splitter) =>
        (.item item?, ⟨.splitter splitter, out⟩) := rfl

theorem PolledSession.performWithin_next [PolledSource σ] (rounds attempts : Nat)
    (stream : LineStream σ) (out : Bytes) :
    (⟨.stream stream, out⟩ : PolledSession σ).performWithin rounds attempts .next =
      (driveNext rounds attempts stream).map fun (item?, made, stream) =>
        ⟨settle none .item item?, made, ⟨.stream stream, out⟩⟩ := rfl

variable {op : Operation} {want : Want} {r : Reader σ}

/-- What is decided by the unread bytes is settled alike in two sessions that wait for different
sources. -/
theorem Session.Twins.exists_settledAlike [ByteSource σ] [ByteSource τ] {s : Session σ}
    {t : Session τ} (htwins : s.Twins t) (hwant : s.want? op = some want)
    (hr : s.inner? = some r) (h : want.Decided r.window.toList) (rounds : Nat) :
    ∃ reply s' t', SettledAlike (rounds + 1) op s s' t t' reply := by
  cases htwins with
  | @reader a b out hab =>
    obtain rfl := Option.some.inj hr
    have hop : op ≠ .takeOut := by
      rintro rfl
      cases hwant
    obtain ⟨reply, w, out', hwaits, -⟩ := Operation.exists_settled hwant h out
    refine ⟨reply, ⟨.reader (a.withWindow w), out'⟩, ⟨.reader (b.withWindow w), out'⟩, ?_, ?_,
      .reader out' ⟨rfl, hab.config_eq⟩, rfl, rfl, rfl, rfl⟩
    · rw [performWithin, if_neg hop]
      exact hwaits _ a rounds rfl rfl rfl
    · rw [performWithin, if_neg hop]
      exact hwaits _ b rounds hab.window_eq.symm (by rw [hab.config_eq]) rfl
  | @splitter a b delim finished out hab =>
    obtain rfl := Option.some.inj hr
    simp only [want?, Option.ite_none_right_eq_some, Option.some.injEq] at hwant
    obtain ⟨rfl, rfl⟩ := hwant
    obtain ⟨item?, w, finished', hnext⟩ := Splitter.exists_settled h
    refine ⟨.item item?, ⟨.splitter ⟨a.withWindow w, delim, finished'⟩, out⟩,
      ⟨.splitter ⟨b.withWindow w, delim, finished'⟩, out⟩, ?_, ?_,
      .splitter delim finished' out ⟨rfl, hab.config_eq⟩, rfl, rfl, rfl, rfl⟩
    · rw [performWithin_next, hnext a rounds rfl rfl]
      rfl
    · rw [performWithin_next, hnext b rounds hab.window_eq.symm (by rw [hab.config_eq])]
      rfl

/-- What is decided by the unread bytes is settled alike in two sessions that poll different
sources. -/
theorem PolledSession.Twins.exists_settledAlike [PolledSource σ] [PolledSource τ]
    {s : PolledSession σ} {t : PolledSession τ} (htwins : s.Twins t)
    (hwant : s.want? op = some want) (hr : s.inner? = some r)
    (h : want.Decided r.window.toList) (rounds attempts : Nat) :
    ∃ reply s' t', SettledAlike (rounds + 1) (attempts + 1) op s s' t t' reply := by
  cases htwins with
  | @reader a b out hab =>
    obtain rfl := Option.some.inj hr
    have hop : op ≠ .takeOut := by
      rintro rfl
      cases hwant
    obtain ⟨reply, w, out', -, hpolls⟩ := Operation.exists_settled hwant h out
    refine ⟨reply, ⟨.reader (a.withWindow w), out'⟩, ⟨.reader (b.withWindow w), out'⟩, ?_, ?_,
      .reader out' ⟨rfl, hab.config_eq⟩, rfl, rfl, rfl, rfl⟩
    · rw [performWithin, if_neg hop]
      exact hpolls _ a rounds attempts rfl rfl rfl
    · rw [performWithin, if_neg hop]
      exact hpolls _ b rounds attempts hab.window_eq.symm (by rw [hab.config_eq]) rfl
  | @stream a b delim scan pending finished out hab =>
    obtain rfl := Option.some.inj hr
    simp only [want?, Option.ite_none_right_eq_some, Option.some.injEq] at hwant
    obtain ⟨rfl, rfl⟩ := hwant
    obtain ⟨item?, w, scan', pending', finished', hnext⟩ := LineStream.exists_settled h
    refine ⟨.item item?, ⟨.stream ⟨a.withWindow w, delim, scan', pending', finished'⟩, out⟩,
      ⟨.stream ⟨b.withWindow w, delim, scan', pending', finished'⟩, out⟩, ?_, ?_,
      .stream delim scan' pending' finished' out ⟨rfl, hab.config_eq⟩, rfl, rfl, rfl, rfl⟩
    · rw [performWithin_next, driveNext_of_ready (hnext a rounds rfl)]
      rfl
    · rw [performWithin_next, driveNext_of_ready (hnext b rounds hab.window_eq.symm)]
      rfl

end Twins

/-! ### No needless request -/

/-- A reader turns to its source only in need, whether it waits for it or polls it, also in a
delimiter read that does not come to an end. If the unread bytes decide what an operation wants, it
comes to its end without a request, and two sessions over different sources answer alike and stay
alike. -/
theorem no_needless_request (σ τ : Type) :
    (∀ [ByteSource σ] (s s' : Session (Recorded σ)) (op : Operation) (want : Want)
        (reply : Reply) (rounds : Nat),
      s.want? op = some want → s.performWithin rounds op = some (reply, s') →
      ∃ r taken r', s.inner? = some r ∧ s'.inner? = some r' ∧
        @Reader.AsksInNeed σ (.ofWaited σ) r want taken r') ∧
    (∀ [PolledSource σ] (s : PolledSession (Recorded σ)) (op : Operation) (want : Want)
        (performance : Performance (Recorded σ)) (rounds attempts : Nat),
      s.want? op = some want → s.performWithin rounds attempts op = some performance →
      ∃ r taken r', s.inner? = some r ∧ performance.session.inner? = some r' ∧
        r.AsksInNeed want taken r') ∧
    (∀ [ByteSource σ] (r : Reader (Recorded σ)) (scan : Scan) (out : Bytes) (rounds : Nat),
      Reader.lineWithin rounds scan r out = none →
      ∃ taken r', @Reader.AsksInNeed σ (.ofWaited σ) r (.line scan) taken r' ∧
        r'.source.history.size = r.source.history.size + rounds ∧
        @Reader.lineAfter _ (.ofWaited _) rounds r scan out =
          (scan.add taken.length, out ++ taken.toArray, r') ∧
        ∀ more, Reader.lineWithin (rounds + more) scan r out =
          Reader.lineWithin more (scan.add taken.length) r' (out ++ taken.toArray)) ∧
    (∀ [PolledSource σ] (r : Reader (Recorded σ)) (scan : Scan) (out : Bytes) (rounds : Nat),
      Reader.pollLineWithin rounds r scan out = none →
      ∃ taken r', r.AsksInNeed (.line scan) taken r' ∧
        r'.source.history.size = r.source.history.size + rounds ∧
        r.lineAfter rounds scan out = (scan.add taken.length, out ++ taken.toArray, r') ∧
        ∀ more, Reader.pollLineWithin (rounds + more) r scan out =
          Reader.pollLineWithin more r' (scan.add taken.length) (out ++ taken.toArray)) ∧
    (∀ [ByteSource σ] [ByteSource τ] (s : Session σ) (t : Session τ) (op : Operation)
        (want : Want) (r : Reader σ) (rounds : Nat),
      s.Twins t → s.want? op = some want → s.inner? = some r →
      want.Decided r.window.toList →
      ∃ reply s' t', Session.SettledAlike (rounds + 1) op s s' t t' reply) ∧
    ∀ [PolledSource σ] [PolledSource τ] (s : PolledSession σ) (t : PolledSession τ)
        (op : Operation) (want : Want) (r : Reader σ) (rounds attempts : Nat),
      s.Twins t → s.want? op = some want → s.inner? = some r →
      want.Decided r.window.toList →
      ∃ reply s' t', PolledSession.SettledAlike (rounds + 1) (attempts + 1) op s s' t t' reply := by
  refine ⟨?_, ?_, ?_, ?_, ?_, ?_⟩
  · intro _ s s' op want reply rounds hwant h
    obtain ⟨r, r', ms, taken, hr, hr', hprompt⟩ := Session.exists_prompt hwant h
    let _ : PolledSource σ := .ofWaited σ
    exact ⟨r, taken, r', hr, hr', hprompt.asksInNeed⟩
  · intro _ s op want performance rounds attempts hwant h
    obtain ⟨r, r', ms, taken, hr, hr', hprompt⟩ := PolledSession.exists_prompt hwant h
    exact ⟨r, taken, r', hr, hr', hprompt.asksInNeed⟩
  · intro _ r scan out rounds h
    have hattempt := Reader.pollLineWithin_eq_none_of_ofWaited h
    obtain ⟨taken, r', hneed, hsize, hafter, hmore⟩ :=
      @Reader.exists_inNeed_of_unfinished σ (.ofWaited σ) r rounds scan out hattempt
    exact ⟨taken, r', hneed, hsize, hafter, fun more => Reader.lineWithin_inj_ofWaited (hmore more)⟩
  · intro _ r scan out rounds h
    exact Reader.exists_inNeed_of_unfinished h
  · intro _ _ s t op want r rounds htwins hwant hr h
    exact htwins.exists_settledAlike hwant hr h rounds
  · intro _ _ s t op want r rounds attempts htwins hwant hr h
    exact htwins.exists_settledAlike hwant hr h rounds attempts

/-- A window with three unread bytes, the second of which ends a line. -/
def endAhead : Window := ⟨#[1, 10, 3, 0], 0, 3, by decide, by decide, by decide⟩

/-- If all answers so far are reliable, a reader that had asked for nothing has taken what they
brought, behind what was unread, up to what is unread now. -/
theorem Reader.AsksInNeed.taken_eq {σ : Type} [PolledSource σ] {r r' : Reader (Recorded σ)}
    {want : Want} {taken bytes : List UInt8} {history : Array Exchange}
    (h : r.AsksInNeed want taken r') (hr : r.source.history = #[])
    (hhistory : r'.source.history = history) (hreliable : ∀ e ∈ history.toList, e.Reliable)
    (hbytes : r.window.toList ++ history.toList.flatMap Exchange.brought =
      bytes ++ r'.window.toList) : taken = bytes := by
  obtain ⟨ms, -, -, hasked, hbalance, -⟩ := h
  rw [hr, hhistory, List.nil_append] at hasked
  rw [hasked] at hreliable hbytes
  exact List.append_cancel_right ((hbalance hreliable).symm.trans hbytes)

/-- A line in two pieces is read, which takes two requests, or three where the source puts one off.
Of a longer line two bytes have been taken behind three rounds, and the third is unread. A line that
is all unread is the same over a source that goes on and over one that fails. -/
theorem no_needless_request_endAhead :
    (∃ s' r', (⟨.reader (.ofCapacity ⟨delayedEnd, #[]⟩ 2), #[]⟩ :
        Session (Recorded Script)).performWithin 3 (.readLine newline) =
          some (.line (.ok ⟨#[1, 2, 10], true⟩), s') ∧
      s'.inner? = some r' ∧ r'.window.toList = [3] ∧
      r'.source.history =
        #[⟨2, .ready (.honest #[1, 2])⟩, ⟨2, .ready (.honest #[10, 3])⟩] ∧
      @Reader.AsksInNeed Script (.ofWaited Script) (.ofCapacity ⟨delayedEnd, #[]⟩ 2)
        (.line (.start newline none)) [1, 2, 10] r') ∧
    (∃ s' r', (⟨.reader (.ofCapacity ⟨delayedEnd, #[]⟩ 2), #[]⟩ :
        PolledSession (Recorded Script)).performWithin 3 2 (.readLine newline) =
          some ⟨.line (.ok ⟨#[1, 2, 10], true⟩), 2, s'⟩ ∧
      s'.inner? = some r' ∧ r'.window.toList = [3] ∧
      r'.source.history =
        #[⟨2, .ready (.honest #[1, 2])⟩, ⟨2, .pending⟩, ⟨2, .ready (.honest #[10, 3])⟩] ∧
      Reader.AsksInNeed (.ofCapacity (⟨delayedEnd, #[]⟩ : Recorded Script) 2)
        (.line (.start newline none)) [1, 2, 10] r') ∧
    (∃ r', r'.source.history.size = 3 ∧ r'.window.toList = [1] ∧
      @Reader.AsksInNeed Script (.ofWaited Script)
        (.ofCapacity ⟨.data #[1, 2] :: delayedEnd, #[]⟩ 1)
        (.line (.start newline none)) [1, 2] r') ∧
    (∃ r', r'.source.history.size = 3 ∧ r'.window.toList = [1] ∧
      Reader.AsksInNeed (.ofCapacity (⟨.data #[1, 2] :: delayedEnd, #[]⟩ : Recorded Script) 1)
        (.line (.start newline none)) [1, 2] r') ∧
    (∃ reply s' t', Session.SettledAlike 1 (.readLine newline)
      (⟨.reader ⟨delayedEnd, endAhead, .ofCapacity 4, #[]⟩, #[]⟩ : Session Script) s'
      (⟨.reader ⟨[.fail (.bare .other)], endAhead, .ofCapacity 4, #[]⟩, #[]⟩ : Session Script) t'
      reply) ∧
    ∃ reply s' t', PolledSession.SettledAlike 1 1 .next
      (⟨.stream ⟨⟨delayedEnd, endAhead, ⟨4, some 4⟩, #[]⟩, newline, ⟨newline, some 4, 2⟩, #[5, 6],
        false⟩, #[]⟩ : PolledSession Script) s'
      (⟨.stream ⟨⟨[.delay 7], endAhead, ⟨4, some 4⟩, #[]⟩, newline, ⟨newline, some 4, 2⟩, #[5, 6],
        false⟩, #[]⟩ : PolledSession Script) t' reply := by
  obtain ⟨hwaits, hpolls, hlineWaits, hlinePolls, htwinsWait, htwinsPoll⟩ :=
    no_needless_request Script Script
  refine ⟨?_, ?_, ?_, ?_, ?_, ?_⟩
  · obtain ⟨⟨reply, s'⟩, hperform⟩ : ∃ outcome,
        (⟨.reader (.ofCapacity ⟨delayedEnd, #[]⟩ 2), #[]⟩ :
          Session (Recorded Script)).performWithin 3 (.readLine newline) = some outcome :=
      Option.isSome_iff_exists.1 (by decide +kernel)
    have hcomes : ((⟨.reader (.ofCapacity ⟨delayedEnd, #[]⟩ 2), #[]⟩ :
        Session (Recorded Script)).performWithin 3 (.readLine newline)).map (fun p =>
          (p.1, p.2.inner?.map fun r => (r.window.toList, r.source.history))) =
        some (.line (.ok ⟨#[1, 2, 10], true⟩), some ([3],
          #[⟨2, .ready (.honest #[1, 2])⟩, ⟨2, .ready (.honest #[10, 3])⟩])) := by
      decide +kernel
    rw [hperform, Option.map_some, Option.some.injEq, Prod.mk.injEq] at hcomes
    obtain ⟨rfl, hcomes⟩ := hcomes
    obtain ⟨r, taken, r', hr, hr', hneed⟩ := hwaits _ s' _ _ _ 3 rfl hperform
    obtain rfl := Option.some.inj hr
    rw [hr', Option.map_some, Option.some.injEq, Prod.mk.injEq] at hcomes
    obtain ⟨hunread, hhistory⟩ := hcomes
    have hbytes : [1, 2, 10, 3] = [1, 2, 10] ++ r'.window.toList := by rw [hunread]; rfl
    obtain rfl := @Reader.AsksInNeed.taken_eq Script (.ofWaited Script) _ _ _ _ _ _ hneed rfl
      hhistory (by decide) hbytes
    exact ⟨s', r', hperform, hr', hunread, hhistory, hneed⟩
  · obtain ⟨⟨reply, made, s'⟩, hperform⟩ : ∃ performance,
        (⟨.reader (.ofCapacity ⟨delayedEnd, #[]⟩ 2), #[]⟩ :
          PolledSession (Recorded Script)).performWithin 3 2 (.readLine newline) =
            some performance := Option.isSome_iff_exists.1 (by decide +kernel)
    have hcomes : ((⟨.reader (.ofCapacity ⟨delayedEnd, #[]⟩ 2), #[]⟩ :
        PolledSession (Recorded Script)).performWithin 3 2 (.readLine newline)).map (fun p =>
          (p.reply, p.attempts, p.session.inner?.map fun r =>
            (r.window.toList, r.source.history))) =
        some (.line (.ok ⟨#[1, 2, 10], true⟩), 2, some ([3],
          #[⟨2, .ready (.honest #[1, 2])⟩, ⟨2, .pending⟩, ⟨2, .ready (.honest #[10, 3])⟩])) := by
      decide +kernel
    rw [hperform, Option.map_some, Option.some.injEq, Prod.mk.injEq, Prod.mk.injEq] at hcomes
    obtain ⟨rfl, rfl, hcomes⟩ := hcomes
    obtain ⟨r, taken, r', hr, hr', hneed⟩ := hpolls _ _ _ _ 3 2 rfl hperform
    obtain rfl := Option.some.inj hr
    rw [hr', Option.map_some, Option.some.injEq, Prod.mk.injEq] at hcomes
    obtain ⟨hunread, hhistory⟩ := hcomes
    have hbytes : [1, 2, 10, 3] = [1, 2, 10] ++ r'.window.toList := by rw [hunread]; rfl
    obtain rfl := hneed.taken_eq rfl hhistory (by decide) hbytes
    exact ⟨s', r', hperform, hr', hunread, hhistory, hneed⟩
  · have hnone : Reader.lineWithin 3 (.start newline none)
        (Reader.ofCapacity (⟨.data #[1, 2] :: delayedEnd, #[]⟩ : Recorded Script) 1) #[] = none :=
      Option.isNone_iff_eq_none.1 (by decide +kernel)
    obtain ⟨taken, r', hneed, hsize, hafter, -⟩ := hlineWaits _ _ _ 3 hnone
    have hstands : (@Reader.lineAfter _ (.ofWaited _) 3
        (.ofCapacity (⟨.data #[1, 2] :: delayedEnd, #[]⟩ : Recorded Script) 1)
        (.start newline none) #[]).2.map Array.toList (·.window.toList) = ([1, 2], [1]) := by
      decide +kernel
    rw [hafter, Array.empty_append] at hstands
    obtain ⟨rfl, hunread⟩ := Prod.mk.inj hstands
    exact ⟨r', hsize, hunread, hneed⟩
  · have hnone : Reader.pollLineWithin 3
        (Reader.ofCapacity (⟨.data #[1, 2] :: delayedEnd, #[]⟩ : Recorded Script) 1)
        (.start newline none) #[] = none := Option.isNone_iff_eq_none.1 (by decide +kernel)
    obtain ⟨taken, r', hneed, hsize, hafter, -⟩ := hlinePolls _ _ _ 3 hnone
    have hstands : ((Reader.ofCapacity (⟨.data #[1, 2] :: delayedEnd, #[]⟩ : Recorded Script)
        1).lineAfter 3 (.start newline none) #[]).2.map Array.toList (·.window.toList) =
          ([1, 2], [1]) := by decide +kernel
    rw [hafter, Array.empty_append] at hstands
    obtain ⟨rfl, hunread⟩ := Prod.mk.inj hstands
    exact ⟨r', hsize, hunread, hneed⟩
  · exact htwinsWait _ _ _ _ _ 0 (.reader #[] ⟨rfl, rfl⟩) rfl rfl
      (by decide : newline ∈ endAhead.toList)
  · exact htwinsPoll _ _ _ _ _ 0 0 (.stream newline _ _ false #[] ⟨rfl, rfl⟩) rfl rfl
      (.inl (by decide))

end BufferedReading
