import BufferedReading.Proofs.EventStream
import BufferedReading.Proofs.Reads
import BufferedReading.Session.Blocking

/-!
# Neither the capacity nor the cuts of the source can be seen

A reader over a faithful script reads bytes, lines and buffers as if there were no window: its
replies are those of the stream of events behind the script, whatever its capacity and wherever the
script is cut into steps (`Session.replies_eq_of_events`).

The invariant is `Reader.Shows`: the unread bytes and behind them the events of the source are the
stream still to be read. In particular a refill happens only when the stream itself is at the front
of the source. `Reader.Shows.refill_cases` and `Reader.Shows.read_cases` say what a request to the
source makes of a stream that is shown, and each operation has one lemma that rests on these.
-/

namespace BufferedReading

namespace Reader

/-- A reader over a faithful script shows a stream: its unread bytes, and then the events of its
source. -/
structure Shows (r : Reader Script) (config : Config) (events : List StreamEvent) : Prop where
  config_eq : r.config = config
  faithful : r.source.Faithful
  events_eq : r.window.toList.map .byte ++ r.source.events = events

variable {r : Reader Script} {config : Config} {events : List StreamEvent}

/-- A reader just built shows the events of its script. -/
theorem shows_build {script : Script} (h : script.Faithful) (config : Config) :
    (build script config).Shows config script.events :=
  ⟨rfl, h, by simp [build]⟩

/-- Without unread bytes the source alone has the events. -/
theorem Shows.source_events (h : r.Shows config events) (hunread : r.window.toList = []) :
    r.source.events = events := by
  rw [← h.events_eq, hunread]
  rfl

/-- A refill of an empty window adds bytes and shows the same stream, or it takes the mark in front
of the stream. -/
theorem Shows.refill_cases (h : r.Shows config events) (hunread : r.window.toList = []) :
    (∃ count r', r.refill = (.ok (.added count), r') ∧ r'.Shows config events ∧
      r'.window.toList ≠ []) ∨
    (∃ r' rest, r.refill = (.ok .ended, r') ∧ StreamEvent.Ends events rest ∧
      r'.Shows config rest ∧ r'.window.toList = []) ∨
    (∃ cause r' rest, r.refill = (.error (.source cause), r') ∧ events = .failed cause :: rest ∧
      r'.Shows config rest) := by
  have hpos : 0 < r.capacity := r.window.capacity_pos
  obtain ⟨answer, source, hread⟩ : ∃ answer source, r.source.read r.capacity = (answer, source) :=
    ⟨_, _, rfl⟩
  obtain ⟨w, hw, hrefill⟩ := exists_refill_eq hunread hread
  obtain ⟨hfaithful, hcase⟩ := Script.read_cases h.faithful hpos hread
  rw [h.source_events hunread] at hcase
  rw [hrefill]
  rcases hcase with ⟨bytes, hz, hle, rfl, hevents⟩ | ⟨rfl, hends⟩ | ⟨cause, rfl, hevents⟩
  · have ho : (Answer.honest bytes).outcome r.capacity = .bytes bytes.size := by
      simp [Answer.honest, Answer.outcome, hz, hle]
    have hlist : w.toList = bytes.toList := by
      rw [hw.toList_eq fun _ => Nat.le_refl _, Answer.honest, Answer.brought, if_pos hle]
      exact List.take_of_length_le (by simp)
    rw [ho]
    refine .inl ⟨bytes.size, _, rfl, ⟨h.config_eq, hfaithful, ?_⟩, hw.ne_nil ho⟩
    rw [hevents, window_withWindow, hlist]
    rfl
  · have hnil : w.toList = [] := hw.eq_nil rfl
    refine .inr (.inl ⟨_, source.events, rfl, hends, ⟨h.config_eq, hfaithful, ?_⟩, hnil⟩)
    rw [window_withWindow, hnil]
    rfl
  · have hnil : w.toList = [] := hw.eq_nil rfl
    refine .inr (.inr ⟨cause, _, source.events, rfl, hevents, ⟨h.config_eq, hfaithful, ?_⟩⟩)
    rw [window_withWindow, hnil]
    rfl

/-- A reader with unread bytes delivers bytes from the front of the stream. -/
theorem Shows.exists_deliver_eq (h : r.Shows config events) {buffer : Bytes}
    (hsize : buffer.size ≠ 0) (hunread : r.window.toList ≠ []) :
    ∃ bytes rest, bytes ≠ [] ∧ bytes.length ≤ buffer.size ∧
      (r.deliver buffer).result = .ok bytes.length ∧
      (r.deliver buffer).buffer.toList = bytes ++ buffer.toList.drop bytes.length ∧
      events = bytes.map .byte ++ rest ∧ (r.deliver buffer).reader.Shows config rest := by
  have hb : r.window.buffered ≠ 0 := by
    rwa [← Window.length_toList, ne_eq, List.length_eq_zero_iff]
  have hlength : (r.window.toList.take (min buffer.size r.window.buffered)).length =
      min buffer.size r.window.buffered := by
    rw [List.length_take, Window.length_toList]
    omega
  refine ⟨r.window.toList.take (min buffer.size r.window.buffered),
    (r.window.toList.drop (min buffer.size r.window.buffered)).map .byte ++ r.source.events,
    ?_, ?_, ?_, ?_, ?_, ?_⟩
  · rw [ne_eq, ← List.length_eq_zero_iff, hlength]
    omega
  · rw [hlength]
    exact Nat.min_le_left ..
  · rw [hlength]
    rfl
  · have hfront : (r.window.front (min buffer.size r.window.buffered)).size =
        min buffer.size r.window.buffered := by
      rw [Window.size_front]
      omega
    rw [hlength, deliver, Bytes.toList_overwrite_zero (by rw [hfront]; exact Nat.min_le_left ..),
      hfront, Window.toList_front]
  · rw [← h.events_eq, ← List.append_assoc, ← List.map_append, List.take_append_drop]
  · refine ⟨h.config_eq, h.faithful, ?_⟩
    rw [deliver, Window.toList_skip]

/-- A read past an empty window takes bytes from the front of the stream, or the mark there. -/
theorem Shows.bypass_cases (h : r.Shows config events) {buffer : Bytes} (hsize : buffer.size ≠ 0)
    (hunread : r.window.toList = []) :
    (∃ bytes rest, bytes ≠ [] ∧ bytes.length ≤ buffer.size ∧
      (r.bypass buffer).result = .ok bytes.length ∧
      (r.bypass buffer).buffer.toList = bytes ++ buffer.toList.drop bytes.length ∧
      events = bytes.map .byte ++ rest ∧ (r.bypass buffer).reader.Shows config rest) ∨
    (∃ r' rest, r.bypass buffer = ⟨.ok 0, buffer, r'⟩ ∧ StreamEvent.Ends events rest ∧
      r'.Shows config rest) ∨
    (∃ cause r' rest, r.bypass buffer = ⟨.error (.source cause), buffer, r'⟩ ∧
      events = .failed cause :: rest ∧ r'.Shows config rest) := by
  obtain ⟨answer, source, hread⟩ : ∃ answer source, r.source.read buffer.size = (answer, source) :=
    ⟨_, _, rfl⟩
  obtain ⟨hfaithful, hcase⟩ := Script.read_cases h.faithful (by omega) hread
  rw [h.source_events hunread] at hcase
  have hshows : (r.meet ⟨.bypass, buffer.size, .ready answer⟩ source).Shows config
      source.events := by
    refine ⟨h.config_eq, hfaithful, ?_⟩
    rw [window_meet, hunread]
    rfl
  rw [bypass_eq hread]
  rcases hcase with ⟨bytes, hz, hle, rfl, hevents⟩ | ⟨rfl, hends⟩ | ⟨cause, rfl, hevents⟩
  · refine .inl ⟨bytes.toList, source.events, ?_, hle, rfl, ?_, hevents, hshows⟩
    · rwa [ne_eq, ← List.length_eq_zero_iff, Array.length_toList]
    · exact Bytes.toList_overwrite_zero hle
  · refine .inr (.inl ⟨_, source.events, ?_, hends, hshows⟩)
    have hbuffer : buffer.overwrite 0 #[] = buffer :=
      Array.toList_inj.1 (Bytes.toList_overwrite_zero (Nat.zero_le _))
    rw [Answer.honest, Answer.onto, hbuffer]
    rfl
  · exact .inr (.inr ⟨cause, _, source.events, rfl, hevents, hshows⟩)

/-- A read of at least one byte takes bytes from the front of the stream, or the mark there. -/
theorem Shows.read_cases (h : r.Shows config events) {buffer : Bytes} (hsize : buffer.size ≠ 0) :
    (∃ bytes rest, bytes ≠ [] ∧ bytes.length ≤ buffer.size ∧
      (r.read buffer).result = .ok bytes.length ∧
      (r.read buffer).buffer.toList = bytes ++ buffer.toList.drop bytes.length ∧
      events = bytes.map .byte ++ rest ∧ (r.read buffer).reader.Shows config rest) ∨
    (∃ r' rest, r.read buffer = ⟨.ok 0, buffer, r'⟩ ∧ StreamEvent.Ends events rest ∧
      r'.Shows config rest) ∨
    (∃ cause r' rest, r.read buffer = ⟨.error (.source cause), buffer, r'⟩ ∧
      events = .failed cause :: rest ∧ r'.Shows config rest) := by
  by_cases hunread : r.window.toList = []
  · by_cases hcap : r.capacity ≤ buffer.size
    · rw [read_of_bypass hsize hunread hcap]
      exact h.bypass_cases hsize hunread
    · rcases h.refill_cases hunread with ⟨count, r', hrefill, hshows, hne⟩ |
        ⟨r', rest, hrefill, hends, hshows, -⟩ | ⟨cause, r', rest, hrefill, hevents, hshows⟩
      · rw [read_of_refill hsize hunread hcap hrefill]
        exact .inl (hshows.exists_deliver_eq hsize hne)
      · rw [read_of_refill hsize hunread hcap hrefill]
        exact .inr (.inl ⟨r', rest, rfl, hends, hshows⟩)
      · rw [read_of_refill hsize hunread hcap hrefill]
        exact .inr (.inr ⟨cause, r', rest, rfl, hevents, hshows⟩)
  · rw [read_of_unread hsize hunread]
    exact .inl (h.exists_deliver_eq hsize hunread)

/-! ### The operations -/

/-- Popping takes the byte in front of the stream. -/
theorem Shows.pop_eq (h : r.Shows config events) (hunread : r.window.toList ≠ []) :
    .ok r.window.pop.1 = (StreamEvent.next events).1 ∧
      (r.withWindow r.window.pop.2).Shows config (StreamEvent.next events).2 := by
  obtain ⟨b, bytes, hcons⟩ := List.exists_cons_of_ne_nil hunread
  obtain rfl := h.events_eq
  rw [Window.pop_fst, hcons, List.head?_cons, List.map_cons, List.cons_append, StreamEvent.next]
  refine ⟨rfl, h.config_eq, h.faithful, ?_⟩
  rw [window_withWindow, Window.toList_pop, hcons]
  rfl

/-- A read of one byte takes the byte or the mark in front of the stream. -/
theorem Shows.readByte_eq (h : r.Shows config events) :
    r.readByte.1 = (StreamEvent.next events).1 ∧
      r.readByte.2.Shows config (StreamEvent.next events).2 := by
  by_cases hunread : r.window.toList = []
  · rcases h.refill_cases hunread with ⟨count, r', hrefill, hshows, hne⟩ |
      ⟨r', rest, hrefill, hends, hshows, hnil⟩ | ⟨cause, r', rest, hrefill, rfl, hshows⟩
    · rw [readByte_of_refill hunread hrefill]
      exact hshows.pop_eq hne
    · rw [readByte_of_refill hunread hrefill, hends.next_eq]
      refine ⟨?_, hshows.config_eq, hshows.faithful, ?_⟩
      · simp only [byteBehind, Window.pop_fst, hnil, List.head?_nil]
      · have hevents := hshows.events_eq
        rw [hnil] at hevents
        simp only [byteBehind, window_withWindow, Window.toList_pop, hnil, List.tail_nil]
        exact hevents
    · rw [readByte_of_refill hunread hrefill]
      exact ⟨rfl, hshows⟩
  · rw [readByte_of_unread hunread]
    exact h.pop_eq hunread

/-- A delimiter read that comes to an end takes a line from the front of the stream. -/
theorem Shows.lineWithin_eq (h : r.Shows config events) {rounds : Nat} {scan : Scan} {out : Bytes}
    {call : Call (Reader Script) (Except ReadError Bool)}
    (hcall : lineWithin rounds scan r out = some call) :
    call.result = (StreamEvent.line scan.delim scan.limit scan.taken events).result ∧
      call.buffer.toList =
        out.toList ++ (StreamEvent.line scan.delim scan.limit scan.taken events).taken ∧
      call.reader.Shows config
        (StreamEvent.line scan.delim scan.limit scan.taken events).rest := by
  -- each round takes from the stream what the search takes from the unread bytes
  induction rounds generalizing scan r out events with
  | zero => simp [lineWithin] at hcall
  | succ rounds ih =>
    obtain ⟨hverdict, hscan, hrest, hout⟩ := scan.advance_eq_walk r.window out
    have hline := StreamEvent.line_append scan r.window.toList r.source.events
    rw [h.events_eq] at hline
    have hshows : (r.withWindow (scan.advance r.window out).window).Shows config
        ((scan.walk r.window.toList).rest.map .byte ++ r.source.events) := by
      refine ⟨h.config_eq, h.faithful, ?_⟩
      rw [window_withWindow, hrest]
      rfl
    cases hv : (scan.walk r.window.toList).verdict with
    | found =>
      rw [lineWithin_of_found (hverdict.trans hv), Option.some.injEq] at hcall
      simp only [hv] at hline
      subst hcall
      rw [hline]
      exact ⟨rfl, hout, hshows⟩
    | overlong limit =>
      rw [lineWithin_of_overlong (hverdict.trans hv), Option.some.injEq] at hcall
      simp only [hv] at hline
      subst hcall
      rw [hline]
      exact ⟨rfl, hout, hshows⟩
    | starved =>
      have hdry : (r.withWindow (scan.advance r.window out).window).window.toList = [] := by
        rw [window_withWindow, hrest, Scan.rest_eq_nil_of_starved hv]
      have hunmet := Scan.unmet_of_starved hv
      rw [Scan.rest_eq_nil_of_starved hv, List.map_nil, List.nil_append] at hshows
      rw [← hscan] at hunmet
      simp only [hv, ← hscan] at hline
      rw [hline]
      rcases hshows.refill_cases hdry with ⟨count, r', hrefill, hshows', -⟩ |
        ⟨r', rest, hrefill, hends, hshows', -⟩ | ⟨cause, r', rest, hrefill, hevents, hshows'⟩
      · rw [lineWithin_of_refill (hverdict.trans hv) hrefill, lineBehind] at hcall
        obtain ⟨hresult, hbuffer, hreader⟩ := ih hshows' hcall
        refine ⟨hresult, ?_, hreader⟩
        rw [hbuffer, hout, List.append_assoc]
        rfl
      · rw [lineWithin_of_refill (hverdict.trans hv) hrefill] at hcall
        simp only [lineBehind, Option.some.injEq] at hcall
        subst hcall
        rw [hends.line_eq hunmet]
        refine ⟨rfl, ?_, hshows'⟩
        rw [hout, Reading.behind, List.append_nil]
      · rw [lineWithin_of_refill (hverdict.trans hv) hrefill] at hcall
        simp only [lineBehind, Option.some.injEq] at hcall
        subst hcall
        rw [hevents, StreamEvent.line_of_failed hunmet]
        refine ⟨rfl, ?_, hshows'⟩
        rw [hout, Reading.behind, List.append_nil]

/-- Filling a buffer takes so many bytes from the front of the stream, or those in front of a mark;
the rest of the buffer is as before. -/
theorem Shows.readExactFrom_eq (h : r.Shows config events) (done rest : Bytes) :
    (r.readExactFrom done rest).result =
        (StreamEvent.exact rest.size events).result.mapError .failed ∧
      (r.readExactFrom done rest).buffer.toList =
        done.toList ++ ((StreamEvent.exact rest.size events).taken ++
          rest.toList.drop (StreamEvent.exact rest.size events).taken.length) ∧
      (r.readExactFrom done rest).reader.Shows config
        (StreamEvent.exact rest.size events).rest := by
  fun_induction readExactFrom r done rest generalizing events with
  | case1 r done rest hsize =>
    have hnil : rest = #[] := Array.eq_empty_of_size_eq_zero hsize
    subst hnil
    exact ⟨rfl, by simp [StreamEvent.exact], h⟩
  | case2 r done rest hsize e buffer r' hread =>
    obtain ⟨n, hn⟩ := Nat.exists_eq_succ_of_ne_zero hsize
    have hcases := h.read_cases hsize
    rw [hread] at hcases
    rcases hcases with ⟨bytes, events', -, -, hresult, -⟩ | ⟨r'', events', hcall, -⟩ |
      ⟨cause, r'', events', hcall, rfl, hshows⟩
    · simp at hresult
    · simp at hcall
    · simp only [Call.mk.injEq, Except.error.injEq] at hcall
      obtain ⟨rfl, rfl, rfl⟩ := hcall
      rw [hn, StreamEvent.exact]
      exact ⟨rfl, by simp, hshows⟩
  | case3 r done rest hsize buffer r' hread =>
    obtain ⟨n, hn⟩ := Nat.exists_eq_succ_of_ne_zero hsize
    have hcases := h.read_cases hsize
    rw [hread] at hcases
    rcases hcases with ⟨bytes, events', hne, -, hresult, -⟩ | ⟨r'', events', hcall, hends, hshows⟩ |
      ⟨cause, r'', events', hcall, -⟩
    · rw [Except.ok.injEq] at hresult
      exact absurd (List.length_eq_zero_iff.1 hresult.symm) hne
    · simp only [Call.mk.injEq, true_and] at hcall
      obtain ⟨rfl, rfl⟩ := hcall
      rw [hn, hends.exact_eq]
      exact ⟨rfl, by simp, hshows⟩
    · simp at hcall
  | case4 r done rest hsize count buffer r' hread hz hover =>
    have hcases := h.read_cases hsize
    rw [hread] at hcases
    rcases hcases with ⟨bytes, events', -, hle, hresult, -⟩ | ⟨r'', events', hcall, -⟩ |
      ⟨cause, r'', events', hcall, -⟩
    · -- a faithful source reports no more bytes than there is room for
      rw [Except.ok.injEq] at hresult
      omega
    · simp only [Call.mk.injEq, Except.ok.injEq] at hcall
      exact absurd hcall.1 hz
    · simp at hcall
  | case5 r done rest hsize count buffer r' hread hz hover ih =>
    have hcases := h.read_cases hsize
    rw [hread] at hcases
    rcases hcases with ⟨bytes, events', -, hle, hresult, hbuffer, rfl, hshows⟩ |
      ⟨r'', events', hcall, -⟩ | ⟨cause, r'', events', hcall, -⟩
    · rw [Except.ok.injEq] at hresult
      subst hresult
      change buffer.toList = bytes ++ rest.toList.drop bytes.length at hbuffer
      have hfront : (buffer.extract 0 bytes.length).toList = bytes := by
        rw [Array.toList_extract, hbuffer]
        simp
      have hback : (buffer.extract bytes.length buffer.size).toList =
          rest.toList.drop bytes.length := by
        rw [Array.toList_extract, List.extract_eq_take_drop, hbuffer, List.drop_left]
        exact List.take_of_length_le (by rw [← Array.length_toList, hbuffer]; simp)
      have hsize' : (buffer.extract bytes.length buffer.size).size = rest.size - bytes.length := by
        rw [← Array.length_toList, hback, List.length_drop, Array.length_toList]
      obtain ⟨hresult, hfilled, hreader⟩ := ih hshows
      rw [hsize'] at hresult hfilled hreader
      rw [StreamEvent.exact_append hle]
      refine ⟨hresult, ?_, hreader⟩
      rw [hfilled, Array.toList_append, hfront, hback, Reading.behind, List.length_append,
        List.drop_drop, List.append_assoc, List.append_assoc]
    · simp only [Call.mk.injEq, Except.ok.injEq] at hcall
      exact absurd hcall.1 hz
    · simp at hcall

end Reader

/-! ### Sequences of operations -/

/-- A read of bytes, lines or buffers. -/
inductive Request where
  /-- Read a byte. -/
  | byte
  /-- Read a line. -/
  | line (delim : UInt8)
  /-- Append a line to the accumulator. -/
  | lineInto (delim : UInt8)
  /-- Fill a buffer. -/
  | exact (buffer : Bytes)
  deriving DecidableEq, Repr

namespace Request

/-- The request as an operation of a session. -/
def operation : Request → Operation
  | byte => .readByte
  | line delim => .readLine delim
  | lineInto delim => .readLineInto delim
  | exact buffer => .readExact buffer

/-- The reply to a request that sees the stream of events and the limit on lines only, with the
accumulator and the stream behind it. -/
def answer (limit : Option Nat) (out : Bytes) (events : List StreamEvent) :
    Request → Reply × Bytes × List StreamEvent
  | byte => (.byte (StreamEvent.next events).1, out, (StreamEvent.next events).2)
  | line delim =>
    let reading := StreamEvent.line delim limit 0 events
    (.line (reading.result.map fun complete => ⟨reading.taken.toArray, complete⟩), out,
      reading.rest)
  | lineInto delim =>
    let reading := StreamEvent.line delim limit 0 events
    (.appended reading.result (out ++ reading.taken.toArray), out ++ reading.taken.toArray,
      reading.rest)
  | exact buffer =>
    let reading := StreamEvent.exact buffer.size events
    (.filled (reading.result.mapError .failed) (reading.taken.toArray ++
      buffer.extract reading.taken.length buffer.size), out, reading.rest)

/-- The replies to requests made in turn. -/
def answers (limit : Option Nat) : Bytes → List StreamEvent → List Request → List Reply
  | _, _, [] => []
  | out, events, request :: requests =>
    let (reply, out, events) := request.answer limit out events
    reply :: answers limit out events requests

end Request

namespace Session

/-- A session holds a reader that shows a stream, and has the given accumulator. -/
def Shows (s : Session Script) (config : Config) (out : Bytes) (events : List StreamEvent) : Prop :=
  s.out = out ∧ ∃ r, s.holding = .reader r ∧ r.Shows config events

/-- One request is answered as by the stream alone, and the session then shows what is left of
it. -/
theorem perform_request {s : Session Script} {config : Config} {out : Bytes}
    {events : List StreamEvent} (h : s.Shows config out events) (request : Request) :
    (s.perform request.operation).1 = (request.answer config.lineLimit out events).1 ∧
      (s.perform request.operation).2.Shows config
        (request.answer config.lineLimit out events).2.1
        (request.answer config.lineLimit out events).2.2 := by
  obtain ⟨rfl, r, hs, hr⟩ := h
  have hperform : s.performWithin s.rounds request.operation =
      some (s.perform request.operation) := (Option.some_get _).symm
  generalize s.perform request.operation = outcome at hperform ⊢
  generalize s.rounds = rounds at hperform
  unfold performWithin at hperform
  cases request with
  | byte =>
    rw [if_neg nofun, hs] at hperform
    have hread : some (Reply.byte r.readByte.1, s.withReader r.readByte.2) = some outcome :=
      hperform
    obtain rfl := Option.some.inj hread
    obtain ⟨hresult, hreader⟩ := hr.readByte_eq
    exact ⟨congrArg Reply.byte hresult, rfl, _, rfl, hreader⟩
  | line delim =>
    rw [if_neg nofun, hs] at hperform
    obtain ⟨call, hcall, rfl⟩ := Option.map_eq_some_iff.1 hperform
    obtain ⟨hresult, hbuffer, hreader⟩ := hr.lineWithin_eq hcall
    rw [hr.config_eq] at hresult hbuffer hreader
    have hout : call.buffer = (StreamEvent.line delim config.lineLimit 0 events).taken.toArray :=
      Array.toList_inj.1 hbuffer
    refine ⟨?_, rfl, _, rfl, hreader⟩
    rw [hresult, hout]
    rfl
  | lineInto delim =>
    rw [if_neg nofun, hs] at hperform
    obtain ⟨call, hcall, rfl⟩ := Option.map_eq_some_iff.1 hperform
    obtain ⟨hresult, hbuffer, hreader⟩ := hr.lineWithin_eq hcall
    rw [hr.config_eq] at hresult hbuffer hreader
    have hout : call.buffer =
        s.out ++ (StreamEvent.line delim config.lineLimit 0 events).taken.toArray := by
      apply Array.toList_inj.1
      rw [hbuffer, Array.toList_append]
      rfl
    refine ⟨?_, hout, _, rfl, hreader⟩
    rw [hresult, hout]
    rfl
  | exact buffer =>
    rw [if_neg nofun, hs] at hperform
    have hread : some (Reply.filled (r.readExact buffer).result (r.readExact buffer).buffer,
        s.withReader (r.readExact buffer).reader) = some outcome := hperform
    obtain rfl := Option.some.inj hread
    obtain ⟨hresult, hbuffer, hreader⟩ := hr.readExactFrom_eq #[] buffer
    have hout : (r.readExact buffer).buffer =
        (StreamEvent.exact buffer.size events).taken.toArray ++
          buffer.extract (StreamEvent.exact buffer.size events).taken.length buffer.size := by
      apply Array.toList_inj.1
      rw [Reader.readExact, hbuffer, Array.toList_append, Array.toList_extract,
        List.extract_eq_take_drop, List.take_of_length_le (by simp)]
      rfl
    refine ⟨?_, rfl, _, rfl, hreader⟩
    rw [hout, Reader.readExact, hresult]
    rfl

/-- Requests made in turn are answered as by the stream alone. -/
theorem performAll_requests {s : Session Script} {config : Config} {out : Bytes}
    {events : List StreamEvent} (h : s.Shows config out events) (requests : List Request) :
    (s.performAll (requests.map Request.operation)).1 =
      Request.answers config.lineLimit out events requests := by
  induction requests generalizing s out events with
  | nil => rfl
  | cons request requests ih =>
    obtain ⟨hreply, hshows⟩ := perform_request h request
    simp only [List.map_cons, performAll, Request.answers, hreply, ih hshows]

/-- Bytes, lines and buffers are read from a faithful script as if there were no window: the replies
are those of the stream of its events, whatever the capacity of the reader, and however the script
is cut into steps. -/
theorem replies_eq_of_events {script : Script} (h : script.Faithful) (config : Config)
    (requests : List Request) :
    (performAll { holding := .reader (Reader.build script config) }
        (requests.map Request.operation)).1 =
      Request.answers config.lineLimit #[] script.events requests :=
  performAll_requests ⟨rfl, _, rfl, Reader.shows_build h config⟩ requests

/-- Four bytes in two pieces, with a delay in between. -/
def delayedPieces : Script := [.data #[1], .delay 2, .data #[2, 10, 3], .ended]

/-- A reader with a window of one byte reads the line that came in two pieces, and a buffer that is
cut short by the end of the stream. -/
theorem replies_of_delayedPieces :
    (performAll { holding := .reader (Reader.build delayedPieces ⟨1, none⟩) }
        ([.line newline, .exact #[0, 0], .byte].map Request.operation)).1 =
      [.line (.ok ⟨#[1, 2, 10], true⟩),
        .filled (.error (.failed (.source .bufferNotFilled))) #[3, 0], .byte (.ok none)] := by
  rw [replies_eq_of_events (by decide)]
  rfl

end Session

end BufferedReading
