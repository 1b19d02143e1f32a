import BufferedReading.Proofs.Cut
import BufferedReading.Proofs.Transparency

/-!
# Splitting a reader is splitting its stream

The bytes of a stream up to its first mark are cut behind every delimiter; what becomes of the
pieces, of the bytes behind the last delimiter and of the mark is said by `Splitting.ofEvents`,
which sees neither the window nor the steps of the source (`Splitting.accounts_ofEvents`).
`Session.next_eq_splitting` states that the lines split from a reader over a faithful script are
these items in order, that nothing is yielded and nothing done behind the last of them, and that the
reader is then left exactly behind what was taken.

`Reader.Shows.next_cases` says what one item takes from the stream, and
`Session.exists_performAll_next` what any number of them do.
-/

namespace BufferedReading

/-! ### The stream up to its first mark -/

namespace StreamEvent

/-- The bytes in front of the first mark. -/
def front : List StreamEvent → List UInt8
  | .byte b :: events => b :: front events
  | _ => []

/-- The stream from the first mark on. -/
def marks : List StreamEvent → List StreamEvent
  | .byte _ :: events => marks events
  | events => events

/-- A stream is its bytes up to the first mark, and then the mark and what is behind it. -/
theorem front_append_marks (events : List StreamEvent) :
    (front events).map .byte ++ marks events = events := by
  induction events with
  | nil => rfl
  | cons event events ih =>
    cases event with
    | byte b => exact congrArg (.byte b :: ·) ih
    | ended => rfl
    | failed cause => rfl

/-- Bytes before a stream are in front of its first mark. -/
theorem front_append (bytes : List UInt8) (events : List StreamEvent) :
    front (bytes.map .byte ++ events) = bytes ++ front events := by
  induction bytes with
  | nil => rfl
  | cons b bytes ih => exact congrArg (b :: ·) ih

/-- Bytes before a stream do not change what comes from the first mark on. -/
theorem marks_append (bytes : List UInt8) (events : List StreamEvent) :
    marks (bytes.map .byte ++ events) = marks events := by
  induction bytes with
  | nil => rfl
  | cons b bytes ih => exact ih

/-- No byte is in front of a mark. -/
theorem front_marks (events : List StreamEvent) : front (marks events) = [] := by
  induction events with
  | nil => rfl
  | cons event events ih =>
    cases event with
    | byte b => exact ih
    | ended => rfl
    | failed cause => rfl

/-- A stream from its first mark on begins with it. -/
theorem marks_marks (events : List StreamEvent) : marks (marks events) = marks events := by
  induction events with
  | nil => rfl
  | cons event events ih =>
    cases event with
    | byte b => exact ih
    | ended => rfl
    | failed cause => rfl

/-- The result of a line that meets a mark: it is not complete, or it fails. -/
def endResult : List StreamEvent → Except ReadError Bool
  | .failed cause :: _ => .error (.source cause)
  | _ => .ok false

/-- From the first mark on a stream is at its end or fails. -/
theorem marks_cases (events : List StreamEvent) :
    (∃ rest, Ends (marks events) rest) ∨ ∃ cause rest, marks events = .failed cause :: rest := by
  induction events with
  | nil => exact .inl ⟨[], .inl ⟨rfl, rfl⟩⟩
  | cons event events ih =>
    cases event with
    | byte b => exact ih
    | ended => exact .inl ⟨events, .inr rfl⟩
    | failed cause => exact .inr ⟨cause, events, rfl⟩

/-- A line that meets the end of the stream is not complete. -/
theorem endResult_of_ends {events rest : List StreamEvent} (h : Ends events rest) :
    endResult events = .ok false := by
  rcases h with ⟨rfl, -⟩ | rfl <;> rfl

section Line

variable {delim : UInt8} {events : List StreamEvent}

/-- A line takes all bytes in front of the first mark if no delimiter is among them, unless they
reach its limit. -/
theorem line_of_notMem (limit : Option Nat) (h : delim ∉ front events) :
    line delim limit 0 events =
      match limit.filter (· ≤ (front events).length) with
      | some limit =>
        ⟨.error (.lineTooLong limit), (front events).take limit,
          ((front events).drop limit).map .byte ++ marks events⟩
      | none => ⟨endResult (marks events), front events, (marks events).tail⟩ := by
  have hwalk : (Scan.start delim limit).walk (front events) = _ := Scan.walk_start_of_notMem h
  have hline := line_append (.start delim limit) (front events) (marks events)
  rw [front_append_marks] at hline
  change line delim limit 0 events = _ at hline
  cases hfilter : limit.filter (· ≤ (front events).length) with
  | some limit =>
    simp only [hfilter] at hwalk
    simp only [hwalk] at hline
    exact hline
  | none =>
    simp only [hfilter] at hwalk
    have hunmet := Scan.unmet_of_starved (congrArg Scan.Walk.verdict hwalk)
    simp only [hwalk] at hline hunmet
    rw [hline]
    rcases marks_cases events with ⟨rest, hends⟩ | ⟨cause, rest, hmarks⟩
    · rw [hends.line_eq hunmet]
      rcases hends with ⟨hmarks, rfl⟩ | hmarks <;> simp [hmarks, Reading.behind, endResult]
    · rw [hmarks, line_of_failed hunmet]
      simp [Reading.behind, endResult]

/-- A line takes the bytes up to the first delimiter in front of the first mark, unless they are
beyond its limit. -/
theorem line_of_mem (limit : Option Nat) {before after : List UInt8}
    (hfront : front events = before ++ delim :: after) (h : delim ∉ before) :
    line delim limit 0 events =
      match limit.filter (· < (before ++ [delim]).length) with
      | some limit =>
        ⟨.error (.lineTooLong limit), (before ++ [delim]).take limit,
          ((before ++ [delim]).drop limit ++ after).map .byte ++ marks events⟩
      | none => ⟨.ok true, before ++ [delim], after.map .byte ++ marks events⟩ := by
  have hwalk : (Scan.start delim limit).walk (before ++ delim :: after) = _ :=
    Scan.walk_start_of_mem h after
  have hline := line_append (.start delim limit) (front events) (marks events)
  rw [front_append_marks, hfront] at hline
  change line delim limit 0 events = _ at hline
  cases hfilter : limit.filter (· < (before ++ [delim]).length) with
  | some limit =>
    simp only [hfilter] at hwalk
    simp only [hwalk] at hline
    exact hline
  | none =>
    simp only [hfilter] at hwalk
    simp only [hwalk] at hline
    exact hline

end Line

end StreamEvent

/-! ### The items of a stream -/

/-- What splitting makes of a stream: the items, the bytes taken, and the stream behind them. -/
structure Splitting where
  /-- The items, in order. -/
  items : List Item
  /-- The bytes taken for the items. -/
  taken : List UInt8
  /-- What is left of the stream. -/
  rest : List StreamEvent

namespace Splitting

/-- The item that the mark behind the last delimiter makes of the bytes in front of it, if any: the
failure, or a partial line. -/
def endItems (remainder : List UInt8) : List StreamEvent → List Item
  | .failed cause :: _ => [.error (.source cause)]
  | _ => if remainder = [] then [] else [.ok ⟨remainder.toArray, false⟩]

/-- At the end of the stream the bytes behind the last delimiter are a partial line, if there are
any. -/
theorem endItems_of_ends {events rest : List StreamEvent} (h : StreamEvent.Ends events rest)
    (remainder : List UInt8) :
    endItems remainder events =
      if remainder = [] then [] else [.ok ⟨remainder.toArray, false⟩] := by
  rcases h with ⟨rfl, -⟩ | rfl <;> rfl

/-- What becomes of the bytes behind the last delimiter: they are too long, or a partial line if the
stream ends behind them, or lost if it fails. -/
def ofRemainder (limit : Option Nat) (remainder : List UInt8) (marks : List StreamEvent) :
    Splitting :=
  match limit.filter (· ≤ remainder.length) with
  | some limit =>
    ⟨[.error (.lineTooLong limit)], remainder.take limit,
      (remainder.drop limit).map .byte ++ marks⟩
  | none => ⟨endItems remainder marks, remainder, marks.tail⟩

/-- What becomes of the pieces: each is a complete line, up to the first that is too long. -/
def ofPieces (limit : Option Nat) (remainder : List UInt8) (marks : List StreamEvent) :
    List (List UInt8) → Splitting
  | [] => ofRemainder limit remainder marks
  | piece :: pieces =>
    match limit.filter (· < piece.length) with
    | some limit =>
      ⟨[.error (.lineTooLong limit)], piece.take limit,
        (piece.drop limit ++ pieces.flatten ++ remainder).map .byte ++ marks⟩
    | none =>
      let later := ofPieces limit remainder marks pieces
      ⟨.ok ⟨piece.toArray, true⟩ :: later.items, piece ++ later.taken, later.rest⟩

/-- What splitting makes of a stream: the bytes up to its first mark are cut behind every
delimiter. -/
def ofEvents (limit : Option Nat) (delim : UInt8) (events : List StreamEvent) : Splitting :=
  let cut := cut delim (StreamEvent.front events)
  ofPieces limit cut.remainder (StreamEvent.marks events) cut.pieces

variable {delim : UInt8} {events : List StreamEvent}

/-- The items of a stream whose bytes have no delimiter in front of the first mark. -/
theorem ofEvents_of_notMem (limit : Option Nat) (h : delim ∉ StreamEvent.front events) :
    ofEvents limit delim events =
      ofRemainder limit (StreamEvent.front events) (StreamEvent.marks events) := by
  unfold ofEvents
  rw [cut_of_notMem h]
  rfl

/-- The items of a stream with a delimiter in front of the first mark are a complete line and those
of the stream behind it, unless the line is too long. -/
theorem ofEvents_of_mem (limit : Option Nat) {before after : List UInt8}
    (hfront : StreamEvent.front events = before ++ delim :: after) (h : delim ∉ before) :
    ofEvents limit delim events =
      match limit.filter (· < (before ++ [delim]).length) with
      | some limit =>
        ⟨[.error (.lineTooLong limit)], (before ++ [delim]).take limit,
          ((before ++ [delim]).drop limit ++ after).map .byte ++ StreamEvent.marks events⟩
      | none =>
        let later := ofEvents limit delim (after.map .byte ++ StreamEvent.marks events)
        ⟨.ok ⟨(before ++ [delim]).toArray, true⟩ :: later.items, before ++ [delim] ++ later.taken,
          later.rest⟩ := by
  have hrest := (cut_behind delim after).flatten_append
  unfold ofEvents
  rw [hfront, cut_append_cons h, StreamEvent.front_append, StreamEvent.marks_append,
    StreamEvent.front_marks, StreamEvent.marks_marks, List.append_nil]
  simp only [ofPieces, List.append_assoc, hrest]

end Splitting

/-! ### What the items hold -/

/-- What splitting made of a stream is accounted for: its lines are cut from it, and only the last
item may be anything but a complete line. The bytes taken are those of the lines and those lost to
an error, which are as many as the limit if it was reached; they come from the front of the stream,
and what is left begins behind them or behind the mark that follows them. -/
structure Splitting.Accounts (limit : Option Nat) (delim : UInt8) (events : List StreamEvent)
    (s : Splitting) : Prop where
  isCut : ∀ line, .ok line ∈ s.items → line.IsCut limit delim
  complete : ∀ item ∈ s.items.dropLast, Item.isLast (some item) = false
  taken_eq : ∃ lost, s.taken = s.items.flatMap Item.bytes ++ lost ∧
    ∀ most, .error (.lineTooLong most) ∈ s.items → limit = some most ∧ lost.length = most
  events_eq : ∃ mark, events = s.taken.map .byte ++ mark ++ s.rest ∧ mark.length ≤ 1 ∧
    StreamEvent.front mark = []

namespace Splitting

variable {delim : UInt8} {events : List StreamEvent} {limit : Option Nat}

/-- A line that is too long is accounted for. -/
theorem accounts_of_overlong {bytes : List UInt8} {rest : List StreamEvent} {most : Nat}
    (hevents : events = bytes.map .byte ++ rest) (hlimit : limit = some most)
    (hle : most ≤ bytes.length) :
    Accounts limit delim events
      ⟨[.error (.lineTooLong most)], bytes.take most, (bytes.drop most).map .byte ++ rest⟩ := by
  constructor
  · intro line hline
    simp at hline
  · intro item hitem
    simp at hitem
  · refine ⟨bytes.take most, rfl, ?_⟩
    intro most' hmost
    simp only [List.mem_singleton, Except.error.injEq, ReadError.lineTooLong.injEq] at hmost
    subst hmost
    exact ⟨hlimit, List.length_take_of_le hle⟩
  · refine ⟨[], ?_, Nat.zero_le 1, rfl⟩
    rw [hevents, List.append_nil, ← List.append_assoc, ← List.map_append, List.take_append_drop]

/-- The mark behind the last delimiter is accounted for. -/
theorem accounts_endItems (h : delim ∉ StreamEvent.front events)
    (hlimit : limit.filter (· ≤ (StreamEvent.front events).length) = none) :
    Accounts limit delim events
      ⟨endItems (StreamEvent.front events) (StreamEvent.marks events), StreamEvent.front events,
        (StreamEvent.marks events).tail⟩ := by
  have hevents : events = (StreamEvent.front events).map .byte ++
      (StreamEvent.marks events).take 1 ++ (StreamEvent.marks events).tail := by
    rw [List.append_assoc, ← List.drop_one, List.take_append_drop, StreamEvent.front_append_marks]
  have hmark : StreamEvent.front ((StreamEvent.marks events).take 1) = [] := by
    rcases StreamEvent.marks_cases events with ⟨rest, ⟨hmarks, -⟩ | hmarks⟩ | ⟨cause, rest, hmarks⟩
      <;> rw [hmarks] <;> rfl
  have hitems : endItems (StreamEvent.front events) (StreamEvent.marks events) = [] ∧
        StreamEvent.front events = [] ∨
      endItems (StreamEvent.front events) (StreamEvent.marks events) =
        [.ok ⟨(StreamEvent.front events).toArray, false⟩] ∧ StreamEvent.front events ≠ [] ∨
      ∃ cause, endItems (StreamEvent.front events) (StreamEvent.marks events) =
        [.error (.source cause)] := by
    unfold endItems
    split
    · next cause rest hmarks => exact .inr (.inr ⟨cause, rfl⟩)
    · split
      · next hnil => exact .inl ⟨rfl, hnil⟩
      · next hne => exact .inr (.inl ⟨rfl, hne⟩)
  refine ⟨?_, ?_, ?_, ⟨_, hevents, List.length_take_le 1 _, hmark⟩⟩
  · intro line hline
    rcases hitems with ⟨hnil, -⟩ | ⟨hline', hne⟩ | ⟨cause, herror⟩
    · simp [hnil] at hline
    · simp only [hline', List.mem_singleton, Except.ok.injEq] at hline
      subst hline
      exact Line.isCut_partial h (by rintro most rfl; simpa using hlimit) hne
    · simp [herror] at hline
  · intro item hitem
    rcases hitems with ⟨hnil, -⟩ | ⟨hline', -⟩ | ⟨cause, herror⟩
    · simp [hnil] at hitem
    · simp [hline'] at hitem
    · simp [herror] at hitem
  · rcases hitems with ⟨hnil, hfront⟩ | ⟨hline', -⟩ | ⟨cause, herror⟩
    · refine ⟨[], ?_, ?_⟩
      · rw [hnil, hfront]
        rfl
      · simp [hnil]
    · refine ⟨[], ?_, ?_⟩
      · simp [hline', Item.bytes]
      · simp [hline']
    · refine ⟨StreamEvent.front events, ?_, ?_⟩
      · simp [herror, Item.bytes]
      · simp [herror]

/-- A complete line in front of what is accounted for is accounted for. -/
theorem Accounts.cons {s : Splitting} {before : List UInt8} {later : List StreamEvent}
    (h : s.Accounts limit delim later) (hbefore : delim ∉ before)
    (hlimit : limit.filter (· < (before ++ [delim]).length) = none)
    (hevents : events = (before ++ [delim]).map .byte ++ later) :
    Accounts limit delim events
      ⟨.ok ⟨(before ++ [delim]).toArray, true⟩ :: s.items, before ++ [delim] ++ s.taken,
        s.rest⟩ := by
  obtain ⟨lost, htaken, hlost⟩ := h.taken_eq
  obtain ⟨mark, hlater, hlength, hmark⟩ := h.events_eq
  constructor
  · intro line hline
    rcases List.mem_cons.1 hline with hline | hline
    · rw [Except.ok.inj hline]
      exact Line.isCut_complete hbefore (by rintro most rfl; simpa using hlimit)
    · exact h.isCut line hline
  · intro item hitem
    cases hs : s.items with
    | nil => simp [hs] at hitem
    | cons item' items =>
      rw [hs, List.dropLast_cons_cons, ← hs] at hitem
      rcases List.mem_cons.1 hitem with rfl | hitem
      · rfl
      · exact h.complete item hitem
  · refine ⟨lost, ?_, ?_⟩
    · rw [htaken, List.flatMap_cons, List.append_assoc, List.append_assoc]
      simp [Item.bytes]
    · intro most hmost
      exact hlost most (by simpa using hmost)
  · refine ⟨mark, ?_, hlength, hmark⟩
    rw [hevents, hlater]
    simp only [List.map_append, List.append_assoc]

/-- What splitting makes of a stream is accounted for. -/
theorem accounts_ofEvents (limit : Option Nat) (delim : UInt8) (events : List StreamEvent) :
    (ofEvents limit delim events).Accounts limit delim events := by
  -- the bytes in front of the first mark become fewer with each line
  induction hn : (StreamEvent.front events).length using Nat.strongRecOn generalizing events with
  | ind n ih =>
    have hfront_append := StreamEvent.front_append_marks events
    rcases delim_cases delim (StreamEvent.front events) with hfront |
      ⟨before, after, hfront, hbefore⟩
    · rw [ofEvents_of_notMem limit hfront, ofRemainder]
      cases hfilter : limit.filter (· ≤ (StreamEvent.front events).length) with
      | some most =>
        obtain ⟨hlimit, hle⟩ := Option.filter_eq_some_iff.1 hfilter
        exact accounts_of_overlong hfront_append.symm hlimit (of_decide_eq_true hle)
      | none => exact accounts_endItems hfront hfilter
    · have hevents : events = (before ++ [delim]).map .byte ++
          (after.map .byte ++ StreamEvent.marks events) := by
        rw [← List.append_assoc, ← List.map_append, List.append_assoc, List.singleton_append,
          ← hfront, hfront_append]
      rw [ofEvents_of_mem limit hfront hbefore]
      cases hfilter : limit.filter (· < (before ++ [delim]).length) with
      | some most =>
        obtain ⟨hlimit, hlt⟩ := Option.filter_eq_some_iff.1 hfilter
        have hle := Nat.le_of_lt (of_decide_eq_true hlt)
        have haccounts : Accounts limit delim events _ := accounts_of_overlong hevents hlimit hle
        simpa only [List.map_append, List.append_assoc] using haccounts
      | none =>
        have hlt :
            (StreamEvent.front (after.map .byte ++ StreamEvent.marks events)).length < n := by
          rw [StreamEvent.front_append, StreamEvent.front_marks, List.append_nil, ← hn, hfront,
            List.length_append, List.length_cons]
          omega
        exact (ih _ hlt _ rfl).cons hbefore hfilter hevents

end Splitting

/-! ### One item -/

namespace Reader

variable {config : Config} {events : List StreamEvent}

/-- The next item of a splitter whose reader shows a stream is a complete line from its front, and
the items behind it are those of the stream behind the line; or it is the last item, if there is
one, and the splitter is finished. -/
theorem Shows.next_cases {s s' : Splitter Script} (hopen : s.finished = false)
    (h : s.reader.Shows config events) {rounds : Nat} {item : Option Item}
    (hnext : s.nextWithin rounds = some (item, s')) :
    (∃ line later, item = some (.ok line) ∧ line.complete = true ∧ s'.finished = false ∧
      s'.delim = s.delim ∧ s'.reader.Shows config later ∧
      events = line.data.toList.map .byte ++ later ∧
      Splitting.ofEvents config.lineLimit s.delim events =
        let behind := Splitting.ofEvents config.lineLimit s.delim later
        ⟨.ok line :: behind.items, line.data.toList ++ behind.taken, behind.rest⟩) ∨
    (Item.isLast item = true ∧ s'.finished = true ∧
      (Splitting.ofEvents config.lineLimit s.delim events).items = item.toList ∧
      s'.reader.Shows config (Splitting.ofEvents config.lineLimit s.delim events).rest) := by
  rw [Splitter.nextWithin, if_neg (by simp [hopen])] at hnext
  obtain ⟨⟨result, buffer, reader⟩, hcall, hconclude⟩ := Option.map_eq_some_iff.1 hnext
  obtain ⟨hresult, hbuffer, hreader⟩ := h.lineWithin_eq hcall
  rw [h.config_eq] at hresult hbuffer hreader
  simp only [Scan.start, List.nil_append] at hresult hbuffer hreader
  rcases delim_cases s.delim (StreamEvent.front events) with hfront |
    ⟨before, after, hfront, hbefore⟩
  · right
    have hline := StreamEvent.line_of_notMem config.lineLimit hfront
    have hitems := Splitting.ofEvents_of_notMem config.lineLimit hfront
    unfold Splitting.ofRemainder at hitems
    cases hfilter : config.lineLimit.filter (· ≤ (StreamEvent.front events).length) with
    | some limit =>
      simp only [hfilter] at hline hitems
      rw [hline] at hresult hreader
      subst hresult
      obtain ⟨rfl, rfl⟩ := Prod.mk.inj hconclude
      rw [hitems]
      exact ⟨rfl, rfl, rfl, hreader⟩
    | none =>
      simp only [hfilter] at hline hitems
      rw [hline] at hresult hbuffer hreader
      obtain rfl : buffer = (StreamEvent.front events).toArray := Array.toList_inj.1 hbuffer
      rw [hitems]
      rcases StreamEvent.marks_cases events with ⟨rest, hends⟩ | ⟨cause, rest, hmarks⟩
      · rw [StreamEvent.endResult_of_ends hends] at hresult
        subst hresult
        obtain ⟨rfl, rfl⟩ := Prod.mk.inj hconclude
        rw [Splitting.endItems_of_ends hends]
        refine ⟨?_, rfl, ?_, hreader⟩
        · cases StreamEvent.front events <;> rfl
        · cases StreamEvent.front events <;> rfl
      · rw [hmarks] at hresult hreader ⊢
        subst hresult
        obtain ⟨rfl, rfl⟩ := Prod.mk.inj hconclude
        exact ⟨rfl, rfl, rfl, hreader⟩
  · have hline := StreamEvent.line_of_mem config.lineLimit hfront hbefore
    have hitems := Splitting.ofEvents_of_mem config.lineLimit hfront hbefore
    cases hfilter : config.lineLimit.filter (· < (before ++ [s.delim]).length) with
    | some limit =>
      right
      simp only [hfilter] at hline hitems
      rw [hline] at hresult hreader
      subst hresult
      obtain ⟨rfl, rfl⟩ := Prod.mk.inj hconclude
      rw [hitems]
      exact ⟨rfl, rfl, rfl, hreader⟩
    | none =>
      left
      simp only [hfilter] at hline hitems
      rw [hline] at hresult hbuffer hreader
      subst hresult
      obtain rfl : buffer = (before ++ [s.delim]).toArray := Array.toList_inj.1 hbuffer
      obtain ⟨rfl, rfl⟩ := Prod.mk.inj hconclude
      have hevents := StreamEvent.front_append_marks events
      rw [hfront] at hevents
      refine ⟨_, _, rfl, rfl, rfl, rfl, hreader, ?_, hitems⟩
      rw [← List.append_assoc, ← List.map_append]
      simpa using hevents.symm

end Reader

/-! ### All items -/

/-- The stream that a reader has still to read: its unread bytes, and then the events of its
script. -/
def Reader.stream (r : Reader Script) : List StreamEvent :=
  r.window.toList.map .byte ++ r.source.events

namespace Splitter

/-- A splitter that has been asked for the first `n` items of a stream. It is finished exactly if
one of the answers was the last item, or that there is none; its reader then shows what splitting
leaves of the stream, and otherwise what is behind the lines yielded. -/
structure Reached (config : Config) (delim : UInt8) (events : List StreamEvent) (n : Nat)
    (s : Splitter Script) : Prop where
  finished_iff : s.finished = true ↔
    ∃ i < n, Item.isLast (Splitting.ofEvents config.lineLimit delim events).items[i]? = true
  shows_of_finished : s.finished = true →
    s.reader.Shows config (Splitting.ofEvents config.lineLimit delim events).rest
  shows_of_open : s.finished = false → ∃ later, s.reader.Shows config later ∧
    events = (((Splitting.ofEvents config.lineLimit delim events).items.take n).flatMap
      Item.bytes).map .byte ++ later

end Splitter

namespace Session

variable {s : Session Script} {splitter : Splitter Script}

/-- Asking for an item is asking the splitter. -/
theorem exists_perform_next (hs : s.holding = .splitter splitter) :
    ∃ rounds item splitter', splitter.nextWithin rounds = some (item, splitter') ∧
      s.perform .next = (.item item, s.withSplitter splitter') := by
  have hperform : s.performWithin s.rounds .next = some (s.perform .next) :=
    (Option.some_get _).symm
  rw [performWithin, if_neg nofun, hs] at hperform
  obtain ⟨⟨item, splitter'⟩, hnext, houtcome⟩ := Option.map_eq_some_iff.1 hperform
  exact ⟨_, item, splitter', hnext, houtcome.symm⟩

/-- A finished splitter yields nothing more, and nothing changes. -/
theorem performAll_next_of_finished (hs : s.holding = .splitter splitter)
    (hfinished : splitter.finished = true) (n : Nat) :
    s.performAll (List.replicate n .next) = (List.replicate n (.item none), s) := by
  have hperform : s.perform .next = (.item none, s) := by
    obtain ⟨rounds, item, splitter', hnext, hperform⟩ := exists_perform_next hs
    rw [Splitter.nextWithin, if_pos hfinished] at hnext
    obtain ⟨rfl, rfl⟩ := Prod.mk.inj (Option.some.inj hnext)
    rw [hperform, withSplitter, ← hs]
  induction n with
  | zero => rfl
  | succ n ih => simp only [List.replicate_succ, performAll, hperform, ih]

/-- The items of an open splitter are those of the stream that its reader shows. -/
theorem exists_performAll_next {config : Config} {events : List StreamEvent}
    (hs : s.holding = .splitter splitter) (hopen : splitter.finished = false)
    (h : splitter.reader.Shows config events) (n : Nat) :
    ∃ splitter', s.performAll (List.replicate n .next) =
        ((List.range n).map fun i =>
            .item (Splitting.ofEvents config.lineLimit splitter.delim events).items[i]?,
          s.withSplitter splitter') ∧
      splitter'.Reached config splitter.delim events n := by
  induction n generalizing s splitter events with
  | zero =>
    refine ⟨splitter, ?_, ?_, ?_, ?_⟩
    · rw [withSplitter, ← hs]
      rfl
    · simp [hopen]
    · simp [hopen]
    · intro _
      exact ⟨events, h, rfl⟩
  | succ n ih =>
    obtain ⟨rounds, item, splitter', hnext, hperform⟩ := exists_perform_next hs
    have hs' : (s.withSplitter splitter').holding = .splitter splitter' := rfl
    simp only [List.replicate_succ, performAll, hperform, List.range_succ_eq_map, List.map_cons,
      List.map_map]
    -- Behind a complete line the items are those of the stream behind it, to which the hypothesis
    -- of the induction applies. Behind the last item the splitter is finished.
    rcases Reader.Shows.next_cases hopen h hnext with
      ⟨line, later, rfl, hcomplete, hopen', hdelim, hshows, hevents, hsplitting⟩ |
      ⟨hlast, hfinished, hitems, hshows⟩
    · obtain ⟨splitter'', hrun, hreached⟩ := ih hs' hopen' hshows
      rw [hdelim] at hrun hreached
      rw [hrun, hsplitting]
      refine ⟨splitter'', rfl, ?_, ?_, ?_⟩
      · rw [hreached.finished_iff, hsplitting]
        constructor
        · rintro ⟨i, hi, hlast⟩
          exact ⟨i + 1, Nat.succ_lt_succ hi, hlast⟩
        · rintro ⟨i, hi, hlast⟩
          cases i with
          | zero => simp [Item.isLast, hcomplete] at hlast
          | succ i => exact ⟨i, Nat.lt_of_succ_lt_succ hi, hlast⟩
      · rw [hsplitting]
        exact hreached.shows_of_finished
      · intro hopen''
        obtain ⟨later', hshows', hlater⟩ := hreached.shows_of_open hopen''
        refine ⟨later', hshows', ?_⟩
        rw [hsplitting, List.take_succ_cons, List.flatMap_cons, List.map_append, List.append_assoc,
          ← hlater]
        exact hevents
    · rw [performAll_next_of_finished hs' hfinished n, hitems]
      refine ⟨splitter', ?_, ?_, ?_, ?_⟩
      · have hnone : ∀ i, item.toList[i + 1]? = none := fun i => by cases item <;> rfl
        have hfirst : item.toList[0]? = item := by cases item <;> rfl
        simp only [Function.comp_def, hnone, hfirst, List.map_const', List.length_range]
      · rw [hitems, hfinished]
        have hfirst : item.toList[0]? = item := by cases item <;> rfl
        exact ⟨fun _ => ⟨0, Nat.succ_pos n, by rw [hfirst, hlast]⟩, fun _ => rfl⟩
      · intro _
        exact hshows
      · simp [hfinished]

/-- The lines split from a reader over a faithful script are what splitting makes of its stream: the
unread bytes and those in front of the first mark of the source are cut behind every delimiter, and
each request for a line yields the next item. Behind the last item nothing is yielded and nothing
done, and the reader that is given back stands behind what was taken. -/
theorem next_eq_splitting {r : Reader Script} (h : r.source.Faithful) (delim : UInt8) (out : Bytes)
    (n : Nat) :
    StreamEvent.front r.stream = r.window.toList ++ StreamEvent.front r.source.events ∧
      (cut delim (StreamEvent.front r.stream)).Behind delim (StreamEvent.front r.stream) ∧
      (Splitting.ofEvents r.config.lineLimit delim r.stream).Accounts r.config.lineLimit delim
        r.stream ∧
      ∃ splitter : Splitter Script,
        performAll ⟨.reader r, out⟩ (.split delim :: List.replicate n .next) =
          (.done :: (List.range n).map fun i =>
              .item (Splitting.ofEvents r.config.lineLimit delim r.stream).items[i]?,
            ⟨.splitter splitter, out⟩) ∧
        splitter.Reached r.config delim r.stream n ∧
        (splitter.finished = true → ∀ m,
          performAll ⟨.splitter splitter, out⟩ (List.replicate m .next) =
            (List.replicate m (.item none), ⟨.splitter splitter, out⟩)) ∧
        perform ⟨.splitter splitter, out⟩ .reclaim = (.done, ⟨.reader splitter.reader, out⟩) := by
  have hsplit : perform ⟨.reader r, out⟩ (.split delim) =
      (.done, ⟨.splitter (r.split delim), out⟩) := rfl
  have hshows : (r.split delim).reader.Shows r.config r.stream := ⟨rfl, h, rfl⟩
  obtain ⟨splitter, hrun, hreached⟩ := exists_performAll_next
    (s := ⟨.splitter (r.split delim), out⟩) rfl rfl hshows n
  refine ⟨StreamEvent.front_append _ _, cut_behind delim _, Splitting.accounts_ofEvents _ delim _,
    splitter, ?_, hreached, ?_, rfl⟩
  · simp only [performAll, hsplit, hrun]
    rfl
  · intro hfinished m
    exact performAll_next_of_finished rfl hfinished m

/-- A reader with a window of four bytes and lines of three, from which a byte was read. -/
def shortLines : Reader Script :=
  (Reader.build [.data #[1, 2, 10, 3, 10], .delay 1, .data #[4, 5, 6, 7, 10], .ended]
    ⟨4, some 3⟩).readByte.2

/-- The line that is cut at the edge of the window is complete, and the one behind it too long. -/
theorem next_of_shortLines :
    (performAll ⟨.reader shortLines, #[]⟩ (.split newline :: List.replicate 5 .next)).1 =
      [.done, .item (some (.ok ⟨#[2, 10], true⟩)), .item (some (.ok ⟨#[3, 10], true⟩)),
        .item (some (.error (.lineTooLong 3))), .item none, .item none] := by
  have hfaithful : shortLines.source.Faithful := by decide
  obtain ⟨-, -, -, splitter, hrun, -⟩ := next_eq_splitting hfaithful newline #[] 5
  rw [hrun]
  rfl

end Session

end BufferedReading
