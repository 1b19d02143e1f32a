import Mathlib.Control.Monad.Basic
import BufferedReading.Proofs.Attempts
import BufferedReading.Proofs.Cut
import BufferedReading.Source.Script

/-!
# The line under way is never lost

A stream of lines is attempted again and again, and each attempt may leave a line under way.
`LineStream.After` is the invariant: the bytes of the lines yielded and those under way are what has
been taken from the reader, and the search stands where it would stand if it had seen the bytes
under way at once. Every attempt keeps it (`LineStream.After.next`), whatever the source answers.

`LineStream.produced_eq_lines_append_pending` states what follows: the bytes that were unread and
those that the source has produced since are the lines yielded, the line under way and the bytes
unread now. The limit counts the bytes of one line only, and a stream that has come to its end does
nothing more.
-/

namespace BufferedReading

/-- A configuration that makes sense lets a search begin. -/
theorem Config.unmet_start {config : Config} (h : config.validate = .ok ()) (delim : UInt8) :
    (Scan.start delim config.lineLimit).unmet = .starved := by
  have hlimit := validate_eq_ok_iff.1 h
  unfold Scan.unmet Scan.start
  cases hl : config.lineLimit with
  | none => rfl
  | some limit =>
    have hpos : ¬ limit ≤ 0 := by
      rintro hzero
      obtain rfl := Nat.le_zero.1 hzero
      exact hlimit hl
    simp only [if_neg hpos]

/-- A search that is starved is below its limit. -/
theorem Scan.length_lt_of_starved {delim : UInt8} {limit : Option Nat} {bytes : List UInt8}
    (h : (start delim limit).walk bytes = ⟨.starved, bytes, []⟩) :
    ∀ most, limit = some most → bytes.length < most := by
  rintro most rfl
  have hunmet := unmet_of_starved (congrArg Walk.verdict h)
  rw [h] at hunmet
  apply Nat.lt_of_not_le
  intro hle
  rw [unmet_eq_overlong_iff.2 ⟨rfl, by simpa [start, add] using hle⟩] at hunmet
  simp at hunmet

/-- A search that is starved has not met its delimiter. -/
theorem Scan.delim_notMem_of_starved {delim : UInt8} {limit : Option Nat} {bytes : List UInt8}
    (h : (start delim limit).walk bytes = ⟨.starved, bytes, []⟩) : delim ∉ bytes := by
  have hnot : (start delim limit).delim ∉ ((start delim limit).walk bytes).taken :=
    delim_notMem_taken (by rw [h]; nofun)
  rwa [h] at hnot

namespace Reader

variable {σ : Type} [PolledSource σ]

/-- What a reader makes its source produce for the window is what the exchanges bring, if the source
counts no byte that it has not written. -/
theorem produced_eq_brought {r : Reader σ} {ms : List Move} (hfills : r.Fills none ms)
    (hcovered : ∀ e ∈ r.exchanges ms, ∀ answer, e.answer = .ready answer →
      answer.Covered e.asked) :
    r.produced ms = (r.exchanges ms).flatMap Exchange.brought := by
  induction ms generalizing r with
  | nil => rfl
  | cons m ms ih =>
    obtain ⟨hfirst, hlater⟩ := hfills
    have hexchanges : r.exchanges (m :: ms) = r.exchange m ++ (r.move m).exchanges ms := rfl
    have hproduced : r.produced (m :: ms) = r.yielded m ++ (r.move m).produced ms := rfl
    rw [hexchanges] at hcovered ⊢
    have hyielded := yielded_eq_brought (fun e he => hcovered e (List.mem_append_left _ he))
      fun buffer hm => absurd (hfirst buffer hm) (Option.some_ne_none _).symm
    rw [hproduced, hyielded, ih hlater fun e he => hcovered e (List.mem_append_right _ he),
      List.flatMap_append]

/-- Without room no buffer is handed to the source. -/
theorem bypass_notMem_of_fills {r : Reader σ} {ms : List Move} (h : r.Fills none ms)
    (buffer : Bytes) : .bypass buffer ∉ ms := by
  induction ms generalizing r with
  | nil => exact List.not_mem_nil
  | cons m ms ih =>
    obtain ⟨hfirst, hlater⟩ := h
    rw [List.mem_cons, not_or]
    constructor
    · intro hm
      exact absurd (hfirst buffer hm.symm) nofun
    · exact ih hlater

end Reader

namespace LineStream

/-! ### Answers -/

/-- The item that an attempt yields, if it yields one. -/
def yielded : Poll (Option Item) → List Item
  | .ready (some item) => [item]
  | _ => []

/-- Whether nothing is yielded behind an answer. -/
def ends : Poll (Option Item) → Bool
  | .pending => false
  | .ready item => Item.isLast item

/-- Attempts made in turn, each of which comes to an end in the given number of rounds, with their
answers. -/
def pollAllWithin {σ : Type} [PolledSource σ] :
    List Nat → LineStream σ → Option (List (Poll (Option Item)) × LineStream σ)
  | [], s => some ([], s)
  | rounds :: more, s =>
    match s.pollNextWithin rounds with
    | none => none
    | some (answer, s) => (pollAllWithin more s).map fun (answers, s) => (answer :: answers, s)

/-! ### The invariant -/

section After

variable {σ : Type} [PolledSource σ]

/-- A stream of the lines of a reader after attempts with the given answers. The bytes of the lines
yielded and those under way have been taken from the reader. Unless the stream has come to its end,
the search has seen the bytes under way and nothing else, and wants more. -/
structure After (r : Reader σ) (delim : UInt8) (answers : List (Poll (Option Item)))
    (s : LineStream σ) : Prop where
  course : ∃ ms, r.Course none ms
    ((answers.flatMap yielded).flatMap Item.bytes ++ s.pending.toList) s.reader
  delim_eq : s.delim = delim
  finished_iff : s.finished = true ↔ ∃ answer ∈ answers, ends answer = true
  scan_eq : s.finished = false →
    s.scan = (Scan.start delim r.config.lineLimit).add s.pending.toList.length
  walk_pending : s.finished = false →
    (Scan.start delim r.config.lineLimit).walk s.pending.toList = ⟨.starved, s.pending.toList, []⟩
  isCut : ∀ line, .ok line ∈ answers.flatMap yielded → line.IsCut r.config.lineLimit delim

variable {r : Reader σ} {delim : UInt8} {answers : List (Poll (Option Item))} {s : LineStream σ}

/-- A stream that has not been attempted has no line under way. -/
theorem after_lines (h : r.config.validate = .ok ()) (delim : UInt8) :
    (r.lines delim).After r delim [] := by
  constructor
  · exact ⟨[], .refl r none⟩
  · rfl
  · simp [Reader.lines]
  · intro _
    rfl
  · intro _
    exact congrArg (Scan.Walk.mk · [] []) (Config.unmet_start h delim)
  · exact nofun

/-- A stream that has come to its end yields nothing, and stays as it is. -/
theorem pollNextWithin_of_finished (h : s.finished = true) (rounds : Nat) :
    s.pollNextWithin rounds = some (.ready none, s) := by
  rw [pollNextWithin, if_pos h]

/-- An attempt at a line goes on with the bytes under way. The search stands where it would stand if
it had seen all of them at once. -/
theorem After.exists_course_attempt (h : s.After r delim answers) (hopen : s.finished = false)
    {rounds : Nat} {attempt : LineAttempt σ}
    (hattempt : Reader.pollLineWithin rounds s.reader s.scan s.pending = some attempt) :
    (∃ ms, r.Course none ms
        ((answers.flatMap yielded).flatMap Item.bytes ++ attempt.out.toList) attempt.reader) ∧
      attempt.scan = (Scan.start delim r.config.lineLimit).add attempt.out.toList.length ∧
      (Scan.start delim r.config.lineLimit).walk attempt.out.toList =
        ⟨attempt.verdict, attempt.out.toList, []⟩ := by
  obtain ⟨ms, hcourse⟩ := h.course
  obtain ⟨ms', taken, hcourse', hout, hscan, hwalk, -⟩ :=
    Reader.exists_course_pollLineWithin hattempt
  have hpending := h.walk_pending hopen
  rw [h.scan_eq hopen] at hscan hwalk
  refine ⟨⟨ms ++ ms', ?_⟩, ?_, ?_⟩
  · rw [hout, ← List.append_assoc]
    exact hcourse.trans_none hcourse'
  · rw [hscan, hout, Scan.add_add, List.length_append]
  · rw [hout, Scan.walk_append taken (congrArg Scan.Walk.verdict hpending), hwalk]

/-- The invariant holds behind one more answer if the bytes taken since the line under way began are
those of the item yielded, if any, and those under way now. -/
theorem After.push (h : s.After r delim answers) {answer : Poll (Option Item)} {s' : LineStream σ}
    {bytes : List UInt8}
    (hcourse : ∃ ms, r.Course none ms ((answers.flatMap yielded).flatMap Item.bytes ++ bytes)
      s'.reader)
    (hbytes : bytes = (yielded answer).flatMap Item.bytes ++ s'.pending.toList)
    (hdelim : s'.delim = delim) (hfinished : s'.finished = (s.finished || ends answer))
    (hscan : s'.finished = false →
      s'.scan = (Scan.start delim r.config.lineLimit).add s'.pending.toList.length ∧
      (Scan.start delim r.config.lineLimit).walk s'.pending.toList =
        ⟨.starved, s'.pending.toList, []⟩)
    (hcut : ∀ line, .ok line ∈ yielded answer → line.IsCut r.config.lineLimit delim) :
    s'.After r delim (answers ++ [answer]) := by
  have hyielded : (answers ++ [answer]).flatMap yielded =
      answers.flatMap yielded ++ yielded answer := by
    rw [List.flatMap_append, List.flatMap_singleton]
  constructor
  · rw [hyielded, List.flatMap_append, List.append_assoc, ← hbytes]
    exact hcourse
  · exact hdelim
  · rw [hfinished, Bool.or_eq_true, h.finished_iff]
    simp [or_and_right, exists_or]
  · exact fun hopen => (hscan hopen).1
  · exact fun hopen => (hscan hopen).2
  · intro line hline
    rw [hyielded, List.mem_append] at hline
    rcases hline with hline | hline
    · exact h.isCut line hline
    · exact hcut line hline

/-- Bytes on which a search finds its delimiter are a complete line. -/
theorem isCut_of_found {limit : Option Nat} {out : Bytes}
    (hstart : (Scan.start delim limit).unmet = .starved)
    (h : (Scan.start delim limit).walk out.toList = ⟨.found, out.toList, []⟩) :
    Line.IsCut limit delim ⟨out, true⟩ := by
  obtain ⟨before, hbefore, hnot⟩ := Scan.exists_taken_of_found (congrArg Scan.Walk.verdict h)
  rw [h] at hbefore
  obtain rfl : out = (before ++ [delim]).toArray := Array.toList_inj.1 hbefore
  refine Line.isCut_complete hnot ?_
  rintro most rfl
  have hle : (Scan.start delim (some most)).taken +
      ((Scan.start delim (some most)).walk (before ++ [delim])).taken.length ≤ most :=
    Scan.taken_le_limit rfl (Nat.zero_le most) (before ++ [delim])
  rw [h] at hle
  exact Nat.le_trans (Nat.le_add_left _ _) hle

/-- Bytes on which a search is starved are a partial line, if there are any. -/
theorem isCut_of_starved {limit : Option Nat} {out : Bytes} (hne : out.isEmpty = false)
    (h : (Scan.start delim limit).walk out.toList = ⟨.starved, out.toList, []⟩) :
    Line.IsCut limit delim ⟨out, false⟩ := by
  have hne' : out.toList ≠ [] := by simpa using hne
  exact Line.isCut_partial (Scan.delim_notMem_of_starved h) (Scan.length_lt_of_starved h) hne'

/-- Every attempt keeps the invariant. -/
theorem After.next (hconfig : r.config.validate = .ok ()) (h : s.After r delim answers)
    {rounds : Nat} {answer : Poll (Option Item)} {s' : LineStream σ}
    (hnext : s.pollNextWithin rounds = some (answer, s')) :
    s'.After r delim (answers ++ [answer]) := by
  cases hopen : s.finished with
  | true =>
    rw [pollNextWithin_of_finished hopen] at hnext
    obtain ⟨rfl, rfl⟩ := Prod.mk.inj (Option.some.inj hnext)
    exact h.push h.course rfl h.delim_eq (by simp [hopen]) (by simp [hopen]) (by simp [yielded])
  | false =>
    rw [pollNextWithin, if_neg (by simp [hopen])] at hnext
    obtain ⟨⟨result, scan, out, reader⟩, hattempt, hconclude⟩ := Option.map_eq_some_iff.1 hnext
    obtain ⟨hcourse, hscan, hwalk⟩ := h.exists_course_attempt hopen hattempt
    have hstart := Config.unmet_start hconfig delim
    rw [h.delim_eq] at hconclude
    -- What becomes of the line under way: it is kept when the attempt is put off, and still there
    -- when it fails. With a delimiter, or at the end of the stream, it is yielded.
    cases result with
    | pending =>
      obtain ⟨rfl, rfl⟩ := Prod.mk.inj hconclude
      exact h.push hcourse rfl rfl (by simp [hopen, ends]) (fun _ => ⟨hscan, hwalk⟩)
        (by simp [yielded])
    | ready result =>
      cases result with
      | error e =>
        obtain ⟨rfl, rfl⟩ := Prod.mk.inj hconclude
        exact h.push hcourse rfl rfl (by simp [ends, Item.isLast]) (by simp) (by simp [yielded])
      | ok complete =>
        cases complete with
        | true =>
          obtain ⟨rfl, rfl⟩ := Prod.mk.inj hconclude
          have hcut := isCut_of_found hstart hwalk
          refine h.push hcourse ?_ rfl ?_ ?_ ?_
          · simp [yielded, Item.bytes]
          · simp [hopen, ends, Item.isLast]
          · intro _
            have hreset : scan.reset = Scan.start delim r.config.lineLimit := by
              rw [show scan = _ from hscan]
              rfl
            exact ⟨hreset, congrArg (Scan.Walk.mk · [] []) hstart⟩
          · intro line hline
            obtain rfl : line = ⟨out, true⟩ := by simpa [yielded] using hline
            exact hcut
        | false =>
          cases hempty : out.isEmpty with
          | true =>
            simp only [conclude, hempty, if_true, Prod.mk.injEq] at hconclude
            obtain ⟨rfl, rfl⟩ := hconclude
            obtain rfl : out = #[] := by simpa using hempty
            exact h.push hcourse rfl rfl (by simp [ends, Item.isLast]) (by simp)
              (by simp [yielded])
          | false =>
            have hcut := isCut_of_starved hempty hwalk
            simp only [conclude, hempty, Bool.false_eq_true, if_false, Prod.mk.injEq] at hconclude
            obtain ⟨rfl, rfl⟩ := hconclude
            refine h.push hcourse ?_ rfl ?_ (by simp) ?_
            · simp [yielded, Item.bytes]
            · simp [ends, Item.isLast]
            · intro line hline
              obtain rfl : line = ⟨out, false⟩ := by simpa [yielded] using hline
              exact hcut

/-- Attempts made in turn keep the invariant. -/
theorem After.pollAll (hconfig : r.config.validate = .ok ()) (h : s.After r delim answers)
    {rounds : List Nat} {more : List (Poll (Option Item))} {s' : LineStream σ}
    (hpoll : s.pollAllWithin rounds = some (more, s')) : s'.After r delim (answers ++ more) := by
  induction rounds generalizing s answers more with
  | nil =>
    obtain ⟨rfl, rfl⟩ := Prod.mk.inj (Option.some.inj hpoll)
    rwa [List.append_nil]
  | cons first rounds ih =>
    rw [pollAllWithin] at hpoll
    cases hnext : s.pollNextWithin first with
    | none => simp [hnext] at hpoll
    | some outcome =>
      obtain ⟨answer, next⟩ := outcome
      simp only [hnext] at hpoll
      obtain ⟨⟨later, last⟩, hlater, heq⟩ := Option.map_eq_some_iff.1 hpoll
      obtain ⟨rfl, rfl⟩ := Prod.mk.inj heq
      have hafter := ih (h.next hconfig hnext) hlater
      rwa [List.append_assoc] at hafter

/-- A stream that has no line under way and has not come to its end begins anew: it is the stream of
the lines of its reader. -/
theorem After.eq_lines (h : s.After r delim answers) (hopen : s.finished = false)
    (hpending : s.pending = #[]) : s = s.reader.lines delim := by
  obtain ⟨ms, hcourse⟩ := h.course
  have hdelim := h.delim_eq
  have hscan := h.scan_eq hopen
  have hconfig := hcourse.config
  obtain ⟨reader, delim', scan, pending, finished⟩ := s
  simp only at hopen hpending hdelim hscan hconfig
  subst hopen hpending hdelim
  rw [hscan, ← hconfig]
  rfl

/-- An attempt that yields a complete line leaves no line under way. -/
theorem pending_of_complete {rounds : Nat} {line : Line} {s' : LineStream σ}
    (h : s.pollNextWithin rounds = some (.ready (some (.ok line)), s'))
    (hcomplete : line.complete = true) : s'.finished = false ∧ s'.pending = #[] := by
  unfold pollNextWithin at h
  split at h
  · simp at h
  · obtain ⟨⟨result, scan, out, reader⟩, -, hconclude⟩ := Option.map_eq_some_iff.1 h
    rcases result with _ | e | complete
    · simp [conclude] at hconclude
    · simp [conclude] at hconclude
    · cases complete with
      | true =>
        obtain ⟨-, rfl⟩ := Prod.mk.inj hconclude
        exact ⟨rfl, rfl⟩
      | false =>
        obtain ⟨hline, -⟩ := Prod.mk.inj hconclude
        split at hline
        · simp at hline
        · simp only [Poll.ready.injEq, Option.some.injEq, Except.ok.injEq] at hline
          rw [← hline] at hcomplete
          simp at hcomplete

end After

section Recorded

variable {σ : Type} [PolledSource σ] {r : Reader (Recorded σ)}

/-- A stream of lines never loses, repeats or miscounts a byte, whatever its source answers and
however often it is put off. The bytes that were unread when it was made and those that the source
has produced since are those of the lines yielded, those under way and those unread now; the buffers
given to the source were the window's. Until the stream has come to its end, the search has counted
the bytes under way, no delimiter is among them and they are below the limit. Afterwards it does
nothing more. Giving up the stream gives back its reader, and so loses the line under way only. -/
theorem produced_eq_lines_append_pending (hconfig : r.config.validate = .ok ()) (delim : UInt8)
    {rounds : List Nat} {answers : List (Poll (Option Item))} {s : LineStream (Recorded σ)}
    (h : (r.lines delim).pollAllWithin rounds = some (answers, s)) :
    (∃ ms, s.reader = r.follow ms ∧ r.PermitsAll ms ∧ (∀ buffer, .bypass buffer ∉ ms) ∧
      s.reader.source.history.toList = r.source.history.toList ++ r.exchanges ms ∧
      r.window.toList ++ r.produced ms = (answers.flatMap yielded).flatMap Item.bytes ++
        s.pending.toList ++ s.reader.window.toList ∧
      ((∀ e ∈ r.exchanges ms, ∀ answer, e.answer = .ready answer → answer.Covered e.asked) →
        r.produced ms = (r.exchanges ms).flatMap Exchange.brought)) ∧
    (∀ line, .ok line ∈ answers.flatMap yielded → line.IsCut r.config.lineLimit delim) ∧
    (s.finished = false → s.scan.taken = s.pending.size ∧ delim ∉ s.pending ∧
      ∀ most, r.config.lineLimit = some most → s.pending.size < most) ∧
    (s.finished = true ↔ ∃ answer ∈ answers, ends answer = true) ∧
    (s.finished = true → ∀ more, s.pollNextWithin more = some (.ready none, s)) ∧
    (∀ more line s', s.pollNextWithin more = some (.ready (some (.ok line)), s') →
      line.complete = true → s' = s'.reader.lines delim) ∧
    ∀ rounds attempts out, PolledSession.performWithin rounds attempts ⟨.stream s, out⟩ .reclaim =
      some ⟨.done, 0, ⟨.reader s.reader, out⟩⟩ := by
  have hafter : s.After r delim answers := (after_lines hconfig delim).pollAll hconfig h
  obtain ⟨ms, hcourse⟩ := hafter.course
  refine ⟨⟨ms, hcourse.follow_eq.symm, hcourse.permits, ?_, ?_, hcourse.unread_append, ?_⟩,
    hafter.isCut, ?_, hafter.finished_iff, pollNextWithin_of_finished, ?_, ?_⟩
  · exact Reader.bypass_notMem_of_fills hcourse.fills
  · rw [← Reader.history_follow hcourse.permits, hcourse.follow_eq]
  · exact Reader.produced_eq_brought hcourse.fills
  · intro hopen
    have hwalk := hafter.walk_pending hopen
    have hnot := Scan.delim_notMem_of_starved hwalk
    have hlength := Scan.length_lt_of_starved hwalk
    refine ⟨?_, by simpa using hnot, by simpa using hlength⟩
    rw [hafter.scan_eq hopen, Array.length_toList]
    exact Nat.zero_add _
  · intro more line s' hnext hcomplete
    obtain ⟨hopen, hpending⟩ := pending_of_complete hnext hcomplete
    exact (hafter.next hconfig hnext).eq_lines hopen hpending
  · intro rounds attempts out
    rfl

end Recorded

/-- A reader with lines of at most four bytes, from which a byte was read: three are unread, and two
delays lie before it. -/
def delayedLines : Reader (Recorded Script) :=
  (Reader.build (⟨[.data #[1, 2, 10, 3], .delay 1, .data #[4, 10, 5], .delay 1], #[]⟩ :
    Recorded Script) ⟨4, some 4⟩).pollByte.2

/-- Four attempts yield two lines, each before a delay. The line that is under way behind the second
delay has been counted by the search, and is not lost. -/
theorem produced_of_delayedLines :
    ∃ answers s ms, (delayedLines.lines newline).pollAllWithin [2, 2, 2, 2] = some (answers, s) ∧
      answers = [.ready (some (.ok ⟨#[2, 10], true⟩)), .pending,
        .ready (some (.ok ⟨#[3, 4, 10], true⟩)), .pending] ∧
      s.scan.taken = 1 ∧ s.reader = delayedLines.follow ms ∧
      delayedLines.window.toList ++ (delayedLines.exchanges ms).flatMap Exchange.brought =
        [2, 10] ++ [3, 4, 10] ++ [5] := by
  have hanswers : ((delayedLines.lines newline).pollAllWithin [2, 2, 2, 2]).map Prod.fst =
      some [.ready (some (.ok ⟨#[2, 10], true⟩)), .pending,
        .ready (some (.ok ⟨#[3, 4, 10], true⟩)), .pending] := by decide +kernel
  have hstate : ∀ outcome ∈ (delayedLines.lines newline).pollAllWithin [2, 2, 2, 2],
      outcome.2.finished = false ∧ outcome.2.pending = #[5] ∧
        outcome.2.reader.window.toList = [] ∧
        ∀ e ∈ outcome.2.reader.source.history.toList, e.Reliable := by decide +kernel
  obtain ⟨⟨answers, s⟩, hpoll, rfl⟩ := Option.map_eq_some_iff.1 hanswers
  obtain ⟨hopen, hpending, hunread, hreliable⟩ := hstate _ hpoll
  have hconfig : delayedLines.config.validate = .ok () := rfl
  obtain ⟨⟨ms, hreader, -, -, hhistory, hbytes, hbrought⟩, -, hsearch, -⟩ :=
    produced_eq_lines_append_pending hconfig newline hpoll
  obtain ⟨htaken, -⟩ := hsearch hopen
  refine ⟨_, s, ms, hpoll, rfl, ?_, hreader, ?_⟩
  · rw [htaken, hpending]
    rfl
  · rw [hpending, hunread, hbrought] at hbytes
    · exact hbytes
    · intro e he answer hanswer
      have hcounts := hreliable e (by rw [hhistory]; exact List.mem_append_right _ he)
      rw [Exchange.Reliable, hanswer] at hcounts
      exact hcounts.1

end LineStream

end BufferedReading
