import BufferedReading.Program.LineStatistics
import BufferedReading.Program.Listing
import BufferedReading.Proofs.Checks
import BufferedReading.Proofs.PolledServing

/-!
# Two programs that count lines

`LineStatistics` folds over the lines that it splits from a file, `Listing` reads line after line by
polling until one is empty or incomplete. Both count the lines of the text that they read, as far as
their counters go, and neither the window nor the pieces in which the text comes play a part in it.

What they should find is said by the segments of the text, which stand between its newlines:
`LineStatistics.Tally.ofText` and `Listing.Survey.ofText`. The proofs go along the text from newline
to newline. The lines to which the text is cut add up to the tally
(`LineStatistics.Tally.foldl_cut`). A survey takes them up to the first that is too long
(`Listing.surveyFrom_eq_through`), and so many of them fit as there are segments that do
(`Listing.Survey.fitting_cut`). `line_counts_agree` puts this together for the two programs, and
`run_of_newlines` is about a text with more lines than they can count.
-/

namespace BufferedReading

/-! ### Texts -/

namespace Text

/-- What stands between the newlines of a text, in front of the first and behind the last. -/
def segments (text : List UInt8) : List (List UInt8) := text.splitOn newline

/-- A text that is not empty ends with another byte than a newline. -/
def Unterminated (text : List UInt8) : Prop := text ≠ [] ∧ text.getLast? ≠ some newline

instance : DecidablePred Unterminated := fun _ => inferInstanceAs (Decidable (_ ∧ _))

/-- The number of lines: each ends with a newline, except that something behind the last newline is
a line too. -/
def lineCount (text : List UInt8) : Nat :=
  text.count newline + if Unterminated text then 1 else 0

/-- The length of the longest segment. -/
def longest (text : List UInt8) : Nat := ((segments text).map List.length).max?.getD 0

/-- Every segment is shorter than a limit. -/
def Within (limit : Nat) (text : List UInt8) : Prop :=
  ∀ segment ∈ segments text, segment.length < limit

instance (limit : Nat) : DecidablePred (Within limit) := fun text =>
  inferInstanceAs (Decidable (∀ segment ∈ segments text, segment.length < limit))

/-- The number of segments in front of the first that is not shorter than a limit. -/
def countWithin (limit : Nat) (text : List UInt8) : Nat :=
  ((segments text).takeWhile (·.length < limit)).length

variable {text before : List UInt8} {limit : Nat}

/-! Each of these is known of a text without a newline, and of one with a newline if it is known of
what stands behind the first. -/

theorem segments_of_notMem (h : newline ∉ text) : segments text = [text] :=
  List.splitOn_eq_singleton h

theorem segments_append_cons (h : newline ∉ before) (after : List UInt8) :
    segments (before ++ newline :: after) = before :: segments after :=
  List.splitOn_append_cons_self_of_not_mem h after

theorem unterminated_of_notMem (h : newline ∉ text) : Unterminated text ↔ text ≠ [] :=
  and_iff_left fun hlast => h (List.mem_of_getLast? hlast)

theorem unterminated_append_cons (before after : List UInt8) :
    Unterminated (before ++ newline :: after) ↔ Unterminated after := by
  rw [Unterminated, ne_eq (List.getLast? _), getLast?_append_delim_cons, not_or]
  simp [Unterminated]

/-- There are as many lines as there are pieces to which the text is cut. -/
theorem lineCount_eq (text : List UInt8) : lineCount text = (cut newline text).lines.length := by
  rw [length_lines_cut, pieces_toArray, lineCount]
  simp only [Unterminated, ne_eq, ← not_or, ite_not]

theorem lineCount_of_notMem (h : newline ∉ text) :
    lineCount text = if text = [] then 0 else 1 := by
  rw [lineCount_eq, lines_cut_of_notMem h]
  split <;> rfl

theorem lineCount_append_cons (h : newline ∉ before) (after : List UInt8) :
    lineCount (before ++ newline :: after) = lineCount after + 1 := by
  rw [lineCount_eq, lineCount_eq, lines_cut_append_cons h, List.length_cons]

/-- A line takes a byte at least. -/
theorem lineCount_le_length (text : List UInt8) : lineCount text ≤ text.length := by
  induction text using delim_induction newline with
  | notMem text h =>
    rw [lineCount_of_notMem h]
    split
    · exact Nat.zero_le _
    · next hnil => exact List.length_pos_iff.2 hnil
  | cons before after hbefore ih =>
    rw [lineCount_append_cons hbefore, List.length_append, List.length_cons]
    omega

theorem longest_of_notMem (h : newline ∉ text) : longest text = text.length := by
  rw [longest, segments_of_notMem h]
  rfl

theorem longest_append_cons (h : newline ∉ before) (after : List UInt8) :
    longest (before ++ newline :: after) = max before.length (longest after) := by
  rw [longest, longest, segments_append_cons h, List.map_cons, List.max?_cons]
  cases ((segments after).map List.length).max? <;> simp

theorem within_of_notMem (h : newline ∉ text) : Within limit text ↔ text.length < limit := by
  simp [Within, segments_of_notMem h]

theorem within_append_cons (h : newline ∉ before) (after : List UInt8) :
    Within limit (before ++ newline :: after) ↔ before.length < limit ∧ Within limit after := by
  simp [Within, segments_append_cons h]

/-- A text of newlines has as many lines, and each of its segments is empty. -/
theorem lineCount_replicate (n : Nat) : lineCount (List.replicate n newline) = n := by
  induction n with
  | zero => rfl
  | succ n ih =>
    have hline := lineCount_append_cons List.not_mem_nil (List.replicate n newline)
    rw [List.replicate_succ, ← List.nil_append (newline :: _), hline, ih]

theorem within_replicate (hpos : 0 < limit) (n : Nat) :
    Within limit (List.replicate n newline) := by
  induction n with
  | zero => exact (within_of_notMem List.not_mem_nil).2 hpos
  | succ n ih =>
    have hline : Within limit ([] ++ newline :: List.replicate n newline) ↔ _ :=
      within_append_cons List.not_mem_nil (List.replicate n newline)
    exact hline.2 ⟨hpos, ih⟩

theorem countWithin_of_notMem (h : newline ∉ text) :
    countWithin limit text = if text.length < limit then 1 else 0 := by
  rw [countWithin, segments_of_notMem h, List.takeWhile_cons]
  by_cases hlt : text.length < limit <;> simp [hlt]

theorem countWithin_append_cons (h : newline ∉ before) (after : List UInt8) :
    countWithin limit (before ++ newline :: after) =
      if before.length < limit then countWithin limit after + 1 else 0 := by
  rw [countWithin, segments_append_cons h, List.takeWhile_cons]
  by_cases hlt : before.length < limit <;> simp [hlt, countWithin]

end Text

/-! ### The tally of a text -/

namespace LineStatistics

/-- The tally that is to be made of a text. -/
def Tally.ofText (text : List UInt8) : Tally where
  lines := Text.lineCount text
  bytes := text.length
  longest := Text.longest text
  unterminated := decide (Text.Unterminated text)

namespace Tally

/-- A tally with one more line, in counters of any size. -/
def plus (t : Tally) (line : Line) : Tally where
  lines := t.lines + 1
  bytes := t.bytes + line.size
  longest := max t.longest (line.content newline).size
  unterminated := !line.complete

/-- The counters have room for a tally. -/
def Fits (t : Tally) : Prop := t.lines < counterSize ∧ t.bytes < wordSize

instance : DecidablePred Fits := fun _ => inferInstanceAs (Decidable (_ ∧ _))

/-- A line is added if the counters have room for it. -/
theorem add_eq (t : Tally) (line : Line) :
    t.add line = if (t.plus line).Fits then .ok (t.plus line) else .error .overflow := by
  rw [add, checkedAdd, checkedAdd]
  by_cases hlines : t.lines + 1 < counterSize
  · by_cases hbytes : t.bytes + line.size < wordSize
    · rw [if_pos hlines, if_pos hbytes, if_pos (show (t.plus line).Fits from ⟨hlines, hbytes⟩)]
      rfl
    · rw [if_pos hlines, if_neg hbytes, if_neg fun h : (t.plus line).Fits => hbytes h.2]
  · rw [if_neg hlines, if_neg fun h : (t.plus line).Fits => hlines h.1]

/-- The counters have room for what is counted before the last of lines. -/
theorem Fits.of_foldl {lines : List Line} {t : Tally} (h : (lines.foldl plus t).Fits) : t.Fits := by
  induction lines generalizing t with
  | nil => exact h
  | cons line lines ih =>
    obtain ⟨hlines, hbytes⟩ := ih h
    exact ⟨Nat.lt_of_succ_lt hlines, Nat.lt_of_le_of_lt (Nat.le_add_right ..) hbytes⟩

/-- The lines of a text are added to a tally. -/
theorem foldl_cut (text : List UInt8) (t : Tally) :
    (cut newline text).lines.foldl plus t =
      { lines := t.lines + Text.lineCount text
        bytes := t.bytes + text.length
        longest := max t.longest (Text.longest text)
        unterminated := text.isEmpty && t.unterminated || decide (Text.Unterminated text) } := by
  induction text using delim_induction newline generalizing t with
  | notMem text h =>
    rw [lines_cut_of_notMem h, Text.lineCount_of_notMem h, Text.longest_of_notMem h]
    by_cases hnil : text = []
    · simp [hnil, Text.Unterminated]
    · simp [hnil, plus, Line.size, Text.unterminated_of_notMem h]
  | cons before after hbefore ih =>
    rw [lines_cut_append_cons hbefore, List.foldl_cons, ih, Text.lineCount_append_cons hbefore,
      Text.longest_append_cons hbefore]
    simp only [plus, Line.size, Line.content_complete, List.size_toArray, List.length_append,
      List.length_cons, List.length_nil, Text.unterminated_append_cons, mk.injEq]
    exact ⟨by omega, by omega, Nat.max_assoc .., by simp⟩

/-- The counters have room for the tally of few bytes. -/
theorem fits_ofText (bytes : Bytes) (h : bytes.size < counterSize) :
    (ofText bytes.toList).Fits := by
  have hlines := Text.lineCount_le_length bytes.toList
  have hbytes : counterSize ≤ wordSize := by decide
  rw [Array.length_toList] at hlines
  exact ⟨Nat.lt_of_le_of_lt hlines h, Nat.lt_of_lt_of_le h hbytes⟩

/-- The tally of a text, if the counters have room for it. -/
def ofText? (text : List UInt8) : Except (Stop ReadError) Tally :=
  if (ofText text).Fits then .ok (ofText text) else .error (.faulted .overflow)

end Tally

/-- Nothing is added to what has stopped. -/
theorem foldl_addItem_error (items : List Item) (stop : Stop ReadError) :
    items.foldl addItem (.error stop) = .error stop := by
  induction items with
  | nil => rfl
  | cons item items ih => exact ih

/-- Items that are lines are added to a tally, if the counters have room for all of them. -/
theorem foldl_addItem (lines : List Line) {t : Tally} (h : t.Fits) :
    (lines.map Except.ok).foldl addItem (.ok t) =
      if (lines.foldl Tally.plus t).Fits then .ok (lines.foldl Tally.plus t)
      else .error (.faulted .overflow) := by
  induction lines generalizing t with
  | nil => exact (if_pos h).symm
  | cons line lines ih =>
    rw [List.map_cons, List.foldl_cons, List.foldl_cons, addItem, Tally.add_eq]
    by_cases hline : (t.plus line).Fits
    · rw [if_pos hline]
      exact ih hline
    · rw [if_neg hline, if_neg fun hall => hline (Tally.Fits.of_foldl hall)]
      exact foldl_addItem_error _ _

/-- The tally of all lines of a reader is that of the bytes ahead, if the counters have room for
it. -/
theorem tally_eq {σ : Type} [FiniteSource σ] {left : σ → List UInt8 → Prop} (h : Serves left)
    {config : Config} {text : List UInt8} {r : Reader σ} (hr : r.HasAhead left config text)
    (hlimit : config.lineLimit = none) : tally r = Tally.ofText? text := by
  have hfold : tally r = ((cut newline text).lines.map Except.ok).foldl addItem (.ok {}) :=
    Splitter.fold_eq hr h hlimit rfl addItem (.ok {})
  have hnone : Tally.Fits {} := by decide
  have hcut : (cut newline text).lines.foldl Tally.plus {} = .ofText text := by
    rw [Tally.foldl_cut]
    simp [Tally.ofText]
  rw [hfold, foldl_addItem _ hnone, hcut, Tally.ofText?]

end LineStatistics

/-! ### The survey of a text -/

namespace Listing

/-- The entries of lines behind so many others, as far as they are shown. -/
def listing (count : Nat) (lines : List Line) : String :=
  String.join ((lines.take (shown - count)).mapIdx fun i line => entry (count + 1 + i) line.data)

/-- The number of lines to be counted under a limit. If all segments are shorter than the limit all
lines are, and otherwise those in front of the first segment that is not. -/
def toCount (limit : Nat) (text : List UInt8) : Nat :=
  if Text.Within limit text then Text.lineCount text else Text.countWithin limit text

/-- The survey that is to be made of a text under a limit. It ends as soon as the counter has no
room for one line more. -/
def Survey.ofText (limit : Nat) (text : List UInt8) : Survey where
  count := min (toCount limit text) (counterSize - 1)
  entries := listing 0 ((cut newline text).lines.take (toCount limit text))
  stop :=
    if counterSize ≤ toCount limit text then some (.faulted .overflow)
    else if Text.Within limit text then none
    else some (.failed (.lineTooLong limit))

namespace Survey

variable {limit : Nat} {text : List UInt8}

/-- All lines to be counted are counted if the counter has room for them. -/
theorem count_ofText (h : toCount limit text < counterSize) :
    (ofText limit text).count = toCount limit text :=
  Nat.min_eq_left (Nat.le_sub_one_of_lt h)

/-- Only a line that is too long stops a survey if the counter has room for the lines to be
counted. -/
theorem stop_ofText (h : toCount limit text < counterSize) :
    (ofText limit text).stop =
      if Text.Within limit text then none else some (.failed (.lineTooLong limit)) :=
  if_neg (Nat.not_le.2 h)

end Survey

/-- The lines in front of the first that is too long. -/
def fitting (limit : Nat) (lines : List Line) : List Line :=
  lines.takeWhile fun line => (line.content newline).size < limit

/-- A line is in front of the first that is too long if it is not too long itself. -/
theorem fitting_cons (limit : Nat) (line : Line) (lines : List Line) :
    fitting limit (line :: lines) =
      if (line.content newline).size < limit then line :: fitting limit lines else [] := by
  rw [fitting, List.takeWhile_cons]
  by_cases hlt : (line.content newline).size < limit <;> simp [hlt, fitting]

/-- The lines in front of the first that is too long are the first of all. -/
theorem fitting_eq_take (limit : Nat) (lines : List Line) :
    fitting limit lines = lines.take (fitting limit lines).length :=
  List.prefix_iff_eq_take.1 (List.takeWhile_prefix _)

/-- The survey behind some lines, which ends at the first that is too long, or that the counter has
no room for. -/
def Survey.through (limit : Nat) (s : Survey) : List Line → Survey
  | [] => s
  | line :: lines =>
    if (line.content newline).size < limit then
      match s.add line.data with
      | .error fault => { s with stop := some (.faulted fault) }
      | .ok s => s.through limit lines
    else { s with stop := some (.failed (.lineTooLong limit)) }

/-- The listing of no lines is empty. -/
@[simp] theorem listing_nil (count : Nat) : listing count [] = "" := by
  simp [listing]

/-- A listing begins with the entry of the first line, unless enough lines have been shown. -/
theorem listing_cons (count : Nat) (line : Line) (lines : List Line) :
    listing count (line :: lines) =
      (if count < shown then entry (count + 1) line.data else "") ++ listing (count + 1) lines := by
  by_cases hlt : count < shown
  · obtain ⟨more, hmore⟩ : ∃ more, shown - count = more + 1 := ⟨shown - (count + 1), by omega⟩
    have hnext : shown - (count + 1) = more := by omega
    rw [listing, listing, hmore, hnext, if_pos hlt, List.take_succ_cons, List.mapIdx_cons,
      String.join_cons]
    simp only [Nat.add_zero, Nat.add_assoc, Nat.add_comm 1]
  · have hnone : shown - count = 0 := by omega
    have hnext : shown - (count + 1) = 0 := by omega
    simp [listing, hnone, hnext, hlt]

/-- A listing is empty behind enough lines. -/
theorem listing_of_shown_le {count : Nat} (h : shown ≤ count) (lines : List Line) :
    listing count lines = "" := by
  rw [listing, Nat.sub_eq_zero_of_le h, List.take_zero]
  rfl

namespace Survey

/-- A line is added to a survey if the counter has room for it, and its entry unless enough lines
have been shown. -/
theorem add_of_lt {s : Survey} (h : s.count + 1 < counterSize) (line : Bytes) :
    s.add line = .ok
      { s with
        count := s.count + 1
        entries := s.entries ++ if s.count < shown then entry (s.count + 1) line else "" } := by
  rw [add, checkedAdd_of_lt h]
  simp only [Nat.succ_le_iff]
  split <;> simp

/-- Any other line is a fault. -/
theorem add_of_le {s : Survey} (h : counterSize ≤ s.count + 1) (line : Bytes) :
    s.add line = .error .overflow := by
  rw [add, checkedAdd_of_le h]

/-- The lines in front of the first that is too long are added to a survey, as far as the counter
has room for them. -/
theorem through_eq (limit : Nat) (lines : List Line) {s : Survey} (h : s.count < counterSize) :
    s.through limit lines =
      { count := min (s.count + (fitting limit lines).length) (counterSize - 1)
        entries := s.entries ++ listing s.count (fitting limit lines)
        stop :=
          if counterSize ≤ s.count + (fitting limit lines).length then some (.faulted .overflow)
          else if fitting limit lines = lines then s.stop
          else some (.failed (.lineTooLong limit)) } := by
  have hmost : s.count ≤ counterSize - 1 := Nat.le_sub_one_of_lt h
  induction lines generalizing s with
  | nil => simp [through, fitting, Nat.not_le.2 h, Nat.min_eq_left hmost]
  | cons line lines ih =>
    rw [through, fitting_cons]
    by_cases hlt : (line.content newline).size < limit
    · rw [if_pos hlt, if_pos hlt, List.length_cons, Nat.add_comm _ 1, ← Nat.add_assoc]
      by_cases hroom : s.count + 1 < counterSize
      · rw [add_of_lt hroom]
        simp only
        rw [ih (s := { s with
            count := s.count + 1
            entries := s.entries ++ if s.count < shown then entry (s.count + 1) line.data else "" })
          hroom (Nat.le_sub_one_of_lt hroom), listing_cons, String.append_assoc]
        simp only [List.cons.injEq, true_and]
      · -- the counter is at its greatest value, and enough lines have been shown long ago
        have hfull := Nat.le_of_not_lt hroom
        have hcount : s.count = counterSize - 1 :=
          Nat.le_antisymm hmost (Nat.sub_le_of_le_add hfull)
        have hshown : shown ≤ s.count := by
          rw [hcount]
          decide
        have hbeyond : counterSize ≤ s.count + 1 + (fitting limit lines).length :=
          Nat.le_trans hfull (Nat.le_add_right ..)
        rw [add_of_le hfull, listing_of_shown_le hshown, String.append_empty, if_pos hbeyond,
          Nat.min_eq_right (Nat.le_trans (Nat.sub_le ..) hbeyond), ← hcount]
    · simp [if_neg hlt, Nat.not_le.2 h, Nat.min_eq_left hmost]

/-- All lines of a text fit if all its segments do. Otherwise those fit that are made of the
segments in front of the first that does not. -/
theorem fitting_cut {limit : Nat} (hpos : 0 < limit) (text : List UInt8) :
    (fitting limit (cut newline text).lines = (cut newline text).lines ↔
        Text.Within limit text) ∧
      (fitting limit (cut newline text).lines).length = toCount limit text := by
  unfold toCount
  induction text using delim_induction newline with
  | notMem text h =>
    simp only [lines_cut_of_notMem h, Text.within_of_notMem h, Text.lineCount_of_notMem h,
      Text.countWithin_of_notMem h, fitting]
    by_cases hnil : text = []
    · simp [hnil, hpos]
    · by_cases hlt : text.length < limit <;> simp [hnil, hlt]
  | cons before after hbefore ih =>
    simp only [lines_cut_append_cons hbefore, Text.within_append_cons hbefore,
      Text.lineCount_append_cons hbefore, Text.countWithin_append_cons hbefore]
    rw [fitting_cons, Line.content_complete, List.size_toArray]
    by_cases hlt : before.length < limit
    · simp only [hlt, true_and, if_true, List.length_cons, List.cons.injEq, ih]
      split <;> simp
    · simp [hlt]

end Survey

section Reading

variable {σ : Type} [FinitePolledSource σ] {left : σ → List UInt8 → Prop} {config : Config}
  {limit : Nat} {text : List UInt8} {r : Reader σ}

/-- A survey goes on behind a complete line, and ends behind any other read. -/
theorem surveyFrom_eq (r : Reader σ) (s : Survey) :
    surveyFrom r s =
      let call := r.awaitLine (.start newline r.config.lineLimit) #[]
      match call.result with
      | .error e => { s with stop := some (.failed e) }
      | .ok complete =>
        if call.buffer.isEmpty then s
        else
          match s.add call.buffer with
          | .error fault => { s with stop := some (.faulted fault) }
          | .ok s => if complete then surveyFrom call.reader s else s := by
  rw [surveyFrom]
  split
  · next hcall => simp only [hcall]
  · next hcall =>
    simp only [hcall]
    rfl

/-- The lines that a reader has ahead are added to a survey up to the first that is too long. -/
theorem surveyFrom_eq_through (h : PollServes left) (hr : r.HasAhead left config text)
    (hlimit : config.lineLimit = some limit) (hpos : 0 < limit) (s : Survey) :
    surveyFrom r s = s.through limit (cut newline text).lines := by
  induction text using delim_induction newline generalizing r s with
  | notMem text hnot =>
    have hyields := hr.yields_awaitLine h (.start newline r.config.lineLimit) #[]
    rw [Scan.comesTo_empty, hr.config_eq, hlimit, Scan.walk_start_of_notMem hnot] at hyields
    rw [surveyFrom_eq, lines_cut_of_notMem hnot, hr.config_eq, hlimit]
    by_cases hlt : text.length < limit
    · have hfilter : (some limit).filter (· ≤ text.length) = none := by simpa using hlt
      rw [hfilter] at hyields
      have hbuffer : _ = text.toArray := Array.toList_inj.1 hyields.buffer_eq
      simp only [hyields.result_eq, hbuffer, Verdict.result]
      by_cases hnil : text = []
      · simp [hnil, Survey.through]
      · simp [hnil, Survey.through, hlt]
    · have hfilter : (some limit).filter (· ≤ text.length) = some limit := by
        simpa using Nat.le_of_not_lt hlt
      rw [hfilter] at hyields
      have hnil : text ≠ [] := by
        rintro rfl
        exact hlt hpos
      simp [hyields.result_eq, Verdict.result, hnil, Survey.through, hlt]
  | cons before after hbefore ih =>
    have hyields := hr.yields_awaitLine h (.start newline r.config.lineLimit) #[]
    rw [Scan.comesTo_empty, hr.config_eq, hlimit, Scan.walk_start_of_mem hbefore] at hyields
    rw [surveyFrom_eq, lines_cut_append_cons hbefore, hr.config_eq, hlimit, Survey.through]
    rw [Line.content_complete, List.size_toArray]
    by_cases hlt : before.length < limit
    · have hfilter : (some limit).filter (· < (before ++ [newline]).length) = none := by
        simpa [Nat.succ_le_iff] using hlt
      rw [hfilter] at hyields
      have hbuffer : _ = (before ++ [newline]).toArray := Array.toList_inj.1 hyields.buffer_eq
      simp only [hyields.result_eq, hbuffer, Verdict.result]
      simp [hlt, ih hyields.hasAhead]
    · have hfilter : (some limit).filter (· < (before ++ [newline]).length) = some limit := by
        simpa [Nat.lt_succ_iff] using Nat.le_of_not_lt hlt
      rw [hfilter] at hyields
      simp [hyields.result_eq, Verdict.result, hlt]

/-- The survey of a reader under a limit is that of the bytes ahead. -/
theorem surveyFrom_eq_ofText (h : PollServes left) (hr : r.HasAhead left config text)
    (hlimit : config.lineLimit = some limit) (hpos : 0 < limit) :
    surveyFrom r {} = .ofText limit text := by
  obtain ⟨hall, hlength⟩ := Survey.fitting_cut hpos text
  have hfitting := fitting_eq_take limit (cut newline text).lines
  have hnone : ({} : Survey).count < counterSize := by decide
  rw [surveyFrom_eq_through h hr hlimit hpos, Survey.through_eq limit _ hnone]
  simp only [Survey.ofText, hall, ← hlength, ← hfitting, Nat.zero_add, String.empty_append]

end Reading

end Listing

/-! ### The programs -/

section Programs

variable {open? : String → Except Failure File} {path : String} {args : List String}
  {contents : Bytes} {capacity : Nat}

/-- A reader of a file just opened has its contents ahead. -/
theorem hasAhead_file (contents : Bytes) (config : Config) :
    (Reader.build (File.ofBytes contents) config).HasAhead File.HasLeft config contents.toList :=
  Reader.hasAhead_build File.HasLeft (.ofBytes contents) rfl config

/-- A reader just built has the capacity of its configuration. -/
theorem Reader.capacity_build {σ : Type} (source : σ) (config : Config) :
    (Reader.build source config).capacity = config.capacity := by
  have hpos := config.capacity_pos
  rw [Reader.capacity, Reader.build, Window.capacity_ofCapacity]
  omega

/-- A reader is made of a capacity that an array can have. -/
theorem Reader.ofConfig?_ofCapacity {σ : Type} (source : σ) {capacity : Nat}
    (h : capacity ≤ maxSize) :
    Reader.ofConfig? source (.ofCapacity capacity) = .ok (.ofCapacity source capacity) := by
  have hroom : (Config.ofCapacity capacity).capacity ≤ maxSize := by
    rw [Config.capacity]
    split
    · decide
    · exact h
  exact if_pos hroom

/-- No reader is made of a greater one. -/
theorem Reader.ofConfig?_ofCapacity_of_lt {σ : Type} (source : σ) {capacity : Nat}
    (h : maxSize < capacity) :
    Reader.ofConfig? source (.ofCapacity capacity) = .error (.faulted .capacity) := by
  have hroom : ¬ (Config.ofCapacity capacity).capacity ≤ maxSize := by
    rw [Config.capacity, Config.ofCapacity, if_neg (Nat.ne_zero_of_lt h)]
    exact Nat.not_le.2 h
  exact if_neg hroom

namespace LineStatistics

/-- The line statistics of a file are those of its contents. The program gives up if no array can be
as large as the window, or if the counters have no room for the tally. -/
theorem run_eq (hopen : open? path = .ok (.ofBytes contents))
    (hcapacity : args.head?.elim (.ok 0) Numeral.parse = .ok capacity) :
    let tally := Tally.ofText contents.toList
    let heading := fileHeading path (Config.ofCapacity capacity).capacity
    run open? (path :: args) =
      if maxSize < capacity then .refusal (.faulted .capacity)
      else if tally.Fits then { output := heading ++ tally.report }
      else { output := heading, diagnostic := some (.faulted .overflow) } := by
  intro tally heading
  have htally := tally_eq File.serves (hasAhead_file contents (.ofCapacity capacity)) rfl
  simp only [run, hcapacity, hopen]
  delta report
  by_cases hroom : maxSize < capacity
  · simp only [Reader.ofConfig?_ofCapacity_of_lt _ hroom, if_pos hroom]
    rfl
  · have hreader := Reader.ofConfig?_ofCapacity (File.ofBytes contents) (Nat.le_of_not_lt hroom)
    rw [Reader.ofCapacity] at hreader
    simp only [hreader, htally, Reader.capacity_build, if_neg hroom, Tally.ofText?]
    by_cases hfits : tally.Fits
    · simp only [tally, if_pos hfits, heading]
    · simp only [tally, if_neg hfits]
      rfl

end LineStatistics

/-- The listing of a file is that of its contents. -/
theorem Listing.run_eq (hopen : open? path = .ok (.ofBytes contents)) :
    run open? (path :: args) =
      (Survey.ofText (1024 * 1024) contents.toList).transcript (fileHeading path (16 * 1024)) := by
  have hsurvey := surveyFrom_eq_ofText File.pollServes (hasAhead_file contents config) rfl
    (by decide)
  have hreader : Reader.ofConfig? (File.ofBytes contents) config =
      .ok (.build (.ofBytes contents) config) := rfl
  simp only [run, hopen, list, hreader, hsurvey, Reader.capacity_build]
  rfl

/-- Both programs count the lines of the text that a file holds, as far as they can count.
`LineStatistics` reports its tally, whatever the capacity asked for, if an array can be as large as
that and the counters have room for the tally: in a file of fewer bytes than a counter has values
they always have. `Listing` reports its survey, which counts as many lines if all segments are
shorter than the limit; otherwise, and only then, it ends with the line that is too long and counts
those in front of it; and it ends with a fault if it has no number for a line. The same tally and
survey are made of a text that comes from any source in any pieces, through a window of any
capacity, and when it is polled with any delays. -/
theorem line_counts_agree (hopen : open? path = .ok (.ofBytes contents))
    (hcapacity : args.head?.elim (.ok 0) Numeral.parse = .ok capacity) :
    let text := contents.toList
    let tally := LineStatistics.Tally.ofText text
    let survey := Listing.Survey.ofText (1024 * 1024) text
    let heading := fileHeading path (Config.ofCapacity capacity).capacity
    (LineStatistics.run open? (path :: args) =
        if maxSize < capacity then .refusal (.faulted .capacity)
        else if tally.Fits then { output := heading ++ tally.report }
        else { output := heading, diagnostic := some (.faulted .overflow) }) ∧
      (contents.size < counterSize → tally.Fits) ∧
      Listing.run open? (path :: args) = survey.transcript (fileHeading path (16 * 1024)) ∧
      (Text.Within (1024 * 1024) text → Text.lineCount text < counterSize →
        survey.stop = none ∧ survey.count = tally.lines) ∧
      (¬ Text.Within (1024 * 1024) text → Text.countWithin (1024 * 1024) text < counterSize →
        survey.stop = some (.failed (.lineTooLong (1024 * 1024))) ∧
          survey.count = Text.countWithin (1024 * 1024) text) ∧
      (counterSize ≤ Listing.toCount (1024 * 1024) text →
        survey.stop = some (.faulted .overflow) ∧ survey.count = counterSize - 1) ∧
      (∀ {σ : Type} [FiniteSource σ] {left : σ → List UInt8 → Prop}, Serves left →
        ∀ (source : σ) (capacity : Nat), left source text →
          LineStatistics.tally (.ofCapacity source capacity) =
            if tally.Fits then .ok tally else .error (.faulted .overflow)) ∧
      ∀ {σ : Type} [FinitePolledSource σ] {left : σ → List UInt8 → Prop}, PollServes left →
        ∀ (source : σ) (capacity limit : Nat), left source text → 0 < limit →
          Listing.surveyFrom (.build source ⟨capacity, some limit⟩) {} = .ofText limit text := by
  intro text tally survey heading
  refine ⟨LineStatistics.run_eq hopen hcapacity, LineStatistics.Tally.fits_ofText contents,
    Listing.run_eq hopen, fun hwithin hcount => ?_, fun hwithin hcount => ?_, fun hcount => ?_,
    ?_, ?_⟩
  · have htoCount : Listing.toCount (1024 * 1024) text = Text.lineCount text := if_pos hwithin
    exact ⟨Listing.Survey.stop_ofText (htoCount ▸ hcount) |>.trans (if_pos hwithin),
      (Listing.Survey.count_ofText (htoCount ▸ hcount)).trans htoCount⟩
  · have htoCount : Listing.toCount (1024 * 1024) text = Text.countWithin (1024 * 1024) text :=
      if_neg hwithin
    exact ⟨Listing.Survey.stop_ofText (htoCount ▸ hcount) |>.trans (if_neg hwithin),
      (Listing.Survey.count_ofText (htoCount ▸ hcount)).trans htoCount⟩
  · exact ⟨if_pos hcount, Nat.min_eq_right (Nat.le_trans (Nat.sub_le ..) hcount)⟩
  · intro σ _ left h source capacity hleft
    exact LineStatistics.tally_eq h (Reader.hasAhead_build left source hleft _) rfl
  · intro σ _ left h source capacity limit hleft hpos
    exact Listing.surveyFrom_eq_ofText h (Reader.hasAhead_build left source hleft _) rfl hpos

/-- Neither program can count to the end of a file of as many newlines as a counter has values. -/
theorem run_of_newlines {count : Nat} (h : counterSize ≤ count)
    (hopen : open? path = .ok (.ofBytes (Array.replicate count newline))) :
    LineStatistics.run open? [path] =
        { output := fileHeading path 4096, diagnostic := some (.faulted .overflow) } ∧
      (Listing.run open? [path]).diagnostic = some (.faulted .overflow) := by
  have hlines : Text.lineCount (List.replicate count newline) = count := Text.lineCount_replicate _
  have hfits : ¬ (LineStatistics.Tally.ofText (List.replicate count newline)).Fits := by
    rintro ⟨hlt, -⟩
    rw [LineStatistics.Tally.ofText, hlines] at hlt
    exact Nat.not_le.2 hlt h
  have hcount : counterSize ≤ Listing.toCount (1024 * 1024) (List.replicate count newline) := by
    rw [Listing.toCount, if_pos (Text.within_replicate (by decide) count), hlines]
    exact h
  have hstop : (Listing.Survey.ofText (1024 * 1024) (List.replicate count newline)).stop =
      some (.faulted .overflow) := if_pos hcount
  have hcapacity : ([] : List String).head?.elim (.ok 0) Numeral.parse = .ok 0 := rfl
  constructor
  · have hrun := LineStatistics.run_eq hopen hcapacity
    rw [Array.toList_replicate] at hrun
    rw [hrun, if_neg (by decide), if_neg hfits]
    rfl
  · rw [Listing.run_eq hopen, Array.toList_replicate, Listing.Survey.transcript, hstop]
    rfl

end Programs

/-- Opens one file, which holds three lines; the last has no newline. -/
def openNotes (path : String) : Except Failure File :=
  if path = "notes" then .ok (.ofBytes #[97, 98, 10, 10, 99]) else .error File.missing

/-- Through a window of two bytes three lines are reported, and as many are listed. Under a limit of
two bytes the first line is too long, in whatever pieces it comes. -/
theorem line_counts_agree_notes :
    LineStatistics.run openNotes ["notes", "2"] =
        { output := fileHeading "notes" 2 ++ (⟨3, 5, 2, true⟩ : LineStatistics.Tally).report } ∧
      Listing.run openNotes ["notes", "2"] =
        (⟨3, Listing.listing 0 [⟨#[97, 98, 10], true⟩, ⟨#[10], true⟩, ⟨#[99], false⟩], none⟩ :
          Listing.Survey).transcript (fileHeading "notes" (16 * 1024)) ∧
      Listing.surveyFrom (.build ([.data #[97], .delay 2, .data #[98, 10, 10, 99]] : Script)
        ⟨1, some 2⟩) {} = ⟨0, "", some (.failed (.lineTooLong 2))⟩ := by
  have hopen : openNotes "notes" = .ok (.ofBytes #[97, 98, 10, 10, 99]) := rfl
  have hcapacity : ["2"].head?.elim (.ok 0) Numeral.parse = .ok 2 := rfl
  obtain ⟨htally, hfits, hsurvey, -, -, -, -, hpolled⟩ := line_counts_agree hopen hcapacity
  have hleft : Script.HasLeft [.data #[97], .delay 2, .data #[98, 10, 10, 99]]
      [97, 98, 10, 10, 99] :=
    .data #[97] (by decide) (.delay 2 (.data #[98, 10, 10, 99] (by decide) .nil))
  rw [if_neg (by decide), if_pos (hfits (by decide))] at htally
  refine ⟨htally, hsurvey, ?_⟩
  rw [hpolled Script.pollServes _ 1 2 hleft (by decide)]
  rfl

/-- Opens a file of as many newlines as a counter has values. -/
def openNewlines (_ : String) : Except Failure File :=
  .ok (.ofBytes (Array.replicate counterSize newline))

/-- The reports that are due do not come: of a file with more lines than a counter can count, all of
them short, and of any file read through a window that is larger than an array can be. -/
theorem line_counts_unreported :
    (Text.lineCount (List.replicate counterSize newline) = counterSize ∧
      LineStatistics.run openNewlines ["newlines"] =
        { output := fileHeading "newlines" 4096, diagnostic := some (.faulted .overflow) } ∧
      Text.Within (1024 * 1024) (List.replicate counterSize newline) ∧
      (Listing.run openNewlines ["newlines"]).diagnostic = some (.faulted .overflow)) ∧
    LineStatistics.run openNotes ["notes", "9223372036854775808"] =
      .refusal (.faulted .capacity) := by
  obtain ⟨hstatistics, hlisting⟩ := run_of_newlines (Nat.le_refl counterSize)
    (show openNewlines "newlines" = _ from rfl)
  have hopen : openNotes "notes" = .ok (.ofBytes #[97, 98, 10, 10, 99]) := rfl
  have hcapacity : ["9223372036854775808"].head?.elim (.ok 0) Numeral.parse =
      .ok 9223372036854775808 := rfl
  refine ⟨⟨Text.lineCount_replicate _, hstatistics, Text.within_replicate (by decide) _, hlisting⟩,
    ?_⟩
  rw [LineStatistics.run_eq hopen hcapacity, if_pos (by decide)]

end BufferedReading
