import BufferedReading.Proofs.Reads

/-!
# What a delimiter read does not depend on

A delimiter read appends to its accumulator and never looks at it (`Reader.lineWithin_out`), and
once it has come to an end no number of rounds changes what it came to (`Reader.lineWithin_unique`).
-/

namespace BufferedReading

namespace Scan

/-- A search over an empty window changes nothing. -/
theorem advance_of_empty (scan : Scan) {w : Window} (h : w.toList = []) (out : Bytes) :
    scan.advance w out = ⟨scan.unmet, scan, w, out⟩ := by
  have hb : w.buffered = 0 := by rw [← Window.length_toList, h, List.length_nil]
  have hreach : scan.reach w = 0 := Nat.le_zero.1 (hb ▸ scan.reach_le_buffered w)
  have hfront : w.front 0 = #[] := by
    apply Array.toList_inj.1
    rw [Window.toList_front, h]
    rfl
  unfold advance
  rw [Window.find?_eq_idxOf?, h, List.take_nil]
  simp only [List.idxOf?_nil, hreach, hfront, Window.skip_zero, Array.append_empty]
  rfl

/-- A search that wants more bytes has not met its limit. -/
theorem unmet_advance_of_starved {scan : Scan} {w : Window} {out : Bytes}
    (h : (scan.advance w out).verdict = .starved) :
    (scan.advance w out).scan.unmet = .starved := by
  unfold advance at h ⊢
  split at h
  · simp at h
  · exact h

/-- A search that wants more bytes has left none. -/
theorem toList_advance_of_starved {scan : Scan} {w : Window} {out : Bytes}
    (h : (scan.advance w out).verdict = .starved) : (scan.advance w out).window.toList = [] := by
  rw [← List.length_eq_zero_iff, Window.length_toList]
  exact scan.buffered_advance_eq_zero_of_starved w out h

end Scan

namespace Reader

variable {σ : Type}

/-- A delimiter read over an empty window whose search wants more bytes begins with a refill. -/
theorem lineWithin_of_empty [ByteSource σ] {rounds : Nat} {scan : Scan} {r r' : Reader σ}
    {out : Bytes} {outcome : Except ReadError Fill} (hunmet : scan.unmet = .starved)
    (h : r.window.toList = []) (hrefill : r.refill = (outcome, r')) :
    lineWithin (rounds + 1) scan r out = lineBehind rounds scan out r' outcome := by
  have hadvance := scan.advance_of_empty h out
  have hv : (scan.advance r.window out).verdict = .starved := by rw [hadvance, hunmet]
  have hr : (r.withWindow (scan.advance r.window out).window).refill = (outcome, r') := by
    rw [hadvance]
    exact hrefill
  rw [lineWithin_of_refill hv hr, hadvance]

/-- A delimiter read whose search has run out of bytes may be taken up again before its refill. -/
theorem lineWithin_resume [ByteSource σ] {scan : Scan} {r : Reader σ} {out : Bytes}
    (hv : (scan.advance r.window out).verdict = .starved) (rounds : Nat) :
    lineWithin rounds (scan.advance r.window out).scan
        { r with window := (scan.advance r.window out).window } (scan.advance r.window out).out =
      lineWithin rounds scan r out := by
  cases rounds with
  | zero => rfl
  | succ rounds =>
    simp only [lineWithin, hv]
    rw [Scan.advance_of_empty _ (Scan.toList_advance_of_starved hv),
      Scan.unmet_advance_of_starved hv]

/-- A delimiter read that comes to an end does so in any greater number of rounds. -/
theorem lineWithin_mono [ByteSource σ] {rounds rounds' : Nat} (hle : rounds ≤ rounds') {scan : Scan}
    {r : Reader σ} {out : Bytes} {call : Call (Reader σ) (Except ReadError Bool)}
    (h : lineWithin rounds scan r out = some call) : lineWithin rounds' scan r out = some call := by
  induction rounds generalizing rounds' scan r out with
  | zero => simp [lineWithin] at h
  | succ rounds ih =>
    obtain ⟨more, rfl⟩ : ∃ more, rounds' = more + 1 := ⟨rounds' - 1, by omega⟩
    cases hv : (scan.advance r.window out).verdict with
    | found =>
      rw [lineWithin_of_found hv] at h ⊢
      exact h
    | overlong limit =>
      rw [lineWithin_of_overlong hv] at h ⊢
      exact h
    | starved =>
      obtain ⟨outcome, r', hrefill⟩ : ∃ outcome r',
          (r.withWindow (scan.advance r.window out).window).refill = (outcome, r') := ⟨_, _, rfl⟩
      rw [lineWithin_of_refill hv hrefill] at h ⊢
      cases outcome with
      | error e => exact h
      | ok fill =>
        cases fill with
        | added count => exact ih (by omega) h
        | ended => exact h
        | full => exact h

/-- A delimiter read comes to one end at most, whatever the number of rounds. -/
theorem lineWithin_unique [ByteSource σ] {rounds rounds' : Nat} {scan : Scan} {r : Reader σ}
    {out : Bytes} {call call' : Call (Reader σ) (Except ReadError Bool)}
    (h : lineWithin rounds scan r out = some call)
    (h' : lineWithin rounds' scan r out = some call') : call = call' := by
  have hmax := lineWithin_mono (Nat.le_max_left rounds rounds') h
  rw [lineWithin_mono (Nat.le_max_right rounds rounds') h', Option.some.injEq] at hmax
  exact hmax.symm

end Reader

end BufferedReading
