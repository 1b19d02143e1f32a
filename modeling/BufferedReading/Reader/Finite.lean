import BufferedReading.Reader.Retrying
import BufferedReading.Window.Stock

/-!
# Reading from a finite source

A loop over a finite source comes to an end: every round lowers the stock of the window, so that one
round more than the stock is enough (`lineWithin_isSome`, `fillWithin_isSome`,
`untilWithin_isSome`). The reads of this module are those of `BufferedReading.Reader.Blocking` and
`BufferedReading.Reader.Retrying` with that many rounds, and they always have a result.
-/

namespace BufferedReading

namespace Reader

variable {σ : Type} [FiniteSource σ]

/-- A number that falls with every round of a loop over the reader. -/
def stock (r : Reader σ) : Nat := r.window.stock (supply r.source)

/-! ### What lowers the stock -/

/-- A refill that adds bytes lowers the stock. -/
theorem stock_refill_lt {r : Reader σ} {count : Nat} (h : r.refill.1 = .ok (.added count)) :
    r.refill.2.stock < r.stock := by
  refine Window.stock_lt_of_supply_lt (capacity_refill r) ?_
  rw [source_refill]
  exact Window.supply_fillFrom_lt (refill_eq_ok_iff.1 h)

/-- A refill of a full window changes neither its unread bytes nor the source. -/
theorem stock_refill_le_of_full {r : Reader σ} (h : r.refill.1 = .ok .full) :
    r.refill.2.stock ≤ r.stock := by
  have ho := refill_eq_ok_iff.1 h
  unfold stock
  rw [source_refill, window_refill]
  unfold Window.fillFrom at ho ⊢
  simp only at ho ⊢
  split at ho
  · next hf =>
    rw [if_pos hf]
    exact Window.stock_le_of_buffered_le (by simp) (by simp)
  · revert ho
    cases (ByteSource.read r.source r.window.compact.free).1 with
    | failed c => simp [Window.receive]
    | supplied written count =>
      simp only [Window.receive, Window.commit]
      split
      · simp
      · split <;> simp

/-- A refill that does not meet the end of the stream does not raise the stock. -/
theorem stock_refill_le {r : Reader σ} {fill : Fill} (h : r.refill.1 = .ok fill)
    (hne : fill ≠ .ended) : r.refill.2.stock ≤ r.stock := by
  cases fill with
  | added count => exact Nat.le_of_lt (stock_refill_lt h)
  | ended => exact absurd rfl hne
  | full => exact stock_refill_le_of_full h

/-- A refill that is interrupted lowers the stock. -/
theorem stock_refill_lt_of_interruption {r : Reader σ} {cause : Failure}
    (h : r.refill.1 = .error (.source cause)) (hi : cause.isInterruption = true) :
    r.refill.2.stock < r.stock := by
  refine Window.stock_lt_of_supply_lt (capacity_refill r) ?_
  rw [source_refill]
  obtain ⟨_, hcause, ho⟩ := refill_eq_error_iff.1 h
  cases hcause
  unfold Window.fillFrom at ho ⊢
  simp only at ho ⊢
  split at ho
  · simp at ho
  · next hf =>
    rw [if_neg hf, Window.source_receive]
    refine FiniteSource.supply_read_lt _ _ ?_
    revert ho
    cases (ByteSource.read r.source r.window.compact.free).1 with
    | failed c =>
      simp only [Window.receive, Except.error.injEq]
      rintro rfl
      simp [Answer.isFinal, hi]
    | supplied written count =>
      simp only [Window.receive, Window.commit]
      split
      · simp
      · next hz => simp [Answer.isFinal, hz]

/-- Delivering unread bytes lowers the stock by as many as are delivered. -/
theorem stock_deliver_lt {r : Reader σ} {buffer : Bytes} {count : Nat}
    (h : (r.deliver buffer).result = .ok count) (hz : count ≠ 0) :
    (r.deliver buffer).reader.stock < r.stock := by
  simp only [deliver, Except.ok.injEq] at h
  refine Window.stock_lt_of_buffered_lt rfl ?_
  simp only [deliver, Window.buffered_skip]
  omega

/-- A bypassing read of some bytes lowers the stock. -/
theorem stock_bypass_lt {r : Reader σ} {buffer : Bytes} {count : Nat}
    (h : (r.bypass buffer).result = .ok count) (hz : count ≠ 0) :
    (r.bypass buffer).reader.stock < r.stock := by
  have hs := FiniteSource.supply_read_lt r.source buffer.size
  unfold bypass note at h ⊢
  simp only at h ⊢
  cases hr : ByteSource.read r.source buffer.size with
  | mk answer source =>
    rw [hr] at hs
    cases answer with
    | failed cause => simp [hr] at h
    | supplied written n =>
      simp only [hr, Except.ok.injEq] at h
      exact Window.stock_lt_of_supply_lt rfl (hs (by simp [Answer.isFinal, h, hz]))

/-- A bypassing read that is interrupted lowers the stock. -/
theorem stock_bypass_lt_of_interruption {r : Reader σ} {buffer : Bytes} {cause : Failure}
    (h : (r.bypass buffer).result = .error (.source cause)) (hi : cause.isInterruption = true) :
    (r.bypass buffer).reader.stock < r.stock := by
  have hs := FiniteSource.supply_read_lt r.source buffer.size
  unfold bypass note at h ⊢
  simp only at h ⊢
  cases hr : ByteSource.read r.source buffer.size with
  | mk answer source =>
    rw [hr] at hs
    cases answer with
    | supplied written n => simp [hr] at h
    | failed c =>
      simp only [hr, Except.error.injEq, ReadError.source.injEq] at h
      exact Window.stock_lt_of_supply_lt rfl (hs (by simp [Answer.isFinal, h, hi]))

/-- A read of some bytes lowers the stock. -/
theorem stock_read_lt {r : Reader σ} {buffer : Bytes} {count : Nat}
    (h : (r.read buffer).result = .ok count) (hz : count ≠ 0) :
    (r.read buffer).reader.stock < r.stock := by
  unfold read at h ⊢
  split at h
  · simp only [Except.ok.injEq] at h
    omega
  · next hb =>
    rw [if_neg hb]
    split at h
    · next he =>
      rw [if_pos he]
      split at h
      · next hc =>
        rw [if_pos hc]
        exact stock_bypass_lt h hz
      · next hc =>
        rw [if_neg hc]
        split at h
        · simp only [Except.ok.injEq] at h
          omega
        · next fill r' hne hr =>
          have hle := stock_refill_le (congrArg Prod.fst hr) hne
          rw [hr] at hle
          exact Nat.lt_of_lt_of_le (stock_deliver_lt h hz) hle
        · simp at h
    · next he =>
      rw [if_neg he]
      exact stock_deliver_lt h hz

/-- A read that is interrupted lowers the stock. -/
theorem stock_read_lt_of_interruption {r : Reader σ} {buffer : Bytes} {e : ReadError}
    (h : (r.read buffer).result = .error e) (hi : e.toFailure.isInterruption = true) :
    (r.read buffer).reader.stock < r.stock := by
  have hsource : ∀ {e : ReadError}, e.toFailure.isInterruption = true →
      ∃ cause, e = .source cause ∧ cause.isInterruption = true := by
    intro e hi
    cases e with
    | source cause => exact ⟨cause, rfl, hi⟩
    | lineTooLong limit =>
      exact absurd hi (by simp [ReadError.toFailure, Failure.isInterruption, Failure.kind])
    | invalidConfig reason =>
      exact absurd hi (by simp [ReadError.toFailure, Failure.isInterruption, Failure.kind])
  obtain ⟨cause, rfl, hc⟩ := hsource hi
  unfold read at h ⊢
  split at h
  · simp at h
  · next hb =>
    rw [if_neg hb]
    split at h
    · next he =>
      rw [if_pos he]
      split at h
      · next hcap =>
        rw [if_pos hcap]
        exact stock_bypass_lt_of_interruption h hc
      · next hcap =>
        rw [if_neg hcap]
        split at h
        · simp at h
        · simp [deliver] at h
        · next e r' hr =>
          simp only [Except.error.injEq] at h
          subst h
          have := stock_refill_lt_of_interruption (congrArg Prod.fst hr) hc
          rwa [hr] at this
    · simp [deliver] at h

/-- A look at the unread bytes does not raise the stock, unless it meets the end of the stream. -/
theorem stock_fillBuffer_le {r : Reader σ} {available : Bytes}
    (h : r.fillBuffer.1 = .ok available) (hz : available.size ≠ 0) :
    r.fillBuffer.2.stock ≤ r.stock := by
  unfold fillBuffer at h ⊢
  split at h
  · next he =>
    rw [if_pos he]
    split at h
    · next fill r' hr =>
      have hne : fill ≠ .ended := by
        rintro rfl
        simp only [Except.ok.injEq] at h
        subst h
        refine hz ?_
        have ho := refill_eq_ok_iff.1 (congrArg Prod.fst hr)
        have hw := Window.toList_fillFrom r.window r.source (by simp [ho])
        rw [← window_refill, hr, (Window.isEmpty_iff_toList _).1 he] at hw
        change r'.window.unread.size = 0
        rw [Window.size_unread, ← Window.length_toList, hw, List.length_nil]
      have hle := stock_refill_le (congrArg Prod.fst hr) hne
      rwa [hr] at hle
    · simp at h
  · next he => simp only [if_neg he, Nat.le_refl]

/-- A look at the unread bytes that is interrupted lowers the stock. -/
theorem stock_fillBuffer_lt_of_interruption {r : Reader σ} {cause : Failure}
    (h : r.fillBuffer.1 = .error cause) (hi : cause.isInterruption = true) :
    r.fillBuffer.2.stock < r.stock := by
  unfold fillBuffer at h ⊢
  split at h
  · next he =>
    rw [if_pos he]
    split at h
    · simp at h
    · next e r' hr =>
      obtain ⟨source, rfl, _⟩ := refill_eq_error_iff.1 (congrArg Prod.fst hr)
      simp only [ReadError.toFailure, Except.error.injEq] at h
      subst h
      have := stock_refill_lt_of_interruption (congrArg Prod.fst hr) hi
      rwa [hr] at this
  · simp at h

/-- Consuming unread bytes lowers the stock. -/
theorem stock_skip_lt {r : Reader σ} {count : Nat} (hb : 0 < r.buffered) (hc : 0 < count) :
    (r.skip count).stock < r.stock := by
  refine Window.stock_lt_of_buffered_lt rfl ?_
  simp only [skip, Window.buffered_skip]
  unfold buffered at hb
  omega

/-! ### The loops end -/

/-- One round more than the stock is enough for a delimiter read. -/
theorem lineWithin_isSome (rounds : Nat) (scan : Scan) (r : Reader σ) (out : Bytes)
    (h : r.stock < rounds) : (lineWithin rounds scan r out).isSome := by
  induction rounds generalizing scan r out with
  | zero => omega
  | succ rounds ih =>
    have hle : Window.stock (scan.advance r.window out).window (supply r.source) ≤ r.stock :=
      Window.stock_le_of_buffered_le (scan.advance_keeps r.window out).2.2
        (scan.buffered_advance_le r.window out)
    simp only [lineWithin]
    split
    · rfl
    · rfl
    · split
      · next hr =>
        refine ih _ _ _ ?_
        have := stock_refill_lt (congrArg Prod.fst hr)
        rw [hr] at this
        simp only [stock] at this hle h ⊢
        omega
      · rfl
      · rfl

/-- A delimiter read that meets its delimiter lowers the stock. -/
theorem stock_lineWithin_lt {rounds : Nat} {scan : Scan} {r : Reader σ} {out : Bytes}
    {call : Call (Reader σ) (Except ReadError Bool)}
    (h : lineWithin rounds scan r out = some call) (hr : call.result = .ok true) :
    call.reader.stock < r.stock := by
  induction rounds generalizing scan r out with
  | zero => simp [lineWithin] at h
  | succ rounds ih =>
    simp only [lineWithin] at h
    split at h
    · next hv =>
      simp only [Option.some.injEq] at h
      subst h
      exact Window.stock_lt_of_buffered_lt (scan.advance_keeps r.window out).2.2
        (scan.buffered_advance_lt_of_found r.window out hv)
    · simp only [Option.some.injEq] at h
      subst h
      simp at hr
    · split at h
      · next hrefill =>
        have hlt := stock_refill_lt (congrArg Prod.fst hrefill)
        have hle : Window.stock (scan.advance r.window out).window (supply r.source) ≤ r.stock :=
          Window.stock_le_of_buffered_le (scan.advance_keeps r.window out).2.2
            (scan.buffered_advance_le r.window out)
        have := ih h
        rw [hrefill] at hlt
        simp only [stock] at this hlt hle ⊢
        omega
      · simp only [Option.some.injEq] at h
        subst h
        simp at hr
      · simp only [Option.some.injEq] at h
        subst h
        simp at hr

/-- One attempt more than the stock is enough to fill a buffer. -/
theorem fillWithin_isSome (rounds : Nat) (r : Reader σ) (done rest : Bytes)
    (h : r.stock < rounds) : (fillWithin rounds r done rest).isSome := by
  induction rounds generalizing r done rest with
  | zero => omega
  | succ rounds ih =>
    simp only [fillWithin]
    split
    · rfl
    · split
      · next count buffer r' hr =>
        split
        · rfl
        · next hz =>
          split
          · rfl
          · refine ih _ _ _ ?_
            have := stock_read_lt (read_eq_ok_of_readPlain (congrArg Call.result hr)) hz
            have hreader : (r.read rest).reader = r' := congrArg Call.reader hr
            rw [hreader] at this
            omega
      · next cause buffer r' hr =>
        split
        · next hi =>
          refine ih _ _ _ ?_
          obtain ⟨e, he, hcause⟩ := read_eq_error_of_readPlain (congrArg Call.result hr)
          have := stock_read_lt_of_interruption he (hcause ▸ hi)
          have hreader : (r.read rest).reader = r' := congrArg Call.reader hr
          rw [hreader] at this
          omega
        · rfl

/-- One attempt more than the stock is enough to append the bytes up to a delimiter. -/
theorem untilWithin_isSome (delim : UInt8) (rounds : Nat) (r : Reader σ) (out : Bytes)
    (count : Nat) (h : r.stock < rounds) : (untilWithin delim rounds r out count).isSome := by
  induction rounds generalizing r out count with
  | zero => omega
  | succ rounds ih =>
    simp only [untilWithin]
    split
    · next available r' hr =>
      split
      · rfl
      · split
        · rfl
        · next hz =>
          refine ih _ _ _ ?_
          have hle := stock_fillBuffer_le (congrArg Prod.fst hr) hz
          have hu := unread_fillBuffer (congrArg Prod.fst hr)
          rw [hr] at hle hu
          simp only at hle hu
          have hb : r'.buffered = available.size := by
            rw [← hu]
            simp [unread, buffered]
          have : (r'.skip available.size).stock < r'.stock :=
            stock_skip_lt (by omega) (by omega)
          omega
    · next cause r' hr =>
      split
      · next hi =>
        refine ih _ _ _ ?_
        have := stock_fillBuffer_lt_of_interruption (congrArg Prod.fst hr) hi
        rw [hr] at this
        simp only at this
        omega
      · rfl

/-! ### The reads -/

/-- Appends the bytes up to the delimiter, or up to the limit on lines, to `out`. The result says
whether the delimiter was met before the end of the stream. -/
def readLineInto (r : Reader σ) (delim : UInt8) (out : Bytes) :
    Call (Reader σ) (Except ReadError Bool) :=
  (lineWithin (r.stock + 1) (.start delim r.config.lineLimit) r out).get
    (lineWithin_isSome _ _ _ _ (Nat.lt_succ_self _))

/-- Reads a line: the bytes up to the delimiter, or those up to the end of the stream. Bytes taken
before an error are lost. -/
def readLine (r : Reader σ) (delim : UInt8) : Except ReadError Line × Reader σ :=
  let call := r.readLineInto delim #[]
  (call.result.map fun complete => ⟨call.buffer, complete⟩, call.reader)

/-- Fills the whole buffer, trying again after an interruption. -/
def fill (r : Reader σ) (buffer : Bytes) : Call (Reader σ) (Except (Stop Failure) Unit) :=
  (fillWithin (r.stock + 1) r #[] buffer).get (fillWithin_isSome _ _ _ _ (Nat.lt_succ_self _))

/-- Appends the bytes up to the delimiter to `out`, trying again after an interruption, and counts
them. -/
def readUntil (r : Reader σ) (delim : UInt8) (out : Bytes) :
    Call (Reader σ) (Except Failure Nat) :=
  (untilWithin delim (r.stock + 1) r out 0).get
    (untilWithin_isSome _ _ _ _ _ (Nat.lt_succ_self _))

end Reader

end BufferedReading
