import BufferedReading.Reader.Polled
import BufferedReading.Window.Stock

/-!
# Reading from a finite source that is polled

Over a finite source every attempt comes to an end, and so does a read that is attempted again as
long as it is pending: a refill that adds bytes and an attempt that is put off both lower the stock
of the window (`pollStock_refill_lt`, `pollStock_lineWithin_lt`).
-/

namespace BufferedReading

namespace Reader

variable {σ : Type} [FinitePolledSource σ]

/-- A number that falls with every round of an attempt and with every attempt put off. -/
def pollStock (r : Reader σ) : Nat := r.window.stock (pollSupply r.source)

/-! ### What lowers the stock -/

/-- A refill that adds bytes or is put off lowers the stock. -/
theorem pollStock_refill_lt {r : Reader σ}
    (h : r.pollRefill.1 = .pending ∨ ∃ count, r.pollRefill.1 = .ready (.ok (.added count))) :
    r.pollRefill.2.pollStock < r.pollStock := by
  refine Window.stock_lt_of_supply_lt (capacity_pollRefill r) ?_
  have hs := FinitePolledSource.pollSupply_poll_lt r.source r.window.compact.free
  unfold pollRefill at h ⊢
  simp only at h ⊢
  split at h
  · simp at h
  · next hf =>
    rw [if_neg hf]
    cases hp : PolledSource.poll r.source r.window.compact.free with
    | mk answer source =>
      rw [hp] at hs h
      cases answer with
      | pending => exact hs (by simp)
      | ready answer =>
        cases answer with
        | failed cause => simp at h
        | supplied written count =>
          have hz : count ≠ 0 := by
            rintro rfl
            simp [Window.commit] at h
          have hlt := hs (by simp [Answer.isFinal, hz])
          simp only
          split <;> exact hlt

/-- One round more than the stock is enough for an attempt at a delimiter read. -/
theorem pollLineWithin_isSome (rounds : Nat) (r : Reader σ) (scan : Scan) (out : Bytes)
    (h : r.pollStock < rounds) : (pollLineWithin rounds r scan out).isSome := by
  induction rounds generalizing r scan out with
  | zero => omega
  | succ rounds ih =>
    have hle : Window.stock (scan.advance r.window out).window (pollSupply r.source) ≤
        r.pollStock :=
      Window.stock_le_of_buffered_le (scan.advance_keeps r.window out).2.2
        (scan.buffered_advance_le r.window out)
    simp only [pollLineWithin]
    split
    · rfl
    · rfl
    · split
      · rfl
      · rfl
      · next count r' hr =>
        refine ih _ _ _ ?_
        have := pollStock_refill_lt (.inr ⟨count, congrArg Prod.fst hr⟩)
        rw [hr] at this
        simp only [pollStock] at this hle h ⊢
        omega
      · rfl

/-- An attempt that is put off, or that meets its delimiter, lowers the stock. -/
theorem pollStock_lineWithin_lt {rounds : Nat} {r : Reader σ} {scan : Scan} {out : Bytes}
    {attempt : LineAttempt σ} (h : pollLineWithin rounds r scan out = some attempt)
    (hr : attempt.result = .pending ∨ attempt.result = .ready (.ok true)) :
    attempt.reader.pollStock < r.pollStock := by
  induction rounds generalizing r scan out with
  | zero => simp [pollLineWithin] at h
  | succ rounds ih =>
    have hle : Window.stock (scan.advance r.window out).window (pollSupply r.source) ≤
        r.pollStock :=
      Window.stock_le_of_buffered_le (scan.advance_keeps r.window out).2.2
        (scan.buffered_advance_le r.window out)
    simp only [pollLineWithin] at h
    split at h
    · next hv =>
      simp only [Option.some.injEq] at h
      subst h
      exact Window.stock_lt_of_buffered_lt (scan.advance_keeps r.window out).2.2
        (scan.buffered_advance_lt_of_found r.window out hv)
    · simp only [Option.some.injEq] at h
      subst h
      simp at hr
    · split at h
      · next r' hrefill =>
        simp only [Option.some.injEq] at h
        subst h
        have := pollStock_refill_lt (.inl (congrArg Prod.fst hrefill))
        rw [hrefill] at this
        simp only [pollStock] at this hle ⊢
        omega
      · simp only [Option.some.injEq] at h
        subst h
        simp at hr
      · next count r' hrefill =>
        have hlt := pollStock_refill_lt (.inr ⟨count, congrArg Prod.fst hrefill⟩)
        have := ih h
        rw [hrefill] at hlt
        simp only [pollStock] at this hlt hle ⊢
        omega
      · simp only [Option.some.injEq] at h
        subst h
        simp at hr

/-! ### The attempts -/

/-- An attempt at a delimiter read that takes up a search where it was left. -/
def pollLine (r : Reader σ) (scan : Scan) (out : Bytes) : LineAttempt σ :=
  (pollLineWithin (r.pollStock + 1) r scan out).get
    (pollLineWithin_isSome _ _ _ _ (Nat.lt_succ_self _))

/-- An attempt that is put off, or that meets its delimiter, lowers the stock. -/
theorem pollStock_pollLine_lt {r : Reader σ} {scan : Scan} {out : Bytes}
    (h : (r.pollLine scan out).result = .pending ∨
      (r.pollLine scan out).result = .ready (.ok true)) :
    (r.pollLine scan out).reader.pollStock < r.pollStock :=
  pollStock_lineWithin_lt (Option.some_get _).symm h

/-- Attempts a delimiter read again until it is no longer pending. -/
def awaitLine (r : Reader σ) (scan : Scan) (out : Bytes) :
    Call (Reader σ) (Except ReadError Bool) :=
  match _h : r.pollLine scan out with
  | ⟨.ready result, _, out, r⟩ => ⟨result, out, r⟩
  | ⟨.pending, scan, out, r⟩ => awaitLine r scan out
termination_by r.pollStock
decreasing_by
  have := congrArg LineAttempt.result _h
  have := pollStock_pollLine_lt (.inl this)
  simpa only [_h] using this

/-- A delimiter read that meets its delimiter lowers the stock. -/
theorem pollStock_awaitLine_lt {r : Reader σ} {scan : Scan} {out : Bytes}
    (h : (r.awaitLine scan out).result = .ok true) :
    (r.awaitLine scan out).reader.pollStock < r.pollStock := by
  fun_induction awaitLine r scan out with
  | case1 r scan out result scan' out' r' hr =>
    simp only at h
    have := pollStock_pollLine_lt (r := r) (.inr (by rw [hr, h]))
    rwa [hr] at this
  | case2 r scan out scan' out' r' hr ih =>
    have := pollStock_pollLine_lt (r := r) (.inl (by rw [hr]))
    rw [hr] at this
    exact Nat.lt_trans (ih h) this

end Reader

end BufferedReading
