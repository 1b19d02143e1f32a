import BufferedReading.Reader.FinitePolled
import BufferedReading.Splitter

/-!
# A polled stream of lines

A `LineStream` splits what a polled reader delivers into lines. It keeps the line under way between
attempts: the search in `LineStream.scan`, its bytes in `LineStream.pending`. A line that is yielded
takes the pending bytes with it, an error leaves them where they are, and either way the next search
counts its bytes afresh. Once the stream has yielded a partial line, an error or the end, it yields
nothing more and does not touch its reader.
-/

namespace BufferedReading

/-- A polled reader that is read line by line. -/
structure LineStream (σ : Type) where
  /-- Where the lines come from. -/
  reader : Reader σ
  /-- The byte that ends a line. -/
  delim : UInt8
  /-- The search for the end of the line under way. -/
  scan : Scan
  /-- The bytes of the line under way. -/
  pending : Bytes := #[]
  /-- Whether nothing more is to be yielded. -/
  finished : Bool := false

/-- What attempts at all items of a stream came to. -/
structure Harvest (σ : Type) where
  /-- The items yielded. -/
  items : Array Item
  /-- Whether the end of the stream was reached. -/
  ended : Bool
  /-- The number of attempts made. -/
  attempts : Nat
  /-- The stream after the attempts. -/
  stream : LineStream σ

namespace Reader

/-- A polled reader as a stream of lines that end with the given delimiter. -/
def lines {σ : Type} (r : Reader σ) (delim : UInt8) : LineStream σ :=
  { reader := r, delim, scan := .start delim r.config.lineLimit }

end Reader

namespace LineStream

variable {σ : Type}

/-- The stream of lines over a source, read with the default configuration. -/
def ofSource (source : σ) (delim : UInt8) : LineStream σ := (Reader.ofSource source).lines delim

/-- What an attempt at a read up to the delimiter yields, and the stream behind it. -/
def conclude (delim : UInt8) (attempt : LineAttempt σ) : Poll (Option Item) × LineStream σ :=
  let s : LineStream σ :=
    { reader := attempt.reader, delim, scan := attempt.scan, pending := attempt.out }
  match attempt.result with
  | .pending => (.pending, s)
  | .ready (.ok true) =>
    (.ready (some (.ok ⟨s.pending, true⟩)), { s with scan := s.scan.reset, pending := #[] })
  | .ready (.ok false) =>
    (.ready (if s.pending.isEmpty then none else some (.ok ⟨s.pending, false⟩)),
      { s with scan := s.scan.reset, pending := #[], finished := true })
  | .ready (.error e) =>
    (.ready (some (.error e)), { s with scan := s.scan.reset, finished := true })

/-- An attempt at the next item, if it comes to an end in `rounds` rounds. -/
def pollNextWithin [PolledSource σ] (rounds : Nat) (s : LineStream σ) :
    Option (Poll (Option Item) × LineStream σ) :=
  if s.finished then some (.ready none, s)
  else (Reader.pollLineWithin rounds s.reader s.scan s.pending).map (conclude s.delim)

/-- Attempts to get all items still to come, at most so many times, if each attempt comes to an end
in `rounds` rounds. The items and the number of attempts are added to those given. -/
def harvestWithin [PolledSource σ] (rounds : Nat) :
    Nat → Array Item → Nat → LineStream σ → Option (Harvest σ)
  | 0, items, made, s => some ⟨items, false, made, s⟩
  | attempts + 1, items, made, s =>
    match s.pollNextWithin rounds with
    | none => none
    | some (.pending, s) => harvestWithin rounds attempts items (made + 1) s
    | some (.ready (some item), s) => harvestWithin rounds attempts (items.push item) (made + 1) s
    | some (.ready none, s) => some ⟨items, true, made + 1, s⟩

/-! ### Finite sources -/

variable [FinitePolledSource σ]

/-- One round more than the stock is enough for an attempt at the next item. -/
theorem pollNextWithin_isSome (rounds : Nat) (s : LineStream σ)
    (h : s.finished = true ∨ s.reader.pollStock < rounds) : (s.pollNextWithin rounds).isSome := by
  unfold pollNextWithin
  split
  · rfl
  · next hf =>
    rw [Option.isSome_map]
    exact Reader.pollLineWithin_isSome _ _ _ _ (h.resolve_left hf)

/-- An attempt that does not finish the stream lowers the stock of its reader. -/
theorem finished_or_pollStock_lt {rounds : Nat} {s s' : LineStream σ} {result : Poll (Option Item)}
    (h : s.pollNextWithin rounds = some (result, s')) :
    s'.finished = true ∨ s'.reader.pollStock < s.reader.pollStock := by
  unfold pollNextWithin at h
  split at h
  · next hf =>
    simp only [Option.some.injEq, Prod.mk.injEq] at h
    exact .inl (h.2 ▸ hf)
  · obtain ⟨attempt, hattempt, hs⟩ := Option.map_eq_some_iff.1 h
    have hlt := Reader.pollStock_lineWithin_lt hattempt
    unfold conclude at hs
    simp only at hs
    split at hs
    · next hp =>
      simp only [Prod.mk.injEq] at hs
      exact .inr (hs.2 ▸ hlt (.inl hp))
    · next hp =>
      simp only [Prod.mk.injEq] at hs
      exact .inr (hs.2 ▸ hlt (.inr hp))
    · simp only [Prod.mk.injEq] at hs
      exact .inl (hs.2 ▸ rfl)
    · simp only [Prod.mk.injEq] at hs
      exact .inl (hs.2 ▸ rfl)

/-- One round more than the stock is enough for attempts at all items. -/
theorem harvestWithin_isSome (rounds attempts : Nat) (items : Array Item) (made : Nat)
    (s : LineStream σ) (h : s.finished = true ∨ s.reader.pollStock < rounds) :
    (harvestWithin rounds attempts items made s).isSome := by
  induction attempts generalizing items made s with
  | zero => rfl
  | succ attempts ih =>
    have hsome := pollNextWithin_isSome rounds s h
    have hnext : ∀ {result s'}, s.pollNextWithin rounds = some (result, s') →
        s'.finished = true ∨ s'.reader.pollStock < rounds := by
      intro result s' hs
      by_cases hf : s.finished = true
      · simp only [pollNextWithin, hf, if_true, Option.some.injEq, Prod.mk.injEq] at hs
        exact .inl (hs.2 ▸ hf)
      · rcases finished_or_pollStock_lt hs with hf' | hlt
        · exact .inl hf'
        · exact .inr (Nat.lt_trans hlt (h.resolve_left hf))
    simp only [harvestWithin]
    split
    · next hn => simp [hn] at hsome
    · next hs => exact ih _ _ _ (hnext hs)
    · next hs => exact ih _ _ _ (hnext hs)
    · rfl

/-- An attempt at the next item. -/
def pollNext (s : LineStream σ) : Poll (Option Item) × LineStream σ :=
  (s.pollNextWithin (s.reader.pollStock + 1)).get
    (pollNextWithin_isSome _ _ (.inr (Nat.lt_succ_self _)))

/-- Attempts to get all items still to come, at most so many times. -/
def harvest (attempts : Nat) (s : LineStream σ) : Harvest σ :=
  (harvestWithin (s.reader.pollStock + 1) attempts #[] 0 s).get
    (harvestWithin_isSome _ _ _ _ _ (.inr (Nat.lt_succ_self _)))

/-- All items still to come, attempted as often as it takes. -/
def collect (s : LineStream σ) : Array Item × LineStream σ :=
  let harvest := s.harvest (s.reader.pollStock + 2)
  (harvest.items, harvest.stream)

end LineStream

end BufferedReading
