import BufferedReading.Reader.Finite

/-!
# Splitting a stream into lines

A `Splitter` reads line after line from a reader. Its items are the complete lines of the stream,
then the bytes behind the last delimiter as a partial line if there are any; an error is an item
too, and the last one. Once it has yielded a partial line, an error or the end, it yields nothing
more and does not touch its reader.
-/

namespace BufferedReading

/-- What a splitter yields: a line, or the error that ends it. -/
abbrev Item := Except ReadError Line

/-- A reader that is read line by line. -/
structure Splitter (σ : Type) where
  /-- Where the lines come from. -/
  reader : Reader σ
  /-- The byte that ends a line. -/
  delim : UInt8
  /-- Whether nothing more is to be yielded. -/
  finished : Bool := false

namespace Reader

/-- A reader as a splitter at the given delimiter. -/
def split {σ : Type} (r : Reader σ) (delim : UInt8) : Splitter σ := { reader := r, delim }

end Reader

namespace Splitter

variable {σ : Type}

/-- The item that a read up to the delimiter yields, and the splitter behind it. -/
def conclude (delim : UInt8) (call : Call (Reader σ) (Except ReadError Bool)) :
    Option Item × Splitter σ :=
  match call.result with
  | .ok true => (some (.ok ⟨call.buffer, true⟩), { reader := call.reader, delim })
  | .ok false =>
    (if call.buffer.isEmpty then none else some (.ok ⟨call.buffer, false⟩),
      { reader := call.reader, delim, finished := true })
  | .error e => (some (.error e), { reader := call.reader, delim, finished := true })

/-! ### Any source -/

section Rounds

variable [ByteSource σ]

/-- The next item, if the delimiter read behind it comes to an end in `rounds` rounds. -/
def nextWithin (rounds : Nat) (s : Splitter σ) : Option (Option Item × Splitter σ) :=
  if s.finished then some (none, s)
  else
    (Reader.lineWithin rounds (.start s.delim s.reader.config.lineLimit) s.reader #[]).map
      (conclude s.delim)

/-- Folds over the items still to come, at most `rounds` of them. -/
def foldWithin {β : Type} (f : β → Item → β) : Nat → β → Splitter σ → Option (β × Splitter σ)
  | 0, _, _ => none
  | rounds + 1, init, s =>
    match s.nextWithin rounds with
    | none => none
    | some (none, s) => some (init, s)
    | some (some item, s) => foldWithin f rounds (f init item) s

end Rounds

/-! ### Finite sources -/

variable [FiniteSource σ]

/-- One round more than the stock is enough for the next item. -/
theorem nextWithin_isSome (rounds : Nat) (s : Splitter σ) (h : s.reader.stock < rounds) :
    (s.nextWithin rounds).isSome := by
  unfold nextWithin
  split
  · rfl
  · rw [Option.isSome_map]
    exact Reader.lineWithin_isSome _ _ _ _ h

/-- An item either finishes the splitter or lowers the stock of its reader. -/
theorem finished_or_stock_lt {rounds : Nat} {s s' : Splitter σ} {item : Item}
    (h : s.nextWithin rounds = some (some item, s')) :
    s'.finished = true ∨ s'.reader.stock < s.reader.stock := by
  unfold nextWithin at h
  split at h
  · simp at h
  · obtain ⟨call, hcall, hs⟩ := Option.map_eq_some_iff.1 h
    unfold conclude at hs
    split at hs
    · next hok =>
      simp only [Prod.mk.injEq] at hs
      exact .inr (hs.2 ▸ Reader.stock_lineWithin_lt hcall hok)
    · simp only [Prod.mk.injEq] at hs
      exact .inl (hs.2 ▸ rfl)
    · simp only [Prod.mk.injEq] at hs
      exact .inl (hs.2 ▸ rfl)

/-- Two rounds more than the stock are enough to fold over all items. -/
theorem foldWithin_isSome {β : Type} (f : β → Item → β) (rounds : Nat) (init : β)
    (s : Splitter σ) (h : s.finished = true ∧ 0 < rounds ∨ s.reader.stock + 1 < rounds) :
    (foldWithin f rounds init s).isSome := by
  induction rounds generalizing init s with
  | zero => omega
  | succ rounds ih =>
    have hsome : (s.nextWithin rounds).isSome := by
      rcases h with ⟨hf, _⟩ | h
      · simp [nextWithin, hf]
      · exact nextWithin_isSome _ _ (by omega)
    simp only [foldWithin]
    split
    · next hn => simp [hn] at hsome
    · rfl
    · next item s' hn =>
      refine ih _ _ ?_
      have hnf : s.finished ≠ true := by
        intro hf
        simp [nextWithin, hf] at hn
      have := h.resolve_left fun hf => hnf hf.1
      rcases finished_or_stock_lt hn with hf | hlt
      · exact .inl ⟨hf, by omega⟩
      · exact .inr (by omega)

/-- The next item, or nothing at the end. -/
def next (s : Splitter σ) : Option Item × Splitter σ :=
  (s.nextWithin (s.reader.stock + 1)).get (nextWithin_isSome _ _ (Nat.lt_succ_self _))

/-- Folds over all items still to come. -/
def fold {β : Type} (f : β → Item → β) (init : β) (s : Splitter σ) : β × Splitter σ :=
  (foldWithin f (s.reader.stock + 2) init s).get
    (foldWithin_isSome _ _ _ _ (.inr (Nat.lt_succ_self _)))

/-- All items still to come. -/
def collect (s : Splitter σ) : Array Item × Splitter σ := s.fold Array.push #[]

end Splitter

end BufferedReading
