import BufferedReading.Window.Lemmas
import BufferedReading.Source.Basic
import BufferedReading.Record

/-!
# Refilling a window

`Window.fillFrom` asks a source once, for as many bytes as the window has room for after compaction,
and makes readable what the source reports. A full window does not ask, and a source that reports
more than the room there was is a failure.
-/

namespace BufferedReading

/-- What a refill leaves behind. -/
structure Refill (σ : Type) where
  /-- What the refill brought, or how it failed. -/
  outcome : Except Failure Fill
  /-- The window after the refill. -/
  window : Window
  /-- The source after the refill. -/
  source : σ
  /-- The note taken, if the source answered with a count. -/
  note : Option Record

namespace Window

variable {σ : Type}

/-- Puts an answer of a source into the free space of a window. -/
def receive (w : Window) (source : σ) : Answer → Refill σ
  | .failed cause => ⟨.error cause, w, source, none⟩
  | .supplied written count =>
    let (outcome, filled) := (w.stage written).commit count
    ⟨outcome, filled, source, some (.refill w.free count)⟩

/-- Compacts a window and asks the source once to fill its free space. -/
def fillFrom [ByteSource σ] (w : Window) (source : σ) : Refill σ :=
  let w := w.compact
  if w.free = 0 then ⟨.ok .full, w, source, none⟩
  else
    let (answer, source) := ByteSource.read source w.free
    w.receive source answer

/-! ### Facts about a refill -/

/-- A window that takes in an answer keeps its size. -/
@[simp] theorem capacity_receive (w : Window) (source : σ) (answer : Answer) :
    (w.receive source answer).window.capacity = w.capacity := by
  cases answer with
  | failed cause => rfl
  | supplied written count =>
    simp only [receive, commit]
    split
    · simp
    · split <;> simp

/-- A refill keeps the size of the window. -/
@[simp] theorem capacity_fillFrom [ByteSource σ] (w : Window) (source : σ) :
    (w.fillFrom source).window.capacity = w.capacity := by
  unfold fillFrom
  simp only
  split <;> simp

/-- A window may be compacted before it is refilled. -/
theorem fillFrom_compact [ByteSource σ] (w : Window) (source : σ) :
    w.compact.fillFrom source = w.fillFrom source := by
  simp only [fillFrom, compact_compact]

/-- Bytes are added only by an answer that is not final. -/
theorem isFinal_of_receive_added {w : Window} {source : σ} {answer : Answer} {count : Nat}
    (h : (w.receive source answer).outcome = .ok (.added count)) : answer.isFinal = false := by
  cases answer with
  | failed cause => simp [receive] at h
  | supplied written n =>
    simp only [receive, commit] at h
    split at h
    · simp at h
    · next hn => simpa [Answer.isFinal] using hn

/-- The source behind a received answer is the one that gave it. -/
@[simp] theorem source_receive (w : Window) (source : σ) (answer : Answer) :
    (w.receive source answer).source = source := by
  cases answer <;> rfl

/-- A refill that adds bytes uses up some of the supply. -/
theorem supply_fillFrom_lt [FiniteSource σ] {w : Window} {source : σ} {count : Nat}
    (h : (w.fillFrom source).outcome = .ok (.added count)) :
    supply (w.fillFrom source).source < supply source := by
  unfold fillFrom at h ⊢
  simp only at h ⊢
  split at h
  · simp at h
  · next hf =>
    rw [if_neg hf, source_receive]
    exact FiniteSource.supply_read_lt _ _ (isFinal_of_receive_added h)

/-- An answer that adds nothing leaves the unread bytes as they were. -/
theorem toList_receive (w : Window) (source : σ) (answer : Answer)
    (h : ∀ count, (w.receive source answer).outcome ≠ .ok (.added count)) :
    (w.receive source answer).window.toList = w.toList := by
  cases answer with
  | failed cause => rfl
  | supplied written count =>
    have h := h count
    simp only [receive, commit] at h ⊢
    split
    · simp
    · next hz =>
      rw [if_neg hz] at h
      split
      · next hle => exact absurd (by rw [dif_pos hle]) h
      · simp

/-- A refill that adds nothing leaves the unread bytes as they were. -/
theorem toList_fillFrom [ByteSource σ] (w : Window) (source : σ)
    (h : ∀ count, (w.fillFrom source).outcome ≠ .ok (.added count)) :
    (w.fillFrom source).window.toList = w.toList := by
  unfold fillFrom at h ⊢
  simp only at h ⊢
  split
  · simp
  · next hf =>
    rw [if_neg hf] at h
    rw [toList_receive _ _ _ h, toList_compact]

end Window

end BufferedReading
