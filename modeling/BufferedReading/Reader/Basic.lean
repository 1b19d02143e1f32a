import BufferedReading.Config
import BufferedReading.Record
import BufferedReading.Window.Fill

/-!
# Readers

A `Reader` is a source behind a window. It serves small reads from the window and asks the source
only when the window has run dry, so that the source sees few, large requests. The same state serves
a source that is waited for (`BufferedReading.Reader.Blocking`) and one that is polled
(`BufferedReading.Reader.Polled`).
-/

namespace BufferedReading

/-- A source behind a window, with the journal of what the reader did. -/
structure Reader (σ : Type) where
  /-- Where bytes come from. -/
  source : σ
  /-- The bytes taken from the source and not yet delivered. -/
  window : Window
  /-- What the reader was built from. -/
  config : Config
  /-- The records taken so far. -/
  journal : Journal := #[]

/-- What a call that works on a buffer of the caller leaves behind. -/
structure Call (ρ α : Type) where
  /-- The result of the call. -/
  result : α
  /-- The caller's buffer. -/
  buffer : Bytes
  /-- The reader after the call. -/
  reader : ρ

namespace Reader

variable {σ : Type}

/-! ### Construction -/

/-- The reader of a configuration taken as it is, with an empty window. -/
def build (source : σ) (config : Config) : Reader σ :=
  { source, window := .ofCapacity config.capacity, config }

/-- A reader of the default configuration. -/
def ofSource (source : σ) : Reader σ := build source default

/-- A reader of the given capacity without a limit on lines. -/
def ofCapacity (source : σ) (capacity : Nat) : Reader σ := build source (.ofCapacity capacity)

/-- The reader of a configuration, if an array can be as large as its window. -/
def allocate (source : σ) (config : Config) : Except (Stop ReadError) (Reader σ) :=
  if config.capacity ≤ maxSize then .ok (build source config) else .error (.faulted .capacity)

/-- The reader of a configuration that makes sense. -/
def ofConfig? (source : σ) (config : Config) : Except (Stop ReadError) (Reader σ) :=
  match config.validate with
  | .ok () => allocate source config
  | .error e => .error (.failed e)

/-! ### State -/

/-- The size of the window. -/
def capacity (r : Reader σ) : Nat := r.window.capacity

/-- The number of unread bytes. -/
def buffered (r : Reader σ) : Nat := r.window.buffered

/-- The unread bytes. -/
def unread (r : Reader σ) : Bytes := r.window.unread

/-- The reader with one more record in its journal. -/
def note (r : Reader σ) (record : Record) : Reader σ := { r with journal := r.journal.push record }

/-- The reader with the window and the source of a refill, and the note it took. -/
def settle (r : Reader σ) (refill : Refill σ) : Reader σ :=
  { r with
    window := refill.window
    source := refill.source
    journal := match refill.note with
      | none => r.journal
      | some record => r.journal.push record }

/-- The reader after it has delivered unread bytes into a buffer. -/
def deliver (r : Reader σ) (buffer : Bytes) : Call (Reader σ) (Except ReadError Nat) :=
  let count := min buffer.size r.window.buffered
  ⟨.ok count, buffer.overwrite 0 (r.window.front count),
    { r with window := r.window.skip count }⟩

/-- The reader with unread bytes passed over. -/
def skip (r : Reader σ) (count : Nat) : Reader σ :=
  { r with window := r.window.skip count }

/-- The reader with as many unread bytes passed over as its caller says. -/
def consume (r : Reader σ) (count : Nat) : Except Fault (Reader σ) :=
  (r.window.consume count).map fun window => { r with window }

/-- What `Reader.consume` comes to where sums are not checked. -/
def consumeWrapping (r : Reader σ) (count : Nat) : Reader σ :=
  { r with window := r.window.consumeWrapping count }

/-! ### Bytes passed over -/

/-- A count whose sum with the read cursor fits in a word is passed over. -/
theorem consume_of_lt {r : Reader σ} {count : Nat} (h : r.window.readPos + count < wordSize) :
    r.consume count = .ok (r.skip count) := by
  rw [consume, Window.consume_of_lt _ h]
  rfl

/-- Any other count is a fault. -/
theorem consume_of_le {r : Reader σ} {count : Nat} (h : wordSize ≤ r.window.readPos + count) :
    r.consume count = .error .overflow := by
  rw [consume, Window.consume_of_le _ h]
  rfl

end Reader

end BufferedReading
