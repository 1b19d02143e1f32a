import BufferedReading.LineStream

/-!
# Operations on a reader

A session is a sequence of operations on a reader and on what is made of it. `Operation` lists the
operations, `Reply` what each of them answers, and `Start` the ways to make a reader from a source.
The same operations are carried out by waiting (`BufferedReading.Session.Blocking`) and by polling
(`BufferedReading.Session.Polled`).
-/

namespace BufferedReading

/-- How to begin reading a source. -/
inductive Start where
  /-- A reader of the default configuration. -/
  | plain
  /-- A reader of the given capacity. -/
  | ofCapacity (capacity : Nat)
  /-- A reader of the given configuration, if it makes sense. -/
  | ofConfig (config : Config)
  /-- The lines of a reader of the default configuration. -/
  | lines (delim : UInt8)
  deriving DecidableEq, Repr, Inhabited

namespace Start

/-- The reader that a start makes of a source. -/
def reader? {σ : Type} (source : σ) : Start → Except (Stop ReadError) (Reader σ)
  | plain => .ok (Reader.ofSource source)
  | ofCapacity capacity => Reader.allocate source (.ofCapacity capacity)
  | ofConfig config => Reader.ofConfig? source config
  | lines _ => .ok (Reader.ofSource source)

/-- A start is refused whatever the source, or makes readers of one configuration, whose window is
no larger than an array can be. -/
theorem reader?_cases (σ : Type) (start : Start) :
    (∃ stop, ∀ source : σ, start.reader? source = .error stop) ∨
      ∃ config : Config, config.capacity ≤ maxSize ∧
        ∀ source : σ, start.reader? source = .ok (Reader.build source config) := by
  have hdefault : (default : Config).capacity ≤ maxSize := by decide
  have hallocate : ∀ config : Config,
      (∃ stop, ∀ source : σ, Reader.allocate source config = .error stop) ∨
        ∃ made : Config, made.capacity ≤ maxSize ∧
          ∀ source : σ, Reader.allocate source config = .ok (Reader.build source made) := by
    intro config
    by_cases hmax : config.capacity ≤ maxSize
    · exact .inr ⟨config, hmax, fun _ => if_pos hmax⟩
    · exact .inl ⟨_, fun _ => if_neg hmax⟩
  cases start with
  | plain => exact .inr ⟨default, hdefault, fun _ => rfl⟩
  | lines delim => exact .inr ⟨default, hdefault, fun _ => rfl⟩
  | ofCapacity capacity =>
    exact hallocate (.ofCapacity capacity)
  | ofConfig config =>
    simp only [reader?, Reader.ofConfig?]
    rcases config.validate with e | ⟨⟨⟩⟩
    · exact .inl ⟨_, fun _ => rfl⟩
    · exact hallocate config

end Start

/-- What may be done with a reader, with the lines split from it, or with the source under it. A
buffer given to an operation is the caller's and may hold anything. -/
inductive Operation where
  /-- Read some bytes. -/
  | read (buffer : Bytes)
  /-- Read some bytes as a caller that knows failures only. -/
  | readPlain (buffer : Bytes)
  /-- Ask the source itself, past the reader. -/
  | readSource (buffer : Bytes)
  /-- Fill a buffer. -/
  | readExact (buffer : Bytes)
  /-- Fill a buffer as a caller that tries again after an interruption. -/
  | fill (buffer : Bytes)
  /-- Read a byte. -/
  | readByte
  /-- Read a line. -/
  | readLine (delim : UInt8)
  /-- Append a line to the accumulator of the session. -/
  | readLineInto (delim : UInt8)
  /-- Append bytes up to a delimiter as a caller that tries again after an interruption. -/
  | readUntil (delim : UInt8)
  /-- Look at the unread bytes, after a refill if there are none. -/
  | fillBuffer
  /-- Pass over unread bytes. -/
  | consume (count : Nat)
  /-- Look at the unread bytes. -/
  | unread
  /-- Look at the reader. -/
  | describe
  /-- Split the reader into lines. -/
  | split (delim : UInt8)
  /-- Give up the reader and keep its source. -/
  | release
  /-- Make a new reader of the source. -/
  | wrap (start : Start)
  /-- Ask for the next line. -/
  | next
  /-- Ask for all lines still to come. -/
  | collect
  /-- Look at the delimiter of the lines. -/
  | delimiter
  /-- Give up the lines and keep their reader. -/
  | reclaim
  /-- Take the accumulator and leave it empty. -/
  | takeOut
  deriving DecidableEq, Repr, Inhabited

/-- Whether a word reaches to the place up to which an operation passes over bytes, where the read
cursor stands at `readPos`. -/
def Operation.InReach (readPos : Nat) : Operation → Prop
  | .consume count => readPos + count < wordSize
  | _ => True

instance (readPos : Nat) (op : Operation) : Decidable (op.InReach readPos) :=
  match op with
  | .consume count => inferInstanceAs (Decidable (readPos + count < wordSize))
  | .read _ | .readPlain _ | .readSource _ | .readExact _ | .fill _ | .readByte | .readLine _
  | .readLineInto _ | .readUntil _ | .fillBuffer | .unread | .describe | .split _ | .release
  | .wrap _ | .next | .collect | .delimiter | .reclaim | .takeOut =>
    inferInstanceAs (Decidable True)

/-- What an operation answers. Buffers and accumulators are given as the operation left them. -/
inductive Reply where
  /-- A count of bytes read. -/
  | count (result : Except ReadError Nat) (buffer : Bytes)
  /-- A count of bytes read, for a caller that knows failures only. -/
  | plainCount (result : Except Failure Nat) (buffer : Bytes)
  /-- Whether a buffer was filled. -/
  | filled (result : Except (Stop ReadError) Unit) (buffer : Bytes)
  /-- Whether a buffer was filled, for a caller that knows failures only. -/
  | plainFilled (result : Except (Stop Failure) Unit) (buffer : Bytes)
  /-- A byte, or none at the end of the stream. -/
  | byte (result : Except ReadError (Option UInt8))
  /-- A line. -/
  | line (result : Except ReadError Line)
  /-- Whether the delimiter was met. -/
  | appended (result : Except ReadError Bool) (out : Bytes)
  /-- A count of bytes appended, for a caller that knows failures only. -/
  | plainAppended (result : Except Failure Nat) (out : Bytes)
  /-- The unread bytes, for a caller that knows failures only. -/
  | available (result : Except Failure Bytes)
  /-- Bytes. -/
  | bytes (bytes : Bytes)
  /-- The reader may be looked at. -/
  | described
  /-- The source is bare now and may be looked at. -/
  | released
  /-- Whether a new reader was made. -/
  | wrapped (result : Except (Stop ReadError) Unit)
  /-- The operation was carried out and has nothing to answer. -/
  | done
  /-- A line or an error, or nothing at the end of the lines. -/
  | item (item : Option Item)
  /-- Lines and errors, and whether the end of the lines was reached. -/
  | items (items : Array Item) (ended : Bool)
  /-- The delimiter of the lines. -/
  | delimiter (delim : UInt8)
  /-- The operation was given up while it was put off; `kept` is the caller's buffer or accumulator,
  if the operation works on one that outlives it. -/
  | pending (kept : Option Bytes)
  /-- The operation was not carried out. -/
  | faulted (fault : Fault)
  /-- The session holds nothing that the operation applies to. -/
  | misuse

end BufferedReading
