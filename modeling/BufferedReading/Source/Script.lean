import BufferedReading.Source.Basic

/-!
# Scripted sources

A `Script` is a list of steps, each of which says how one request is answered: with bytes, with the
end of the stream, with a failure, with a false count or with a delay. Bytes that do not fit into
the buffer stay for the next request, and an exhausted script is at the end of its stream for ever.

Read by waiting, a script passes over its delays; polled, it answers "not yet" as often as a delay
says and then goes on to its next step within the same attempt.
-/

namespace BufferedReading

/-- One step of a scripted source. -/
inductive Step where
  /-- Serves the bytes, over several requests if need be; no bytes at all are the end of the stream,
  once. -/
  | data (bytes : Bytes)
  /-- The end of the stream, once. -/
  | ended
  /-- A failure. -/
  | fail (cause : Failure)
  /-- Fills the buffer with the letter x and counts `surplus` bytes too many. -/
  | overcount (surplus : Nat)
  /-- Asks to be tried again so many times. -/
  | delay (times : Nat)
  deriving DecidableEq, Repr, Inhabited

/-- The steps that a scripted source has still to take. -/
abbrev Script := List Step

namespace Script

/-- The answer to a request, with delays passed over, and the steps left after it. -/
def read : Script → Nat → Answer × Script
  | [], _ => (.honest #[], [])
  | .data bytes :: rest, n =>
    if bytes.size ≤ n then (.honest bytes, rest)
    else (.honest (bytes.extract 0 n), .data (bytes.extract n bytes.size) :: rest)
  | .ended :: rest, _ => (.honest #[], rest)
  | .fail cause :: rest, _ => (.failed cause, rest)
  | .overcount surplus :: rest, n => (.supplied (Array.replicate n 0x78) (n + surplus), rest)
  | .delay _ :: rest, n => read rest n

/-- The answer to an attempt, and the steps left after it. -/
def poll : Script → Nat → Poll Answer × Script
  | .delay 0 :: rest, n => poll rest n
  | .delay (times + 1) :: rest, _ => (.pending, .delay times :: rest)
  | script, n => (.ready (read script n).1, (read script n).2)

/-- A bound on the requests that a script answers before its stream is at an end for ever. -/
def extent : Script → Nat
  | [] => 0
  | .data bytes :: rest => bytes.size + 1 + extent rest
  | .ended :: rest => 1 + extent rest
  | .fail _ :: rest => 1 + extent rest
  | .overcount _ :: rest => 1 + extent rest
  | .delay times :: rest => times + 1 + extent rest

/-- Every answer but the end of the stream takes something off the script. -/
theorem extent_read_lt (script : Script) (n : Nat) (h : (script.read n).1.isFinal = false) :
    extent (script.read n).2 < extent script := by
  induction script with
  | nil => simp [read, Answer.honest, Answer.isFinal] at h
  | cons step rest ih =>
    cases step with
    | data bytes =>
      by_cases hle : bytes.size ≤ n
      · simp only [read, hle, if_true, extent]
        omega
      · have hn : n ≠ 0 := by
          rintro rfl
          simp [read, hle, Answer.honest, Answer.isFinal] at h
        simp only [read, hle, if_false, extent, Array.size_extract]
        omega
    | ended => simp [read, Answer.honest, Answer.isFinal] at h
    | fail cause => simp [read, extent]
    | overcount surplus => simp [read, extent]
    | delay times =>
      have := ih h
      simp only [read, extent]
      omega

/-- Every answer to an attempt but the end of the stream takes something off the script. -/
theorem extent_poll_lt (script : Script) (n : Nat)
    (h : ∀ a, (script.poll n).1 = .ready a → a.isFinal = false) :
    extent (script.poll n).2 < extent script := by
  fun_induction poll script n with
  | case1 rest n ih =>
    have := ih h
    simp only [extent]
    omega
  | case2 times rest n => simp only [extent]; omega
  | case3 script n => exact extent_read_lt script n (h _ rfl)

instance : ByteSource Script := ⟨read⟩

instance : FiniteSource Script where
  supply := extent
  supply_read_lt := extent_read_lt

instance : PolledSource Script := ⟨poll⟩

instance : FinitePolledSource Script where
  pollSupply := extent
  pollSupply_poll_lt := extent_poll_lt

end Script

end BufferedReading
