import BufferedReading.Record

/-!
# Findings

A check reads a byte string in some way and compares what it got with the rules of reading. It stops
at the first rule that fails.
-/

namespace BufferedReading

/-- What a check of reading found. -/
structure Finding where
  /-- Whether every rule held. -/
  holds : Bool
  /-- The records of the readers, in the order in which they read. -/
  journal : Journal
  deriving DecidableEq, Repr, Inhabited

namespace Finding

/-- The finding of one check and then another, which is not made if a rule of the first fails. -/
def andThen (first second : Finding) : Finding :=
  if first.holds then ⟨second.holds, first.journal ++ second.journal⟩ else first

end Finding

end BufferedReading
