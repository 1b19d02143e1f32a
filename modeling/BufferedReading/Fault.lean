/-!
# Faults

This library counts in natural numbers, and a machine counts in words. Most sums that come up count
bytes of one array and always fit. A count that a caller or a source hands in need not: the sum it
goes into may fit in no word, the slice it names may lie outside its array, and no array may be as
large as it asks for. What is asked for then is not computed, and the `Fault` says why.
-/

namespace BufferedReading

/-- The number of values of a machine word, two to the power of 64. -/
def wordSize : Nat := 18446744073709551616

/-- The greatest number of bytes in an array, one less than two to the power of 63. -/
def maxSize : Nat := 9223372036854775807

/-- The number of values, from zero on, of a counter that takes half a word and keeps one bit for
the sign: two to the power of 31. -/
def counterSize : Nat := 2147483648

/-- What a machine refuses to compute. -/
inductive Fault where
  /-- A slice outside its array. -/
  | slice
  /-- A copy into a slice of another length. -/
  | length
  /-- A negative difference. -/
  | underflow
  /-- A sum that does not fit in its word. -/
  | overflow
  /-- A failed assertion. -/
  | assertion
  /-- An array larger than any array can be. -/
  | capacity
  deriving DecidableEq, Repr, Inhabited

/-- Why there is no result: an error, which is an answer like any other, or a fault, which is
none. -/
inductive Stop (ε : Type) where
  /-- The error is reported to the caller. -/
  | failed (error : ε)
  /-- The machine refuses to go on. -/
  | faulted (fault : Fault)
  deriving DecidableEq, Repr, Inhabited

/-- The same with another error. -/
def Stop.map {ε ε' : Type} (f : ε → ε') : Stop ε → Stop ε'
  | failed error => failed (f error)
  | faulted fault => faulted fault

/-- A sum of two numbers, if it is one of the `size` values that there is room for. -/
def checkedAdd (size a b : Nat) : Except Fault Nat :=
  if a + b < size then .ok (a + b) else .error .overflow

/-- A sum that there is room for is the plain sum. -/
theorem checkedAdd_of_lt {size a b : Nat} (h : a + b < size) : checkedAdd size a b = .ok (a + b) :=
  if_pos h

/-- Any other sum is a fault. -/
theorem checkedAdd_of_le {size a b : Nat} (h : size ≤ a + b) :
    checkedAdd size a b = .error .overflow := if_neg (Nat.not_lt.2 h)

end BufferedReading
