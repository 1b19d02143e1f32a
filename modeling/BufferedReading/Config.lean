import BufferedReading.ReadError

/-!
# Configuration of a reader

A `Config` asks for a window capacity and may set a limit on the length of a line. The capacity
asked for is kept as given, so that two configurations are equal only if the same was asked for; a
capacity of zero stands for `Config.defaultCapacity`.
-/

namespace BufferedReading

/-- What a reader is built from: the capacity asked for and the longest line allowed. -/
structure Config where
  /-- The capacity asked for; zero asks for the default. -/
  requested : Nat
  /-- The greatest length of a line, delimiter included, if there is one. -/
  lineLimit : Option Nat := none
  deriving DecidableEq, Repr

namespace Config

/-- The capacity of a reader for which none is asked. -/
def defaultCapacity : Nat := 4096

/-- The configuration that asks for the given capacity and sets no limit. -/
def ofCapacity (capacity : Nat) : Config := ⟨capacity, none⟩

/-- The configuration that asks for the given capacity, or for the default if none is given. -/
def ofCapacity? (capacity : Option Nat) : Config := ofCapacity (capacity.getD defaultCapacity)

instance : Inhabited Config := ⟨ofCapacity defaultCapacity⟩

/-- The capacity that a reader of this configuration has. -/
def capacity (c : Config) : Nat := if c.requested = 0 then defaultCapacity else c.requested

/-- A reader never has an empty window. -/
theorem capacity_pos (c : Config) : 0 < c.capacity := by
  unfold capacity defaultCapacity
  split <;> omega

/-- The configuration with another capacity asked for. -/
def withCapacity (c : Config) (capacity : Nat) : Config := { c with requested := capacity }

/-- The configuration with a limit on the length of a line. -/
def withLineLimit (c : Config) (limit : Nat) : Config := { c with lineLimit := some limit }

/-- The configuration with no limit on the length of a line. -/
def withoutLineLimit (c : Config) : Config := { c with lineLimit := none }

/-- The error of a configuration that allows no byte in a line. -/
def zeroLineLimit : ReadError := .invalidConfig "max_line_len must be non-zero"

/-- A configuration is refused if it allows no byte in a line. -/
def validate (c : Config) : Except ReadError Unit :=
  if c.lineLimit = some 0 then .error zeroLineLimit else .ok ()

/-- A configuration passes exactly when its limit, if any, allows a byte. -/
theorem validate_eq_ok_iff {c : Config} : c.validate = .ok () ↔ c.lineLimit ≠ some 0 := by
  unfold validate
  split <;> simp_all

end Config

end BufferedReading
