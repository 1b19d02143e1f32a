/-!
# Byte strings

The buffers of this library are arrays of bytes. Two operations go beyond those of arrays:
`Bytes.overwrite` writes one byte string over part of another without changing its length, as a
source does with the buffer it is given, and `Bytes.indexIn?` finds the first place of a byte in a
range. Each is described by one lemma on the list of bytes.
-/

namespace BufferedReading

/-- A byte string. -/
abbrev Bytes := Array UInt8

namespace Bytes

/-! ### Writing over part of a byte string -/

/-- The byte string `dst` with `src` written over it from `offset` on, cut where `dst` ends. -/
def overwrite (dst : Bytes) (offset : Nat) (src : Bytes) : Bytes :=
  dst.extract 0 offset ++ src.extract 0 (dst.size - offset) ++
    dst.extract (offset + src.size) dst.size

/-- Writing over a byte string keeps its length. -/
@[simp] theorem size_overwrite (dst : Bytes) (offset : Nat) (src : Bytes) :
    (dst.overwrite offset src).size = dst.size := by
  simp only [overwrite, Array.size_append, Array.size_extract]
  omega

/-- Written over are the bytes from `offset` on; the bytes before and after stay. -/
theorem toList_overwrite (dst : Bytes) (offset : Nat) (src : Bytes) :
    (dst.overwrite offset src).toList =
      dst.toList.take offset ++ src.toList.take (dst.size - offset) ++
        dst.toList.drop (offset + src.size) := by
  have h : (dst.toList.drop (offset + src.size)).length ≤ dst.size - (offset + src.size) := by simp
  simp [overwrite, Array.toList_extract, List.take_of_length_le h]

/-- The second part of a byte string may be parted again, wherever that is. -/
theorem append_extract_append_extract (done bytes : Bytes) (count : Nat) :
    done ++ bytes.extract 0 count ++ bytes.extract count bytes.size = done ++ bytes := by
  rw [Array.append_assoc, Array.extract_append_extract, Nat.min_eq_left (Nat.zero_le _),
    Array.extract_eq_self_of_le (Nat.le_max_right _ _)]

/-! ### The first place of a byte -/

/-- The least index of `byte` in `bytes` among the `count` indices from `start` on. -/
def indexIn? (bytes : Bytes) (byte : UInt8) (start : Nat) : Nat → Option Nat
  | 0 => none
  | count + 1 =>
    if bytes[start]? = some byte then some start else indexIn? bytes byte (start + 1) count

/-- A range that holds the byte yields an index in the range at which the byte stands, and the byte
stands nowhere before it in the range. -/
theorem indexIn?_eq_some_iff {bytes : Bytes} {byte : UInt8} {start count i : Nat} :
    bytes.indexIn? byte start count = some i ↔
      start ≤ i ∧ i < start + count ∧ bytes[i]? = some byte ∧
        ∀ j, start ≤ j → j < i → bytes[j]? ≠ some byte := by
  induction count generalizing start with
  | zero => simp [indexIn?]; omega
  | succ count ih =>
    by_cases h : bytes[start]? = some byte
    · simp only [indexIn?, h, if_true, Option.some.injEq]
      constructor
      · rintro rfl
        exact ⟨Nat.le_refl _, by omega, h, fun j hj hji => by omega⟩
      · rintro ⟨hle, _, _, hmin⟩
        by_cases hlt : start < i
        · exact absurd h (hmin start (Nat.le_refl _) hlt)
        · omega
    · simp only [indexIn?, h, if_false, ih]
      constructor
      · rintro ⟨hle, hlt, hi, hmin⟩
        refine ⟨by omega, by omega, hi, fun j hj hji => ?_⟩
        by_cases hjs : j = start
        · exact hjs ▸ h
        · exact hmin j (by omega) hji
      · rintro ⟨hle, hlt, hi, hmin⟩
        have hne : start ≠ i := fun he => h (he ▸ hi)
        exact ⟨by omega, by omega, hi, fun j hj hji => hmin j (by omega) hji⟩

/-- A range yields no index exactly when the byte stands nowhere in it. -/
theorem indexIn?_eq_none_iff {bytes : Bytes} {byte : UInt8} {start count : Nat} :
    bytes.indexIn? byte start count = none ↔
      ∀ j, start ≤ j → j < start + count → bytes[j]? ≠ some byte := by
  induction count generalizing start with
  | zero => simp [indexIn?]; omega
  | succ count ih =>
    by_cases h : bytes[start]? = some byte
    · simp only [indexIn?, h, if_true]
      exact ⟨fun hn => by simp at hn, fun hall => absurd h (hall start (Nat.le_refl _) (by omega))⟩
    · simp only [indexIn?, h, if_false, ih]
      constructor
      · intro hall j hj hlt
        by_cases hjs : j = start
        · exact hjs ▸ h
        · exact hall j (by omega) (by omega)
      · intro hall j hj hlt
        exact hall j (by omega) (by omega)

end Bytes

end BufferedReading
