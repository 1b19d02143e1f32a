import BufferedReading.Window.Lemmas

/-!
# The stock of a window

Loops over a reader end because a source is finite and a window holds finitely many bytes. The stock
of a window in front of a source with a given supply joins both into one number, which falls when a
byte is consumed (`stock_lt_of_buffered_lt`) and when the supply falls, whatever is then put into
the window (`stock_lt_of_supply_lt`).
-/

namespace BufferedReading

namespace Window

/-- The stock of a window in front of a source with the given supply. -/
def stock (w : Window) (supply : Nat) : Nat := supply * (w.capacity + 1) + w.buffered

variable {w w' : Window} {supply supply' : Nat}

/-- The stock falls with the unread bytes. -/
theorem stock_lt_of_buffered_lt (hc : w'.capacity = w.capacity) (hb : w'.buffered < w.buffered) :
    w'.stock supply < w.stock supply := by
  simp only [stock, hc]
  omega

/-- The stock does not rise if neither the unread bytes nor the supply do. -/
theorem stock_le_of_buffered_le (hc : w'.capacity = w.capacity) (hb : w'.buffered ≤ w.buffered) :
    w'.stock supply ≤ w.stock supply := by
  simp only [stock, hc]
  omega

/-- The stock falls with the supply, however many bytes are then unread. -/
theorem stock_lt_of_supply_lt (hc : w'.capacity = w.capacity) (hs : supply' < supply) :
    w'.stock supply' < w.stock supply := by
  have h1 : (supply' + 1) * (w.capacity + 1) ≤ supply * (w.capacity + 1) :=
    Nat.mul_le_mul_right _ hs
  have h2 := w'.buffered_le_capacity
  rw [Nat.add_mul] at h1
  simp only [stock, hc] at *
  omega

end Window

end BufferedReading
