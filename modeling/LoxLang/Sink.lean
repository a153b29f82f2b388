/-!
# Printed text

A `Sink` takes the bytes that a program prints, up to a limit if it has one.  A write that does not
fit is cut off at the limit.
-/

namespace LoxLang

/-- The bytes printed so far, and how many there may be at most. -/
structure Sink where
  written : ByteArray
  limit? : Option Nat

namespace Sink

/-- Nothing printed yet. -/
def empty (limit? : Option Nat) : Sink := ⟨.empty, limit?⟩

/-- How many more bytes of `n` can be taken. -/
def room (s : Sink) (n : Nat) : Nat :=
  match s.limit? with
  | none => n
  | some limit => min n (limit - s.written.size)

/-- All bytes of the text can be taken. -/
def fits (s : Sink) (bytes : ByteArray) : Bool := s.room bytes.size == bytes.size

/-- Takes as many of the bytes as there is room for. -/
def write (s : Sink) (bytes : ByteArray) : Sink :=
  { s with written := s.written ++ bytes.extract 0 (s.room bytes.size) }

theorem room_le (s : Sink) (n : Nat) : s.room n ≤ n := by
  unfold room
  split <;> omega

theorem fits_iff {s : Sink} {bytes : ByteArray} :
    s.fits bytes = true ↔ s.room bytes.size = bytes.size := beq_iff_eq

end Sink

end LoxLang
