import Mathlib.Data.List.Basic

/-! A stream as `std::io::Read` and `std::io::Write` see it. -/

namespace IoStream

variable {α : Type}

def write (count : Nat) (buf stream : List α) : List α :=
  stream ++ buf.take count

def read (count : Nat) (buf stream : List α) : List α × List α :=
  let moved := min count (min buf.length stream.length)
  (stream.take moved ++ buf.drop moved, stream.drop moved)

theorem write_of_le {count : Nat} {buf : List α} (stream : List α) (h : buf.length ≤ count) :
    write count buf stream = stream ++ buf := by
  rw [write, List.take_of_length_le h]

-- A read that may move all its buffer holds takes the next `buf.length` elements.
theorem read_append {count : Nat} {buf xs : List α} (rest : List α)
    (hlen : xs.length = buf.length) (hcount : buf.length ≤ count) :
    read count buf (xs ++ rest) = (xs, rest) := by
  have hmoved : min count (min buf.length (xs ++ rest).length) = xs.length := by
    rw [List.length_append]
    omega
  rw [read]
  rw [hmoved, List.take_left, List.drop_left, hlen, List.drop_length, List.append_nil]

end IoStream
