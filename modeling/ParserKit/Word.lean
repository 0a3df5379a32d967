import ParserKit.Fault

/-!
Unsigned numbers of a fixed width. Sums and differences that leave the range
are faults; they never wrap. Offsets, lengths and positions are 64 bits wide.
-/

namespace ParserKit

namespace Word

/-- The least number that needs more than `width` bits. -/
def limit (width : Nat) : Nat :=
  Nat.pow 2 width

def add (width a b : Nat) : Except Fault Nat :=
  if a + b < limit width then .ok (a + b) else .error .addOverflow

def sub (a b : Nat) : Except Fault Nat :=
  if b ≤ a then .ok (a - b) else .error .subOverflow

theorem add_eq_ok {width a b : Nat} (h : a + b < limit width) :
    add width a b = .ok (a + b) := by
  simp [add, h]

theorem sub_eq_ok {a b : Nat} (h : b ≤ a) : sub a b = .ok (a - b) := by
  simp [sub, h]

end Word

namespace Index

def width : Nat := 64

/-- The least number that is too large for an offset. -/
def limit : Nat := Word.limit width

def add (a b : Nat) : Except Fault Nat :=
  Word.add width a b

def sub (a b : Nat) : Except Fault Nat :=
  Word.sub a b

theorem add_eq_ok {a b : Nat} (h : a + b < limit) : add a b = .ok (a + b) :=
  Word.add_eq_ok h

theorem sub_eq_ok {a b : Nat} (h : b ≤ a) : sub a b = .ok (a - b) :=
  Word.sub_eq_ok h

end Index

/-- The characters from `start` up to `stop`; both ends have to lie in the text. -/
def sliceChars (input : Array Char) (start stop : Nat) : Except Fault (Array Char) :=
  if start ≤ stop ∧ stop ≤ input.size then .ok (input.extract start stop)
  else .error (.sliceOutOfRange start stop input.size)

theorem sliceChars_eq_ok {input : Array Char} {start stop : Nat} (h : start ≤ stop)
    (h' : stop ≤ input.size) : sliceChars input start stop = .ok (input.extract start stop) := by
  simp [sliceChars, h, h']

end ParserKit
