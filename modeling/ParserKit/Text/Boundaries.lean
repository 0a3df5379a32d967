/-!
Sets of code points given by their boundaries: the ascending list of the code
points at which membership changes, starting outside the set. A code point
belongs to the set when an odd number of boundaries is at most that point.
-/

namespace ParserKit.Text.Boundaries

/-- Binary search for the number of boundaries that are at most `point`, among
those with an index from `low` up to `high`. -/
def rank (bounds : Array Nat) (point : Nat) : (steps low high : Nat) → Nat
  | 0, low, _ => low
  | steps + 1, low, high =>
    if low < high then
      let middle := (low + high) / 2
      if bounds[middle]?.getD 0 ≤ point then rank bounds point steps (middle + 1) high
      else rank bounds point steps low middle
    else low

def contains (bounds : Array Nat) (point : Nat) : Bool :=
  rank bounds point bounds.size 0 bounds.size % 2 == 1

end ParserKit.Text.Boundaries
