/-!
# Tables of code point ranges

A character property is stored as the list of the ranges of code points that have it.  The ranges
are disjoint and ascending, so a look-up can stop at the first range that starts behind the code
point in question.
-/

namespace MetaPostEditor
namespace Unicode

/-- Disjoint ranges of code points in ascending order, each with its first and its last member. -/
abbrev RangeTable := List (Nat × Nat)

/-- Whether one of the ranges holds the code point `n`. -/
def RangeTable.contains : RangeTable → Nat → Bool
  | [], _ => false
  | (first, last) :: rest, n =>
    if n < first then false
    else if n ≤ last then true
    else RangeTable.contains rest n

end Unicode
end MetaPostEditor
