/-!
# Sets of code points

A set of code points is a list of inclusive ranges in ascending order. Membership walks the list
and stops at the first range that lies above the code point.
-/
namespace ScriptEngine.Text

/-- Inclusive ranges of code points, in ascending order. -/
abbrev CodeRanges := List (Nat × Nat)

/-- Whether a code point lies in one of the ranges. -/
def CodeRanges.covers : CodeRanges → Nat → Bool
  | [], _ => false
  | (low, high) :: rest, n => if n < low then false else n ≤ high || covers rest n

end ScriptEngine.Text
