/-!
# Sets of code points

A character property beyond ASCII is data: a list of closed ranges, or of
ranges that step over every other code point, as the cased alphabets do.
-/

namespace SceneDiagram.Text

def inRanges (ranges : List (Nat × Nat)) (n : Nat) : Bool :=
  ranges.any fun r => r.1 ≤ n && n ≤ r.2

/-- The code points `first`, `first + step`, … up to `last`. -/
structure Stride where
  first : Nat
  last : Nat
  step : Nat

def Stride.has (s : Stride) (n : Nat) : Bool :=
  s.first ≤ n && n ≤ s.last && (n - s.first) % s.step == 0

end SceneDiagram.Text
