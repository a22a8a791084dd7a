/-! Sets of characters given by their code points, as ascending runs. -/

namespace Parley.Text

/-- The code points from the first through the second. -/
abbrev Span := Nat × Nat

def inSpans (spans : List Span) (c : Char) : Bool :=
  spans.any fun s => s.1 ≤ c.toNat && c.toNat ≤ s.2

/-- Every `step`-th code point from `first` through `last`. -/
structure Stride where
  first : Nat
  last : Nat
  step : Nat

def Stride.contains (s : Stride) (n : Nat) : Bool :=
  s.first ≤ n && n ≤ s.last && (n - s.first) % s.step == 0

end Parley.Text
