/-!
# Classes of characters

A class of characters is a list of closed ranges of code points, ascending and apart. The tables
of `Provisioning.Text.Blank`, `Provisioning.Text.DecimalDigit` and
`Provisioning.Text.Unprintable` have this shape; they follow Unicode 17.0.
-/

namespace Provisioning.Text

/-- A class of characters as closed ranges of code points, ascending and apart. -/
abbrev Ranges := List (Nat × Nat)

/-- Whether the character lies in one of the ranges. -/
def Ranges.has (ranges : Ranges) (c : Char) : Bool :=
  ranges.any fun range => range.1 ≤ c.toNat && c.toNat ≤ range.2

/-- Ascending and apart: each range is non-empty and ends before its successor begins. -/
def Ranges.ascending : Ranges → Bool
  | [] => true
  | [range] => range.1 ≤ range.2
  | range :: next :: rest =>
    range.1 ≤ range.2 && range.2 < next.1 && Ranges.ascending (next :: rest)

/-- The number of code points in the ranges. -/
def Ranges.size (ranges : Ranges) : Nat :=
  ranges.foldl (fun n range => n + (range.2 + 1 - range.1)) 0

end Provisioning.Text
