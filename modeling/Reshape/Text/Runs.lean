/-!
# Runs of characters

Sets of characters as runs of consecutive code points, the form in which tables of character
properties are kept.

## Main definitions

* `Runs`: runs of code points.
* `Runs.covers`: membership.
* `Runs.ascending`: whether the runs are in order and apart.
-/

namespace Reshape.Text

/-- Runs of consecutive code points, each by its first and last one. -/
abbrev Runs := List (Nat × Nat)

namespace Runs

/-- Whether a code point lies in one of the runs. -/
def covers (rs : Runs) (n : Nat) : Bool := rs.any fun r => r.1 ≤ n && n ≤ r.2

/-- The number of code points in runs that are apart. -/
def size (rs : Runs) : Nat := rs.foldl (fun n r => n + (r.2 + 1 - r.1)) 0

/-- Whether each run begins behind the end of the run before it. -/
def ascending (rs : Runs) : Bool :=
  rs.all (fun r => r.1 ≤ r.2) && (rs.zip rs.tail).all fun p => p.1.2 < p.2.1

end Runs

end Reshape.Text
