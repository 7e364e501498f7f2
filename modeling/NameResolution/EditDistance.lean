/-! The least number of insertions, deletions and substitutions of single characters
that turn one text into another, computed row by row. -/

namespace NameResolution

/-- The rest of a row of distances. The last entry so far is `left`, and `above` is the
previous row from the entry over it on. -/
def distanceCells (c : Char) (left : Nat) : List Char → List Nat → List Nat
  | d :: target, diagonal :: up :: above =>
    let cell := min (min (up + 1) (left + 1)) (if c = d then diagonal else diagonal + 1)
    cell :: distanceCells c cell target (up :: above)
  | _, _ => []

/-- The distances from a source with one more character to all beginnings of the target. -/
def nextDistances (target : List Char) (row : List Nat) (c : Char) : List Nat :=
  match row with
  | [] => []
  | first :: _ => (first + 1) :: distanceCells c (first + 1) target row

/-- The distances from the source to all beginnings of the target. -/
def distanceRow (source target : List Char) : List Nat :=
  source.foldl (nextDistances target) (List.range (target.length + 1))

def editDistance (source target : List Char) : Nat := (distanceRow source target).getLastD 0

end NameResolution
