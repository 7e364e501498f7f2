import NameResolution.EditDistance
import NameResolution.OrderedSet

/-! Names similar to one that was not found. The closest names come first, and names at
the same distance are in the order of their code points. -/

namespace NameResolution

structure SuggestionSettings where
  enabled : Bool := true
  maxDistance : Nat := 3
  maxCount : Nat := 3
  deriving DecidableEq, Inhabited

/-- Closer names first, equally close ones in the order of their code points. -/
def ranksBefore (a b : Nat × String) : Bool :=
  decide (a.1 < b.1) || (a.1 == b.1 && decide (a.2 ≤ b.2))

/-- The distinct names near a given one, each with its distance. -/
def similarNames (maxDistance : Nat) (name : String) (available : List String) : List (Nat × String) :=
  ((OrderedSet.ofList available).toList.filter (· != name)).filterMap fun other =>
    let distance := editDistance name.toList other.toList
    if distance ≤ maxDistance then some (distance, other) else none

/-- The first of the similar names, at most as many as the settings allow. -/
def suggestions (settings : SuggestionSettings) (name : String) (available : List String) :
    List String :=
  if settings.enabled then
    (((similarNames settings.maxDistance name available).mergeSort ranksBefore).map Prod.snd).take
      settings.maxCount
  else []

end NameResolution
