/-! Splitting texts at a separator: a dotted path into container and name, and a label
with a colon into its two parts. -/

namespace NameResolution

/-- The characters before and after the first separator, if there is one. -/
def splitFirst? (separator : Char) (text : List Char) : Option (List Char × List Char) :=
  match text.dropWhile (· != separator) with
  | [] => none
  | _ :: rest => some (text.takeWhile (· != separator), rest)

/-- The container path and the declared name. A path without a dot has the empty path as
its container. -/
def splitPath (path : String) : String × String :=
  match splitFirst? '.' path.toList.reverse with
  | none => ("", path)
  | some (name, container) => (String.ofList container.reverse, String.ofList name.reverse)

/-- The path of something declared inside `container`. -/
def joinPath (container name : String) : String := container ++ "." ++ name

theorem splitFirst?_append {separator : Char} {first rest : List Char} (h : separator ∉ first) :
    splitFirst? separator (first ++ separator :: rest) = some (first, rest) := by
  have hne : ∀ c ∈ first, (c != separator) = true := fun c hc => by
    simp only [bne_iff_ne]
    exact fun e => h (e ▸ hc)
  simp [splitFirst?, List.dropWhile_append_of_pos hne, List.takeWhile_append_of_pos hne]

/-- A name without a dot is split off again. -/
theorem splitPath_joinPath {container name : String} (h : '.' ∉ name.toList) :
    splitPath (joinPath container name) = (container, name) := by
  have hrev : (joinPath container name).toList.reverse
      = name.toList.reverse ++ '.' :: container.toList.reverse := by
    simp [joinPath]
  rw [splitPath, hrev, splitFirst?_append (by simpa using h)]
  simp

end NameResolution
