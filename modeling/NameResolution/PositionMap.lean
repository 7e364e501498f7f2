import NameResolution.Span

/-! Values attached to ranges of files. A position has the value of the shortest range
that holds it, and of equally short ones the range that was attached last. -/

namespace NameResolution

/-- The ranges with their values, the last one first. -/
structure PositionMap (α : Type) where
  entries : List (FileSpan × α)

namespace PositionMap

variable {α : Type}

def empty : PositionMap α := ⟨[]⟩

instance : Inhabited (PositionMap α) := ⟨empty⟩

def insert (m : PositionMap α) (span : FileSpan) (value : α) : PositionMap α :=
  ⟨(span, value) :: m.entries⟩

def size (m : PositionMap α) : Nat := m.entries.length

def isEmpty (m : PositionMap α) : Bool := m.entries.isEmpty

/-- The first of the shortest ranges. -/
def shortest? : List (FileSpan × α) → Option (FileSpan × α)
  | [] => none
  | entry :: rest =>
    match shortest? rest with
    | none => some entry
    | some best => if entry.1.span.length ≤ best.1.span.length then some entry else some best

def find? (m : PositionMap α) (file : FileId) (offset : Nat) : Option α :=
  (shortest? (m.entries.filter fun entry => entry.1.containsPosition file offset)).map Prod.snd

end PositionMap

end NameResolution
