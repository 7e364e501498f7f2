import NameResolution.OrderedSet

/-! Names are interned: each distinct text gets the next index the first time it is
seen, and equal texts share one index from then on. -/

namespace NameResolution

/-- Index of a distinct text in an interner. -/
structure NameId where
  index : Nat
  deriving DecidableEq, Inhabited

structure Interner where
  texts : OrderedSet String

namespace Interner

def empty : Interner := ⟨∅⟩

instance : Inhabited Interner := ⟨empty⟩

def size (names : Interner) : Nat := names.texts.size

def isEmpty (names : Interner) : Bool := names.texts.isEmpty

/-- The index of a text that was interned before. -/
def find? (names : Interner) (text : String) : Option NameId :=
  (names.texts.toList.idxOf? text).map NameId.mk

def text? (names : Interner) (name : NameId) : Option String :=
  names.texts.toList[name.index]?

/-- The text of a name; an index that was never handed out reads as the empty text. -/
def text (names : Interner) (name : NameId) : String := (names.text? name).getD ""

def intern (names : Interner) (text : String) : NameId × Interner :=
  match names.find? text with
  | some name => (name, names)
  | none => (⟨names.size⟩, ⟨names.texts.insert text⟩)

theorem find?_eq_some_iff {names : Interner} {text : String} {name : NameId} :
    names.find? text = some name ↔ names.text? name = some text := by
  cases name with
  | mk i =>
    simp only [find?, text?, Option.map_eq_some_iff, NameId.mk.injEq, exists_eq_right]
    constructor
    · intro h
      obtain ⟨hi, ht, -⟩ := List.idxOf?_eq_some_iff.1 h
      rw [List.getElem?_eq_getElem hi, ht]
    · intro h
      obtain ⟨hi, ht⟩ := List.getElem?_eq_some_iff.1 h
      refine List.idxOf?_eq_some_iff.2 ⟨hi, ht, fun j hj hjt => ?_⟩
      exact (List.pairwise_iff_getElem.1 names.texts.nodup j i (Nat.lt_trans hj hi) hi hj) (hjt.trans ht.symm)

instance : ToString Interner where
  toString names := "Interner \x7b len: " ++ toString names.size ++ " \x7d"

end Interner

end NameResolution
