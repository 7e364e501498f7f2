import NameResolution.Symbol.Table

/-! Which symbols enclose which. A container is declared before what it holds, so the
walk from a symbol to its containers descends along the order of declaration. -/

namespace NameResolution.SymbolTable

/-- The containers around a symbol, innermost first, not counting the symbol. -/
def containers (t : SymbolTable) (s : SymbolId) : List SymbolId :=
  match _h : (t.data s).container with
  | none => []
  | some c => c :: t.containers c
termination_by s.index
decreasing_by exact index_lt_of_container _h

theorem containers_eq_nil {t : SymbolTable} {s : SymbolId} (h : (t.data s).container = none) :
    t.containers s = [] := by
  rw [containers]
  split
  · rfl
  · next hc =>
    rw [h] at hc
    cases hc

theorem containers_eq_cons {t : SymbolTable} {s c : SymbolId} (h : (t.data s).container = some c) :
    t.containers s = c :: t.containers c := by
  rw [containers]
  split
  · next hnone =>
    rw [h] at hnone
    cases hnone
  · next hc =>
    rw [h] at hc
    cases hc
    rfl

/-- The type declarations among the containers, innermost first. -/
def enclosingTypes (t : SymbolTable) (s : SymbolId) : List SymbolId :=
  (t.containers s).filter fun c => (t.data c).isType

/-- The innermost type declaration around a symbol. -/
def containingType (t : SymbolTable) (s : SymbolId) : Option SymbolId :=
  (t.containers s).find? fun c => (t.data c).isType

/-- Every symbol is nested in itself and in each of its containers. -/
def isNestedIn (t : SymbolTable) (s outer : SymbolId) : Bool :=
  s == outer || (t.containers s).contains outer

end NameResolution.SymbolTable
