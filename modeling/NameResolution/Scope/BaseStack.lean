import NameResolution.Lookup.Error

/-! The types whose bases are being searched, the outermost first. A type that comes up
while it is on the stack lies on a cycle of base types. -/

namespace NameResolution

abbrev BaseStack := OrderedSet SymbolId

namespace BaseStack

/-- Enters a type that is not being searched yet. -/
def push? (stack : BaseStack) (ty : SymbolId) : Option BaseStack :=
  if ty ∈ stack then none else some (stack.insert ty)

/-- Leaves the type that was entered last. -/
def pop (stack : BaseStack) (ty : SymbolId) : Except ContractViolation BaseStack :=
  if stack.toList.getLast? = some ty then .ok stack.dropLast else .error .basesPoppedOutOfOrder

theorem pop_of_push? {stack pushed : BaseStack} {ty : SymbolId} (h : stack.push? ty = some pushed) :
    pushed.pop ty = .ok stack := by
  unfold push? at h
  split at h
  · cases h
  · next hnew =>
    cases h
    simp [pop, OrderedSet.toList_insert_of_not_mem hnew, OrderedSet.dropLast_insert_of_not_mem hnew]

end BaseStack

end NameResolution
