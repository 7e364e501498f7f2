import NameResolution.Lookup.Options

/-! A request asks for a name from some place in the program. Once the name is known to
the interner, the request becomes a query that every scope answers in the same way. -/

namespace NameResolution

/-- Where a reference stands: its module and, if any, the symbol that encloses it. -/
structure LookupContext where
  module : ModuleId := ⟨0⟩
  within : Option SymbolId := none
  deriving DecidableEq, Inhabited

structure LookupRequest where
  name : String
  arity : Nat := 0
  options : LookupOptions := .empty
  context : LookupContext := {}
  /-- Whether rejected candidates are listed with the reason. -/
  diagnose : Bool := true

structure ScopeQuery where
  name : NameId
  arity : Nat
  options : LookupOptions
  context : LookupContext
  diagnose : Bool

def LookupRequest.query (request : LookupRequest) (name : NameId) : ScopeQuery :=
  ⟨name, request.arity, request.options, request.context, request.diagnose⟩

end NameResolution
