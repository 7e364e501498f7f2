import NameResolution.Lookup.Request
import NameResolution.Symbol.Containment
import NameResolution.Symbol.Inheritance

/-! Who may refer to a symbol. Nested symbols can be reached only where every type
around them can be reached too. -/

namespace NameResolution

/-- The reference stands inside `owner`. -/
def LookupContext.isWithin (context : LookupContext) (t : SymbolTable) (owner : SymbolId) : Bool :=
  match context.within with
  | none => false
  | some place => t.isNestedIn place owner

/-- The reference stands inside `owner` or inside a type that derives from it. -/
def LookupContext.isWithinFamily (context : LookupContext) (t : SymbolTable) (owner : SymbolId) :
    Bool :=
  match context.within with
  | none => false
  | some place => (place :: t.enclosingTypes place).any fun s => s == owner || t.derivesFrom s owner

namespace SymbolTable

/-- The symbol's own accessibility admits the reference. A top-level declaration is
either public or visible in its module. -/
def isPermitted (t : SymbolTable) (s : SymbolId) (context : LookupContext) : Bool :=
  let sameModule := (t.data s).module == context.module
  match t.containingType s with
  | none => (t.data s).accessibility == .publicAccess || sameModule
  | some owner =>
    match (t.data s).accessibility with
    | .publicAccess => true
    | .internalAccess => sameModule
    | .privateAccess => context.isWithin t owner
    | .protectedAccess => context.isWithinFamily t owner
    | .protectedInternal => sameModule || context.isWithinFamily t owner
    | .privateProtected => sameModule && context.isWithinFamily t owner

/-- The symbol and every type around it admit the reference. -/
def isAccessible (t : SymbolTable) (s : SymbolId) (context : LookupContext) : Bool :=
  (s :: t.enclosingTypes s).all fun x => t.isPermitted x context

end SymbolTable

end NameResolution
