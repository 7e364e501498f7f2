import NameResolution.Scope.Lookup
import NameResolution.Symbol.Inheritance

/-! The names under which a scope has something to offer. -/

namespace NameResolution

/-- The names of the types that the imported namespaces declare. -/
def ImportScope.typeNames (s : ImportScope) (t : SymbolTable) : List NameId :=
  s.imported.toList.flatMap fun container =>
    (t.members container).names.toList.filter fun name =>
      (t.membersNamed container name).any fun m => (t.data m).isType

/-- The names that the scope declares or inherits, as far as it admits the options. -/
def Scope.names (t : SymbolTable) (options : LookupOptions) (scope : Scope) : List NameId :=
  if scope.admits options then
    match scope with
    | ofNamespace container => (t.members container).names.toList
    | ofImports directives =>
      directives.aliases.names.toList
        ++ if options.namespaceAliasesOnly then [] else directives.typeNames t
    | ofType ty => (t.withBases ty).flatMap fun s => (t.members s).names.toList
    | ofTypeParameters p => p.parameters.names.toList
    | ofLocals l => (l.table options).names.toList
  else []

/-- The names visible along a chain, those of inner scopes first and each once. -/
def ScopeChain.visibleNames (t : SymbolTable) (options : LookupOptions) (chain : ScopeChain) :
    OrderedSet NameId :=
  .ofList (chain.flatMap (Scope.names t options))

end NameResolution
