import NameResolution.Scope.Basic
import NameResolution.Scope.Hierarchy

/-! What each kind of scope finds under a name. Outer scopes are not consulted, and the
search has to start with a clear result. -/

namespace NameResolution

/-- The types of a name that the imported namespaces declare. Nested namespaces are not
imported. -/
def ImportScope.types (s : ImportScope) (t : SymbolTable) (name : NameId) : List SymbolId :=
  s.imported.toList.flatMap fun container =>
    (t.membersNamed container name).filter fun m => (t.data m).isType

/-- The table that a lookup with these options reads. -/
def LocalScope.table (s : LocalScope) (options : LookupOptions) : NameTable :=
  if options.labelsOnly then s.labels else s.locals

/-- Aliases hide imported types of the same name. -/
def ImportScope.search (env : SearchEnv) (query : ScopeQuery) (directives : ImportScope) (s : Search) :
    Search :=
  let aliased := Search.considerAll env query s (directives.aliases.get query.name)
  if aliased.result.isClear && !query.options.namespaceAliasesOnly then
    Search.considerAll env query aliased (directives.types env.table query.name)
  else aliased

/-- Searches one scope alone. -/
def Scope.search (env : SearchEnv) (query : ScopeQuery) (scope : Scope) (s : Search) : Searched :=
  if s.result.isClear then
    match scope with
    | ofNamespace container =>
      (Search.considerAll env query s (env.table.membersNamed container query.name)).done
    | ofImports directives => (directives.search env query s).done
    | ofType ty => searchHierarchy env query ty s
    | ofTypeParameters p => (Search.considerAll env query s (p.parameters.get query.name)).done
    | ofLocals l => (Search.considerAll env query s ((l.table query.options).get query.name)).done
  else s.interrupted (.violation .resultNotClear)

end NameResolution
