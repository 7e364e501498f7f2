import NameResolution.Lookup.Suggestion
import NameResolution.Scope.Names

/-! Looking a name up along a chain of scopes. The innermost scope that has any candidate
of the name decides, whether or not its candidates are usable. -/

namespace NameResolution

/-- Searches the scopes that admit the options from the inside out, up to the first one
that has a candidate. -/
def searchChain (env : SearchEnv) (query : ScopeQuery) : ScopeChain → Search → Searched
  | [], s => s.done
  | scope :: outer, s =>
    if env.cancelled then s.interrupted .cancelled
    else if scope.admits query.options then
      let found := scope.search env query s
      if found.interruption.isNone && found.result.isClear then
        searchChain env query outer found.toSearch
      else found
    else searchChain env query outer s

/-- What names are looked up in: a table, the texts of its names, and what to suggest. -/
structure Resolver where
  names : Interner
  table : SymbolTable
  settings : SuggestionSettings := {}

namespace Resolver

/-- Looks a name up along a chain. The problems of all candidates that were examined are
added to the sink. -/
def lookup (r : Resolver) (chain : ScopeChain) (request : LookupRequest) (cancelled : Bool)
    (sink : Diagnostics) : Except Interruption LookupResult × Diagnostics :=
  if !request.options.isValid then
    (.error (.violation (.invalidOptions request.options)), sink)
  else if cancelled then (.error .cancelled, sink)
  else match r.names.find? request.name with
  | none => (.ok .empty, sink)
  | some name =>
    let found := searchChain ⟨r.table, cancelled⟩ (request.query name) chain { sink }
    match found.interruption with
    | some reason => (.error reason, found.sink)
    | none => (.ok found.result, found.sink)

/-- Looks a name up among the members of a type and of its bases. -/
def lookupInType (r : Resolver) (ty : SymbolId) (request : LookupRequest) (cancelled : Bool)
    (sink : Diagnostics) : Except Interruption LookupResult × Diagnostics :=
  r.lookup [.ofType ty] request cancelled sink

/-- The texts of the names visible along a chain. -/
def visibleTexts (r : Resolver) (chain : ScopeChain) (options : LookupOptions) : List String :=
  (chain.visibleNames r.table options).toList.map r.names.text

/-- What is wrong with a result, if anything. An undefined name comes with the visible
names similar to it. -/
def errorOf? (r : Resolver) (chain : ScopeChain) (request : LookupRequest) (result : LookupResult) :
    Option ResolutionError :=
  match result.toError? request.name with
  | some (.undefined name _) =>
    some (.undefined name (suggestions r.settings name (r.visibleTexts chain request.options)))
  | error? => error?

/-- Looks a name up and requires a usable result. -/
def resolve (r : Resolver) (chain : ScopeChain) (request : LookupRequest) (cancelled : Bool)
    (sink : Diagnostics) : Except ResolutionFailure LookupResult × Diagnostics :=
  match r.lookup chain request cancelled sink with
  | (.error .cancelled, sink) => (.error (.unresolved .cancelled), sink)
  | (.error (.violation rule), sink) => (.error (.violation rule), sink)
  | (.ok result, sink) =>
    match r.errorOf? chain request result with
    | some error => (.error (.unresolved error), sink)
    | none => (.ok result, sink)

end Resolver

end NameResolution
