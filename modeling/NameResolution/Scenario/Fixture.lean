import NameResolution.Scenario.Declare
import NameResolution.Resolver

/-! Building the scope chain of a scenario and running its lookups. -/

namespace NameResolution

namespace Declarations

/-- The symbol that a scope of this kind belongs to. -/
def ownerOf (d : Declarations) (decl : ScopeDecl) : Except ScenarioError SymbolId :=
  match decl.owner with
  | none => .error (.scopeNeedsOwner decl.kind)
  | some path => d.symbolAt path

def typeParametersOf (d : Declarations) (owner : SymbolId) : List SymbolId :=
  (d.typeParameters.lookup owner).getD []

def typeParameterScope (d : Declarations) (level : GenericLevel) (decl : ScopeDecl) :
    Except ScenarioError Scope := do
  let owner ← d.ownerOf decl
  return .typeParameters d.builder.table level owner (d.typeParametersOf owner)

def localScope (d : Declarations) (kind : LocalScopeKind) (decl : ScopeDecl) :
    Except ScenarioError Scope := do
  let bound ← decl.locals.mapM d.symbolAt
  let labels ← decl.labels.mapM d.symbolAt
  return .locals d.builder.table kind bound labels

def importScope (d : Declarations) (decl : ScopeDecl) : Except ScenarioError Scope := do
  let namespaces ← decl.imports.mapM d.symbolAt
  let aliases ← decl.aliases.mapM d.symbolAt
  return .imports d.builder.table namespaces aliases

def scope (d : Declarations) (decl : ScopeDecl) : Except ScenarioError Scope :=
  match decl.kind with
  | "namespace" => (d.ownerOf decl).map .ofNamespace
  | "type" => (d.ownerOf decl).map .ofType
  | "type-parameters" => d.typeParameterScope .type decl
  | "method-type-parameters" => d.typeParameterScope .method decl
  | "imports" => d.importScope decl
  | "body" => d.localScope .body decl
  | "block" => d.localScope .block decl
  | "lambda" => d.localScope .lambda decl
  | kind => .error (.unknownScopeKind kind)

/-- The chain of the scopes, which are listed from the outermost to the innermost. -/
def chain (d : Declarations) (scopes : List ScopeDecl) : Except ScenarioError ScopeChain :=
  if scopes.isEmpty then .error .noScopes else (scopes.mapM d.scope).map List.reverse

end Declarations

/-- A scenario with its symbols declared and its chain built. -/
structure Fixture where
  declarations : Declarations
  chain : ScopeChain

/-- The rendered result of a lookup and the messages of the problems it met. -/
structure LookupOutcome where
  name : String
  result : String
  diagnostics : List String
  deriving DecidableEq

/-- Why a lookup of a scenario has no outcome. -/
inductive LookupFailure where
  | malformed (error : ScenarioError)
  | interrupted (reason : Interruption)
  deriving DecidableEq

def LookupDecl.lookupOptions (decl : LookupDecl) : Except ScenarioError LookupOptions :=
  decl.options.foldlM (fun options name =>
    match LookupFlag.ofName? name with
    | some flag => .ok (options.set flag)
    | none => .error (.unknownLookupOption name)) .empty

namespace Fixture

def ofScenario (scenario : Scenario) : Except ScenarioError Fixture := do
  let declarations ← Declarations.ofSymbols scenario.symbols
  let chain ← declarations.chain scenario.scopes
  return { declarations, chain }

def names (f : Fixture) : Interner := f.declarations.builder.names

def table (f : Fixture) : SymbolTable := f.declarations.builder.table

def symbolAt (f : Fixture) (path : String) : Except ScenarioError SymbolId :=
  f.declarations.symbolAt path

def resolver (f : Fixture) : Resolver := { names := f.names, table := f.table }

/-- What a lookup of the scenario asks for. -/
def request (f : Fixture) (decl : LookupDecl) : Except ScenarioError LookupRequest := do
  let options ← decl.lookupOptions
  let within ← decl.within.mapM f.symbolAt
  return { name := decl.name, arity := decl.arity, options, diagnose := decl.diagnose
           context := { module := decl.module, within } }

/-- Looks a name up from the innermost scope. -/
def run (f : Fixture) (decl : LookupDecl) : Except LookupFailure LookupOutcome := do
  let request ← (f.request decl).mapError .malformed
  let (found, sink) := f.resolver.lookup f.chain request false ∅
  let result ← found.mapError .interrupted
  return {
    name := decl.name
    result := result.describe f.table f.names
    diagnostics := sink.toList.map (UseSiteDiagnostic.message f.table f.names) }

end Fixture

end NameResolution
