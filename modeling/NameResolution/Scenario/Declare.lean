import NameResolution.Scenario.Basic
import NameResolution.Scenario.Path
import NameResolution.Symbol.Declaration

/-! Declaring the symbols of a scenario. Containers and alias targets have to be declared
before they are referred to, base types anywhere in the scenario. -/

namespace NameResolution

/-- What is declared so far. The entries made last come first, so a path that is declared
again denotes the later symbol. -/
structure Declarations where
  builder : Builder
  paths : List (String × SymbolId)
  /-- The type parameters of each symbol that has some. -/
  typeParameters : List (SymbolId × List SymbolId) := []

namespace Declarations

/-- Before any declaration the empty path denotes the global namespace. -/
def initial : Declarations := { builder := .start .empty, paths := [("", SymbolTable.globalNamespace)] }

def symbolAt (d : Declarations) (path : String) : Except ScenarioError SymbolId :=
  match d.paths.lookup path with
  | some s => .ok s
  | none => .error (.nothingDeclaredAt path)

end Declarations

/-! ### Reading a declaration -/

def SymbolDecl.symbolKind (decl : SymbolDecl) (d : Declarations) : Except ScenarioError SymbolKind :=
  if decl.kind = "alias" then
    match decl.target with
    | none => .error (.aliasNeedsTarget decl.path)
    | some target => (d.symbolAt target).map .namespaceAlias
  else match SymbolKind.ofWord? decl.kind with
  | some kind => .ok kind
  | none => .error (.unknownSymbolKind decl.kind)

/-- Declarations are public unless they say otherwise. -/
def SymbolDecl.declaredAccessibility (decl : SymbolDecl) : Except ScenarioError Accessibility :=
  match decl.accessibility with
  | none => .ok .publicAccess
  | some word =>
    match Accessibility.ofWord? word with
    | some accessibility => .ok accessibility
    | none => .error (.unknownAccessibility word)

/-- A use-site problem in words, before the name of its module is interned. -/
inductive WrittenProblem where
  | missingModule (module : String)
  | badMetadata
  | unsupported
  deriving DecidableEq

/-- Only a missing module takes a name, which follows the first colon. -/
def WrittenProblem.ofText? (text : String) : Option WrittenProblem :=
  match splitFirst? ':' text.toList with
  | some (word, module) =>
    if String.ofList word = "missing-module" then some (.missingModule (String.ofList module)) else none
  | none =>
    if text = "bad-metadata" then some .badMetadata
    else if text = "unsupported" then some .unsupported
    else none

def SymbolDecl.writtenProblem (decl : SymbolDecl) : Except ScenarioError (Option WrittenProblem) :=
  match decl.problem with
  | none => .ok none
  | some text =>
    match WrittenProblem.ofText? text with
    | some problem => .ok (some problem)
    | none => .error (.unknownProblem text)

def Builder.problem (b : Builder) : WrittenProblem → UseSiteProblem × Builder
  | .missingModule module => let (name, b) := b.name module; (.missingModule name, b)
  | .badMetadata => (.badMetadata, b)
  | .unsupported => (.unsupported, b)

def Builder.problem? (b : Builder) : Option WrittenProblem → Option UseSiteProblem × Builder
  | none => (none, b)
  | some written => let (problem, b) := b.problem written; (some problem, b)

/-! ### Declaring -/

namespace Declarations

/-- Declares the type parameters of a symbol and makes them known under its path. -/
def declareTypeParameters (d : Declarations) (owner : SymbolId) (path : String) (names : List String) :
    Declarations :=
  if names.isEmpty then d
  else
    let (ids, builder) := d.builder.addTypeParameters owner 0 names
    { builder
      paths := ((names.map (joinPath path)).zip ids).reverse ++ d.paths
      typeParameters := (owner, ids) :: d.typeParameters }

def declare (d : Declarations) (decl : SymbolDecl) : Except ScenarioError Declarations := do
  let (containerPath, text) := splitPath decl.path
  let container ← d.symbolAt containerPath
  let kind ← decl.symbolKind d
  let accessibility ← decl.declaredAccessibility
  let written ← decl.writtenProblem
  let (name, builder) := d.builder.name text
  let (problem, builder) := builder.problem? written
  let (id, builder) := builder.add {
    name, kind, accessibility, problem
    arity := decl.symbolArity
    isStatic := decl.isStatic
    container := some container
    module := decl.module }
  return { d with builder, paths := (decl.path, id) :: d.paths }.declareTypeParameters id decl.path
    decl.typeParameters

/-- Adds the base types of a declaration to the symbol that its path denotes. -/
def declareBases (d : Declarations) (decl : SymbolDecl) : Except ScenarioError Declarations := do
  let ty ← d.symbolAt decl.path
  decl.bases.foldlM (fun d path => do
    let base ← d.symbolAt path
    return { d with builder := d.builder.addBase ty base }) d

/-- Declares all symbols, then their bases. -/
def ofSymbols (symbols : List SymbolDecl) : Except ScenarioError Declarations := do
  let declared ← symbols.foldlM declare initial
  symbols.foldlM declareBases declared

end Declarations

end NameResolution
