import NameResolution.Symbol.Vocabulary

/-! A scenario is a program in outline: declarations named by dotted paths, a chain of
scopes, and names to look up from the innermost scope. -/

namespace NameResolution

/-- A declaration. The last segment of the path is the declared name, what stands before
it names the container, and the empty path is the global namespace. -/
structure SymbolDecl where
  path : String
  kind : String
  /-- Without it the number of type parameters decides. -/
  arity : Option Nat := none
  accessibility : Option String := none
  isStatic : Bool := false
  module : ModuleId := ⟨0⟩
  typeParameters : List String := []
  bases : List String := []
  target : Option String := none
  problem : Option String := none

/-- The greatest arity, which is a number of 32 bits. -/
def maxArity : Nat := 4294967295

/-- The arity that is declared or else the number of type parameters, cut off at the greatest arity. -/
def SymbolDecl.symbolArity (decl : SymbolDecl) : Nat :=
  decl.arity.getD (min decl.typeParameters.length maxArity)

/-- A scope of the chain. Which paths matter depends on the kind. -/
structure ScopeDecl where
  kind : String
  owner : Option String := none
  imports : List String := []
  aliases : List String := []
  locals : List String := []
  labels : List String := []

/-- A name to look up, with the names of the options that are set. -/
structure LookupDecl where
  name : String
  arity : Nat := 0
  options : List String := []
  within : Option String := none
  module : ModuleId := ⟨0⟩
  diagnose : Bool := true

/-- The scopes are listed from the outermost to the innermost. -/
structure Scenario where
  symbols : List SymbolDecl := []
  scopes : List ScopeDecl := []
  lookups : List LookupDecl := []

inductive ScenarioError where
  | nothingDeclaredAt (path : String)
  | aliasNeedsTarget (path : String)
  | unknownSymbolKind (kind : String)
  | unknownAccessibility (accessibility : String)
  | unknownProblem (problem : String)
  | noScopes
  | scopeNeedsOwner (kind : String)
  | unknownScopeKind (kind : String)
  | unknownLookupOption (option : String)
  deriving DecidableEq

def ScenarioError.message : ScenarioError → String
  | nothingDeclaredAt path => "nothing is declared at `" ++ path ++ "`"
  | aliasNeedsTarget path => "alias `" ++ path ++ "` needs a target"
  | unknownSymbolKind kind => "unknown symbol kind `" ++ kind ++ "`"
  | unknownAccessibility accessibility => "unknown accessibility `" ++ accessibility ++ "`"
  | unknownProblem problem => "unknown use-site problem `" ++ problem ++ "`"
  | noScopes => "scenario declares no scopes"
  | scopeNeedsOwner kind => "`" ++ kind ++ "` scope needs `of`"
  | unknownScopeKind kind => "unknown scope kind `" ++ kind ++ "`"
  | unknownLookupOption option => "unknown lookup option `" ++ option ++ "`"

end NameResolution
