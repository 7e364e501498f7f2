import NameResolution.Lookup.Options
import NameResolution.Symbol.Table

/-! The kinds of scope that a chain is made of, and which lookups each of them admits. -/

namespace NameResolution

/-- Aliases and imported namespaces in effect at one level. -/
structure ImportScope where
  imported : OrderedSet SymbolId := ∅
  aliases : NameTable := ∅

/-- The declaration that a list of type parameters belongs to. -/
inductive GenericLevel where
  | type | method
  deriving DecidableEq

/-- Type parameters of one declaration. A name has several of them only if it is declared
again in the same list. -/
structure TypeParameterScope where
  level : GenericLevel
  owner : SymbolId
  parameters : NameTable

/-- The construct that opens a local scope. -/
inductive LocalScopeKind where
  | body | block | lambda
  deriving DecidableEq

/-- Variables and labels declared directly in one construct. Labels have a table of their
own and answer only to lookups of labels. -/
structure LocalScope where
  kind : LocalScopeKind
  locals : NameTable := ∅
  labels : NameTable := ∅

inductive Scope where
  | ofNamespace (container : SymbolId)
  | ofImports (directives : ImportScope)
  | ofType (ty : SymbolId)
  | ofTypeParameters (parameters : TypeParameterScope)
  | ofLocals (table : LocalScope)

/-- Scopes from the innermost to the outermost. -/
abbrev ScopeChain := List Scope

/-! ### Declaring in a scope -/

/-- Records symbols under their own names. -/
def NameTable.declare (t : SymbolTable) (table : NameTable) (symbols : List SymbolId) : NameTable :=
  symbols.foldl (fun table s => table.insert (t.data s).name s) table

namespace Scope

def imports (t : SymbolTable) (namespaces aliases : List SymbolId) : Scope :=
  .ofImports ⟨.ofList namespaces, NameTable.declare t ∅ aliases⟩

def typeParameters (t : SymbolTable) (level : GenericLevel) (owner : SymbolId)
    (parameters : List SymbolId) : Scope :=
  .ofTypeParameters ⟨level, owner, NameTable.declare t ∅ parameters⟩

def locals (t : SymbolTable) (kind : LocalScopeKind) (bound labels : List SymbolId) : Scope :=
  .ofLocals ⟨kind, NameTable.declare t ∅ bound, NameTable.declare t ∅ labels⟩

/-! ### The gate -/

/-- Whether the scope may hold something usable under the options. Members are neither
labels nor aliases, and neither type parameters nor locals are instance members. -/
def admits : Scope → LookupOptions → Bool
  | ofNamespace _, o | ofType _, o => !(o.labelsOnly || o.namespaceAliasesOnly)
  | ofImports _, o => !o.labelsOnly
  | ofTypeParameters s, o =>
    !(o.namespaceAliasesOnly || o.mustBeInstance || o.labelsOnly)
      && !(s.level == .method && o.mustNotBeMethodTypeParameter)
  | ofLocals _, o => !(o.namespaceAliasesOnly || o.mustBeInstance)

end Scope

end NameResolution
