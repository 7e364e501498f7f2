import NameResolution.Symbol.Table

/-! Building a symbol table declaration by declaration. The names of the declarations
are interned on the way, and symbols are numbered in the order of declaration. -/

namespace NameResolution

/-- One step of building a table. -/
inductive Declaration where
  | name (text : String)
  | symbol (data : SymbolData)
  | namespaceIn (parent : SymbolId) (name : String)
  | typeIn (container : SymbolId) (name : String) (kind : TypeKind) (arity : Nat)
  | memberIn (ty : SymbolId) (name : String) (kind : SymbolKind) (accessibility : Accessibility)
  | typeParameters (owner : SymbolId) (names : List String)
  | base (ty baseType : SymbolId)

/-- The symbols that a declaration mentions, which have to be declared before it. -/
def Declaration.references : Declaration → List SymbolId
  | name _ => []
  | symbol data =>
    data.container.toList ++ match data.kind with
      | .namespaceAlias target => [target]
      | _ => []
  | namespaceIn parent _ => [parent]
  | typeIn container _ _ _ => [container]
  | memberIn ty _ _ _ => [ty]
  | typeParameters owner _ => [owner]
  | base ty baseType => [ty, baseType]

/-- A table under construction with the names interned so far. -/
structure Builder where
  names : Interner
  table : SymbolTable

namespace Builder

/-- The unnamed global namespace is declared before everything else. -/
def start (names : Interner) : Builder :=
  let (unnamed, names) := names.intern ""
  ⟨names, .initial unnamed⟩

instance : Inhabited Builder := ⟨start .empty⟩

def name (b : Builder) (text : String) : NameId × Builder :=
  let (name, names) := b.names.intern text
  (name, { b with names })

def add (b : Builder) (data : SymbolData) : SymbolId × Builder :=
  let (id, table) := b.table.add data
  (id, { b with table })

/-- Declares a symbol inside a container and in the container's module. A container that was never
handed out reads as one of the first module, and the symbol is then declared inside nothing. -/
def addInside (b : Builder) (container : SymbolId) (text : String) (kind : SymbolKind)
    (arity : Nat) (accessibility : Accessibility) : SymbolId × Builder :=
  let module := (b.table.data container).module
  let (name, b) := b.name text
  b.add { name, kind, arity, accessibility, container := some container, module }

/-- Type parameters are numbered from the given ordinal on. -/
def addTypeParameters (b : Builder) (owner : SymbolId) (ordinal : Nat) :
    List String → List SymbolId × Builder
  | [] => ([], b)
  | text :: texts =>
    let (id, b) := b.addInside owner text (.typeParameter ordinal) 0 .publicAccess
    let (ids, b) := b.addTypeParameters owner (ordinal + 1) texts
    (id :: ids, b)

def addBase (b : Builder) (ty base : SymbolId) : Builder :=
  { b with table := b.table.addBase ty base }

/-- Carries out one step and gives the symbols it declares. -/
def declare (b : Builder) : Declaration → List SymbolId × Builder
  | .name text => ([], (b.name text).2)
  | .symbol data => let (id, b) := b.add data; ([id], b)
  | .namespaceIn parent text =>
    let (id, b) := b.addInside parent text .namespaceDecl 0 .publicAccess
    ([id], b)
  | .typeIn container text kind arity =>
    let (id, b) := b.addInside container text (.typeDecl kind) arity .publicAccess
    ([id], b)
  | .memberIn ty text kind accessibility =>
    let (id, b) := b.addInside ty text kind 0 accessibility
    ([id], b)
  | .typeParameters owner texts => b.addTypeParameters owner 0 texts
  | .base ty baseType => ([], b.addBase ty baseType)

def declareAll (b : Builder) (steps : List Declaration) : Builder :=
  steps.foldl (fun b step => (b.declare step).2) b

end Builder

end NameResolution
