import NameResolution.Interner
import NameResolution.Span

/-! Declared symbols: what kind of thing a declaration introduces, who may refer to
it, and which problems its own definition has. -/

namespace NameResolution

/-- Position of a symbol in the order of declaration. -/
structure SymbolId where
  index : Nat
  deriving DecidableEq, Inhabited

/-- The unit of distribution that a declaration or a reference belongs to. -/
structure ModuleId where
  number : Nat
  deriving DecidableEq, Inhabited

inductive TypeKind where
  | classType | structType | interfaceType | enumType | delegateType
  deriving DecidableEq

inductive SymbolKind where
  | namespaceDecl
  | typeDecl (kind : TypeKind)
  | typeParameter (ordinal : Nat)
  | method
  | field
  | property
  | event
  | localVariable
  | parameter
  | label
  | namespaceAlias (target : SymbolId)
  deriving DecidableEq

namespace SymbolKind

/-- Members are what a type declares besides nested types. -/
def isMember : SymbolKind → Bool
  | method | field | property | event => true
  | _ => false

def isType : SymbolKind → Bool
  | typeDecl _ => true
  | _ => false

def isNamespaceAlias : SymbolKind → Bool
  | namespaceAlias _ => true
  | _ => false

/-- What a qualified name may start with. -/
def isNamespaceOrType : SymbolKind → Bool
  | namespaceDecl | typeDecl _ | typeParameter _ | namespaceAlias _ => true
  | _ => false

/-- Type parameters, locals, parameters, labels and aliases are found through the
scope that declares them, not as members of a container. -/
def entersContainer : SymbolKind → Bool
  | namespaceDecl | typeDecl _ => true
  | kind => kind.isMember

def describe : SymbolKind → String
  | namespaceDecl => "namespace"
  | typeDecl .classType => "class"
  | typeDecl .structType => "struct"
  | typeDecl .interfaceType => "interface"
  | typeDecl .enumType => "enum"
  | typeDecl .delegateType => "delegate"
  | typeParameter _ => "type parameter"
  | method => "method"
  | field => "field"
  | property => "property"
  | event => "event"
  | localVariable => "local variable"
  | parameter => "parameter"
  | label => "label"
  | namespaceAlias _ => "namespace alias"

end SymbolKind

inductive Accessibility where
  | publicAccess
  | protectedInternal
  | internalAccess
  | protectedAccess
  | privateProtected
  | privateAccess
  deriving DecidableEq

/-- A fault in the definition of a symbol that shows where the symbol is used. -/
inductive UseSiteProblem where
  | missingModule (name : NameId)
  | badMetadata
  | unsupported
  deriving DecidableEq

/-- A declaration. Unless said otherwise it is public, belongs to the first module,
and can be invoked if it is a method. -/
structure SymbolData where
  name : NameId
  kind : SymbolKind
  arity : Nat := 0
  accessibility : Accessibility := .publicAccess
  isStatic : Bool := false
  isInvocable : Bool := kind == .method
  container : Option SymbolId := none
  module : ModuleId := ⟨0⟩
  span : Option FileSpan := none
  problem : Option UseSiteProblem := none
  deriving DecidableEq

namespace SymbolData

instance : Inhabited SymbolData := ⟨{ name := ⟨0⟩, kind := .namespaceDecl }⟩

def isType (s : SymbolData) : Bool := s.kind.isType

def isLabel (s : SymbolData) : Bool := s.kind == .label

def isNamespaceAlias (s : SymbolData) : Bool := s.kind.isNamespaceAlias

def isMethod (s : SymbolData) : Bool := s.kind == .method

/-- The container that a declaration becomes a member of. -/
def memberOf? (s : SymbolData) : Option SymbolId :=
  if s.kind.entersContainer then s.container else none

def isInstanceMember (s : SymbolData) : Bool := s.kind.isMember && !s.isStatic

end SymbolData

end NameResolution
