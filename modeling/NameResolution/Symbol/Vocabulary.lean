import NameResolution.Symbol.Basic

/-! The words by which declarations name their kind and their accessibility. -/

namespace NameResolution

/-- The kinds that a single word determines. -/
def SymbolKind.ofWord? : String → Option SymbolKind
  | "namespace" => some .namespaceDecl
  | "class" => some (.typeDecl .classType)
  | "struct" => some (.typeDecl .structType)
  | "interface" => some (.typeDecl .interfaceType)
  | "enum" => some (.typeDecl .enumType)
  | "delegate" => some (.typeDecl .delegateType)
  | "method" => some .method
  | "field" => some .field
  | "property" => some .property
  | "event" => some .event
  | "local" => some .localVariable
  | "parameter" => some .parameter
  | "label" => some .label
  | _ => none

def Accessibility.ofWord? : String → Option Accessibility
  | "public" => some .publicAccess
  | "internal" => some .internalAccess
  | "protected" => some .protectedAccess
  | "protected-internal" => some .protectedInternal
  | "private-protected" => some .privateProtected
  | "private" => some .privateAccess
  | _ => none

end NameResolution
