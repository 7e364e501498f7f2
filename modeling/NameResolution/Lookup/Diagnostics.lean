import NameResolution.Symbol.Table

/-! Problems with the definition of a symbol that a lookup has touched, whether or not
the symbol is chosen in the end. Each problem is kept once, in the order of discovery. -/

namespace NameResolution

inductive UseSiteDiagnostic where
  | problem (symbol : SymbolId) (problem : UseSiteProblem)
  | inheritanceCycle (ty : SymbolId)
  deriving DecidableEq

/-- The symbol that the diagnostic is about. -/
def UseSiteDiagnostic.subject : UseSiteDiagnostic → SymbolId
  | problem s _ => s
  | inheritanceCycle ty => ty

def UseSiteDiagnostic.message (t : SymbolTable) (names : Interner) : UseSiteDiagnostic → String
  | problem s p =>
    let name := names.text (t.data s).name
    match p with
    | .missingModule module =>
      "`" ++ name ++ "` is defined in terms of module `" ++ names.text module ++ "`, which is not referenced"
    | .badMetadata => "`" ++ name ++ "` has metadata that could not be read"
    | .unsupported => "`" ++ name ++ "` uses a construct that is not supported"
  | inheritanceCycle ty => "base types of `" ++ names.text (t.data ty).name ++ "` form a cycle"

abbrev Diagnostics := OrderedSet UseSiteDiagnostic

/-- Records the problem of a symbol, if it has one. -/
def Diagnostics.record (sink : Diagnostics) (t : SymbolTable) (s : SymbolId) : Diagnostics :=
  match (t.data s).problem with
  | some p => sink.insert (.problem s p)
  | none => sink

/-- Appends what is new in `other`, in its order. -/
def Diagnostics.extend (sink other : Diagnostics) : Diagnostics := sink.insertAll other.toList

end NameResolution
