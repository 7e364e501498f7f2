import NameResolution.Lookup.Result

/-! Why a name could not be resolved, and which rule a caller broke where a lookup could
not be carried out at all. -/

namespace NameResolution

inductive ResolutionError where
  | cancelled
  | undefined (name : String) (suggestions : List String)
  | ambiguous (name : String) (candidates : List SymbolId)
  | notViable (name : String) (symbol : SymbolId) (reason : Option RejectionReason)
  deriving DecidableEq

def ResolutionError.message : ResolutionError → String
  | cancelled => "name lookup was cancelled"
  | undefined name similar =>
    "the name `" ++ name ++ "` does not exist in the current context" ++ match similar with
      | [] => ""
      | [only] => " (did you mean `" ++ only ++ "`?)"
      | many => " (did you mean one of `" ++ "`, `".intercalate many ++ "`?)"
  | ambiguous name candidates => s!"`{name}` is ambiguous between {candidates.length} candidates"
  | notViable name _ reason =>
    "`" ++ name ++ "` cannot be used here" ++ match reason with
      | some r => ": it " ++ r.message
      | none => ""

/-- What is wrong with a result for the name it was asked for; nothing is if it is viable. -/
def LookupResult.toError? (r : LookupResult) (name : String) : Option ResolutionError :=
  match r.kind with
  | .viable => none
  | .empty => some (.undefined name [])
  | .ambiguous => some (.ambiguous name r.symbols)
  | .notViable => r.rejections.head?.map fun first => .notViable name first.symbol first.reason

/-- A rule of this library that its caller has to keep. -/
inductive ContractViolation where
  | invalidOptions (options : LookupOptions)
  | resultNotClear
  | basesPoppedOutOfOrder
  deriving DecidableEq

def ContractViolation.message : ContractViolation → String
  | invalidOptions options => "invalid lookup options: " ++ options.describe
  | resultNotClear => "lookup_own_symbols called with a non-clear result"
  | basesPoppedOutOfOrder => "bases popped out of order"

/-- Why a name has no usable result. -/
inductive ResolutionFailure where
  | unresolved (error : ResolutionError)
  | violation (rule : ContractViolation)
  deriving DecidableEq

/-- Why a search ended before its time. -/
inductive Interruption where
  | cancelled
  | violation (rule : ContractViolation)
  deriving DecidableEq

end NameResolution
