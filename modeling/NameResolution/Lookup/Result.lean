import NameResolution.Lookup.Viability

/-! What a lookup has found so far at one level. A viable symbol displaces rejected
candidates, a second one makes the result ambiguous unless both are methods, and a
rejected candidate never displaces a viable one. -/

namespace NameResolution

inductive ResultKind where
  | empty | notViable | viable | ambiguous
  deriving DecidableEq, Inhabited

def ResultKind.name : ResultKind → String
  | empty => "Empty"
  | notViable => "NotViable"
  | viable => "Viable"
  | ambiguous => "Ambiguous"

/-- A candidate that was turned down, with the reason if the request asks for reasons. -/
structure Rejection where
  symbol : SymbolId
  reason : Option RejectionReason
  deriving DecidableEq

/-- Viable symbols and rejected candidates, both in the order in which they were found. -/
structure LookupResult where
  kind : ResultKind
  symbols : List SymbolId
  rejections : List Rejection
  deriving DecidableEq

namespace LookupResult

def empty : LookupResult := ⟨.empty, [], []⟩

instance : Inhabited LookupResult := ⟨empty⟩

/-- Forgets whatever was found. -/
def clear (_ : LookupResult) : LookupResult := empty

/-- Nothing by that name was found. -/
def isClear (r : LookupResult) : Bool := r.kind == .empty

def isViable (r : LookupResult) : Bool := r.kind == .viable

def isAmbiguous (r : LookupResult) : Bool := r.kind == .ambiguous

/-- More than one viable symbol without ambiguity: all of them are methods. -/
def isOverloadSet (r : LookupResult) : Bool := r.isViable && decide (1 < r.symbols.length)

def singleSymbol? (r : LookupResult) : Option SymbolId :=
  match r.kind, r.symbols with
  | .viable, [s] => some s
  | _, _ => none

/-- The symbols that were turned down. -/
def rejected (r : LookupResult) : List SymbolId := r.rejections.map Rejection.symbol

def addViable (t : SymbolTable) (r : LookupResult) (s : SymbolId) : LookupResult :=
  if s ∈ r.symbols then r
  else
    let kind := match r.kind with
      | .empty | .notViable => .viable
      | .viable => if (s :: r.symbols).all fun x => (t.data x).isMethod then .viable else .ambiguous
      | .ambiguous => .ambiguous
    { r with kind, symbols := r.symbols ++ [s] }

def addRejection (r : LookupResult) (rejection : Rejection) : LookupResult :=
  if rejection.symbol ∈ r.rejected then r
  else
    let kind := if r.kind = .empty then .notViable else r.kind
    { r with kind, rejections := r.rejections ++ [rejection] }

/-- Records one candidate. -/
def addCandidate (t : SymbolTable) (diagnose : Bool) (r : LookupResult) (s : SymbolId) :
    Viability → LookupResult
  | .viable => r.addViable t s
  | .notViable reason => r.addRejection ⟨s, if diagnose then some reason else none⟩

/-- Adds what was found at the same level by other means, such as in a sibling base type. -/
def merge (t : SymbolTable) (r other : LookupResult) : LookupResult :=
  let merged := other.symbols.foldl (addViable t) (other.rejections.foldl addRejection r)
  if other.kind = .ambiguous then { merged with kind := .ambiguous } else merged

/-- The kind, then a line for each viable symbol and for each rejected candidate. -/
def describe (t : SymbolTable) (names : Interner) (r : LookupResult) : String :=
  let line (mark : String) (s : SymbolId) : String :=
    "\n  " ++ mark ++ " " ++ (t.data s).kind.describe ++ " " ++ names.text (t.data s).name
  let because : Option RejectionReason → String
    | some reason => ": " ++ reason.message
    | none => ""
  r.kind.name ++ String.join (r.symbols.map (line "+"))
    ++ String.join (r.rejections.map fun x => line "-" x.symbol ++ because x.reason)

end LookupResult

end NameResolution
