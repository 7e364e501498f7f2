import NameResolution.Lookup.Viability
import NameResolution.Symbol.Declaration

/-! What a query requires of a candidate. Each requirement that the query asks for has to be met for
itself, and of those that are not met the first in a fixed order is the reason of the rejection. So a
query that asks for less rejects nothing that a query asking for more would accept. -/

namespace NameResolution

namespace SymbolKind

variable {kind : SymbolKind}

theorem isMember_iff : kind.isMember = true ↔ kind ∈ [method, field, property, event] := by
  cases kind <;> simp [isMember]

theorem isNamespaceAlias_iff : kind.isNamespaceAlias = true ↔ ∃ target, kind = namespaceAlias target := by
  cases kind <;> simp [isNamespaceAlias]

theorem isNamespaceOrType_iff : kind.isNamespaceOrType = true ↔
    kind = namespaceDecl ∨ (∃ flavour, kind = typeDecl flavour) ∨ (∃ ordinal, kind = typeParameter ordinal) ∨
      ∃ target, kind = namespaceAlias target := by
  cases kind <;> simp [isNamespaceOrType]

theorem isNamespaceOrType_of_isNamespaceAlias (h : kind.isNamespaceAlias = true) :
    kind.isNamespaceOrType = true :=
  isNamespaceOrType_iff.2 (Or.inr (Or.inr (Or.inr (isNamespaceAlias_iff.1 h))))

end SymbolKind

theorem SymbolData.isInstanceMember_iff {s : SymbolData} : s.isInstanceMember = true ↔
    s.kind ∈ [.method, .field, .property, .event] ∧ s.isStatic = false := by
  rw [isInstanceMember, Bool.and_eq_true, SymbolKind.isMember_iff, Bool.not_eq_true']

namespace LookupOptions

variable {o : LookupOptions}

/-- A search for labels asks for nothing else. -/
theorem eq_of_labelsOnly (hvalid : o.isValid = true) (hlabels : o.labelsOnly = true) :
    o = { labelsOnly := true } := by
  simp only [isValid, hlabels, Bool.and_eq_true, Bool.not_true, Bool.false_or, beq_iff_eq] at hvalid
  exact hvalid.1.2

end LookupOptions

/-- What a query can require of a candidate. -/
inductive Requirement where
  | invocable
  | label
  | namespaceAlias
  | namespaceOrType
  | instanceMember
  | noInstanceMember
  | arity
  | access
  deriving DecidableEq

namespace Requirement

/-- The order in which requirements are reported. -/
def inOrder : List Requirement :=
  [invocable, label, namespaceAlias, namespaceOrType, instanceMember, noInstanceMember, arity, access]

/-- The requirements that narrow the kind of the candidate. -/
def onKind : List Requirement := [label, namespaceAlias, namespaceOrType]

theorem mem_inOrder (r : Requirement) : r ∈ inOrder := by
  cases r <;> decide

/-- The query asks for the requirement. Access is always required, and the number of type parameters
if type arguments are given or an exact match is asked for. -/
def Asked (query : ScopeQuery) : Requirement → Prop
  | invocable => query.options.mustBeInvocableIfMember = true
  | label => query.options.labelsOnly = true
  | namespaceAlias => query.options.namespaceAliasesOnly = true
  | namespaceOrType => query.options.namespacesOrTypesOnly = true
  | instanceMember => query.options.mustBeInstance = true
  | noInstanceMember => query.options.mustNotBeInstance = true
  | arity => 0 < query.arity ∨ query.options.exactArity = true
  | access => True

/-- The candidate meets the requirement. -/
def Met (query : ScopeQuery) (t : SymbolTable) (s : SymbolId) : Requirement → Prop
  | invocable => (t.data s).kind ∈ [.method, .field, .property, .event] → (t.data s).isInvocable = true
  | label => (t.data s).kind = .label
  | namespaceAlias => ∃ target, (t.data s).kind = .namespaceAlias target
  | namespaceOrType =>
    (t.data s).kind = .namespaceDecl ∨ (∃ flavour, (t.data s).kind = .typeDecl flavour) ∨
      (∃ ordinal, (t.data s).kind = .typeParameter ordinal) ∨ ∃ target, (t.data s).kind = .namespaceAlias target
  | instanceMember => (t.data s).kind ∈ [.method, .field, .property, .event] ∧ (t.data s).isStatic = false
  | noInstanceMember => ¬((t.data s).kind ∈ [.method, .field, .property, .event] ∧ (t.data s).isStatic = false)
  | arity => (t.data s).arity = query.arity
  | access => t.isAccessible s query.context = true

def reason (query : ScopeQuery) (t : SymbolTable) (s : SymbolId) : Requirement → RejectionReason
  | invocable => .notInvocable
  | label => .notALabel
  | namespaceAlias => .notANamespaceAlias
  | namespaceOrType => .notATypeOrNamespace
  | instanceMember | noInstanceMember => .wrongInstanceContext
  | arity => .wrongArity query.arity (t.data s).arity
  | access => .inaccessible

/-- The query asks for the requirement, but the candidate does not meet it. -/
def Violated (query : ScopeQuery) (t : SymbolTable) (s : SymbolId) (r : Requirement) : Prop :=
  r.Asked query ∧ ¬r.Met query t s

/-- The test of one requirement. -/
def fails (query : ScopeQuery) (t : SymbolTable) (s : SymbolId) : Requirement → Bool
  | invocable => query.options.mustBeInvocableIfMember && (t.data s).kind.isMember && !(t.data s).isInvocable
  | label => query.options.labelsOnly && !(t.data s).isLabel
  | namespaceAlias => query.options.namespaceAliasesOnly && !(t.data s).isNamespaceAlias
  | namespaceOrType => query.options.namespacesOrTypesOnly && !(t.data s).kind.isNamespaceOrType
  | instanceMember => query.options.mustBeInstance && !(t.data s).isInstanceMember
  | noInstanceMember => query.options.mustNotBeInstance && (t.data s).isInstanceMember
  | arity => !query.arityMatches (t.data s)
  | access => !t.isAccessible s query.context

variable {query : ScopeQuery} {t : SymbolTable} {s : SymbolId}

theorem fails_iff {r : Requirement} : r.fails query t s = true ↔ r.Violated query t s := by
  unfold Violated
  cases r with
  | invocable =>
    simp only [fails, Asked, Met, Bool.and_eq_true, SymbolKind.isMember_iff, Bool.not_eq_true', and_assoc]
    simp
  | label => simp [fails, Asked, Met, SymbolData.isLabel]
  | namespaceAlias =>
    simp only [fails, Asked, Met, Bool.and_eq_true, Bool.not_eq_true', ← SymbolKind.isNamespaceAlias_iff,
      SymbolData.isNamespaceAlias, Bool.not_eq_true]
  | namespaceOrType =>
    simp only [fails, Asked, Met, Bool.and_eq_true, Bool.not_eq_true', ← SymbolKind.isNamespaceOrType_iff,
      Bool.not_eq_true]
  | instanceMember =>
    simp only [fails, Asked, Met, Bool.and_eq_true, Bool.not_eq_true', ← SymbolData.isInstanceMember_iff,
      Bool.not_eq_true]
  | noInstanceMember =>
    simp only [fails, Asked, Met, Bool.and_eq_true, ← SymbolData.isInstanceMember_iff, Decidable.not_not]
  | arity => simp [fails, Asked, Met, ScopeQuery.arityMatches]
  | access => simp [fails, Asked, Met]

instance (r : Requirement) : Decidable (r.Violated query t s) := decidable_of_iff _ fails_iff

/-! ### The first failing test -/

/-- An alias can stand for a namespace or a type, so that whichever requirement on the kind comes first
decides the reason. -/
theorem kindMismatch?_eq (hvalid : query.options.isValid = true) : query.kindMismatch? (t.data s) =
    (onKind.find? (fails query t s)).map (reason query t s) := by
  unfold ScopeQuery.kindMismatch?
  by_cases hlabels : query.options.labelsOnly = true
  · have hoptions : query.options = { labelsOnly := true } := LookupOptions.eq_of_labelsOnly hvalid hlabels
    cases hlabel : (t.data s).isLabel <;> simp [onKind, fails, reason, hoptions, hlabel]
  · cases haliases : query.options.namespaceAliasesOnly with
    | false =>
      cases hkind : query.options.namespacesOrTypesOnly && !(t.data s).kind.isNamespaceOrType <;>
        simp [onKind, fails, reason, hlabels, haliases, hkind]
    | true =>
      cases halias : (t.data s).isNamespaceAlias with
      | false => simp [onKind, fails, reason, hlabels, haliases, halias]
      | true =>
        have hkind : (t.data s).kind.isNamespaceOrType = true :=
          SymbolKind.isNamespaceOrType_of_isNamespaceAlias halias
        simp [onKind, fails, hlabels, haliases, halias, hkind]

/-- With valid options the check comes to the first requirement that fails. -/
theorem check_eq_find? (hvalid : query.options.isValid = true) : query.check t s =
    (inOrder.find? (fails query t s)).elim .viable fun r => .notViable (r.reason query t s) := by
  have hinOrder : inOrder =
      invocable :: (onKind ++ [instanceMember, noInstanceMember, arity, access]) := rfl
  have hcheck : query.check t s = if fails query t s invocable then .notViable .notInvocable
      else (query.kindMismatch? (t.data s)).elim
        (if fails query t s instanceMember || fails query t s noInstanceMember then
          .notViable .wrongInstanceContext
        else if fails query t s arity then .notViable (.wrongArity query.arity (t.data s).arity)
        else if fails query t s access then .notViable .inaccessible
        else .viable) .notViable := by
    rw [ScopeQuery.check]
    cases query.kindMismatch? (t.data s) <;> rfl
  rw [hcheck, kindMismatch?_eq hvalid, hinOrder, List.find?_cons]
  cases fails query t s invocable with
  | true => rfl
  | false =>
    dsimp only
    rw [List.find?_append]
    cases onKind.find? (fails query t s) with
    | some r => rfl
    | none =>
      cases hinstance : fails query t s instanceMember <;> cases hno : fails query t s noInstanceMember <;>
        cases harity : fails query t s arity <;> cases haccess : fails query t s access <;>
        simp [hinstance, hno, harity, haccess, reason]

theorem check_eq_notViable_iff (hvalid : query.options.isValid = true) {why : RejectionReason} :
    query.check t s = .notViable why ↔ ∃ before r after, inOrder = before ++ r :: after ∧
      (∀ earlier ∈ before, ¬earlier.Violated query t s) ∧ r.Violated query t s ∧
      r.reason query t s = why := by
  rw [check_eq_find? hvalid]
  cases hfirst : inOrder.find? (fails query t s) with
  | none =>
    rw [List.find?_eq_none] at hfirst
    simp only [Option.elim_none, reduceCtorEq, false_iff]
    rintro ⟨before, r, after, -, -, hr, -⟩
    exact hfirst r (mem_inOrder r) (fails_iff.2 hr)
  | some r =>
    rw [Option.elim_some, Viability.notViable.injEq]
    constructor
    · intro hwhy
      obtain ⟨hr, before, after, hsplit, hbefore⟩ := List.find?_eq_some_iff_append.1 hfirst
      refine ⟨before, r, after, hsplit, fun earlier hearlier hviolated => ?_, fails_iff.1 hr, hwhy⟩
      have hpassed := hbefore earlier hearlier
      rw [fails_iff.2 hviolated] at hpassed
      cases hpassed
    · rintro ⟨before, r', after, hsplit, hbefore, hr', hwhy⟩
      have hfirst' : inOrder.find? (fails query t s) = some r' :=
        List.find?_eq_some_iff_append.2 ⟨fails_iff.2 hr', before, after, hsplit, fun earlier hearlier => by
          simpa using fun h => hbefore earlier hearlier (fails_iff.1 h)⟩
      rw [hfirst, Option.some.injEq] at hfirst'
      rw [hfirst', hwhy]

theorem check_eq_viable_iff (hvalid : query.options.isValid = true) :
    query.check t s = .viable ↔ ∀ r : Requirement, r.Asked query → r.Met query t s := by
  rw [check_eq_find? hvalid]
  cases hfirst : inOrder.find? (fails query t s) with
  | none =>
    rw [List.find?_eq_none] at hfirst
    refine iff_of_true rfl fun r hasked => Classical.byContradiction fun hmet => ?_
    exact hfirst r (mem_inOrder r) (fails_iff.2 ⟨hasked, hmet⟩)
  | some r =>
    refine iff_of_false (by simp) fun hall => ?_
    obtain ⟨hasked, hmet⟩ := fails_iff.1 (List.find?_some hfirst)
    exact hmet (hall r hasked)

/-- A set of options that contains another asks for whatever the other asks for. -/
theorem Asked.of_subset {wider : LookupOptions} (hsub : query.options ⊆ wider) {r : Requirement}
    (h : r.Asked query) : r.Asked { query with options := wider } := by
  cases r with
  | invocable => exact hsub.1 .mustBeInvocableIfMember h
  | label => exact hsub.1 .labelsOnly h
  | namespaceAlias => exact hsub.1 .namespaceAliasesOnly h
  | namespaceOrType => exact hsub.1 .namespacesOrTypesOnly h
  | instanceMember => exact hsub.1 .mustBeInstance h
  | noInstanceMember => exact hsub.1 .mustNotBeInstance h
  | arity => exact h.imp_right (hsub.1 .exactArity)
  | access => trivial

/-- What it takes to meet a requirement does not depend on the options. -/
theorem met_withOptions (options : LookupOptions) (r : Requirement) :
    r.Met { query with options } t s ↔ r.Met query t s := by
  cases r <;> rfl

end Requirement

/-- With valid options a candidate is rejected for the first requirement in order that it violates, and is
viable if it meets whatever the query asks for. A query that asks for less accepts it as well. -/
theorem first_violated_requirement_reported (query : ScopeQuery) (t : SymbolTable) (s : SymbolId)
    (hvalid : query.options.isValid = true) :
    (∀ why, query.check t s = .notViable why ↔ ∃ before r after, Requirement.inOrder = before ++ r :: after ∧
      (∀ earlier ∈ before, ¬earlier.Violated query t s) ∧ r.Violated query t s ∧ r.reason query t s = why) ∧
    (query.check t s = .viable ↔ ∀ r : Requirement, r.Asked query → r.Met query t s) ∧
    ∀ fewer : LookupOptions, fewer.isValid = true → fewer ⊆ query.options → query.check t s = .viable →
      { query with options := fewer }.check t s = .viable := by
  refine ⟨fun why => Requirement.check_eq_notViable_iff hvalid, Requirement.check_eq_viable_iff hvalid,
    fun fewer hfewer hsub hviable => ?_⟩
  have hmet : ∀ r : Requirement, r.Asked query → r.Met query t s :=
    (Requirement.check_eq_viable_iff hvalid).1 hviable
  refine (Requirement.check_eq_viable_iff hfewer).2 fun r hasked => ?_
  exact (Requirement.met_withOptions fewer r).2 (hmet r (hasked.of_subset hsub))

/-- Type 1 has a generic method 2, which is private. Symbol 3 is an alias. -/
def privateMethodAndAlias : SymbolTable :=
  ((Builder.start .empty).declareAll
    [.typeIn ⟨0⟩ "C" .classType 0,
      .symbol
        { name := ⟨2⟩, kind := .method, arity := 2, accessibility := .privateAccess, container := some ⟨1⟩ },
      .symbol { name := ⟨3⟩, kind := .namespaceAlias ⟨0⟩ }]).table

/-- The method is no alias, no type, has the wrong number of type parameters and cannot be accessed. -/
theorem first_violated_requirement_reported_privateMethod :
    let t := privateMethodAndAlias
    let options : LookupOptions := { namespacesOrTypesOnly := true, namespaceAliasesOnly := true }
    let fewer : LookupOptions := { namespacesOrTypesOnly := true }
    let query : ScopeQuery := ⟨⟨2⟩, 1, options, {}, true⟩
    let any : ScopeQuery := ⟨⟨3⟩, 0, options, {}, true⟩
    options.isValid = true ∧ fewer.isValid = true ∧ fewer ⊆ options ∧
      Requirement.namespaceOrType.Violated query t ⟨2⟩ ∧ Requirement.arity.Violated query t ⟨2⟩ ∧
      Requirement.access.Violated query t ⟨2⟩ ∧ query.check t ⟨2⟩ = .notViable .notANamespaceAlias ∧
      any.check t ⟨3⟩ = .viable ∧ { any with options := fewer }.check t ⟨3⟩ = .viable := by
  intro t options fewer query any
  have hvalid : options.isValid = true := by decide
  have hfewer : fewer.isValid = true := by decide
  have hsub : fewer ⊆ options := ⟨fun flag => by cases flag <;> decide, by decide⟩
  obtain ⟨hrejected, -, -⟩ := first_violated_requirement_reported query t ⟨2⟩ hvalid
  obtain ⟨-, -, hkept⟩ := first_violated_requirement_reported any t ⟨3⟩ hvalid
  have hbefore : ∀ earlier ∈ [Requirement.invocable, .label], ¬earlier.Violated query t ⟨2⟩ := by
    decide +kernel
  have hreported : query.check t ⟨2⟩ = .notViable .notANamespaceAlias :=
    (hrejected _).2 ⟨_, .namespaceAlias, _, rfl, hbefore, by decide +kernel, rfl⟩
  have hviable : any.check t ⟨3⟩ = .viable := by decide +kernel
  exact ⟨hvalid, hfewer, hsub, by decide +kernel, by decide +kernel, by decide +kernel, hreported, hviable,
    hkept fewer hfewer hsub hviable⟩

end NameResolution
