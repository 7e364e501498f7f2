import NameResolution.Proofs.Hierarchy.Outcome
import NameResolution.Proofs.Inheritance.Cycles
import NameResolution.Symbol.Declaration

/-! Which cycles of base types a search reports. Every type that it reports lies on a cycle
and passes the search on to its bases, and of every cycle of such types that the search can
run into at least one type is reported. What lies behind a type that declares the name is
hidden, its cycles included. -/

namespace NameResolution

open Relation (ReflTransGen TransGen)

variable {t : SymbolTable} {name : NameId}

namespace SymbolTable

/-- A step to a base type between two types neither of which declares anything by the name. -/
def TransparentStep (t : SymbolTable) (name : NameId) (a b : SymbolId) : Prop :=
  t.membersNamed a name = [] ∧ t.membersNamed b name = [] ∧ b ∈ t.bases a

theorem mem_followed_isTransparent {a b : SymbolId} :
    b ∈ t.followed (t.isTransparent name) a ↔ t.membersNamed a name = [] ∧ b ∈ t.bases a := by
  by_cases ha : t.membersNamed a name = []
  · simp [followed_of_declares_nothing ha, ha]
  · simp [followed_of_declares ha, ha]

/-- On the way to a type that declares nothing by the name no type declares anything by it. -/
theorem transparent_of_followed {a b : SymbolId} (hb : t.membersNamed b name = [])
    (hpath : ReflTransGen (fun x y => y ∈ t.followed (t.isTransparent name) x) a b) :
    t.membersNamed a name = [] ∧ ReflTransGen (t.TransparentStep name) a b := by
  induction hpath using ReflTransGen.head_induction_on with
  | refl => exact ⟨hb, .refl⟩
  | head hstep _ ih =>
    obtain ⟨ha, hbase⟩ := mem_followed_isTransparent.1 hstep
    exact ⟨ha, .head ⟨ha, ih.1, hbase⟩ ih.2⟩

theorem followed_of_transparentStep {a b : SymbolId} (h : t.TransparentStep name a b) :
    b ∈ t.followed (t.isTransparent name) a :=
  mem_followed_isTransparent.2 ⟨h.1, h.2.2⟩

/-! ### Reported cycles -/

theorem inheritanceCycle_mem_visitedFindings {pending : List SymbolId} {stack : BaseStack} {x : SymbolId} :
    .inheritanceCycle x ∈ t.visitedFindings name pending stack ↔ .cycle x ∈ t.visits name pending stack := by
  rw [visitedFindings, List.mem_flatMap]
  constructor
  · rintro ⟨visit, hvisit, hx⟩
    cases visit with
    | entered ty =>
      obtain ⟨s, -, hs⟩ := List.mem_flatMap.1 hx
      simp [findingsOf] at hs
    | cycle ty =>
      rw [BaseVisit.findings, List.mem_singleton] at hx
      cases hx
      exact hvisit
  · exact fun h => ⟨.cycle x, h, List.mem_singleton_self _⟩

/-- A type is reported only if it lies on a cycle that the search has run into. -/
theorem transparent_cycle_of_reported {ty x : SymbolId} (h : .cycle x ∈ t.visits name [ty] ∅) :
    t.membersNamed x name = [] ∧ ReflTransGen (t.TransparentStep name) ty x ∧
      TransGen (t.TransparentStep name) x x := by
  have hcycle := transGen_of_cycle_mem_explore (fun p hp => absurd hp List.not_mem_nil) h
  obtain ⟨p, hp, hreach⟩ := reachable_of_cycle_mem_explore h
  rw [List.mem_singleton.1 hp] at hreach
  obtain ⟨b, hfirst, hback⟩ := TransGen.head'_iff.1 hcycle
  obtain ⟨hx, hbase⟩ := mem_followed_isTransparent.1 hfirst
  obtain ⟨hb, hback⟩ := transparent_of_followed hx hback
  exact ⟨hx, (transparent_of_followed hx hreach).2, .head' ⟨hx, hb, hbase⟩ hback⟩

/-- Of types among which one can go on for ever, one is reported once they are in reach. -/
theorem exists_reported_of_reachable {inside : SymbolId → Prop}
    (hgoesOn : ∀ c, inside c → ∃ b, inside b ∧ t.TransparentStep name c b) {ty c : SymbolId}
    (hc : inside c) (hreach : ReflTransGen (t.TransparentStep name) ty c) :
    ∃ x, inside x ∧ .cycle x ∈ t.visits name [ty] ∅ := by
  have hfollowed : ∀ c, inside c → ∃ b ∈ t.followed (t.isTransparent name) c, inside b := by
    intro c hc
    obtain ⟨b, hb, hstep⟩ := hgoesOn c hc
    exact ⟨b, followed_of_transparentStep hstep, hb⟩
  exact exists_cycle_of_reachable hfollowed hc
    (hreach.lift id fun _ _ hstep => followed_of_transparentStep hstep)

/-- A closed walk in reach has a reported type on it, for the types on it go on among themselves. -/
theorem exists_reported_of_transGen {ty x : SymbolId} (hreach : ReflTransGen (t.TransparentStep name) ty x)
    (hx : TransGen (t.TransparentStep name) x x) : ∃ y, .cycle y ∈ t.visits name [ty] ∅ := by
  have hgoesOn : ∀ c, TransGen (t.TransparentStep name) c x →
      ∃ b, TransGen (t.TransparentStep name) b x ∧ t.TransparentStep name c b := by
    intro c hc
    obtain ⟨b, hstep, hback⟩ := TransGen.head'_iff.1 hc
    rcases Relation.reflTransGen_iff_eq_or_transGen.1 hback with rfl | hback
    · exact ⟨x, hx, hstep⟩
    · exact ⟨b, hback, hstep⟩
  obtain ⟨y, -, hcycle⟩ := exists_reported_of_reachable hgoesOn hx hreach
  exact ⟨y, hcycle⟩

end SymbolTable

/-- A search that starts with nothing reports types on cycles of base types, and only such
types as it comes to without leaving those that declare nothing by the name. At least one
type of each cycle among the latter is reported, and so none is if they are acyclic. -/
theorem searchHierarchy_reports_cycles (t : SymbolTable) (query : ScopeQuery) (ty : SymbolId) :
    let found := searchHierarchy ⟨t, false⟩ query ty {}
    let step := t.TransparentStep query.name
    found.interruption = none ∧
    (∀ x, .inheritanceCycle x ∈ found.sink →
      (x = ty ∨ t.derivesFrom ty x = true) ∧ t.membersNamed x query.name = [] ∧ t.derivesFrom x x = true) ∧
    (∀ cycle : Cycle SymbolId, cycle.Chain step → (∃ c ∈ cycle, ReflTransGen step ty c) →
      ∃ x ∈ cycle, .inheritanceCycle x ∈ found.sink) ∧
    ((∀ x, .inheritanceCycle x ∉ found.sink) ↔ ∀ x, ReflTransGen step ty x → ¬ TransGen step x x) := by
  intro found step
  have hended : found = ({} : Search).ended t query (t.visitedCandidates query.name [ty] ∅)
      (t.visitedFindings query.name [ty] ∅) := searchHierarchy_eq t query ty {}
  have hreported : ∀ x, .inheritanceCycle x ∈ found.sink ↔ .cycle x ∈ t.visits query.name [ty] ∅ := by
    intro x
    rw [hended, ← SymbolTable.inheritanceCycle_mem_visitedFindings]
    exact OrderedSet.mem_ofList
  have hbases : ∀ a b, step a b → b ∈ t.bases a := fun a b h => h.2.2
  refine ⟨by rw [hended]; rfl, fun x hx => ?_, fun cycle hchain hreach => ?_, fun hnone x hreach hx => ?_,
    fun hacyclic x hx => ?_⟩
  · obtain ⟨hdeclares, hreach, hcycle⟩ := SymbolTable.transparent_cycle_of_reported ((hreported x).1 hx)
    have hself : t.derivesFrom x x = true := SymbolTable.derivesFrom_iff.2 (TransGen.mono hbases _ _ hcycle)
    refine ⟨?_, hdeclares, hself⟩
    exact (Relation.reflTransGen_iff_eq_or_transGen.1 hreach).imp_right fun hpath =>
      SymbolTable.derivesFrom_iff.2 (TransGen.mono hbases _ _ hpath)
  · obtain ⟨c, hc, hreach⟩ := hreach
    obtain ⟨x, hx, hcycle⟩ := SymbolTable.exists_reported_of_reachable
      (fun a ha => exists_mem_of_chain hchain ha) hc hreach
    exact ⟨x, hx, (hreported x).2 hcycle⟩
  · obtain ⟨y, hcycle⟩ := SymbolTable.exists_reported_of_transGen hreach hx
    exact hnone y ((hreported y).2 hcycle)
  · obtain ⟨-, hreach, hcycle⟩ := SymbolTable.transparent_cycle_of_reported ((hreported x).1 hx)
    exact hacyclic x hreach hcycle

/-- Types 2 and 3 are bases of each other, and type 1 has bases 2 and 4. Type 4 declares
symbol 5 and hides that it is a base of itself. -/
def cycleBesideHiddenOne : List Declaration :=
  let type (name : Nat) : Declaration :=
    .symbol { name := ⟨name⟩, kind := .typeDecl .classType, container := some ⟨0⟩ }
  [type 1, type 2, type 3, type 4, .symbol { name := ⟨5⟩, kind := .field, container := some ⟨4⟩ },
    .base ⟨1⟩ ⟨2⟩, .base ⟨1⟩ ⟨4⟩, .base ⟨2⟩ ⟨3⟩, .base ⟨3⟩ ⟨2⟩, .base ⟨4⟩ ⟨4⟩]

theorem searchHierarchy_reports_cycles_besideHiddenOne :
    let t := ((Builder.start .empty).declareAll cycleBesideHiddenOne).table
    let query : ScopeQuery := ⟨⟨5⟩, 0, .empty, {}, true⟩
    let step := t.TransparentStep query.name
    let found := searchHierarchy ⟨t, false⟩ query ⟨1⟩ {}
    let cycle : Cycle SymbolId := ↑([⟨2⟩, ⟨3⟩] : List SymbolId)
    cycle.Chain step ∧ ReflTransGen step ⟨1⟩ ⟨2⟩ ∧ (∃ x ∈ cycle, .inheritanceCycle x ∈ found.sink) ∧
      t.derivesFrom ⟨2⟩ ⟨2⟩ = true ∧ t.derivesFrom ⟨4⟩ ⟨4⟩ = true ∧
      found.sink.toList = [.inheritanceCycle ⟨2⟩] := by
  intro t query step found cycle
  have hsink : found.sink.toList = [.inheritanceCycle ⟨2⟩] := by decide +kernel
  have hreports := searchHierarchy_reports_cycles t query ⟨1⟩
  -- from here on only what was reported matters, not how
  generalize hfound : searchHierarchy ⟨t, false⟩ query ⟨1⟩ {} = ended at hreports
  rw [show found = ended from hfound] at hsink ⊢
  obtain ⟨-, hsound, hcomplete, -⟩ := hreports
  have hfirst : step ⟨1⟩ ⟨2⟩ := ⟨by decide +kernel, by decide +kernel, by decide +kernel⟩
  have hthere : step ⟨2⟩ ⟨3⟩ := ⟨by decide +kernel, by decide +kernel, by decide +kernel⟩
  have hback : step ⟨3⟩ ⟨2⟩ := ⟨by decide +kernel, by decide +kernel, by decide +kernel⟩
  have hchain : cycle.Chain step := by
    rw [Cycle.chain_coe_cons]
    exact .cons_cons hthere (.cons_cons hback (.singleton _))
  have hmem : (⟨2⟩ : SymbolId) ∈ cycle := by simp [cycle]
  have hreported : .inheritanceCycle ⟨2⟩ ∈ ended.sink := by
    rw [OrderedSet.mem_def, hsink]
    exact List.mem_singleton_self _
  have hhidden : t.derivesFrom ⟨4⟩ ⟨4⟩ = true :=
    SymbolTable.derivesFrom_iff.2 (.single (by decide +kernel))
  exact ⟨hchain, .single hfirst, hcomplete cycle hchain ⟨⟨2⟩, hmem, .single hfirst⟩,
    (hsound ⟨2⟩ hreported).2.2, hhidden, hsink⟩

end NameResolution
