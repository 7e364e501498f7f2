import Mathlib.Data.Set.Card
import NameResolution.Proofs.Tables.Members
import NameResolution.Symbol.Inheritance

/-! What a table contains. The data of the symbols decide the rest of a table that declarations
have built: the members of a container are the symbols whose data put them there, and the base
types of a type are those that were added to it. -/

namespace NameResolution

theorem OrderedSet.size_eq_ncard {α : Type} [DecidableEq α] (s : OrderedSet α) : s.size = {a | a ∈ s}.ncard := by
  have hset : {a | a ∈ s} = (s.toList.toFinset : Set α) := by
    ext a
    simp [OrderedSet.mem_def]
  rw [hset, Set.ncard_coe_finset, List.toFinset_card_of_nodup s.nodup, OrderedSet.size]

theorem NameTable.isEmpty_iff {table : NameTable} : table.isEmpty = true ↔ ∀ name, table.get name = [] := by
  rw [isEmpty, OrderedSet.isEmpty, List.isEmpty_iff, List.eq_nil_iff_forall_not_mem]
  simp only [List.eq_nil_iff_forall_not_mem, mem_get, Prod.forall, OrderedSet.mem_def]

theorem SymbolKind.entersContainer_iff {kind : SymbolKind} : kind.entersContainer = true ↔
    kind = .namespaceDecl ∨ (∃ k, kind = .typeDecl k) ∨ kind ∈ [.method, .field, .property, .event] := by
  cases kind <;> simp [entersContainer, isMember]

/-- The base type that the declaration adds to a type. -/
def Declaration.baseAddedTo? (ty : SymbolId) : Declaration → Option SymbolId
  | base derived baseType => if derived = ty then some baseType else none
  | _ => none

/-- The container or the types that the declaration is about are declared already. -/
def Builder.knowsOperands (b : Builder) : Declaration → Bool
  | .base ty baseType => b.table.contains ty && b.table.contains baseType
  | step => b.knowsContainer step

theorem Builder.knowsContainer_of_knowsOperands {b : Builder} {step : Declaration}
    (h : b.knowsOperands step = true) : b.knowsContainer step = true := by
  cases step with
  | base ty baseType => rfl
  | _ => exact h

namespace SymbolTable

variable {t : SymbolTable}

/-! ### Members -/

/-- The symbol is declared inside the container as a namespace, a type or a member. -/
structure ListedIn (t : SymbolTable) (c s : SymbolId) : Prop where
  declared : t.contains s = true
  container : (t.data s).container = some c
  kind : (t.data s).kind = .namespaceDecl ∨ (∃ k, (t.data s).kind = .typeDecl k) ∨
    (t.data s).kind ∈ [.method, .field, .property, .event]

theorem listedIn_iff {c s : SymbolId} : t.ListedIn c s ↔ s ∈ t.ids ∧ (t.data s).memberOf? = some c := by
  rw [SymbolData.memberOf?_eq_some_iff, SymbolKind.entersContainer_iff, mem_ids]
  exact ⟨fun h => ⟨of_decide_eq_true h.declared, h.container, h.kind⟩,
    fun ⟨hs, hc, hkind⟩ => ⟨decide_eq_true hs, hc, hkind⟩⟩

theorem pairwise_ids (t : SymbolTable) : t.ids.Pairwise fun s s' => s.index < s'.index :=
  List.pairwise_map.2 List.pairwise_lt_range

namespace MembersListed

variable {c : SymbolId}

theorem mem_iff (h : t.MembersListed) {name : NameId} {s : SymbolId} :
    s ∈ t.membersNamed c name ↔ t.ListedIn c s ∧ (t.data s).name = name := by
  rw [h c name, List.mem_filter, decide_eq_true_eq, listedIn_iff, and_assoc]

theorem pairwise (h : t.MembersListed) (c : SymbolId) (name : NameId) :
    (t.membersNamed c name).Pairwise fun s s' => s.index < s'.index := by
  rw [h c name]
  exact t.pairwise_ids.filter _

theorem mem_names_iff (h : t.MembersListed) {name : NameId} :
    name ∈ (t.members c).names ↔ ∃ s, t.ListedIn c s ∧ (t.data s).name = name := by
  rw [NameTable.mem_names, Ne, List.eq_nil_iff_forall_not_mem, not_forall_not]
  exact exists_congr fun s => h.mem_iff

theorem members?_eq_none_iff (h : t.MembersListed) : t.members? c = none ↔ ∀ s, ¬t.ListedIn c s := by
  have hempty : t.members? c = none ↔ ∀ name, (t.members c).get name = [] := by
    rw [← NameTable.isEmpty_iff, members?]
    split
    · next hyes => exact iff_of_true rfl hyes
    · next hno => exact iff_of_false (Option.some_ne_none _) hno
  rw [hempty]
  constructor
  · intro hnil s hs
    exact List.ne_nil_of_mem (h.mem_iff.2 ⟨hs, rfl⟩) (hnil (t.data s).name)
  · intro hnone name
    apply List.eq_nil_iff_forall_not_mem.2
    exact fun s hs => hnone s (h.mem_iff.1 hs).1

end MembersListed

end SymbolTable

/-! ### Base types -/

namespace Builder

theorem bases_declare {b : Builder} {step : Declaration} (h : b.knowsOperands step = true) (ty : SymbolId) :
    ((b.declare step).2.table.get ty).bases =
      (b.table.get ty).bases.insertAll (step.baseAddedTo? ty).toList := by
  by_cases hstep : ∃ derived base, step = .base derived base
  · obtain ⟨derived, base, rfl⟩ := hstep
    have hknown : derived.index < b.table.size := of_decide_eq_true (Bool.and_eq_true_iff.1 h).1
    have hget : (b.declare (.base derived base)).2.table.get ty = _ := b.table.get_addBase derived base ty
    rw [hget, Declaration.baseAddedTo?]
    by_cases hty : derived = ty
    · subst hty
      rw [if_pos ⟨rfl, hknown⟩, if_pos rfl]
      rfl
    · rw [if_neg fun hc => hty hc.1.symm, if_neg hty]
      rfl
  · -- The other steps add symbols and names alone.
    have hnone : step.baseAddedTo? ty = none := by
      cases step with
      | base derived base => exact absurd ⟨derived, base, rfl⟩ hstep
      | _ => rfl
    rw [hnone]
    refine declare_induction (motive := fun b' => (b'.table.get ty).bases = (b.table.get ty).bases) rfl
      (fun _ _ hb' => hb') ?_ fun derived base heq => absurd ⟨derived, base, heq⟩ hstep
    intro b' d hb' _
    exact (b'.table.bases_get_add d ty).trans hb'

theorem bases_declareAll {b : Builder} {steps : List Declaration} (h : b.eachStep knowsOperands steps = true)
    (ty : SymbolId) : ((b.declareAll steps).table.get ty).bases =
      (b.table.get ty).bases.insertAll (steps.filterMap (·.baseAddedTo? ty)) := by
  induction steps generalizing b with
  | nil => rfl
  | cons step steps ih =>
    obtain ⟨hstep, hsteps⟩ := Bool.and_eq_true_iff.1 h
    have hcons : (step :: steps).filterMap (·.baseAddedTo? ty) =
        (step.baseAddedTo? ty).toList ++ steps.filterMap (·.baseAddedTo? ty) := by
      cases hs : step.baseAddedTo? ty <;> simp [hs]
    have hrest : (b.declareAll (step :: steps)) = (b.declare step).2.declareAll steps := rfl
    rw [hrest, ih hsteps, bases_declare hstep, hcons, OrderedSet.insertAll_append]

theorem bases_start (names : Interner) (ty : SymbolId) : ((start names).table.get ty).bases = ∅ := by
  obtain ⟨_ | i⟩ := ty <;> rfl

end Builder

/-! ### Whole tables -/

/-- A table lists its declarations. Under each name of a container stand, in the order of declaration
and each once, the namespaces, types and members that were declared there with that name; a type has
the base types that were added to it in the order of their first addition; and containers come
before what they hold and are those that the declarations give. -/
theorem built_tables_list_declarations (names : Interner) (steps : List Declaration)
    (hsteps : (Builder.start names).eachStep Builder.knowsOperands steps = true) :
    let t := ((Builder.start names).declareAll steps).table
    (∀ c name, ((t.membersNamed c name).Pairwise fun s s' => s.index < s'.index) ∧
      ∀ s, s ∈ t.membersNamed c name ↔ t.ListedIn c s ∧ (t.data s).name = name) ∧
    (∀ c, t.members? c = none ↔ ∀ s, ¬t.ListedIn c s) ∧
    (∀ c table, t.members? c = some table →
      (∀ name, name ∈ table.names ↔ ∃ s, t.ListedIn c s ∧ (t.data s).name = name) ∧
      (∀ name, table.get name = t.membersNamed c name) ∧
      (∀ name ∈ table.names, table.get name ≠ []) ∧
      table.size = {name | ∃ s, t.ListedIn c s ∧ (t.data s).name = name}.ncard) ∧
    (∀ ty, t.bases ty = (steps.filterMap (·.baseAddedTo? ty)).eraseDups) ∧
    (∀ s c, (t.data s).container = some c → c.index < s.index) ∧ t.links = none :: steps.flatMap Declaration.links := by
  intro t
  have hcontainers : (Builder.start names).eachStep Builder.knowsContainer steps = true :=
    Builder.eachStep_mono (fun _ _ => Builder.knowsContainer_of_knowsOperands) hsteps
  have hlisted : t.MembersListed := SymbolTable.membersListed_declareAll names steps
  refine ⟨fun c name => ⟨hlisted.pairwise c name, fun s => hlisted.mem_iff⟩,
    fun c => hlisted.members?_eq_none_iff, ?_, ?_, fun s c => SymbolTable.index_lt_of_container,
    Script.links_table ⟨steps, hcontainers⟩⟩
  · intro c table htable
    obtain rfl : t.members c = table := by
      rw [SymbolTable.members?] at htable
      split at htable
      · cases htable
      · exact Option.some.inj htable
    refine ⟨fun name => hlisted.mem_names_iff, fun name => rfl, fun name => NameTable.mem_names.1, ?_⟩
    rw [NameTable.size, OrderedSet.size_eq_ncard]
    simp only [hlisted.mem_names_iff]
  · intro ty
    have hbases := Builder.bases_declareAll hsteps ty
    rw [Builder.bases_start] at hbases
    have hlist : t.bases ty = (OrderedSet.ofList (steps.filterMap (·.baseAddedTo? ty))).toList :=
      congrArg OrderedSet.toList hbases
    rw [hlist, OrderedSet.toList_ofList_eq_eraseDups]

/-- Type 3 has two methods, a type parameter and a field, and two base types of which one is added
again. -/
def genericWithOverloads : List Declaration :=
  [.namespaceIn ⟨0⟩ "Shapes", .typeIn ⟨1⟩ "Figure" .classType 0, .typeIn ⟨1⟩ "Circle" .classType 1,
    .memberIn ⟨3⟩ "Area" .method .publicAccess, .memberIn ⟨3⟩ "Area" .method .publicAccess,
    .typeParameters ⟨3⟩ ["T"], .memberIn ⟨3⟩ "Radius" .field .privateAccess,
    .typeIn ⟨0⟩ "Printable" .interfaceType 0, .base ⟨3⟩ ⟨2⟩, .base ⟨3⟩ ⟨8⟩, .base ⟨3⟩ ⟨2⟩]

/-- The methods stand side by side and the type parameter is not a member. -/
theorem built_tables_list_declarations_overloads :
    let t := ((Builder.start .empty).declareAll genericWithOverloads).table
    (Builder.start .empty).eachStep Builder.knowsOperands genericWithOverloads = true ∧
      t.membersNamed ⟨3⟩ ⟨4⟩ = [⟨4⟩, ⟨5⟩] ∧ t.ListedIn ⟨3⟩ ⟨5⟩ ∧ ¬t.ListedIn ⟨3⟩ ⟨6⟩ ∧
      (∀ s, ¬t.ListedIn ⟨4⟩ s) ∧ {name | ∃ s, t.ListedIn ⟨3⟩ s ∧ (t.data s).name = name}.ncard = 2 ∧
      t.bases ⟨3⟩ = [⟨2⟩, ⟨8⟩] := by
  intro t
  have hsteps : (Builder.start .empty).eachStep Builder.knowsOperands genericWithOverloads = true := by
    decide +kernel
  obtain ⟨hmembers, hnone, htables, hbases, -⟩ := built_tables_list_declarations .empty genericWithOverloads hsteps
  have hmethods : t.membersNamed ⟨3⟩ ⟨4⟩ = [⟨4⟩, ⟨5⟩] := by decide +kernel
  refine ⟨hsteps, hmethods, ?_, ?_, (hnone ⟨4⟩).1 (by rfl), ?_, ?_⟩
  · exact (((hmembers ⟨3⟩ ⟨4⟩).2 ⟨5⟩).1 (by rw [hmethods]; decide)).1
  · intro hlisted
    have hnil : t.membersNamed ⟨3⟩ (t.data ⟨6⟩).name = [] := by decide +kernel
    have hmem := ((hmembers ⟨3⟩ _).2 ⟨6⟩).2 ⟨hlisted, rfl⟩
    rw [hnil] at hmem
    cases hmem
  · rw [← (htables ⟨3⟩ (t.members ⟨3⟩) (by rfl)).2.2.2]
    decide +kernel
  · rw [hbases]
    decide +kernel

end NameResolution
