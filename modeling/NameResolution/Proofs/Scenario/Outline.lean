import NameResolution.Proofs.Scenario.Paths
import NameResolution.Proofs.Tables.Contents
import NameResolution.Proofs.Tables.Naming

/-! Tables laid out by paths. Each symbol but the global namespace is declared inside one that was
declared before, under the last part of its path, and base types are added between declared symbols.
The paths in the order of declaration and the added base types then say what is in the table. -/

namespace NameResolution

namespace Builder

variable {b : Builder}

theorem declareAll_append (b : Builder) (steps later : List Declaration) :
    b.declareAll (steps ++ later) = (b.declareAll steps).declareAll later :=
  List.foldl_append

theorem eachStep_append {condition : Builder → Declaration → Bool} {steps later : List Declaration} :
    b.eachStep condition (steps ++ later) = true ↔
      b.eachStep condition steps = true ∧ (b.declareAll steps).eachStep condition later = true := by
  induction steps generalizing b with
  | nil => exact (and_iff_right rfl).symm
  | cons step steps ih =>
    have hrest : b.declareAll (step :: steps) = (b.declare step).2.declareAll steps := rfl
    rw [hrest, List.cons_append, eachStep, eachStep, Bool.and_eq_true, Bool.and_eq_true, ih, and_assoc]

/-- All symbols that the declaration mentions are declared already. -/
def knowsReferences (b : Builder) (step : Declaration) : Bool := step.references.all b.table.contains

/-- The steps that intern texts and then declare a symbol. -/
def symbolSteps (texts : List String) (data : SymbolData) : List Declaration :=
  texts.map .name ++ [.symbol data]

theorem table_declareAll_names (b : Builder) (texts : List String) :
    (b.declareAll (texts.map .name)).table = b.table := by
  induction texts generalizing b with
  | nil => rfl
  | cons text texts ih => exact ih (b.name text).2

theorem extendedBy_declareAll_names (b : Builder) (texts : List String) :
    b.names.ExtendedBy (b.declareAll (texts.map .name)).names := by
  induction texts generalizing b with
  | nil => exact .refl b.names
  | cons text texts ih => exact (b.names.extendedBy_intern text).trans (ih (b.name text).2)

theorem table_declareAll_symbolSteps (b : Builder) (texts : List String) (data : SymbolData) :
    (b.declareAll (symbolSteps texts data)).table = (b.table.add data).2 := by
  have hadd : ((b.declareAll (texts.map .name)).declareAll [.symbol data]).table =
      ((b.declareAll (texts.map .name)).table.add data).2 := rfl
  rw [symbolSteps, declareAll_append, hadd, table_declareAll_names]

theorem names_declareAll_symbolSteps (b : Builder) (texts : List String) (data : SymbolData) :
    (b.declareAll (symbolSteps texts data)).names = (b.declareAll (texts.map .name)).names := by
  rw [symbolSteps, declareAll_append]
  rfl

theorem eachStep_names {condition : Builder → Declaration → Bool}
    (h : ∀ b text, condition b (.name text) = true) (b : Builder) (texts : List String) :
    b.eachStep condition (texts.map .name) = true := by
  induction texts generalizing b with
  | nil => rfl
  | cons text texts ih => exact Bool.and_eq_true_iff.2 ⟨h b text, ih (b.name text).2⟩

theorem eachStep_singleton {condition : Builder → Declaration → Bool} {step : Declaration} :
    b.eachStep condition [step] = condition b step :=
  Bool.and_true _

end Builder

/-- The builder has declared symbols with these paths, in this order, and added these base types, each
pair of them a type and its new base type. -/
inductive Outline : List String → List (SymbolId × SymbolId) → Builder → Prop
  | start : Outline [""] [] (.start .empty)
  | symbol {known : List String} {added : List (SymbolId × SymbolId)} {b : Builder} {texts : List String}
      {data : SymbolData} {container : SymbolId} {containerPath name path : String} (h : Outline known added b)
      (hcontainer : data.container = some container) (hknown : known[container.index]? = some containerPath)
      (hpath : PathInside containerPath name path)
      (htarget : ∀ target, data.kind = .namespaceAlias target → target.index < known.length)
      (hname : (b.declareAll (texts.map .name)).names.text? data.name = some name) :
      Outline (known ++ [path]) added (b.declareAll (Builder.symbolSteps texts data))
  | base {known : List String} {added : List (SymbolId × SymbolId)} {b : Builder} {ty base : SymbolId}
      (h : Outline known added b) (hty : ty.index < known.length) (hbase : base.index < known.length) :
      Outline known (added ++ [(ty, base)]) (b.declareAll [.base ty base])

namespace Outline

variable {known : List String} {added : List (SymbolId × SymbolId)} {b : Builder} {s : SymbolId} {path : String}

theorem size_eq (h : Outline known added b) : b.table.size = known.length := by
  induction h with
  | start => rfl
  | symbol h hcontainer hknown hpath htarget hname ih =>
    rw [Builder.table_declareAll_symbolSteps, SymbolTable.size_add, ih, List.length_append, List.length_singleton]
  | base h hty hbase ih =>
    rw [← ih]
    exact SymbolTable.size_addBase _ _ _

theorem contains_iff (h : Outline known added b) : b.table.contains s = true ↔ s.index < known.length := by
  rw [SymbolTable.contains, decide_eq_true_eq, h.size_eq]

/-- The table is built by declarations that refer to earlier ones only. -/
theorem exists_steps (h : Outline known added b) : ∃ steps, b = (Builder.start .empty).declareAll steps ∧
    (Builder.start .empty).eachStep Builder.knowsReferences steps = true ∧
    (Builder.start .empty).eachStep Builder.knowsName steps = true := by
  induction h with
  | start => exact ⟨[], rfl, rfl, rfl⟩
  | @symbol known added b texts data container containerPath name path h hcontainer hknown hpath htarget hname ih =>
    obtain ⟨steps, rfl, hreferences, hnames⟩ := ih
    refine ⟨steps ++ Builder.symbolSteps texts data, (Builder.declareAll_append _ _ _).symm, ?_, ?_⟩
    · have hdeclared : Builder.knowsReferences (((Builder.start .empty).declareAll steps).declareAll
          (texts.map .name)) (.symbol data) = true := by
        rw [Builder.knowsReferences, List.all_eq_true, Builder.table_declareAll_names]
        intro s hs
        rw [h.contains_iff]
        rw [Declaration.references, hcontainer, List.mem_append] at hs
        rcases hs with hs | hs
        · rw [Option.toList_some, List.mem_singleton] at hs
          rw [hs]
          exact (List.getElem?_eq_some_iff.1 hknown).1
        · cases hkind : data.kind <;> simp only [hkind, List.not_mem_nil, List.mem_singleton] at hs
          exact hs ▸ htarget _ hkind
      rw [Builder.eachStep_append, Builder.symbolSteps, Builder.eachStep_append, Builder.eachStep_singleton]
      exact ⟨hreferences, Builder.eachStep_names (fun _ _ => rfl) _ _, hdeclared⟩
    · rw [Builder.eachStep_append, Builder.symbolSteps, Builder.eachStep_append, Builder.eachStep_singleton]
      exact ⟨hnames, Builder.eachStep_names (fun _ _ => rfl) _ _, Option.isSome_iff_exists.2 ⟨name, hname⟩⟩
  | @base known added b ty base h hty hbase ih =>
    obtain ⟨steps, rfl, hreferences, hnames⟩ := ih
    refine ⟨steps ++ [.base ty base], (Builder.declareAll_append _ _ _).symm, ?_, ?_⟩
    · rw [Builder.eachStep_append, Builder.eachStep_singleton]
      refine ⟨hreferences, ?_⟩
      simp [Builder.knowsReferences, Declaration.references, h.contains_iff, hty, hbase]
    · rw [Builder.eachStep_append, Builder.eachStep_singleton]
      exact ⟨hnames, rfl⟩

/-- A type has the base types that were added to it, in the order of their first addition. -/
theorem bases_eq (h : Outline known added b) (s : SymbolId) : b.table.bases s =
    (added.filterMap fun entry => if entry.1 = s then some entry.2 else none).eraseDups := by
  have hset : (b.table.get s).bases =
      .ofList (added.filterMap fun entry => if entry.1 = s then some entry.2 else none) := by
    induction h with
    | start => exact Builder.bases_start .empty s
    | symbol h hcontainer hknown hpath htarget hname ih =>
      rw [Builder.table_declareAll_symbolSteps, SymbolTable.bases_get_add, ih]
    | @base known added b ty base h hty hbase ih =>
      have hget : (b.declareAll [.base ty base]).table.get s = _ := b.table.get_addBase ty base s
      rw [hget, List.filterMap_append, OrderedSet.ofList, OrderedSet.insertAll_append, ← OrderedSet.ofList, ← ih]
      by_cases hs : s = ty
      · subst hs
        rw [if_pos ⟨rfl, h.size_eq ▸ hty⟩]
        simp [OrderedSet.insertAll]
      · simp [hs, Ne.symm hs]
  rw [SymbolTable.bases, hset, OrderedSet.toList_ofList_eq_eraseDups]

/-! ### Links -/

/-- The symbol is declared inside an earlier one, under the name that its path has there. -/
structure Link (known : List String) (b : Builder) (s : SymbolId) (path : String) (container : SymbolId)
    (containerPath name : String) : Prop where
  container_eq : (b.table.data s).container = some container
  earlier : container.index < s.index
  known_eq : known[container.index]? = some containerPath
  path_inside : PathInside containerPath name path
  text?_eq : b.names.text? (b.table.data s).name = some name

theorem Link.of_extendedBy {container : SymbolId} {containerPath name : String} {later : Builder}
    {more : List String} (h : Link known b s path container containerPath name)
    (hdata : later.table.data s = b.table.data s) (hnames : b.names.ExtendedBy later.names) :
    Link (known ++ more) later s path container containerPath name where
  container_eq := by rw [hdata, h.container_eq]
  earlier := h.earlier
  known_eq := by rw [List.getElem?_append_left (List.getElem?_eq_some_iff.1 h.known_eq).1, h.known_eq]
  path_inside := h.path_inside
  text?_eq := by rw [hdata, hnames.text?_eq_some h.text?_eq]

theorem container_global (h : Outline known added b) :
    known[0]? = some "" ∧ (b.table.data SymbolTable.globalNamespace).container = none := by
  induction h with
  | start => exact ⟨rfl, rfl⟩
  | @symbol known added b texts data container containerPath name path h hcontainer hknown hpath htarget hname ih =>
    have hpos : 0 < known.length := (List.getElem?_eq_some_iff.1 ih.1).1
    refine ⟨by rw [List.getElem?_append_left hpos, ih.1], ?_⟩
    rw [Builder.table_declareAll_symbolSteps, SymbolTable.data_add, if_neg, ih.2]
    rw [h.size_eq]
    exact Nat.ne_of_lt hpos
  | base h hty hbase ih => exact ⟨ih.1, (congrArg _ (SymbolTable.data_addBase _ _ _ _)).trans ih.2⟩

theorem exists_link (h : Outline known added b) (hs : known[s.index]? = some path)
    (hne : s ≠ SymbolTable.globalNamespace) : ∃ container containerPath name,
      Link known b s path container containerPath name := by
  induction h with
  | start =>
    obtain ⟨hindex, -⟩ := List.getElem?_eq_some_iff.1 hs
    obtain ⟨_ | i⟩ := s
    · exact absurd rfl hne
    · simp at hindex
  | @symbol known added b texts data container containerPath name newPath h hcontainer hknown hpath htarget hname ih =>
    have htable := b.table_declareAll_symbolSteps texts data
    have hnames := b.names_declareAll_symbolSteps texts data
    by_cases hold : s.index < known.length
    · rw [List.getElem?_append_left hold] at hs
      obtain ⟨container, containerPath, name, hlink⟩ := ih hs
      refine ⟨container, containerPath, name, hlink.of_extendedBy ?_ ?_⟩
      · rw [htable, SymbolTable.data_add, if_neg (by rw [h.size_eq]; exact Nat.ne_of_lt hold)]
      · rw [hnames]
        exact b.extendedBy_declareAll_names texts
    · have hlast : s.index = known.length := by
        have hlt := (List.getElem?_eq_some_iff.1 hs).1
        rw [List.length_append, List.length_singleton] at hlt
        omega
      rw [hlast, List.getElem?_concat_length, Option.some.injEq] at hs
      have hlt : container.index < known.length := (List.getElem?_eq_some_iff.1 hknown).1
      have hdata : (b.declareAll (Builder.symbolSteps texts data)).table.data s = data := by
        rw [htable, SymbolTable.data_add, if_pos (by rw [h.size_eq, hlast])]
        apply SymbolTable.placed_of_contains
        intro c hc
        obtain rfl : container = c := Option.some.inj (hcontainer.symm.trans hc)
        exact h.contains_iff.2 hlt
      refine ⟨container, containerPath, name, ?_⟩
      exact {
        container_eq := by rw [hdata, hcontainer]
        earlier := hlast ▸ hlt
        known_eq := by rw [List.getElem?_append_left hlt, hknown]
        path_inside := hs ▸ hpath
        text?_eq := by rw [hdata, hnames, hname] }
  | @base known added b ty base h hty hbase ih =>
    obtain ⟨container, containerPath, name, hlink⟩ := ih hs
    have hkept : Link (known ++ []) (b.declareAll [.base ty base]) s path container containerPath name :=
      hlink.of_extendedBy (SymbolTable.data_addBase _ _ _ _) (.refl _)
    rw [List.append_nil] at hkept
    exact ⟨container, containerPath, name, hkept⟩

end Outline

end NameResolution
