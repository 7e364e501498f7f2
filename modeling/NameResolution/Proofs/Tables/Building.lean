import NameResolution.Proofs.Tables.Interning
import NameResolution.Symbol.Declaration
import NameResolution.Symbol.Inheritance

/-! How tables grow. A table is built by adding symbols and base types to the table of the
global namespace, so that what the two steps preserve holds for every table that a list of
declarations builds. If each declaration puts its symbols inside one that is declared already,
the symbols have the containers that the declarations give. -/

namespace NameResolution

namespace SymbolTable

variable {t : SymbolTable}

/-! ### Reading after a step -/

theorem get_push (t : SymbolTable) (d : SymbolData) (hd : ∀ c ∈ d.container, c.index < t.size) (s : SymbolId) :
    (t.push d hd).get s = if s.index = t.size then { data := d } else t.get s := by
  have h : (t.push d hd).symbols[s.index]? =
      if s.index = t.size then some { data := d } else t.symbols[s.index]? :=
    Array.getElem?_push
  rw [get, get, h]
  split <;> rfl

theorem get_update (t : SymbolTable) (s : SymbolId) (change : Declared → Declared)
    (hdata : ∀ d, (change d).data = d.data)
    (hmembers : ∀ d name, ∀ x ∈ (change d).members.get name, x ∈ d.members.get name ∨ x.index < t.size)
    (x : SymbolId) : (t.update s change hdata hmembers).get x =
      if x = s ∧ x.index < t.size then change (t.get x) else t.get x := by
  have h : (t.update s change hdata hmembers).symbols[x.index]? =
      if s.index = x.index then t.symbols[x.index]?.map change else t.symbols[x.index]? :=
    Array.getElem?_modify
  rw [get, get, h]
  by_cases hs : s.index = x.index
  · obtain rfl : s = x := congrArg SymbolId.mk hs
    by_cases hsize : s.index < t.symbols.size
    · simp [size, hsize]
    · simp [size, hsize]
  · have hne : x ≠ s := fun hx => hs (hx ▸ rfl)
    simp [hs, hne]

@[simp] theorem name_placed (t : SymbolTable) (d : SymbolData) : (t.placed d).name = d.name := rfl

@[simp] theorem memberOf?_placed (t : SymbolTable) (d : SymbolData) :
    (t.placed d).memberOf? = d.memberOf?.filter t.contains := by
  unfold SymbolData.memberOf?
  show (if d.kind.entersContainer then d.container.filter t.contains else none) = _
  split <;> rfl

/-- A symbol inside one that is declared already is added as it is. -/
theorem placed_of_contains {d : SymbolData} (h : ∀ c, d.container = some c → t.contains c = true) :
    t.placed d = d := by
  have hcontainer : d.container.filter t.contains = d.container := by
    cases hc : d.container with
    | none => rfl
    | some c => exact Option.filter_some_pos (h c hc)
  rw [placed, hcontainer]

/-- Adding a symbol changes nothing but the members of its container. -/
theorem get_add (t : SymbolTable) (d : SymbolData) (x : SymbolId) : (t.add d).2.get x =
    if x.index = t.size then { data := t.placed d }
    else if (t.placed d).memberOf? = some x then { t.get x with members := (t.members x).insert d.name ⟨t.size⟩ }
    else t.get x := by
  unfold add
  dsimp only
  split
  · next container hcontainer =>
    have hknown : container.index < t.size := by
      rw [memberOf?_placed, Option.filter_eq_some_iff] at hcontainer
      exact of_decide_eq_true hcontainer.2
    rw [enterMember, get_update, size_push, get_push, hcontainer]
    by_cases hx : x = container
    · subst hx
      rw [if_pos ⟨rfl, Nat.lt_succ_of_lt hknown⟩, if_neg (Nat.ne_of_lt hknown), if_neg (Nat.ne_of_lt hknown),
        if_pos rfl]
      rfl
    · rw [if_neg fun h => hx h.1, if_neg fun h : some container = some x => hx (Option.some.inj h).symm]
  · next hnone => simp [get_push, hnone]

/-- Adding a symbol leaves the data of the others alone. -/
theorem data_add (t : SymbolTable) (d : SymbolData) (x : SymbolId) :
    (t.add d).2.data x = if x.index = t.size then t.placed d else t.data x := by
  rw [data, get_add]
  split
  · rfl
  · split <;> rfl

/-- A symbol that is added enters the table of its container, if its kind does, and no other. -/
theorem members_add (t : SymbolTable) (d : SymbolData) (c : SymbolId) : (t.add d).2.members c =
    if (t.placed d).memberOf? = some c then (t.members c).insert d.name ⟨t.size⟩ else t.members c := by
  rw [members, get_add]
  split
  · next hc =>
    have hnone : (t.placed d).memberOf? ≠ some c := by
      rw [memberOf?_placed, ne_eq, Option.filter_eq_some_iff, contains, decide_eq_true_eq]
      omega
    rw [if_neg hnone, members, get_of_size_le (Nat.le_of_eq hc.symm)]
    rfl
  · split <;> rfl

/-- Under other names there is nothing new. -/
theorem membersNamed_add_of_ne {d : SymbolData} {name : NameId} (h : name ≠ d.name) (c : SymbolId) :
    (t.add d).2.membersNamed c name = t.membersNamed c name := by
  rw [membersNamed, membersNamed, members_add]
  split
  · exact NameTable.get_insert_of_ne h
  · rfl

theorem bases_get_add (t : SymbolTable) (d : SymbolData) (s : SymbolId) :
    ((t.add d).2.get s).bases = (t.get s).bases := by
  rw [get_add]
  split
  · next hs =>
    rw [get_of_size_le (Nat.le_of_eq hs.symm)]
    rfl
  · split <;> rfl

theorem bases_add (t : SymbolTable) (d : SymbolData) (s : SymbolId) : (t.add d).2.bases s = t.bases s :=
  congrArg OrderedSet.toList (t.bases_get_add d s)

theorem get_addBase (t : SymbolTable) (ty base x : SymbolId) :
    (t.addBase ty base).get x =
      if x = ty ∧ x.index < t.size then
        { t.get x with bases := (t.get x).bases.insert base }
      else t.get x :=
  t.get_update ty _ _ _ x

@[simp] theorem data_addBase (t : SymbolTable) (ty base x : SymbolId) :
    (t.addBase ty base).data x = t.data x := by
  rw [data, get_addBase]
  split <;> rfl

theorem ids_add (t : SymbolTable) (d : SymbolData) : (t.add d).2.ids = t.ids ++ [⟨t.size⟩] := by
  rw [ids, size_add, List.range_succ, List.map_append, ids, List.map_singleton]

@[simp] theorem ids_addBase (t : SymbolTable) (ty base : SymbolId) : (t.addBase ty base).ids = t.ids := by
  rw [ids, size_addBase, ids]

@[simp] theorem membersNamed_addBase (t : SymbolTable) (ty base x : SymbolId) (name : NameId) :
    (t.addBase ty base).membersNamed x name = t.membersNamed x name := by
  rw [membersNamed, members, get_addBase]
  split <;> rfl

end SymbolTable

/-! ### Steps -/

namespace Builder

theorem addInside_eq_add (b : Builder) (container : SymbolId) (text : String) (kind : SymbolKind)
    (arity : Nat) (accessibility : Accessibility) : ∃ d : SymbolData, d.container = some container ∧
      d.name = (b.name text).1 ∧ b.addInside container text kind arity accessibility = (b.name text).2.add d :=
  ⟨_, rfl, rfl, rfl⟩

/-- A step does nothing but intern names, add symbols under names that are interned or that it was
given, and add the base type that it mentions. -/
theorem declare_induction {b : Builder} {step : Declaration} {motive : Builder → Prop} (start : motive b)
    (name : ∀ b' text, motive b' → motive (b'.name text).2)
    (add : ∀ b' d, motive b' →
      (b'.names.text? d.name).isSome = true ∨ b' = b ∧ step = .symbol d → motive (b'.add d).2)
    (addBase : ∀ ty base, step = .base ty base → motive (b.addBase ty base)) :
    motive (b.declare step).2 := by
  have hinside : ∀ (b' : Builder) container text kind arity accessibility, motive b' →
      motive (b'.addInside container text kind arity accessibility).2 := by
    intro b' container text kind arity accessibility hb'
    obtain ⟨d, -, hname, heq⟩ := b'.addInside_eq_add container text kind arity accessibility
    have hinterned : ((b'.name text).2.names.text? d.name).isSome = true := by
      rw [hname]
      exact Option.isSome_iff_exists.2 ⟨text, b'.names.text?_intern_self text⟩
    rw [heq]
    exact add _ d (name b' text hb') (Or.inl hinterned)
  have hparameters : ∀ (texts : List String) (b' : Builder) owner ordinal, motive b' →
      motive (b'.addTypeParameters owner ordinal texts).2 := by
    intro texts
    induction texts with
    | nil => exact fun b' owner ordinal hb' => hb'
    | cons text texts ih =>
      intro b' owner ordinal hb'
      have hnext := hinside b' owner text (.typeParameter ordinal) 0 .publicAccess hb'
      exact ih _ owner (ordinal + 1) hnext
  cases step with
  | name text => exact name b text start
  | symbol d => exact add b d start (Or.inr ⟨rfl, rfl⟩)
  | namespaceIn parent text => exact hinside b parent text .namespaceDecl 0 .publicAccess start
  | typeIn container text kind arity => exact hinside b container text (.typeDecl kind) arity .publicAccess start
  | memberIn ty text kind accessibility => exact hinside b ty text kind 0 accessibility start
  | typeParameters owner texts => exact hparameters texts b owner 0 start
  | base ty baseType => exact addBase ty baseType rfl

/-! ### Whole tables -/

/-- Each step satisfies the condition for the table and the names that it meets. -/
def eachStep (condition : Builder → Declaration → Bool) (b : Builder) : List Declaration → Bool
  | [] => true
  | step :: steps => condition b step && (b.declare step).2.eachStep condition steps

/-- What a step keeps under a condition, a list of steps keeps if each meets the condition. -/
theorem declareAll_induction {condition : Builder → Declaration → Bool} {motive : Builder → Prop}
    (declare : ∀ b step, condition b step = true → motive b → motive (b.declare step).2)
    {steps : List Declaration} {b : Builder} (hsteps : b.eachStep condition steps = true) (start : motive b) :
    motive (b.declareAll steps) := by
  induction steps generalizing b with
  | nil => exact start
  | cons step steps ih =>
    obtain ⟨hstep, hrest⟩ := Bool.and_eq_true_iff.1 hsteps
    exact ih hrest (declare b step hstep start)

/-- A list of declarations builds nothing but what symbols and base types build. -/
theorem table_induction {motive : SymbolTable → Prop} (initial : ∀ unnamed, motive (.initial unnamed))
    (add : ∀ t d, motive t → motive (t.add d).2)
    (addBase : ∀ t ty base, motive t → motive (t.addBase ty base)) (names : Interner)
    (steps : List Declaration) : motive ((Builder.start names).declareAll steps).table := by
  have hstart : motive (Builder.start names).table := initial (names.intern "").1
  have hstep : ∀ (b : Builder) (step : Declaration), motive b.table → motive (b.declare step).2.table := by
    intro b step hb
    exact @declare_induction b step (fun b => motive b.table) hb (fun _ _ hb' => hb')
      (fun b' d hb' _ => add b'.table d hb') (fun ty base _ => addBase b.table ty base hb)
  exact List.foldlRecOn (motive := fun b => motive b.table) steps _ hstart fun b hb step _ => hstep b step hb

theorem eachStep_mono {condition weaker : Builder → Declaration → Bool}
    (h : ∀ b step, condition b step = true → weaker b step = true) {b : Builder} {steps : List Declaration}
    (hsteps : b.eachStep condition steps = true) : b.eachStep weaker steps = true := by
  induction steps generalizing b with
  | nil => rfl
  | cons step steps ih =>
    obtain ⟨hstep, hrest⟩ := Bool.and_eq_true_iff.1 hsteps
    exact Bool.and_eq_true_iff.2 ⟨h b step hstep, ih hrest⟩

end Builder

/-! ### Containers -/

/-- The symbol inside which a declaration puts what it declares. -/
def Declaration.container? : Declaration → Option SymbolId
  | symbol data => data.container
  | namespaceIn container _ | typeIn container _ _ _ | memberIn container _ _ _
  | typeParameters container _ => some container
  | name _ | base _ _ => none

/-- The containers that a declaration gives to the symbols it declares, in their order. -/
def Declaration.links : Declaration → List (Option SymbolId)
  | symbol data => [data.container]
  | namespaceIn container _ | typeIn container _ _ _ | memberIn container _ _ _ => [some container]
  | typeParameters owner names => names.map fun _ => some owner
  | name _ | base _ _ => []

/-- The symbol inside which the declaration puts something is declared already. -/
def Builder.knowsContainer (b : Builder) (step : Declaration) : Bool :=
  step.container?.all b.table.contains

namespace SymbolTable

/-- The containers of all symbols in the order of declaration. -/
def links (t : SymbolTable) : List (Option SymbolId) := t.ids.map fun s => (t.data s).container

theorem links_add {t : SymbolTable} {d : SymbolData} (h : ∀ c, d.container = some c → t.contains c = true) :
    (t.add d).2.links = t.links ++ [d.container] := by
  have hold : t.ids.map (fun s => ((t.add d).2.data s).container) = t.links := by
    apply List.map_congr_left
    intro s hs
    rw [data_add, if_neg (Nat.ne_of_lt (mem_ids.1 hs))]
  rw [links, ids_add, List.map_append, hold, List.map_singleton, data_add, if_pos rfl, placed_of_contains h]

@[simp] theorem links_addBase (t : SymbolTable) (ty base : SymbolId) : (t.addBase ty base).links = t.links := by
  simp only [links, ids_addBase, data_addBase]

end SymbolTable

namespace Builder

variable {b : Builder}

theorem contains_addInside {s : SymbolId} (hs : b.table.contains s = true) (container : SymbolId) (text : String)
    (kind : SymbolKind) (arity : Nat) (accessibility : Accessibility) :
    (b.addInside container text kind arity accessibility).2.table.contains s = true := by
  obtain ⟨d, -, -, heq⟩ := b.addInside_eq_add container text kind arity accessibility
  rw [heq]
  have hsize : ((b.name text).2.add d).2.table.size = b.table.size + 1 := b.table.size_add d
  exact decide_eq_true (hsize ▸ Nat.lt_succ_of_lt (of_decide_eq_true hs))

theorem links_addInside {container : SymbolId} (h : b.table.contains container = true) (text : String)
    (kind : SymbolKind) (arity : Nat) (accessibility : Accessibility) :
    (b.addInside container text kind arity accessibility).2.table.links = b.table.links ++ [some container] := by
  obtain ⟨d, hd, -, heq⟩ := b.addInside_eq_add container text kind arity accessibility
  rw [heq, ← hd]
  apply SymbolTable.links_add
  intro c hc
  cases hd.symm.trans hc
  exact h

theorem links_addTypeParameters {owner : SymbolId} (h : b.table.contains owner = true) (ordinal : Nat)
    (texts : List String) : (b.addTypeParameters owner ordinal texts).2.table.links =
      b.table.links ++ texts.map fun _ => some owner := by
  induction texts generalizing b ordinal with
  | nil => rw [addTypeParameters, List.map_nil, List.append_nil]
  | cons text texts ih =>
    have hnext := ih (contains_addInside h owner text (.typeParameter ordinal) 0 .publicAccess) (ordinal + 1)
    rw [links_addInside h, List.append_assoc] at hnext
    exact hnext

theorem links_declare {step : Declaration} (h : b.knowsContainer step = true) :
    (b.declare step).2.table.links = b.table.links ++ step.links := by
  cases step with
  | name text => exact (List.append_nil _).symm
  | symbol d => exact SymbolTable.links_add fun c hc => by simpa [knowsContainer, Declaration.container?, hc] using h
  | namespaceIn | typeIn | memberIn => exact links_addInside h ..
  | typeParameters owner texts => exact links_addTypeParameters h 0 texts
  | base ty baseType => exact (SymbolTable.links_addBase ..).trans (List.append_nil _).symm

theorem links_declareAll {steps : List Declaration} (h : b.eachStep knowsContainer steps = true) :
    (b.declareAll steps).table.links = b.table.links ++ steps.flatMap Declaration.links := by
  induction steps generalizing b with
  | nil => exact (List.append_nil _).symm
  | cons step steps ih =>
    obtain ⟨hstep, hrest⟩ := Bool.and_eq_true_iff.1 h
    have hlinks := ih hrest
    rw [links_declare hstep, List.append_assoc] at hlinks
    rw [List.flatMap_cons]
    exact hlinks

end Builder

/-- Declarations each of which puts what it declares inside something that is declared before. -/
structure Script (names : Interner) where
  steps : List Declaration
  knowsContainers : (Builder.start names).eachStep Builder.knowsContainer steps = true

namespace Script

variable {names : Interner}

def table (script : Script names) : SymbolTable := ((Builder.start names).declareAll script.steps).table

/-- No container that a declaration gives is left out. Nothing is around the global namespace. -/
theorem links_table (script : Script names) :
    script.table.links = none :: script.steps.flatMap Declaration.links :=
  Builder.links_declareAll script.knowsContainers

end Script

end NameResolution
