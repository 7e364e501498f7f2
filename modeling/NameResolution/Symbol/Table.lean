import NameResolution.Symbol.NameTable

/-! The table of all declared symbols. Besides its own data each symbol has the table
of its members and the list of its direct base types. -/

namespace NameResolution

/-- A symbol with what was declared inside it and the base types added to it. -/
structure Declared where
  data : SymbolData
  members : NameTable := ∅
  bases : OrderedSet SymbolId := ∅
  deriving Inhabited

/-- The symbols in the order of declaration. A container comes before everything that it holds,
and what is listed as a member is a symbol of the table. -/
structure SymbolTable where
  symbols : Array Declared
  containersFirst : ∀ (i : Nat) (d : Declared), symbols[i]? = some d → ∀ c ∈ d.data.container, c.index < i
  membersDeclared : ∀ d ∈ symbols, ∀ name, ∀ s ∈ d.members.get name, s.index < symbols.size

namespace SymbolTable

/-- The unnamed namespace that holds every top-level declaration. -/
def globalNamespace : SymbolId := ⟨0⟩

/-- The table that holds the global namespace only. -/
def initial (unnamed : NameId) : SymbolTable where
  symbols := #[{ data := { name := unnamed, kind := .namespaceDecl } }]
  containersFirst i d hd c hc := by
    rw [Array.getElem?_singleton, Option.ite_none_right_eq_some] at hd
    obtain ⟨-, hd⟩ := hd
    cases hd
    cases hc
  membersDeclared d hd name s hs := by
    obtain rfl := Array.mem_singleton.1 hd
    cases hs

def size (t : SymbolTable) : Nat := t.symbols.size

def isEmpty (t : SymbolTable) : Bool := t.symbols.isEmpty

def contains (t : SymbolTable) (s : SymbolId) : Bool := decide (s.index < t.size)

/-- All symbols in the order of declaration. -/
def ids (t : SymbolTable) : List SymbolId := (List.range t.size).map SymbolId.mk

/-- An id that was never handed out reads as an unnamed namespace that declares nothing. -/
def get (t : SymbolTable) (s : SymbolId) : Declared := t.symbols[s.index]?.getD default

def data (t : SymbolTable) (s : SymbolId) : SymbolData := (t.get s).data

def members (t : SymbolTable) (s : SymbolId) : NameTable := (t.get s).members

/-- The members of a container that has any. -/
def members? (t : SymbolTable) (s : SymbolId) : Option NameTable :=
  if (t.members s).isEmpty then none else some (t.members s)

def membersNamed (t : SymbolTable) (s : SymbolId) (name : NameId) : List SymbolId :=
  (t.members s).get name

/-- The direct base types in the order in which they were added. -/
def bases (t : SymbolTable) (s : SymbolId) : List SymbolId := (t.get s).bases.toList

/-! ### Building -/

/-- Appends a symbol whose container, if it has one, is declared already. -/
def push (t : SymbolTable) (data : SymbolData) (hcontainer : ∀ c ∈ data.container, c.index < t.size) :
    SymbolTable where
  symbols := t.symbols.push { data }
  containersFirst i d hd c hc := by
    rw [Array.getElem?_push] at hd
    split at hd
    · next hi =>
      cases hd
      exact hi ▸ hcontainer c hc
    · exact t.containersFirst i d hd c hc
  membersDeclared d hd name s hs := by
    rw [Array.size_push]
    rcases Array.mem_push.1 hd with hd | rfl
    · exact Nat.lt_succ_of_lt (t.membersDeclared d hd name s hs)
    · cases hs

@[simp] theorem size_push (t : SymbolTable) (data : SymbolData)
    (hcontainer : ∀ c ∈ data.container, c.index < t.size) : (t.push data hcontainer).size = t.size + 1 :=
  Array.size_push _

/-- Changes what is recorded about a symbol besides its data. Nothing is recorded about an id that
was never handed out. -/
def update (t : SymbolTable) (s : SymbolId) (change : Declared → Declared)
    (hdata : ∀ d, (change d).data = d.data)
    (hmembers : ∀ d name, ∀ x ∈ (change d).members.get name, x ∈ d.members.get name ∨ x.index < t.size) :
    SymbolTable where
  symbols := t.symbols.modify s.index change
  containersFirst i d hd c hc := by
    rw [Array.getElem?_modify] at hd
    split at hd
    · obtain ⟨old, hold, rfl⟩ := Option.map_eq_some_iff.1 hd
      exact t.containersFirst i old hold c (hdata old ▸ hc)
    · exact t.containersFirst i d hd c hc
  membersDeclared d hd name x hx := by
    rw [Array.size_modify]
    obtain ⟨i, hi⟩ := Array.mem_iff_getElem?.1 hd
    rw [Array.getElem?_modify] at hi
    split at hi
    · obtain ⟨old, hold, rfl⟩ := Option.map_eq_some_iff.1 hi
      rcases hmembers old name x hx with hx | hx
      · exact t.membersDeclared old (Array.mem_of_getElem? hold) name x hx
      · exact hx
    · exact t.membersDeclared d (Array.mem_of_getElem? hi) name x hx

/-- Records a symbol among the members of its container. A container that was never handed out
gets no members, not even once it is declared. -/
def enterMember (t : SymbolTable) (container : SymbolId) (name : NameId) (s : SymbolId)
    (hs : s.index < t.size) : SymbolTable :=
  t.update container (fun c => { c with members := c.members.insert name s }) (fun _ => rfl) (by
    intro d other x hx
    rw [NameTable.mem_get, NameTable.insert, OrderedSet.mem_insert, ← NameTable.mem_get] at hx
    exact hx.imp_right fun hnew => by cases hnew; exact hs)

/-- The data with which a symbol is added. A container that is declared already is kept. One that is
not is left out: the walks outwards could follow it to symbols that come later, and round in circles. -/
def placed (t : SymbolTable) (data : SymbolData) : SymbolData :=
  { data with container := data.container.filter t.contains }

theorem lt_size_of_mem_container_placed {t : SymbolTable} {data : SymbolData} :
    ∀ c ∈ (t.placed data).container, c.index < t.size :=
  fun _ hc => of_decide_eq_true (Option.mem_filter_iff.1 hc).2

/-- The symbol takes the next id and enters its container if its kind does. -/
def add (t : SymbolTable) (data : SymbolData) : SymbolId × SymbolTable :=
  let id : SymbolId := ⟨t.size⟩
  let grown := t.push (t.placed data) lt_size_of_mem_container_placed
  (id, match (t.placed data).memberOf? with
    | some container =>
      grown.enterMember container data.name id (Nat.lt_of_lt_of_eq (Nat.lt_succ_self _) (size_push ..).symm)
    | none => grown)

/-- A base type that was added before keeps its place. A type that was never handed out gets no
base types, not even once it is declared. -/
def addBase (t : SymbolTable) (ty base : SymbolId) : SymbolTable :=
  t.update ty (fun d => { d with bases := d.bases.insert base }) (fun _ => rfl) fun _ _ _ => Or.inl

/-! ### Sizes and out-of-range ids -/

theorem get_of_size_le {t : SymbolTable} {s : SymbolId} (h : t.size ≤ s.index) : t.get s = default := by
  rw [get, Array.getElem?_eq_none h]
  rfl

theorem bases_eq_nil_of_size_le {t : SymbolTable} {s : SymbolId} (h : t.size ≤ s.index) :
    t.bases s = [] := by
  rw [bases, get_of_size_le h]
  rfl

@[simp] theorem size_enterMember (t : SymbolTable) (container : SymbolId) (name : NameId) (s : SymbolId)
    (hs : s.index < t.size) : (t.enterMember container name s hs).size = t.size :=
  Array.size_modify

@[simp] theorem size_add (t : SymbolTable) (data : SymbolData) : (t.add data).2.size = t.size + 1 := by
  simp only [add]
  split
  · rw [size_enterMember, size_push]
  · rw [size_push]

@[simp] theorem size_addBase (t : SymbolTable) (ty base : SymbolId) :
    (t.addBase ty base).size = t.size :=
  Array.size_modify

/-! ### What the table refers to -/

/-- A container is declared before what it holds. -/
theorem index_lt_of_container {t : SymbolTable} {s c : SymbolId} (h : (t.data s).container = some c) :
    c.index < s.index := by
  rw [data, get] at h
  cases hs : t.symbols[s.index]? with
  | none =>
    rw [hs] at h
    cases h
  | some d =>
    rw [hs] at h
    exact t.containersFirst s.index d hs c h

/-- Members are symbols of the table. -/
theorem contains_of_mem_membersNamed {t : SymbolTable} {c s : SymbolId} {name : NameId}
    (h : s ∈ t.membersNamed c name) : t.contains s = true := by
  rw [membersNamed, members, get] at h
  cases hc : t.symbols[c.index]? with
  | none =>
    rw [hc] at h
    cases h
  | some d =>
    rw [hc] at h
    exact decide_eq_true (t.membersDeclared d (Array.mem_of_getElem? hc) name s h)

end SymbolTable

end NameResolution
