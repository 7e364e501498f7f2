import NameResolution.Symbol.Basic

/-! Tables from names to the symbols declared under them. Redeclarations and overloads
stay side by side in the order of declaration. -/

namespace NameResolution

/-- The entries of a table in the order in which they were recorded. -/
structure NameTable where
  entries : OrderedSet (NameId × SymbolId)

namespace NameTable

def empty : NameTable := ⟨∅⟩

instance : EmptyCollection NameTable := ⟨empty⟩

instance : Inhabited NameTable := ⟨empty⟩

/-- The same symbol is recorded once under a name. -/
def insert (table : NameTable) (name : NameId) (symbol : SymbolId) : NameTable :=
  ⟨table.entries.insert (name, symbol)⟩

/-- The symbols declared under a name, in the order of declaration. -/
def get (table : NameTable) (name : NameId) : List SymbolId :=
  table.entries.toList.filterMap fun entry => if entry.1 = name then some entry.2 else none

def contains (table : NameTable) (name : NameId) : Bool :=
  table.entries.toList.any fun entry => entry.1 == name

/-- The distinct names, in the order in which each was first recorded. -/
def names (table : NameTable) : OrderedSet NameId :=
  .ofList (table.entries.toList.map Prod.fst)

/-- The number of distinct names. -/
def size (table : NameTable) : Nat := table.names.size

def isEmpty (table : NameTable) : Bool := table.entries.isEmpty

/-- Both tables give the same symbols in the same order for every name. -/
def sameAs (table other : NameTable) : Bool :=
  (table.names.toList ++ other.names.toList).all fun name => table.get name == other.get name

theorem mem_get {table : NameTable} {name : NameId} {symbol : SymbolId} :
    symbol ∈ table.get name ↔ (name, symbol) ∈ table.entries := by
  simp only [get, List.mem_filterMap, OrderedSet.mem_def]
  constructor
  · rintro ⟨⟨n, s⟩, hmem, hs⟩
    split at hs
    · next h => cases hs; cases h; exact hmem
    · cases hs
  · exact fun h => ⟨_, h, by simp⟩

theorem mem_names {table : NameTable} {name : NameId} :
    name ∈ table.names ↔ table.get name ≠ [] := by
  rw [names, OrderedSet.mem_ofList, List.mem_map]
  constructor
  · rintro ⟨⟨n, s⟩, h, rfl⟩
    exact List.ne_nil_of_mem (mem_get.2 h)
  · intro h
    obtain ⟨s, hs⟩ := List.exists_mem_of_ne_nil _ h
    exact ⟨(name, s), mem_get.1 hs, rfl⟩

theorem get_insert_self {table : NameTable} {name : NameId} {symbol : SymbolId}
    (h : symbol ∉ table.get name) : (table.insert name symbol).get name = table.get name ++ [symbol] := by
  rw [mem_get] at h
  simp [insert, get, OrderedSet.toList_insert_of_not_mem h]

theorem get_insert_of_ne {table : NameTable} {name other : NameId} {symbol : SymbolId}
    (h : other ≠ name) : (table.insert name symbol).get other = table.get other := by
  by_cases hmem : (name, symbol) ∈ table.entries
  · rw [insert, OrderedSet.insert_of_mem hmem]
  · simp [insert, get, OrderedSet.toList_insert_of_not_mem hmem, Ne.symm h]

end NameTable

end NameResolution
