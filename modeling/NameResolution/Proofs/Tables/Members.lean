import Mathlib.Data.List.Nodup
import NameResolution.Proofs.Tables.Building

/-! Who owns a member. In a table that declarations have built, the members of a container are the
symbols that name that container as their own, so that no symbol is a member of two containers. -/

namespace NameResolution

theorem NameTable.nodup_get (table : NameTable) (name : NameId) : (table.get name).Nodup := by
  apply table.entries.nodup.filterMap
  rintro ⟨n, s⟩ ⟨n', s'⟩ x hx hx'
  simp only [Option.mem_def, Option.ite_none_right_eq_some, Option.some.injEq] at hx hx'
  rw [hx.1, hx'.1, hx.2, hx'.2]

theorem SymbolData.memberOf?_eq_some_iff {d : SymbolData} {c : SymbolId} :
    d.memberOf? = some c ↔ d.container = some c ∧ d.kind.entersContainer = true := by
  rw [memberOf?, Option.ite_none_right_eq_some, and_comm]

namespace SymbolTable

variable {t : SymbolTable}

/-! ### Members -/

/-- The members of a container with a name are all symbols whose data say so, in the order of
declaration. -/
def MembersListed (t : SymbolTable) : Prop :=
  ∀ (c : SymbolId) (name : NameId), t.membersNamed c name =
    t.ids.filter fun s => (t.data s).memberOf? = some c ∧ (t.data s).name = name

theorem membersListed_initial (unnamed : NameId) : (SymbolTable.initial unnamed).MembersListed := by
  intro c name
  obtain ⟨_ | i⟩ := c <;> rfl

theorem MembersListed.add (h : t.MembersListed) (d : SymbolData) : (t.add d).2.MembersListed := by
  intro c name
  have hold : (t.ids.filter fun s => ((t.add d).2.data s).memberOf? = some c ∧
      ((t.add d).2.data s).name = name) = t.membersNamed c name := by
    rw [h c name]
    apply List.filter_congr
    intro s hs
    rw [data_add, if_neg (Nat.ne_of_lt (mem_ids.1 hs))]
  have hnew : (t.add d).2.data ⟨t.size⟩ = t.placed d := by rw [data_add, if_pos rfl]
  rw [ids_add, List.filter_append, hold, List.filter_singleton, hnew, name_placed]
  by_cases hlisted : (t.placed d).memberOf? = some c ∧ d.name = name
  · obtain ⟨hc, rfl⟩ := hlisted
    -- The new id is beyond all that are listed, so it comes last and is not dropped.
    have hfresh : (⟨t.size⟩ : SymbolId) ∉ t.membersNamed c d.name := by
      rw [h c d.name]
      intro hmem
      exact absurd (mem_ids.1 (List.mem_of_mem_filter hmem)) (Nat.lt_irrefl _)
    rw [membersNamed, members_add, if_pos hc, NameTable.get_insert_self hfresh]
    simp [hc, membersNamed]
  · have hnone : (t.add d).2.membersNamed c name = t.membersNamed c name := by
      by_cases hname : name = d.name
      · rw [membersNamed, members_add, if_neg fun hc => hlisted ⟨hc, hname.symm⟩, membersNamed]
      · exact membersNamed_add_of_ne hname c
    rw [hnone, decide_eq_false hlisted]
    simp

theorem MembersListed.addBase (h : t.MembersListed) (ty base : SymbolId) :
    (t.addBase ty base).MembersListed := by
  intro c name
  rw [membersNamed_addBase, ids_addBase, h c name]
  simp only [data_addBase]

theorem membersListed_declareAll (names : Interner) (steps : List Declaration) :
    ((Builder.start names).declareAll steps).table.MembersListed :=
  Builder.table_induction membersListed_initial (fun _ d h => h.add d) (fun _ ty base h => h.addBase ty base)
    names steps

/-! ### Owners -/

/-- Every member is listed in its own container under its own name. -/
def MembersOwned (t : SymbolTable) : Prop :=
  ∀ (c : SymbolId) (name : NameId) (s : SymbolId), s ∈ t.membersNamed c name →
    (t.data s).memberOf? = some c ∧ (t.data s).name = name

theorem MembersListed.membersOwned (h : t.MembersListed) : t.MembersOwned := by
  intro c name s hs
  rw [h c name, List.mem_filter] at hs
  exact of_decide_eq_true hs.2

theorem membersOwned_declareAll (names : Interner) (steps : List Declaration) :
    ((Builder.start names).declareAll steps).table.MembersOwned :=
  (membersListed_declareAll names steps).membersOwned

theorem MembersOwned.container_eq (h : t.MembersOwned) {c s : SymbolId} {name : NameId}
    (hs : s ∈ t.membersNamed c name) : (t.data s).container = some c :=
  (SymbolData.memberOf?_eq_some_iff.1 (h c name s hs).1).1

/-- Two containers have no member in common. -/
theorem MembersOwned.eq_of_mem (h : t.MembersOwned) {c c' s : SymbolId} {name : NameId}
    (hs : s ∈ t.membersNamed c name) (hs' : s ∈ t.membersNamed c' name) : c = c' := by
  have hc := (h c name s hs).1
  rw [(h c' name s hs').1] at hc
  exact (Option.some.inj hc).symm

/-- The members of distinct containers are distinct. -/
theorem MembersOwned.nodup_flatMap (h : t.MembersOwned) {containers : List SymbolId}
    (hnodup : containers.Nodup) (name : NameId) :
    (containers.flatMap fun c => t.membersNamed c name).Nodup := by
  rw [List.nodup_flatMap]
  refine ⟨fun c _ => NameTable.nodup_get _ name, hnodup.imp ?_⟩
  intro c c' hne s hs hs'
  exact hne (h.eq_of_mem hs hs')

end SymbolTable

end NameResolution
