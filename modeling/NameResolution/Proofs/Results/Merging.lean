import NameResolution.Proofs.Results.Histories

/-! Merging as an operation on results. Merging two results records in the first all that was
recorded in the second, so that results can be merged in groups, an empty result changes nothing,
and neither does a result that was merged before. The order in which results are merged decides
only the order of what they list. -/

namespace NameResolution.LookupResult

variable {t : SymbolTable} {diagnose : Bool} {r r' r'' : LookupResult}

/-! ### Results that differ in order -/

/-- The same kind, the same symbols and the same rejected symbols, in whatever order. -/
structure SameUpToOrder (r r' : LookupResult) : Prop where
  kind_eq : r.kind = r'.kind
  mem_symbols_iff : ∀ s, s ∈ r.symbols ↔ s ∈ r'.symbols
  mem_rejected_iff : ∀ s, s ∈ r.rejected ↔ s ∈ r'.rejected

namespace Consistent

/-- The kind does not depend on the order in which a consistent result lists its symbols. -/
theorem sameUpToOrder (h : r.Consistent t) (h' : r'.Consistent t)
    (hsymbols : ∀ s, s ∈ r.symbols ↔ s ∈ r'.symbols) (hrejected : ∀ s, s ∈ r.rejected ↔ s ∈ r'.rejected) :
    r.SameUpToOrder r' := by
  have hperm : r.symbols.Perm r'.symbols :=
    (List.perm_ext_iff_of_nodup h.symbols_nodup h'.symbols_nodup).2 hsymbols
  have hrejections : r.rejections = [] ↔ r'.rejections = [] := by
    have hlists : r.rejected.Perm r'.rejected :=
      (List.perm_ext_iff_of_nodup h.rejected_nodup h'.rejected_nodup).2 hrejected
    rw [← List.map_eq_nil_iff (f := Rejection.symbol), ← List.map_eq_nil_iff (f := Rejection.symbol)]
    exact ⟨fun hnil => List.nil_perm.1 (hnil ▸ hlists), fun hnil => List.perm_nil.1 (hnil ▸ hlists)⟩
  have hnone : r.symbols = [] ↔ r'.symbols = [] := by
    rw [← List.length_eq_zero_iff, hperm.length_eq, List.length_eq_zero_iff]
  refine ⟨?_, hsymbols, hrejected⟩
  cases hkind : r.kind with
  | empty =>
    obtain ⟨hs, hr⟩ := h.kind_eq_empty_iff.1 hkind
    exact (h'.kind_eq_empty_iff.2 ⟨hnone.1 hs, hrejections.1 hr⟩).symm
  | notViable =>
    obtain ⟨hs, hr⟩ := h.kind_eq_notViable_iff.1 hkind
    exact (h'.kind_eq_notViable_iff.2 ⟨hnone.1 hs, fun hc => hr (hrejections.2 hc)⟩).symm
  | viable =>
    refine (h'.kind_eq_viable_iff.2 ?_).symm
    rw [← hperm.length_eq]
    exact (h.kind_eq_viable_iff.1 hkind).imp_right fun hmethods =>
      ⟨hmethods.1, fun s hs => hmethods.2 s ((hsymbols s).2 hs)⟩
  | ambiguous =>
    obtain ⟨htwo, s, hs, hother⟩ := h.kind_eq_ambiguous_iff.1 hkind
    refine (h'.kind_eq_ambiguous_iff.2 ⟨?_, s, (hsymbols s).1 hs, hother⟩).symm
    rwa [← hperm.length_eq]

end Consistent

/-! ### Laws of merging -/

theorem mem_symbols_merge_iff {s : SymbolId} : s ∈ (r.merge t r').symbols ↔ s ∈ r.symbols ∨ s ∈ r'.symbols := by
  rw [symbols_merge, List.mem_append, mem_newByKey]
  by_cases hs : s ∈ r.symbols <;> simp [hs]

theorem mem_rejected_merge_iff {s : SymbolId} :
    s ∈ (r.merge t r').rejected ↔ s ∈ r.rejected ∨ s ∈ r'.rejected := by
  have hlist : (r.merge t r').rejected =
      r.rejected ++ (newByKey Rejection.symbol r.rejected r'.rejections).map Rejection.symbol := by
    rw [rejected, rejections_merge, List.map_append, rejected]
  rw [hlist, List.mem_append, mem_map_newByKey, ← rejected]
  by_cases hs : s ∈ r.rejected <;> simp [hs]

namespace Consistent

theorem merge_sameUpToOrder (h : r.Consistent t) (h' : r'.Consistent t) :
    (r.merge t r').SameUpToOrder (r'.merge t r) := by
  apply (h.merge h').sameUpToOrder (h'.merge h)
  · intro s
    rw [mem_symbols_merge_iff, mem_symbols_merge_iff, or_comm]
  · intro s
    rw [mem_rejected_merge_iff, mem_rejected_merge_iff, or_comm]

theorem empty_merge (h : r.Consistent t) : empty.merge t r = r := by
  apply ((consistent_empty t).merge h).ext h
  · rw [symbols_merge]
    exact newByKey_eq_self (by simpa using h.symbols_nodup) fun _ _ => List.not_mem_nil
  · rw [rejections_merge]
    exact newByKey_eq_self h.rejected_nodup fun _ _ => List.not_mem_nil

theorem merge_empty (h : r.Consistent t) : r.merge t empty = r := by
  apply (h.merge (consistent_empty t)).ext h
  · rw [symbols_merge]
    exact List.append_nil _
  · rw [rejections_merge]
    exact List.append_nil _

/-- What is there already is not added once more. -/
theorem merge_self (h : r.Consistent t) : r.merge t r = r := by
  have hsymbols : newByKey id r.symbols r.symbols = [] := newByKey_eq_nil_iff.2 fun _ hs => hs
  have hrejections : newByKey Rejection.symbol r.rejected r.rejections = [] :=
    newByKey_eq_nil_iff.2 fun _ hx => List.mem_map_of_mem hx
  apply (h.merge h).ext h
  · rw [symbols_merge, hsymbols, List.append_nil]
  · rw [rejections_merge, hrejections, List.append_nil]

theorem merge_assoc (h : r.Consistent t) (h' : r'.Consistent t) (h'' : r''.Consistent t) :
    (r.merge t r').merge t r'' = r.merge t (r'.merge t r'') := by
  apply ((h.merge h').merge h'').ext (h.merge (h'.merge h''))
  · have hlater : newByKey id r.symbols (r'.symbols ++ newByKey id (r'.symbols.map id) r''.symbols) =
        newByKey id r.symbols (r'.symbols ++ r''.symbols) := newByKey_append_newByKey _ _ _
    rw [List.map_id, newByKey_append _ r'.symbols r''.symbols, List.map_id] at hlater
    simp only [symbols_merge, List.append_assoc, hlater]
  · have hlater := @newByKey_append_newByKey _ _ _ Rejection.symbol r.rejected r'.rejections r''.rejections
    rw [newByKey_append _ r'.rejections r''.rejections] at hlater
    simp only [rejected, rejections_merge, List.map_append, List.append_assoc] at hlater ⊢
    rw [hlater]

end Consistent

/-! ### Which candidates were recorded -/

theorem mem_symbols_collect_iff {found : List (SymbolId × Viability)} {s : SymbolId} :
    s ∈ (collect t diagnose found).symbols ↔ (s, .viable) ∈ found := by
  rw [symbols_collect, mem_newByKey, List.mem_filterMap]
  constructor
  · rintro ⟨⟨⟨s', _ | reason⟩, hmem, hs⟩, -⟩
    · cases hs
      exact hmem
    · cases hs
  · exact fun hmem => ⟨⟨_, hmem, rfl⟩, List.not_mem_nil⟩

theorem mem_rejected_collect_iff {found : List (SymbolId × Viability)} {s : SymbolId} :
    s ∈ (collect t diagnose found).rejected ↔ ∃ reason, (s, .notViable reason) ∈ found := by
  rw [rejected, rejections_collect, mem_map_newByKey, List.mem_map]
  simp only [List.mem_filterMap]
  constructor
  · rintro ⟨⟨x, ⟨⟨s', _ | reason⟩, hmem, hx⟩, rfl⟩, -⟩
    · cases hx
    · cases hx
      exact ⟨reason, hmem⟩
  · rintro ⟨reason, hmem⟩
    exact ⟨⟨_, ⟨_, hmem, rfl⟩, rfl⟩, List.not_mem_nil⟩

/-- Neither the order of the candidates nor their repetition decides what kind of result they make. -/
theorem collect_sameUpToOrder {found found' : List (SymbolId × Viability)} (h : ∀ c, c ∈ found ↔ c ∈ found') :
    (collect t diagnose found).SameUpToOrder (collect t diagnose found') := by
  apply (consistent_collect t diagnose found).sameUpToOrder (consistent_collect t diagnose found')
  · intro s
    rw [mem_symbols_collect_iff, mem_symbols_collect_iff, h]
  · intro s
    simp only [mem_rejected_collect_iff, h]

theorem built_collect (t : SymbolTable) (diagnose : Bool) (found : List (SymbolId × Viability)) :
    (collect t diagnose found).Built t :=
  List.foldlRecOn found _ .empty fun _ hr c _ => hr.addCandidate diagnose c.1 c.2

/-- Merging what was collected is collecting everything at once. For results with any history it
follows that merging may be done in groups, that an empty result and a copy of the result itself
change nothing, and that the order of merging is seen only in the order of the lists. The same goes
for the order and the repetition of candidates. -/
theorem merging_is_collecting (t : SymbolTable) :
    (∀ diagnose found found', (collect t diagnose found).merge t (collect t diagnose found') =
      collect t diagnose (found ++ found')) ∧
    (∀ r r' r'' : LookupResult, r.Built t → r'.Built t → r''.Built t →
      (r.merge t r').merge t r'' = r.merge t (r'.merge t r'')) ∧
    (∀ r : LookupResult, r.Built t → empty.merge t r = r ∧ r.merge t empty = r ∧ r.merge t r = r) ∧
    (∀ r r' : LookupResult, r.Built t → r'.Built t → (r.merge t r').SameUpToOrder (r'.merge t r)) ∧
    (∀ diagnose found found', (∀ c, c ∈ found ↔ c ∈ found') →
      (collect t diagnose found).SameUpToOrder (collect t diagnose found')) := by
  refine ⟨fun diagnose found found' => merge_collect found found', ?_, ?_, ?_,
    fun diagnose found found' => collect_sameUpToOrder⟩
  · exact fun r r' r'' hr hr' hr'' => hr.consistent.merge_assoc hr'.consistent hr''.consistent
  · exact fun r hr => ⟨hr.consistent.empty_merge, hr.consistent.merge_empty, hr.consistent.merge_self⟩
  · exact fun r r' hr hr' => hr.consistent.merge_sameUpToOrder hr'.consistent

/-- The field is turned down in one result and usable in the other, which is not told why. -/
theorem merging_is_collecting_fieldInBothLists :
    let t := methodsAndField
    let own := collect t true [(⟨2⟩, .viable), (⟨4⟩, .notViable .inaccessible)]
    let inherited := collect t false [(⟨4⟩, .viable), (⟨3⟩, .viable), (⟨4⟩, .notViable .notInvocable)]
    own.Built t ∧ inherited.Built t ∧
      (own.merge t inherited).merge t own = own.merge t (inherited.merge t own) ∧
      own.merge t own = own ∧ (own.merge t inherited).symbols = [⟨2⟩, ⟨4⟩, ⟨3⟩] ∧
      (inherited.merge t own).symbols = [⟨4⟩, ⟨3⟩, ⟨2⟩] ∧ (inherited.merge t own).kind = .ambiguous ∧
      own.SameUpToOrder (collect t true [(⟨4⟩, .notViable .inaccessible), (⟨2⟩, .viable), (⟨2⟩, .viable)]) := by
  intro t own inherited
  obtain ⟨-, hassoc, hunit, hcomm, hrepeated⟩ := merging_is_collecting t
  have hown : own.Built t := built_collect t true _
  have hinherited : inherited.Built t := built_collect t false _
  have hambiguous : (own.merge t inherited).kind = .ambiguous := by decide +kernel
  refine ⟨hown, hinherited, hassoc own inherited own hown hinherited hown, (hunit own hown).2.2,
    by decide +kernel, by decide +kernel, ?_, ?_⟩
  · rw [← (hcomm own inherited hown hinherited).kind_eq]
    exact hambiguous
  · apply hrepeated
    intro c
    simp [or_comm]

end NameResolution.LookupResult
