import NameResolution.Interner
import NameResolution.Proofs.FirstOccurrences

/-! Interners that grow. Interning a text gives it a name, and no text loses or changes its
name when further texts are interned. -/

namespace NameResolution.Interner

variable {names later : Interner} {name : NameId} {text : String}

/-- The later interner has the names of the earlier one and perhaps further ones. -/
def ExtendedBy (names later : Interner) : Prop := names.texts.toList <+: later.texts.toList

theorem ExtendedBy.refl (names : Interner) : names.ExtendedBy names := List.prefix_rfl

theorem ExtendedBy.trans {last : Interner} (h : names.ExtendedBy later) (h' : later.ExtendedBy last) :
    names.ExtendedBy last := List.IsPrefix.trans h h'

theorem ExtendedBy.text?_eq_some (h : names.ExtendedBy later) (hname : names.text? name = some text) :
    later.text? name = some text := by
  obtain ⟨hindex, rfl⟩ := List.getElem?_eq_some_iff.1 hname
  exact List.prefix_iff_getElem?.1 h name.index hindex

theorem ExtendedBy.isSome_text? (h : names.ExtendedBy later) (hname : (names.text? name).isSome = true) :
    (later.text? name).isSome = true := by
  obtain ⟨text, htext⟩ := Option.isSome_iff_exists.1 hname
  rw [h.text?_eq_some htext]
  rfl

theorem ExtendedBy.text_eq (h : names.ExtendedBy later) (hname : (names.text? name).isSome = true) :
    later.text name = names.text name := by
  obtain ⟨text, htext⟩ := Option.isSome_iff_exists.1 hname
  rw [Interner.text, Interner.text, h.text?_eq_some htext, htext]

theorem texts_intern (names : Interner) (text : String) :
    (names.intern text).2.texts = names.texts.insert text := by
  unfold intern
  cases hfind : names.find? text with
  | none => rfl
  | some name =>
    have hmem : text ∈ names.texts := List.mem_of_getElem? (find?_eq_some_iff.1 hfind)
    exact (OrderedSet.insert_of_mem hmem).symm

theorem extendedBy_intern (names : Interner) (text : String) : names.ExtendedBy (names.intern text).2 := by
  rw [ExtendedBy, texts_intern, OrderedSet.toList_insert]
  exact List.prefix_append _ _

/-- Interning a text concerns no other text. -/
theorem find?_intern_of_ne {other : String} (h : other ≠ text) :
    (names.intern text).2.find? other = names.find? other := by
  apply Option.ext
  intro name
  rw [find?_eq_some_iff, find?_eq_some_iff, text?, texts_intern, text?]
  by_cases hmem : text ∈ names.texts
  · rw [OrderedSet.insert_of_mem hmem]
  · rw [OrderedSet.toList_insert_of_not_mem hmem, List.getElem?_append]
    split
    · rfl
    · next hout =>
      rw [List.getElem?_eq_none (Nat.le_of_not_lt hout), List.getElem?_singleton]
      refine iff_of_false ?_ (Option.some_ne_none _).symm
      split
      · exact fun hc => h (Option.some.inj hc).symm
      · exact (Option.some_ne_none _).symm

/-- A text that was just interned is found under its name. -/
theorem text?_intern_self (names : Interner) (text : String) :
    (names.intern text).2.text? (names.intern text).1 = some text := by
  unfold intern
  cases hfind : names.find? text with
  | some name => exact find?_eq_some_iff.1 hfind
  | none =>
    have hnew : text ∉ names.texts := by
      intro hmem
      obtain ⟨i, hi⟩ := List.getElem?_of_mem hmem
      rw [find?_eq_some_iff.2 (show names.text? ⟨i⟩ = some text from hi)] at hfind
      cases hfind
    have htexts : (names.texts.insert text).toList = names.texts.toList ++ [text] :=
      OrderedSet.toList_insert_of_not_mem hnew
    simp [Interner.text?, htexts, size, OrderedSet.size]

end NameResolution.Interner
