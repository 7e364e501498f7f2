import Mathlib.Data.List.Induction
import Mathlib.Data.List.TakeWhile
import NameResolution.Scenario.Path
import NameResolution.Symbol.Basic

/-! Dotted paths. A path consists of the path of a container and a name without a dot, or of a name
alone. Where a list has the paths of all symbols in the order of declaration, a path denotes the last
symbol that has it. -/

namespace NameResolution

/-! ### Splitting -/

section

variable {separator : Char} {text first rest : List Char} {container name path : String}

theorem splitFirst?_eq_some_iff :
    splitFirst? separator text = some (first, rest) ↔ separator ∉ first ∧ text = first ++ separator :: rest := by
  constructor
  · intro h
    unfold splitFirst? at h
    split at h
    · cases h
    · next c tail hdrop =>
      cases h
      have hc : c = separator := by
        have hhead := List.head?_dropWhile_not (· != separator) text
        rw [hdrop] at hhead
        simpa using hhead
      refine ⟨fun hmem => ?_, ?_⟩
      · simpa using List.mem_takeWhile_imp hmem
      · rw [← hc, ← hdrop, hc, List.takeWhile_append_dropWhile]
  · rintro ⟨hfirst, rfl⟩
    exact splitFirst?_append hfirst

theorem splitFirst?_eq_none_iff : splitFirst? separator text = none ↔ separator ∉ text := by
  constructor
  · intro h hmem
    obtain ⟨first, rest, rfl, hfirst⟩ := List.eq_append_cons_of_mem hmem
    rw [splitFirst?_append hfirst] at h
    cases h
  · intro h
    cases hsplit : splitFirst? separator text with
    | none => rfl
    | some parts =>
      obtain ⟨-, rfl⟩ := splitFirst?_eq_some_iff.1 hsplit
      simp at h

/-- The path of something with this name that is declared inside the container at the first path. What
is declared in the global namespace may have its name for a path. -/
def PathInside (container name path : String) : Prop :=
  path = joinPath container name ∨ container = "" ∧ path = name

theorem pathInside_splitPath (path : String) :
    '.' ∉ (splitPath path).2.toList ∧ PathInside (splitPath path).1 (splitPath path).2 path := by
  unfold splitPath
  cases hsplit : splitFirst? '.' path.toList.reverse with
  | none =>
    refine ⟨?_, Or.inr ⟨rfl, rfl⟩⟩
    simpa using splitFirst?_eq_none_iff.1 hsplit
  | some parts =>
    obtain ⟨hname, hreverse⟩ := splitFirst?_eq_some_iff.1 hsplit
    refine ⟨by simpa using hname, Or.inl ?_⟩
    have htext := congrArg List.reverse hreverse
    rw [List.reverse_reverse, List.reverse_append, List.reverse_cons, List.append_assoc] at htext
    apply String.toList_inj.1
    rw [htext]
    simp [joinPath]

/-- The container's path is what stands before the last dot, or empty if there is no dot. -/
theorem splitPath_fst_eq_iff :
    (splitPath path).1 = container ↔ ∃ name, '.' ∉ name.toList ∧ PathInside container name path := by
  constructor
  · rintro rfl
    exact ⟨_, pathInside_splitPath path⟩
  · rintro ⟨name, hname, rfl | ⟨rfl, rfl⟩⟩
    · rw [splitPath_joinPath hname]
    · have hnone : splitFirst? '.' path.toList.reverse = none :=
        splitFirst?_eq_none_iff.2 (by simpa using hname)
      rw [splitPath, hnone]

theorem joinPath_ne_self (path name : String) : joinPath path name ≠ path := by
  intro h
  have hlength := congrArg (fun text : String => text.toList.length) h
  simp [joinPath] at hlength

end

/-! ### Which symbol a path denotes -/

section

variable {known : List String} {path : String} {s : SymbolId}

/-- The symbols with their paths, the last symbol first. -/
def pathEntries (known : List String) : List (String × SymbolId) :=
  (known.zipIdx.map fun entry => (entry.1, (⟨entry.2⟩ : SymbolId))).reverse

theorem pathEntries_concat (known : List String) (path : String) :
    pathEntries (known ++ [path]) = (path, ⟨known.length⟩) :: pathEntries known := by
  simp [pathEntries, List.zipIdx_append]

/-- The symbol has the path, and none after it has the same path. -/
structure LastAt (known : List String) (path : String) (s : SymbolId) : Prop where
  getElem?_eq : known[s.index]? = some path
  last : ∀ i, s.index < i → known[i]? ≠ some path

theorem lastAt_concat_iff {other : String} : LastAt (known ++ [other]) path s ↔
    if path = other then s = ⟨known.length⟩ else LastAt known path s := by
  have hnew : (known ++ [other])[known.length]? = some other := List.getElem?_concat_length
  have hold : ∀ i, i ≠ known.length → (known ++ [other])[i]? = known[i]? := by
    intro i hi
    rw [List.getElem?_append]
    split
    · rfl
    · rw [List.getElem?_eq_none (by simp; omega), List.getElem?_eq_none (by omega)]
  have hin : ∀ {i text}, known[i]? = some text → i < known.length := fun h => (List.getElem?_eq_some_iff.1 h).1
  split
  next hsame =>
    subst hsame
    constructor
    · intro h
      have hlt : s.index < (known ++ [path]).length := (List.getElem?_eq_some_iff.1 h.getElem?_eq).1
      have hge : ¬s.index < known.length := fun hlt => h.last known.length hlt hnew
      cases s
      simp at hlt hge ⊢
      omega
    · rintro rfl
      refine ⟨hnew, fun i hi => ?_⟩
      rw [List.getElem?_eq_none (by rwa [List.length_append])]
      exact (Option.some_ne_none _).symm
  next hother =>
    constructor
    · intro h
      have hne : s.index ≠ known.length := by
        intro heq
        have hat := h.getElem?_eq
        rw [heq, hnew] at hat
        exact hother (Option.some.inj hat).symm
      refine ⟨by rw [← hold _ hne]; exact h.getElem?_eq, fun i hi hat => ?_⟩
      exact h.last i hi (by rw [hold i (Nat.ne_of_lt (hin hat))]; exact hat)
    · intro h
      refine ⟨by rw [hold _ (Nat.ne_of_lt (hin h.getElem?_eq))]; exact h.getElem?_eq, fun i hi hat => ?_⟩
      by_cases heq : i = known.length
      · rw [heq, hnew] at hat
        exact hother (Option.some.inj hat).symm
      · rw [hold i heq] at hat
        exact h.last i hi hat

theorem lastAt_append_cons {later : List String} (h : path ∉ later) :
    LastAt (known ++ path :: later) path ⟨known.length⟩ where
  getElem?_eq := by simp
  last i hi hat := by
    have hafter : (known ++ [path]).length ≤ i := by rwa [List.length_append]
    rw [List.append_cons, List.getElem?_append_right hafter] at hat
    exact h (List.mem_of_getElem? hat)

theorem lookup_pathEntries_iff : (pathEntries known).lookup path = some s ↔ LastAt known path s := by
  induction known using List.reverseRecOn with
  | nil =>
    refine iff_of_false ?_ fun h => ?_
    · exact (Option.some_ne_none _).symm
    · exact absurd h.getElem?_eq (Option.some_ne_none _).symm
  | append_singleton known other ih =>
    rw [pathEntries_concat, List.lookup_cons, lastAt_concat_iff]
    by_cases hsame : path = other
    · simp [hsame, eq_comm]
    · rw [beq_eq_false_iff_ne.2 hsame, if_neg hsame]
      exact ih

theorem exists_lastAt_iff : (∃ s, LastAt known path s) ↔ path ∈ known := by
  induction known using List.reverseRecOn with
  | nil => simpa using fun s (h : LastAt [] path s) => absurd h.getElem?_eq (Option.some_ne_none _).symm
  | append_singleton known other ih =>
    simp only [lastAt_concat_iff]
    by_cases hsame : path = other
    · simp [hsame]
    · simp [hsame, ih]

end

end NameResolution
