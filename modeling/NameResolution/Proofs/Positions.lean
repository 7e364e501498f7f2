import NameResolution.PositionMap

/-! The range that decides at a position. Of the ranges that hold the position it is the shortest, and
of equally short ones the one attached last, so that none of them lies strictly inside it. Only ranges
that hold the position are measured, and the ends of those are in order. -/

namespace NameResolution

variable {α : Type} {file : FileId} {offset : Nat}

/-! ### Ranges that hold a position -/

/-- The range is in the file and the offset lies between its ends, both included. -/
def FileSpan.Holds (s : FileSpan) (file : FileId) (offset : Nat) : Prop :=
  s.file = file ∧ s.span.start ≤ offset ∧ offset ≤ s.span.stop

instance (s : FileSpan) : Decidable (s.Holds file offset) := inferInstanceAs (Decidable (_ ∧ _))

theorem FileSpan.containsPosition_iff {s : FileSpan} :
    s.containsPosition file offset = true ↔ s.Holds file offset := by
  simp [containsPosition, Span.containsOffset, Holds]

/-- A range that holds an offset has its ends in order. -/
theorem FileSpan.Holds.start_le_stop {s : FileSpan} (h : s.Holds file offset) : s.span.start ≤ s.span.stop :=
  Span.start_le_stop_of_containsOffset (Bool.and_eq_true_iff.1 (containsPosition_iff.2 h)).2

namespace Span

/-- One range lies inside another and is not the same. -/
def StrictlyInside (inner outer : Span) : Prop := outer.contains inner = true ∧ inner ≠ outer

instance (inner outer : Span) : Decidable (inner.StrictlyInside outer) := inferInstanceAs (Decidable (_ ∧ _))

/-- The length of a range, which only a range with its ends in order has. -/
def length? (s : Span) : Option Nat := if s.start ≤ s.stop then some (s.stop - s.start) else none

theorem length?_eq_some {s : Span} (h : s.start ≤ s.stop) : s.length? = some s.length := if_pos h

theorem length_lt_of_strictlyInside {inner outer : Span} (hinner : inner.start ≤ inner.stop)
    (h : inner.StrictlyInside outer) : inner.length < outer.length := by
  obtain ⟨hcontains, hne⟩ := h
  simp only [contains, Bool.and_eq_true, decide_eq_true_eq] at hcontains
  have hends : inner.start ≠ outer.start ∨ inner.stop ≠ outer.stop := by
    by_cases hstart : inner.start = outer.start
    · exact Or.inr fun hstop => hne (by cases inner; cases outer; simp_all)
    · exact Or.inl hstart
  simp only [length]
  omega

end Span

namespace PositionMap

/-! ### The shortest entry -/

section

variable {entries rest : List (FileSpan × α)} {first entry : FileSpan × α}

theorem shortest?_cons_of_le
    (h : ∀ best, shortest? rest = some best → first.1.span.length ≤ best.1.span.length) :
    shortest? (first :: rest) = some first := by
  rw [shortest?]
  cases hrest : shortest? rest with
  | none => rfl
  | some best => exact if_pos (h best hrest)

theorem shortest?_cons_of_lt (hrest : shortest? rest = some entry)
    (h : entry.1.span.length < first.1.span.length) : shortest? (first :: rest) = some entry := by
  rw [shortest?, hrest]
  exact if_neg (Nat.not_le_of_lt h)

theorem shortest?_eq_none_iff : shortest? entries = none ↔ entries = [] := by
  cases entries with
  | nil => simp [shortest?]
  | cons first rest =>
    rw [shortest?]
    cases shortest? rest with
    | none => simp
    | some best =>
      dsimp only
      split <;> simp

/-- Everything before the shortest entry is longer, and nothing after it is shorter. -/
theorem exists_split_of_shortest? (h : shortest? entries = some entry) :
    ∃ before after, entries = before ++ entry :: after ∧
      (∀ other ∈ before, entry.1.span.length < other.1.span.length) ∧
      ∀ other ∈ after, entry.1.span.length ≤ other.1.span.length := by
  induction entries generalizing entry with
  | nil => cases h
  | cons first rest ih =>
    cases hrest : shortest? rest with
    | none =>
      rw [shortest?, hrest] at h
      cases h
      rw [shortest?_eq_none_iff.1 hrest]
      exact ⟨[], [], rfl, by simp, by simp⟩
    | some best =>
      obtain ⟨before, after, hsplit, hbefore, hafter⟩ := ih hrest
      by_cases hle : first.1.span.length ≤ best.1.span.length
      · rw [shortest?_cons_of_le fun other hother => by cases hrest.symm.trans hother; exact hle] at h
        cases h
        refine ⟨[], rest, rfl, by simp, fun other hother => Nat.le_trans hle ?_⟩
        rw [hsplit, List.mem_append, List.mem_cons] at hother
        obtain hother | rfl | hother := hother
        · exact Nat.le_of_lt (hbefore other hother)
        · exact Nat.le_refl _
        · exact hafter other hother
      · have hlt : best.1.span.length < first.1.span.length := Nat.lt_of_not_le hle
        rw [shortest?_cons_of_lt hrest hlt] at h
        cases h
        exact ⟨first :: before, after, by rw [hsplit, List.cons_append],
          List.forall_mem_cons.2 ⟨hlt, hbefore⟩, hafter⟩

theorem mem_of_shortest? (h : shortest? entries = some entry) : entry ∈ entries := by
  obtain ⟨before, after, rfl, -, -⟩ := exists_split_of_shortest? h
  exact List.mem_append_right before List.mem_cons_self

theorem shortest?_append_cons {before after : List (FileSpan × α)}
    (hbefore : ∀ other ∈ before, entry.1.span.length < other.1.span.length)
    (hafter : ∀ other ∈ after, entry.1.span.length ≤ other.1.span.length) :
    shortest? (before ++ entry :: after) = some entry := by
  induction before with
  | nil => exact shortest?_cons_of_le fun best hbest => hafter best (mem_of_shortest? hbest)
  | cons first before ih =>
    obtain ⟨hfirst, hbefore⟩ := List.forall_mem_cons.1 hbefore
    exact shortest?_cons_of_lt (ih hbefore) hfirst

/-- In a list that starts with the latest entry the shortest one is the latest of its length. -/
theorem shortest?_reverse_eq_some_iff : shortest? entries.reverse = some entry ↔
    ∃ earlier later, entries = earlier ++ entry :: later ∧
      (∀ other ∈ earlier, entry.1.span.length ≤ other.1.span.length) ∧
      ∀ other ∈ later, entry.1.span.length < other.1.span.length := by
  constructor
  · intro h
    obtain ⟨before, after, hsplit, hbefore, hafter⟩ := exists_split_of_shortest? h
    refine ⟨after.reverse, before.reverse, ?_, by simpa using hafter, by simpa using hbefore⟩
    rw [← List.reverse_reverse entries, hsplit, List.reverse_append, List.reverse_cons, List.append_assoc]
    rfl
  · rintro ⟨earlier, later, rfl, hearlier, hlater⟩
    rw [List.reverse_append, List.reverse_cons, List.append_assoc]
    exact shortest?_append_cons (by simpa using hlater) (by simpa using hearlier)

end

/-! ### The entries that hold a position -/

/-- The map in which ranges were attached one after the other. -/
def ofInsertions (insertions : List (FileSpan × α)) : PositionMap α :=
  insertions.foldl (fun m entry => m.insert entry.1 entry.2) empty

theorem entries_ofInsertions (insertions : List (FileSpan × α)) :
    (ofInsertions insertions).entries = insertions.reverse := by
  have hfold : ∀ m : PositionMap α,
      (insertions.foldl (fun m entry => m.insert entry.1 entry.2) m).entries =
        insertions.reverse ++ m.entries := by
    induction insertions with
    | nil => exact fun m => rfl
    | cons entry insertions ih =>
      intro m
      rw [List.foldl_cons, ih, List.reverse_cons, List.append_assoc]
      rfl
  rw [ofInsertions, hfold]
  exact List.append_nil _

/-- The entries that hold a position, the last one first. -/
def holding (m : PositionMap α) (file : FileId) (offset : Nat) : List (FileSpan × α) :=
  m.entries.filter fun entry => entry.1.containsPosition file offset

theorem find?_eq (m : PositionMap α) (file : FileId) (offset : Nat) :
    m.find? file offset = (shortest? (m.holding file offset)).map Prod.snd := rfl

theorem mem_holding_ofInsertions {insertions : List (FileSpan × α)} {entry : FileSpan × α} :
    entry ∈ (ofInsertions insertions).holding file offset ↔ entry ∈ insertions ∧ entry.1.Holds file offset := by
  rw [holding, entries_ofInsertions, List.mem_filter, List.mem_reverse, FileSpan.containsPosition_iff]

theorem shortest?_holding_eq_some_iff {insertions : List (FileSpan × α)} {entry : FileSpan × α} :
    shortest? ((ofInsertions insertions).holding file offset) = some entry ↔
      ∃ earlier later, insertions = earlier ++ entry :: later ∧ entry.1.Holds file offset ∧
        (∀ other ∈ earlier, other.1.Holds file offset → entry.1.span.length ≤ other.1.span.length) ∧
        ∀ other ∈ later, other.1.Holds file offset → entry.1.span.length < other.1.span.length := by
  rw [holding, entries_ofInsertions, List.filter_reverse, shortest?_reverse_eq_some_iff]
  constructor
  · rintro ⟨earlier, later, hsplit, hearlier, hlater⟩
    obtain ⟨front, back, rfl, rfl, hback⟩ := List.filter_eq_append_iff.1 hsplit
    obtain ⟨passed, rest, rfl, hpassed, hentry, rfl⟩ := List.filter_eq_cons_iff.1 hback
    refine ⟨front ++ passed, rest, by simp, FileSpan.containsPosition_iff.1 hentry,
      fun other hother hholds => ?_, fun other hother hholds => ?_⟩
    · rcases List.mem_append.1 hother with hother | hother
      · exact hearlier other (List.mem_filter.2 ⟨hother, FileSpan.containsPosition_iff.2 hholds⟩)
      · exact absurd (FileSpan.containsPosition_iff.2 hholds) (hpassed other hother)
    · exact hlater other (List.mem_filter.2 ⟨hother, FileSpan.containsPosition_iff.2 hholds⟩)
  · rintro ⟨earlier, later, rfl, hentry, hearlier, hlater⟩
    refine ⟨_, _, by rw [List.filter_append, List.filter_cons, if_pos (FileSpan.containsPosition_iff.2 hentry)],
      fun other hother => ?_, fun other hother => ?_⟩
    · obtain ⟨hmem, hholds⟩ := List.mem_filter.1 hother
      exact hearlier other hmem (FileSpan.containsPosition_iff.1 hholds)
    · obtain ⟨hmem, hholds⟩ := List.mem_filter.1 hother
      exact hlater other hmem (FileSpan.containsPosition_iff.1 hholds)

theorem find?_eq_none_iff {insertions : List (FileSpan × α)} :
    (ofInsertions insertions).find? file offset = none ↔ ∀ entry ∈ insertions, ¬entry.1.Holds file offset := by
  rw [find?_eq, Option.map_eq_none_iff, shortest?_eq_none_iff, List.eq_nil_iff_forall_not_mem]
  simp only [mem_holding_ofInsertions, not_and]

/-- Whatever lies strictly inside a range that holds the position is shorter than it. -/
theorem not_strictlyInside_of_shortest {insertions : List (FileSpan × α)} {chosen entry : FileSpan × α}
    (h : shortest? ((ofInsertions insertions).holding file offset) = some chosen)
    (hentry : entry ∈ insertions) (hholds : entry.1.Holds file offset) :
    ¬entry.1.span.StrictlyInside chosen.1.span := by
  intro hinside
  have hlt : entry.1.span.length < chosen.1.span.length :=
    Span.length_lt_of_strictlyInside hholds.start_le_stop hinside
  obtain ⟨earlier, later, rfl, -, hearlier, hlater⟩ := shortest?_holding_eq_some_iff.1 h
  rw [List.mem_append, List.mem_cons] at hentry
  obtain hentry | rfl | hentry := hentry
  · exact absurd (hearlier entry hentry hholds) (Nat.not_le_of_lt hlt)
  · exact Nat.lt_irrefl _ hlt
  · exact Nat.lt_asymm hlt (hlater entry hentry hholds)

/-! ### Which lengths are measured -/

/-- As `shortest?`, but without an answer if the ends of one of the ranges are reversed. -/
def shortestMeasured? : List (FileSpan × α) → Option (Option (FileSpan × α))
  | [] => some none
  | entry :: rest => do
    let length ← entry.1.span.length?
    match ← shortestMeasured? rest with
    | none => some (some entry)
    | some best =>
      let shortest ← best.1.span.length?
      some (some (if length ≤ shortest then entry else best))

theorem shortestMeasured?_eq {entries : List (FileSpan × α)}
    (h : ∀ entry ∈ entries, entry.1.span.start ≤ entry.1.span.stop) :
    shortestMeasured? entries = some (shortest? entries) := by
  induction entries with
  | nil => rfl
  | cons first rest ih =>
    obtain ⟨hfirst, hrest⟩ := List.forall_mem_cons.1 h
    rw [shortestMeasured?, ih hrest, Span.length?_eq_some hfirst, shortest?]
    cases hshortest : shortest? rest with
    | none => rfl
    | some best =>
      have hbest : best.1.span.start ≤ best.1.span.stop := hrest best (mem_of_shortest? hshortest)
      simp only [Option.bind_eq_bind, Option.bind_some, Span.length?_eq_some hbest]
      split <;> rfl

/-- As `find?`, but without an answer if a length cannot be measured on the way. -/
def findMeasured? (m : PositionMap α) (file : FileId) (offset : Nat) : Option (Option α) :=
  (shortestMeasured? (m.holding file offset)).map (Option.map Prod.snd)

/-- Only the ranges that hold the offset are measured, and all of these can be. -/
theorem findMeasured?_eq (m : PositionMap α) (file : FileId) (offset : Nat) :
    m.findMeasured? file offset = some (m.find? file offset) := by
  have hordered : ∀ entry ∈ m.holding file offset, entry.1.span.start ≤ entry.1.span.stop := by
    intro entry hentry
    exact (FileSpan.containsPosition_iff.1 (List.mem_filter.1 hentry).2).start_le_stop
  rw [findMeasured?, shortestMeasured?_eq hordered, Option.map_some, find?_eq]

end PositionMap

/-- A position has a value exactly if some range holds it, and then it has the value of the shortest such
range, attached last among equally short ones. No other range that holds the position lies strictly
inside this one, and no length is asked of a range with reversed ends. -/
theorem shortest_latest_range_decides (insertions : List (FileSpan × α)) (file : FileId) (offset : Nat) :
    let m := PositionMap.ofInsertions insertions
    (m.find? file offset = none ↔ ∀ entry ∈ insertions, ¬entry.1.Holds file offset) ∧
    (∀ value, m.find? file offset = some value ↔
      ∃ earlier span later, insertions = earlier ++ (span, value) :: later ∧ span.Holds file offset ∧
        (∀ entry ∈ earlier, entry.1.Holds file offset → span.span.length ≤ entry.1.span.length) ∧
        (∀ entry ∈ later, entry.1.Holds file offset → span.span.length < entry.1.span.length) ∧
        ∀ entry ∈ insertions, entry.1.Holds file offset → ¬entry.1.span.StrictlyInside span.span) ∧
    m.findMeasured? file offset = some (m.find? file offset) := by
  intro m
  refine ⟨PositionMap.find?_eq_none_iff, fun value => ?_, m.findMeasured?_eq file offset⟩
  rw [PositionMap.find?_eq, Option.map_eq_some_iff]
  constructor
  · rintro ⟨⟨span, value⟩, hshortest, rfl⟩
    obtain ⟨earlier, later, hsplit, hholds, hearlier, hlater⟩ :=
      PositionMap.shortest?_holding_eq_some_iff.1 hshortest
    exact ⟨earlier, span, later, hsplit, hholds, hearlier, hlater, fun entry hentry hentryHolds =>
      PositionMap.not_strictlyInside_of_shortest hshortest hentry hentryHolds⟩
  · rintro ⟨earlier, span, later, hsplit, hholds, hearlier, hlater, -⟩
    exact ⟨(span, value), PositionMap.shortest?_holding_eq_some_iff.2
      ⟨earlier, later, hsplit, hholds, hearlier, hlater⟩, rfl⟩

/-- Six ranges with their places as values. The third repeats the second, the fourth has its ends
reversed, and the fifth is in another file. -/
def rangesAroundOffset : List (FileSpan × Nat) :=
  [(⟨⟨0⟩, ⟨0, 10⟩⟩, 1), (⟨⟨0⟩, ⟨2, 6⟩⟩, 2), (⟨⟨0⟩, ⟨2, 6⟩⟩, 3), (⟨⟨0⟩, ⟨5, 1⟩⟩, 4), (⟨⟨1⟩, ⟨4, 4⟩⟩, 5),
    (⟨⟨0⟩, ⟨1, 9⟩⟩, 6)]

theorem shortest_latest_range_decides_amongSix :
    let m := PositionMap.ofInsertions rangesAroundOffset
    (⟨5, 1⟩ : Span).length? = none ∧ m.findMeasured? ⟨0⟩ 4 = some (some 3) ∧ m.find? ⟨0⟩ 11 = none := by
  intro m
  obtain ⟨-, hfound, hmeasured⟩ := shortest_latest_range_decides rangesAroundOffset ⟨0⟩ 4
  obtain ⟨hnone, -, -⟩ := shortest_latest_range_decides rangesAroundOffset ⟨0⟩ 11
  have hthird : m.find? ⟨0⟩ 4 = some 3 :=
    (hfound 3).2 ⟨rangesAroundOffset.take 2, ⟨⟨0⟩, ⟨2, 6⟩⟩, rangesAroundOffset.drop 3, rfl, by decide,
      by decide, by decide, by decide⟩
  exact ⟨by decide, hmeasured.trans (congrArg some hthird), hnone.2 (by decide)⟩

end NameResolution
