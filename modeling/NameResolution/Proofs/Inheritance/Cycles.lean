import Mathlib.Data.List.Cycle
import NameResolution.Proofs.Inheritance.Exploration

/-! Cycles of base types. An exploration that comes back to its own path has found a cycle.
Conversely it comes back to some type of every cycle that it runs into, since it ends and
can only end inside the cycle by meeting its own path there. -/

namespace NameResolution

/-- A cyclic chain goes on from each of its members to another one. -/
theorem exists_mem_of_chain {α : Type} {r : α → α → Prop} {cycle : Cycle α} (hchain : cycle.Chain r) {a : α}
    (ha : a ∈ cycle) : ∃ b ∈ cycle, r a b := by
  induction cycle using Cycle.induction_on with
  | nil => exact absurd ha (Cycle.notMem_nil a)
  | cons first rest _ =>
    rw [Cycle.chain_coe_cons] at hchain
    obtain ⟨before, after, hsplit⟩ := List.append_of_mem (Cycle.mem_coe_iff.1 ha)
    -- what comes next after `a`, where the first member comes next after the last
    have hround : first :: (rest ++ [first]) = before ++ a :: (after ++ [first]) := by
      rw [← List.cons_append, hsplit, List.append_assoc, List.cons_append]
    rw [hround] at hchain
    have hmem : ∀ b ∈ after, b ∈ (↑(first :: rest) : Cycle α) := by
      intro b hb
      rw [Cycle.mem_coe_iff, hsplit]
      exact List.mem_append_right before (List.mem_cons_of_mem a hb)
    cases after with
    | nil =>
      have hnext := (List.isChain_append_cons_cons.1 hchain).2.1
      exact ⟨first, Cycle.mem_coe_iff.2 List.mem_cons_self, hnext⟩
    | cons b after =>
      have hnext := (List.isChain_append_cons_cons.1 hchain).2.1
      exact ⟨b, hmem b List.mem_cons_self, hnext⟩

namespace SymbolTable

variable {t : SymbolTable} {follows : SymbolId → Bool}

/-! ### Cycles met at one step -/

section

variable {ty x : SymbolId} {rest path : List SymbolId}

theorem cycle_mem_explore_cons_of_mem (h : ty ∈ path) : .cycle x ∈ t.explore follows (ty :: rest) path ↔
    x = ty ∨ .cycle x ∈ t.explore follows rest path := by
  rw [explore_cons_of_mem h, List.mem_cons, BaseVisit.cycle.injEq]

theorem cycle_mem_explore_cons_of_not_mem (h : ty ∉ path) :
    .cycle x ∈ t.explore follows (ty :: rest) path ↔
      .cycle x ∈ t.explore follows (t.followed follows ty) (path ++ [ty]) ∨
        .cycle x ∈ t.explore follows rest path := by
  have hentered : BaseVisit.cycle x ≠ .entered ty := fun heq => BaseVisit.noConfusion heq
  rw [explore_cons_of_not_mem h, List.mem_cons, List.mem_append]
  exact or_iff_right hentered

end

/-! ### What is reported is a cycle -/

/-- While every type on the path leads to everything pending, coming back to the path closes
a cycle. -/
theorem transGen_of_cycle_mem_explore {pending path : List SymbolId} {x : SymbolId}
    (hlead : ∀ p ∈ path, ∀ q ∈ pending, Relation.TransGen (fun a b => b ∈ t.followed follows a) p q)
    (h : .cycle x ∈ t.explore follows pending path) :
    Relation.TransGen (fun a b => b ∈ t.followed follows a) x x := by
  induction pending, path using explore_induction t follows with
  | done path => simp at h
  | cycle ty rest path hmem ih =>
    rcases (cycle_mem_explore_cons_of_mem hmem).1 h with rfl | h
    · exact hlead x hmem x List.mem_cons_self
    · exact ih (fun p hp q hq => hlead p hp q (List.mem_cons_of_mem ty hq)) h
  | enter ty rest path hnew ihBases ihRest =>
    rcases (cycle_mem_explore_cons_of_not_mem hnew).1 h with h | h
    · refine ihBases (fun p hp q hq => ?_) h
      rcases List.mem_append.1 hp with hp | hp
      · exact (hlead p hp ty List.mem_cons_self).tail hq
      · rw [List.mem_singleton.1 hp]
        exact .single hq
    · exact ihRest (fun p hp q hq => hlead p hp q (List.mem_cons_of_mem ty hq)) h

theorem reachable_of_cycle_mem_explore {pending path : List SymbolId} {x : SymbolId}
    (h : .cycle x ∈ t.explore follows pending path) :
    ∃ p ∈ pending, Relation.ReflTransGen (fun a b => b ∈ t.followed follows a) p x := by
  induction pending, path using explore_induction t follows with
  | done path => simp at h
  | cycle ty rest path hmem ih =>
    rcases (cycle_mem_explore_cons_of_mem hmem).1 h with rfl | h
    · exact ⟨x, List.mem_cons_self, .refl⟩
    · obtain ⟨p, hp, hpath⟩ := ih h
      exact ⟨p, List.mem_cons_of_mem ty hp, hpath⟩
  | enter ty rest path hnew ihBases ihRest =>
    rcases (cycle_mem_explore_cons_of_not_mem hnew).1 h with h | h
    · obtain ⟨p, hp, hpath⟩ := ihBases h
      exact ⟨ty, List.mem_cons_self, .head hp hpath⟩
    · obtain ⟨p, hp, hpath⟩ := ihRest h
      exact ⟨p, List.mem_cons_of_mem ty hp, hpath⟩

/-! ### Every cycle is reported -/

section Completeness

variable {inside : SymbolId → Prop} (hgoesOn : ∀ c, inside c → ∃ b ∈ t.followed follows c, inside b)
include hgoesOn

/-- From a pending type one can go on for ever inside, so the exploration meets its path there. -/
theorem exists_cycle_of_mem_pending {pending path : List SymbolId} {c : SymbolId} (hc : inside c)
    (h : c ∈ pending) : ∃ x, inside x ∧ .cycle x ∈ t.explore follows pending path := by
  induction pending, path using explore_induction t follows generalizing c with
  | done path => cases h
  | cycle ty rest path hmem ih =>
    simp only [cycle_mem_explore_cons_of_mem hmem]
    rcases List.mem_cons.1 h with rfl | h
    · exact ⟨c, hc, Or.inl rfl⟩
    · obtain ⟨x, hx, hcycle⟩ := ih hc h
      exact ⟨x, hx, Or.inr hcycle⟩
  | enter ty rest path hnew ihBases ihRest =>
    simp only [cycle_mem_explore_cons_of_not_mem hnew]
    rcases List.mem_cons.1 h with rfl | h
    · obtain ⟨b, hb, hinside⟩ := hgoesOn c hc
      obtain ⟨x, hx, hcycle⟩ := ihBases hinside hb
      exact ⟨x, hx, Or.inl hcycle⟩
    · obtain ⟨x, hx, hcycle⟩ := ihRest hc h
      exact ⟨x, hx, Or.inr hcycle⟩

theorem exists_cycle_of_mem_enteredTypes {pending path : List SymbolId} {c : SymbolId} (hc : inside c)
    (h : c ∈ t.enteredTypes follows pending path) :
    ∃ x, inside x ∧ .cycle x ∈ t.explore follows pending path := by
  induction pending, path using explore_induction t follows with
  | done path => simp at h
  | cycle ty rest path hmem ih =>
    rw [enteredTypes_cons_of_mem hmem] at h
    obtain ⟨x, hx, hcycle⟩ := ih h
    exact ⟨x, hx, (cycle_mem_explore_cons_of_mem hmem).2 (Or.inr hcycle)⟩
  | enter ty rest path hnew ihBases ihRest =>
    rw [enteredTypes_cons_of_not_mem hnew, List.mem_cons, List.mem_append] at h
    simp only [cycle_mem_explore_cons_of_not_mem hnew]
    rcases h with rfl | h | h
    · obtain ⟨b, hb, hinside⟩ := hgoesOn c hc
      have hbases : ∃ x, inside x ∧ .cycle x ∈ t.explore follows (t.followed follows c) (path ++ [c]) :=
        exists_cycle_of_mem_pending hgoesOn hinside hb
      obtain ⟨x, hx, hcycle⟩ := hbases
      exact ⟨x, hx, Or.inl hcycle⟩
    · obtain ⟨x, hx, hcycle⟩ := ihBases h
      exact ⟨x, hx, Or.inl hcycle⟩
    · obtain ⟨x, hx, hcycle⟩ := ihRest h
      exact ⟨x, hx, Or.inr hcycle⟩

/-- With no path to avoid at the start, the exploration runs into whatever it can reach. -/
theorem exists_cycle_of_reachable {ty c : SymbolId} (hc : inside c)
    (hpath : Relation.ReflTransGen (fun a b => b ∈ t.followed follows a) ty c) :
    ∃ x, inside x ∧ .cycle x ∈ t.explore follows [ty] [] := by
  have hwalk : c ∈ t.walkBases follows [ty] [] := by
    rw [mem_walkBases_iff, stepsTo_nil]
    exact ⟨ty, List.mem_singleton_self ty, List.not_mem_nil, hpath⟩
  rw [← newByKey_nil_enteredTypes] at hwalk
  exact exists_cycle_of_mem_enteredTypes hgoesOn hc (mem_newByKey.1 hwalk).1

end Completeness

end SymbolTable

end NameResolution
