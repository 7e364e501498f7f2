import Mathlib.Data.List.Cycle
import NameResolution.Proofs.Inheritance.Walk
import NameResolution.Symbol.Declaration

/-! Deriving from a type. The search for a base type can stop as soon as the type comes up, before it
is known whether the type was expanded: if it never does, the expanded types are closed under base
types and leave it out. The types that derive from themselves are those on cycles. -/

namespace NameResolution

/-- A path need not come to any of its members twice. -/
theorem exists_simple_path {α : Type} {r : α → α → Prop} {a b : α} (h : Relation.ReflTransGen r a b) :
    ∃ path : List α, (a :: path).IsChain r ∧ (a :: path).Nodup ∧ (a :: path).getLast? = some b := by
  induction h using Relation.ReflTransGen.head_induction_on with
  | refl => exact ⟨[], .singleton b, List.nodup_singleton b, rfl⟩
  | @head a c hstep _ ih =>
    obtain ⟨path, hchain, hnodup, hlast⟩ := ih
    by_cases hmem : a ∈ c :: path
    · -- the path comes back to its start, and the detour can be left out
      obtain ⟨before, after, hsplit⟩ := List.append_of_mem hmem
      rw [hsplit] at hchain hnodup hlast
      refine ⟨after, hchain.right_of_append, hnodup.of_append_right, ?_⟩
      rwa [List.getLast?_append_of_ne_nil _ (List.cons_ne_nil a after)] at hlast
    · refine ⟨c :: path, .cons_cons hstep hchain, List.nodup_cons.2 ⟨hmem, hnodup⟩, ?_⟩
      rwa [List.getLast?_cons_cons]

theorem transGen_of_chain {α : Type} {r : α → α → Prop} {cycle : Cycle α} (hchain : cycle.Chain r) {a : α}
    (ha : a ∈ cycle) : Relation.TransGen r a a := by
  have htrans : cycle.Chain (Relation.TransGen r) := hchain.imp fun _ _ h => .single h
  exact Cycle.chain_iff_pairwise.1 htrans a ha a ha

/-- A closed path of at least one step contains a cycle through its start that passes each member once. -/
theorem transGen_self_iff_cycle {α : Type} {r : α → α → Prop} {a : α} :
    Relation.TransGen r a a ↔ ∃ cycle : Cycle α, cycle.Nodup ∧ a ∈ cycle ∧ cycle.Chain r := by
  constructor
  · intro h
    obtain ⟨b, hstep, hback⟩ := Relation.TransGen.head'_iff.1 h
    obtain ⟨path, hchain, hnodup, hlast⟩ := exists_simple_path hback
    rw [List.getLast?_eq_some_getLast (List.cons_ne_nil b path), Option.some.injEq] at hlast
    refine ⟨↑(b :: path), Cycle.nodup_coe_iff.2 hnodup, Cycle.mem_coe_iff.2 ?_, ?_⟩
    · exact hlast ▸ List.getLast_mem _
    · rw [Cycle.chain_ne_nil r (List.cons_ne_nil b path), hlast]
      exact .cons_cons hstep hchain
  · rintro ⟨cycle, -, ha, hchain⟩
    exact transGen_of_chain hchain ha

namespace SymbolTable

variable {t : SymbolTable}

/-- Whether a type comes up on the way from the pending types along base types. What was added last is
taken first and compared, and only then passed over if its bases have been added before. -/
def comesUp (t : SymbolTable) (base : SymbolId) (pending expanded : List SymbolId) : Bool :=
  match pending with
  | [] => false
  | ty :: rest =>
    if ty = base then true
    else if ty ∈ expanded then t.comesUp base rest expanded
    else t.comesUp base ((t.bases ty).reverse ++ rest) (ty :: expanded)
termination_by (t.unseen expanded, pending.length)
decreasing_by
  · exact Prod.Lex.right _ (Nat.lt_succ_self _)
  · by_cases hs : ty.index < t.size
    · exact Prod.Lex.left _ _ (unseen_cons_lt hs ‹_›)
    · rw [bases_eq_nil_of_size_le (Nat.le_of_not_lt hs)]
      rcases Nat.lt_or_eq_of_le (t.unseen_cons_le ty expanded) with h | h
      · exact Prod.Lex.left _ _ h
      · rw [h]
        exact Prod.Lex.right _ (by simp)

theorem comesUp_nil (base : SymbolId) (expanded : List SymbolId) : t.comesUp base [] expanded = false := by
  rw [comesUp]

section

variable {ty base : SymbolId} {expanded : List SymbolId} (rest : List SymbolId)

theorem comesUp_cons_self : t.comesUp base (base :: rest) expanded = true := by
  rw [comesUp, if_pos rfl]

theorem comesUp_cons_of_mem (hne : ty ≠ base) (h : ty ∈ expanded) :
    t.comesUp base (ty :: rest) expanded = t.comesUp base rest expanded := by
  rw [comesUp, if_neg hne, if_pos h]

theorem comesUp_cons_of_not_mem (hne : ty ≠ base) (h : ty ∉ expanded) :
    t.comesUp base (ty :: rest) expanded =
      t.comesUp base ((t.bases ty).reverse ++ rest) (ty :: expanded) := by
  rw [comesUp, if_neg hne, if_neg h]

end

/-- What comes up is led to by something pending. -/
theorem reachable_of_comesUp {base : SymbolId} {pending expanded : List SymbolId}
    (h : t.comesUp base pending expanded = true) :
    ∃ p ∈ pending, Relation.ReflTransGen (fun a b => b ∈ t.bases a) p base := by
  induction pending, expanded using comesUp.induct t base with
  | case1 expanded =>
    rw [comesUp_nil] at h
    cases h
  | case2 expanded rest => exact ⟨base, List.mem_cons_self, .refl⟩
  | case3 expanded ty rest hne hmem ih =>
    rw [comesUp_cons_of_mem rest hne hmem] at h
    obtain ⟨p, hp, hpath⟩ := ih h
    exact ⟨p, List.mem_cons_of_mem ty hp, hpath⟩
  | case4 expanded ty rest hne hnew ih =>
    rw [comesUp_cons_of_not_mem rest hne hnew] at h
    obtain ⟨p, hp, hpath⟩ := ih h
    rcases List.mem_append.1 hp with hp | hp
    · exact ⟨ty, List.mem_cons_self, .head (List.mem_reverse.1 hp) hpath⟩
    · exact ⟨p, List.mem_cons_of_mem ty hp, hpath⟩

/-- A search in vain leaves types behind that are closed under base types. Until then the bases of the
expanded types are expanded or pending. -/
theorem exists_closed_of_not_comesUp {base : SymbolId} {pending expanded : List SymbolId}
    (hclosed : ∀ x ∈ expanded, ∀ b ∈ t.bases x, b ∈ expanded ∨ b ∈ pending) (hbase : base ∉ expanded)
    (h : t.comesUp base pending expanded = false) :
    ∃ closed : List SymbolId, base ∉ closed ∧ pending ⊆ closed ∧ expanded ⊆ closed ∧
      ∀ x ∈ closed, t.bases x ⊆ closed := by
  induction pending, expanded using comesUp.induct t base with
  | case1 expanded =>
    refine ⟨expanded, hbase, List.nil_subset _, fun _ hx => hx, fun x hx b hb => ?_⟩
    exact (hclosed x hx b hb).resolve_right List.not_mem_nil
  | case2 expanded rest =>
    rw [comesUp_cons_self] at h
    cases h
  | case3 expanded ty rest hne hmem ih =>
    rw [comesUp_cons_of_mem rest hne hmem] at h
    have hclosed' : ∀ x ∈ expanded, ∀ b ∈ t.bases x, b ∈ expanded ∨ b ∈ rest := by
      intro x hx b hb
      rcases hclosed x hx b hb with hb | hb
      · exact Or.inl hb
      · rcases List.mem_cons.1 hb with rfl | hb
        · exact Or.inl hmem
        · exact Or.inr hb
    obtain ⟨closed, hout, hpending, hexpanded, hall⟩ := ih hclosed' hbase h
    exact ⟨closed, hout, List.cons_subset.2 ⟨hexpanded hmem, hpending⟩, hexpanded, hall⟩
  | case4 expanded ty rest hne hnew ih =>
    rw [comesUp_cons_of_not_mem rest hne hnew] at h
    have hclosed' : ∀ x ∈ ty :: expanded, ∀ b ∈ t.bases x,
        b ∈ ty :: expanded ∨ b ∈ (t.bases ty).reverse ++ rest := by
      intro x hx b hb
      rcases List.mem_cons.1 hx with rfl | hx
      · exact Or.inr (List.mem_append_left rest (List.mem_reverse.2 hb))
      · rcases hclosed x hx b hb with hb | hb
        · exact Or.inl (List.mem_cons_of_mem ty hb)
        · rcases List.mem_cons.1 hb with rfl | hb
          · exact Or.inl List.mem_cons_self
          · exact Or.inr (List.mem_append_right _ hb)
    have hbase' : base ∉ ty :: expanded := fun hmem => (List.mem_cons.1 hmem).elim (Ne.symm hne) hbase
    obtain ⟨closed, hout, hpending, hexpanded, hall⟩ := ih hclosed' hbase' h
    obtain ⟨hty, hexpanded⟩ := List.cons_subset.1 hexpanded
    exact ⟨closed, hout, List.cons_subset.2 ⟨hty, fun x hx => hpending (List.mem_append_right _ hx)⟩,
      hexpanded, hall⟩

theorem mem_of_reflTransGen {closed : List SymbolId} (hclosed : ∀ x ∈ closed, t.bases x ⊆ closed)
    {p x : SymbolId} (hp : p ∈ closed) (hpath : Relation.ReflTransGen (fun a b => b ∈ t.bases a) p x) :
    x ∈ closed := by
  induction hpath with
  | refl => exact hp
  | tail _ hstep ih => exact hclosed _ ih hstep

theorem comesUp_iff {base : SymbolId} {pending : List SymbolId} : t.comesUp base pending [] = true ↔
    ∃ p ∈ pending, Relation.ReflTransGen (fun a b => b ∈ t.bases a) p base := by
  refine ⟨reachable_of_comesUp, fun ⟨p, hp, hpath⟩ => ?_⟩
  rw [← Bool.not_eq_false]
  intro hnone
  obtain ⟨closed, hout, hpending, -, hclosed⟩ :=
    exists_closed_of_not_comesUp (fun x hx => absurd hx List.not_mem_nil) List.not_mem_nil hnone
  exact hout (mem_of_reflTransGen hclosed (hpending hp) hpath)

/-- Stopping at the type gives the same answer as walking on to the end. -/
theorem comesUp_bases_eq (ty base : SymbolId) :
    t.comesUp base (t.bases ty).reverse [] = t.derivesFrom ty base := by
  rw [Bool.eq_iff_iff, comesUp_iff, derivesFrom_iff, Relation.TransGen.head'_iff]
  simp only [List.mem_reverse]

end SymbolTable

/-- In any graph of base types the search ends, and a type derives from another exactly if some path of
at least one step leads there. So derivation is transitive, and the types that derive from themselves
are those that lie on a cycle. -/
theorem derivation_is_reachability (t : SymbolTable) (ty base : SymbolId) :
    (t.derivesFrom ty base = true ↔ Relation.TransGen (fun a b => b ∈ t.bases a) ty base) ∧
    t.comesUp base (t.bases ty).reverse [] = t.derivesFrom ty base ∧
    (∀ further, t.derivesFrom ty base = true → t.derivesFrom base further = true →
      t.derivesFrom ty further = true) ∧
    (t.derivesFrom ty ty = true ↔
      ∃ cycle : Cycle SymbolId, cycle.Nodup ∧ ty ∈ cycle ∧ cycle.Chain fun a b => b ∈ t.bases a) := by
  refine ⟨SymbolTable.derivesFrom_iff, SymbolTable.comesUp_bases_eq ty base,
    fun further hbase hfurther => ?_, ?_⟩
  · exact SymbolTable.derivesFrom_iff.2
      ((SymbolTable.derivesFrom_iff.1 hbase).trans (SymbolTable.derivesFrom_iff.1 hfurther))
  · rw [SymbolTable.derivesFrom_iff, transGen_self_iff_cycle]

/-- Types 2 and 3 are the bases of type 1, and both derive from type 4. Types 4 and 5 are bases of each
other, and type 5 is also a base of itself. -/
def diamondOverCycle : SymbolTable :=
  let type (name : Nat) : Declaration :=
    .symbol { name := ⟨name⟩, kind := .typeDecl .classType, container := some ⟨0⟩ }
  ((Builder.start .empty).declareAll
    [type 1, type 2, type 3, type 4, type 5, .base ⟨1⟩ ⟨2⟩, .base ⟨1⟩ ⟨3⟩, .base ⟨2⟩ ⟨4⟩, .base ⟨3⟩ ⟨4⟩,
      .base ⟨4⟩ ⟨5⟩, .base ⟨5⟩ ⟨4⟩, .base ⟨5⟩ ⟨5⟩]).table

theorem derivation_is_reachability_diamondOverCycle :
    let t := diamondOverCycle
    let cycle : Cycle SymbolId := ↑([⟨4⟩, ⟨5⟩] : List SymbolId)
    t.derivesFrom ⟨1⟩ ⟨4⟩ = true ∧ t.derivesFrom ⟨4⟩ ⟨5⟩ = true ∧ t.derivesFrom ⟨1⟩ ⟨5⟩ = true ∧
      t.comesUp ⟨5⟩ (t.bases ⟨1⟩).reverse [] = true ∧ cycle.Nodup ∧ cycle.Chain (fun a b => b ∈ t.bases a) ∧
      t.derivesFrom ⟨4⟩ ⟨4⟩ = true ∧
      ¬∃ cycle : Cycle SymbolId, cycle.Nodup ∧ ⟨1⟩ ∈ cycle ∧ cycle.Chain fun a b => b ∈ t.bases a := by
  intro t cycle
  obtain ⟨hdiamond, -, hon, hself⟩ := derivation_is_reachability t ⟨1⟩ ⟨4⟩
  obtain ⟨hstep, -, -, hcycle⟩ := derivation_is_reachability t ⟨4⟩ ⟨5⟩
  obtain ⟨-, hsearch, -, -⟩ := derivation_is_reachability t ⟨1⟩ ⟨5⟩
  have htop : t.derivesFrom ⟨1⟩ ⟨4⟩ = true :=
    hdiamond.2 (.head (b := ⟨3⟩) (by decide +kernel) (.single (by decide +kernel)))
  have hnext : t.derivesFrom ⟨4⟩ ⟨5⟩ = true := hstep.2 (.single (by decide +kernel))
  have hfar : t.derivesFrom ⟨1⟩ ⟨5⟩ = true := hon ⟨5⟩ htop hnext
  have hchain : cycle.Chain fun a b => b ∈ t.bases a := by
    rw [Cycle.chain_coe_cons]
    exact .cons_cons (by decide +kernel) (.cons_cons (by decide +kernel) (.singleton _))
  have hnodup : cycle.Nodup := by decide
  have hon4 : ⟨4⟩ ∈ cycle := by simp [cycle]
  refine ⟨htop, hnext, hfar, hsearch.trans hfar, hnodup, hchain,
    hcycle.2 ⟨cycle, hnodup, hon4, hchain⟩, ?_⟩
  rw [← hself, SymbolTable.derivesFrom_iff, Relation.TransGen.head'_iff]
  rintro ⟨b, hb, hback⟩
  -- nothing below type 1 leads back to it
  have hbelow : ∀ x ∈ ([⟨2⟩, ⟨3⟩, ⟨4⟩, ⟨5⟩] : List SymbolId), t.bases x ⊆ [⟨2⟩, ⟨3⟩, ⟨4⟩, ⟨5⟩] := by
    decide +kernel
  have hb' : b ∈ ([⟨2⟩, ⟨3⟩, ⟨4⟩, ⟨5⟩] : List SymbolId) :=
    (by decide +kernel : t.bases ⟨1⟩ ⊆ [⟨2⟩, ⟨3⟩, ⟨4⟩, ⟨5⟩]) hb
  exact absurd (SymbolTable.mem_of_reflTransGen hbelow hb' hback) (by decide)

end NameResolution
