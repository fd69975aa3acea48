import RuleClasses.Proofs.Declarations

/-! The class above all chains. No other class is without a base, so it is the first in
the order, and it is declared unless the root type is imported under its name. Its own
base, the root type, was never put in order. That matters when a class is declared under
the root type's name, since this class comes later and may have the first one above it. -/

namespace RuleClasses

open Relation (TransGen)

/-- Nothing stands above the first name of an order. -/
theorem Orders.not_extends_head {nodes : List String} {edges : List Edge} {n : String}
    {rest : List String} (h : Orders nodes edges (n :: rest)) (b : String) :
    ¬ Extends edges n b := by
  intro he
  exact (before_cons.mp (h.base_before _ he)).1 rfl

/-- Names whose bases stand before them, if these are names at all, are on no cycle. -/
theorem acyclic_of_before {edges : List Edge} {names : List String}
    (hmem : ∀ n b, Extends edges n b → n ∈ names)
    (hbefore : ∀ n b, Extends edges n b → b ∈ names → Before names b n) : Acyclic edges := by
  -- on a way up from a name only the last step may leave the names
  have hup : ∀ n top, TransGen (Extends edges) n top → top ∈ names → Before names top n := by
    intro n top hway
    induction hway with
    | single he => exact hbefore _ _ he
    | tail _ he ih => exact fun htop => (hbefore _ _ he htop).trans (ih (hmem _ _ he))
  intro n hcycle
  obtain ⟨b, he⟩ := hcycle.exists_base
  exact (hup n n hcycle (hmem n b he)).irrefl

namespace Plan

variable {o : Options} {g : Grammar} {p : Plan} {rules : List ClassRule} {order : List String}

/-! ## The first class of an order -/

theorem orderOf_eq_cons {root : String} (hc : Chained rules)
    (h : orderOf root rules = .ok order) : ∃ rest, order = modelBase :: rest := by
  have hmem := mem_of_orderOf hc h
  have horders := orders_of_classOrder h
  cases order with
  | nil => exact absurd ((hmem modelBase).mpr (.inl rfl)) List.not_mem_nil
  | cons n rest =>
    rcases (hmem n).mp List.mem_cons_self with rfl | ⟨e, he, rfl⟩
    · exact ⟨rest, rfl⟩
    · exact absurd he (horders.not_extends_head e.base)

theorem taken_modelBase :
    Taken o modelBase ↔ o.rootType.module ≠ "" ∧ o.rootType.name = modelBase := by
  have hbuiltin : ∀ t : Target, t.isBuiltin modelBase = false := by
    intro t
    cases t <;> decide
  rw [Taken, hbuiltin, @eq_comm _ modelBase]
  simp

theorem not_taken_rootName : ¬ Taken o o.rootType.name ↔
    o.rootType.module = "" ∧ o.target.isBuiltin o.rootType.name = false := by
  simp [Taken, and_comm]

namespace Made

theorem not_extends_modelBase (h : Made o rules order p) (hc : Chained rules) (b : String) :
    ¬ Extends (edgesOf rules) modelBase b := by
  obtain ⟨rest, rfl⟩ := orderOf_eq_cons hc h.ordered
  exact h.orders.not_extends_head b

/-- No rule has the common class for its own, so it extends the root type. -/
theorem declare_modelBase (h : Made o rules order p) (hc : Chained rules) :
    declare o.target.identifier (bases o.rootType.name rules) (leaves rules) modelBase =
      .base modelBase (some o.rootType.name) := by
  have hleaf : rules.findRev? (fun c => c.leaf.name = modelBase) = none := by
    refine findRev?_eq_none.mpr fun c hmem hname => ?_
    have hname : c.leaf.name = modelBase := by simpa using hname
    exact h.not_extends_modelBase hc c.leaf.base (hname ▸ leaf_mem_edgesOf hmem)
  rw [declare, get?_leaves, hleaf, get?_bases]
  rfl

/-- Where its name is not taken, the common class comes first. -/
theorem exists_decls_eq_cons (h : Made o rules order p) (hc : Chained rules)
    (hfree : ¬ Taken o modelBase) :
    ∃ rest, p.decls = .base modelBase (some o.rootType.name) :: rest := by
  obtain ⟨rest, hrest⟩ := orderOf_eq_cons hc h.ordered
  have hdecls := h.decls
  rw [hrest, List.filter_cons_of_pos (by simpa using hfree), List.map_cons,
    h.declare_modelBase hc] at hdecls
  exact ⟨_, hdecls⟩

end Made

/-- **The common class is declared first.** It has the root type for its base, and no
other declaration has its name. Only where the root type is imported under this very name
is there none, and then the run was not a strict one. -/
theorem common_class_first (h : ofGrammar o g = .ok p) :
    if o.rootType.module ≠ "" ∧ o.rootType.name = modelBase then
      o.strict = false ∧ modelBase ∉ p.classNames
    else ∃ rest, p.decls = .base modelBase (some o.rootType.name) :: rest ∧
      ∀ d ∈ rest, d.name ≠ modelBase := by
  obtain ⟨order, hm⟩ := made_of_ofGrammar h
  have hc := chained_classRules o.target.identifier g
  obtain ⟨rest, hrest⟩ := orderOf_eq_cons hc hm.ordered
  have hfirst : modelBase ∈ order := hrest ▸ List.mem_cons_self
  split
  · rename_i himported
    have htaken : Taken o modelBase := taken_modelBase.mpr himported
    refine ⟨?_, fun hn => ((hm.mem_classNames hc _).mp hn).2 htaken⟩
    rw [← Bool.not_eq_true]
    intro hstrict
    exact hm.strict hstrict modelBase hfirst htaken
  · rename_i himported
    have hfree : ¬ Taken o modelBase := fun htaken => himported (taken_modelBase.mp htaken)
    obtain ⟨rest, hdecls⟩ := hm.exists_decls_eq_cons hc hfree
    have hnodup := hm.nodup_classNames
    rw [classNames, hdecls, List.map_cons, List.nodup_cons] at hnodup
    refine ⟨rest, hdecls, fun d hd hname => hnodup.1 ?_⟩
    exact List.mem_map.mpr ⟨d, hd, hname⟩

unseal ClassOrder.run in
/-- No rule of this grammar has a class, and the run is strict. -/
theorem common_class_first_of_no_class :
    ∃ p, ofGrammar ⟨.rust, ⟨"", "ModelBase"⟩, none, true⟩ ⟨"calc", [⟨"num", [], .void⟩]⟩ = .ok p ∧
      ∃ rest, p.decls = .base "ModelBase" (some "ModelBase") :: rest ∧
        ∀ d ∈ rest, d.name ≠ "ModelBase" := by
  have h : ofGrammar ⟨.rust, ⟨"", "ModelBase"⟩, none, true⟩ ⟨"calc", [⟨"num", [], .void⟩]⟩ =
      .ok ⟨"calc", ⟨"", "ModelBase"⟩, [.base "ModelBase" (some "ModelBase")]⟩ := by rfl
  have hfirst := common_class_first h
  rw [if_neg (by decide)] at hfirst
  exact ⟨_, h, hfirst⟩

unseal ClassOrder.run in
/-- The root type is imported as `ModelBase`, and the chain of the rule ends in this
name. -/
theorem common_class_left_out :
    ∃ root p, RootType.ofPath Target.python.separator "ast.ModelBase" = .ok root ∧
      ofGrammar ⟨.python, root, none, false⟩ ⟨"calc", [⟨"num", [.string "Num"], .void⟩]⟩ =
        .ok p ∧
      p.decls = [.rule "Num" "ModelBase" "num" []] ∧ modelBase ∉ p.classNames := by
  refine ⟨⟨"ast", "ModelBase"⟩, ⟨"calc", ⟨"ast", "ModelBase"⟩,
    [.rule "Num" "ModelBase" "num" []]⟩, ?_, ?_, ?_, ?_⟩
  · decide
  · rfl
  · rfl
  · decide

/-! ## The bases that are written -/

/-- What every declared class extends. -/
def edges (p : Plan) : List Edge := p.decls.filterMap fun d => d.base?.map (Edge.mk d.name)

theorem extends_edges {n b : String} :
    Extends p.edges n b ↔ ∃ d ∈ p.decls, d.name = n ∧ d.base? = some b := by
  simp only [Extends, edges, List.mem_filterMap, Option.map_eq_some_iff, Edge.mk.injEq]
  constructor
  · rintro ⟨d, hd, b, hb, rfl, rfl⟩
    exact ⟨d, hd, rfl, hb⟩
  · rintro ⟨d, hd, rfl, hb⟩
    exact ⟨d, hd, b, hb, rfl, rfl⟩

theorem mem_classNames_of_extends {n b : String} (he : Extends p.edges n b) :
    n ∈ p.classNames := by
  obtain ⟨d, hd, rfl, -⟩ := extends_edges.mp he
  exact List.mem_map_of_mem hd

namespace Made

theorem extends_edges_cases (h : Made o rules order p) (hc : Chained rules) {n b : String}
    (he : Extends p.edges n b) :
    n = modelBase ∧ b = o.rootType.name ∨ n ≠ modelBase ∧ Extends (edgesOf rules) n b := by
  obtain ⟨d, hd, rfl, hb⟩ := extends_edges.mp he
  obtain ⟨c, hbase, hroot | hup⟩ := h.base_of_mem hc hd
  · rw [hb] at hbase
    cases hbase
    exact .inl hroot
  · rw [hb] at hbase
    cases hbase
    exact .inr ⟨fun hname => h.not_extends_modelBase hc b (hname ▸ hup), hup⟩

theorem extends_edges_modelBase (h : Made o rules order p) (hc : Chained rules) {b : String}
    (he : Extends p.edges modelBase b) : b = o.rootType.name := by
  rcases h.extends_edges_cases hc he with ⟨-, hb⟩ | ⟨hne, -⟩
  · exact hb
  · exact absurd rfl hne

theorem before_of_extends (h : Made o rules order p) (hc : Chained rules) {n b : String}
    (he : Extends p.edges n b) (hne : n ≠ modelBase) (hb : b ∈ p.classNames) :
    Before p.classNames b n := by
  rcases h.extends_edges_cases hc he with ⟨heq, -⟩ | ⟨-, hup⟩
  · exact absurd heq hne
  · have hfree : ¬ Taken o b := ((h.mem_classNames hc b).mp hb).2
    exact h.before_classNames (mem_classNames_of_extends he) hup hfree

theorem rootName_mem_classNames (h : Made o rules order p) (hc : Chained rules) :
    o.rootType.name ∈ p.classNames ↔ o.rootType.module = "" ∧
      o.target.isBuiltin o.rootType.name = false ∧ IsClass rules o.rootType.name := by
  rw [h.mem_classNames hc, not_taken_rootName, and_comm, and_assoc]

/-- With the common class out of the way every base stands before what extends it. -/
theorem acyclic_below (h : Made o rules order p) (hc : Chained rules) :
    Acyclic (p.edges.filter fun e => e.name ≠ modelBase) := by
  have hboth : ∀ n b, Extends (p.edges.filter fun e => e.name ≠ modelBase) n b →
      Extends p.edges n b ∧ n ≠ modelBase := by
    intro n b he
    obtain ⟨he, hne⟩ := List.mem_filter.mp he
    exact ⟨he, by simpa using hne⟩
  refine acyclic_of_before (fun n b he => mem_classNames_of_extends (hboth n b he).1) ?_
  intro n b he
  exact h.before_of_extends hc (hboth n b he).1 (hboth n b he).2

theorem acyclic_of_notMem (h : Made o rules order p) (hc : Chained rules)
    (hroot : o.rootType.name ∉ p.classNames) : Acyclic p.edges := by
  refine acyclic_of_before (fun n b => mem_classNames_of_extends) fun n b he hb => ?_
  by_cases hn : n = modelBase
  · subst hn
    exact absurd (h.extends_edges_modelBase hc he ▸ hb) hroot
  · exact h.before_of_extends hc he hn hb

end Made

/-- **When the root type's name is declared again.** A class of that name is declared
exactly when the root type is in scope without an import and the name is no built-in. Where
none is, the common class extends no class of the plan, and the bases never come back to a
class. In any case they only do so by way of the common class. -/
theorem root_name_declared_iff (h : ofGrammar o g = .ok p) :
    (o.rootType.name ∈ p.classNames ↔ o.rootType.module = "" ∧
      o.target.isBuiltin o.rootType.name = false ∧
      IsClass (g.classRules o.target.identifier) o.rootType.name) ∧
    (o.rootType.name ∉ p.classNames →
      (∀ b, Extends p.edges modelBase b → b ∉ p.classNames) ∧ Acyclic p.edges) ∧
    Acyclic (p.edges.filter fun e => e.name ≠ modelBase) := by
  obtain ⟨order, hm⟩ := made_of_ofGrammar h
  have hc := chained_classRules o.target.identifier g
  refine ⟨hm.rootName_mem_classNames hc, fun hout => ⟨fun b he => ?_, ?_⟩, hm.acyclic_below hc⟩
  · rw [hm.extends_edges_modelBase hc he]
    exact hout
  · exact hm.acyclic_of_notMem hc hout

unseal ClassOrder.run in
/-- The root type is imported, and a chain goes through its name. -/
theorem root_name_declared_of_import :
    ∃ p, ofGrammar ⟨.python, ⟨"ast", "Node"⟩, none, false⟩
        ⟨"calc", [⟨"add", [.string "Add::Node::Op"], .void⟩]⟩ = .ok p ∧
      "Node" ∉ p.classNames ∧
      (∀ b, Extends p.edges modelBase b → b ∉ p.classNames) ∧ Acyclic p.edges := by
  have h : ofGrammar ⟨.python, ⟨"ast", "Node"⟩, none, false⟩
      ⟨"calc", [⟨"add", [.string "Add::Node::Op"], .void⟩]⟩ =
      .ok ⟨"calc", ⟨"ast", "Node"⟩, [.base "ModelBase" (some "Node"),
        .base "Op" (some "ModelBase"), .rule "Add" "Node" "add" []]⟩ := by rfl
  obtain ⟨hiff, hrest, -⟩ := root_name_declared_iff h
  have hout := mt hiff.mp (by decide)
  exact ⟨_, h, hout, hrest hout⟩

unseal ClassOrder.run in
/-- The root type is in scope as `Node`, and a rule has a class of that name. -/
theorem root_name_declared_twice :
    ∃ root p, RootType.ofPath Target.python.separator "Node" = .ok root ∧
      ofGrammar ⟨.python, root, none, true⟩ ⟨"calc", [⟨"num", [.string "Node"], .void⟩]⟩ =
        .ok p ∧
      root.name ∈ p.classNames ∧ OnCycle p.edges modelBase := by
  refine ⟨⟨"", "Node"⟩, ⟨"calc", ⟨"", "Node"⟩,
    [.base "ModelBase" (some "Node"), .rule "Node" "ModelBase" "num" []]⟩, ?_, ?_, ?_, ?_⟩
  · decide
  · rfl
  · decide
  · exact .tail (b := "Node") (.single (by decide)) (by decide)

end Plan

end RuleClasses
