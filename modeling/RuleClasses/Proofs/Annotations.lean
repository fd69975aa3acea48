import RuleClasses.Generation
import RuleClasses.Proofs.Bindings
import RuleClasses.Proofs.Declarations
import Mathlib.Data.List.Forall2
import Mathlib.Data.Set.Image

/-! What a plan takes from a grammar. Only rules with a class count, and of each of them the
name, the classes in its path and the safe forms of the names that its body binds. Nothing
else shows in a plan or in a file. The names of the rules themselves only tell rules apart:
other names that do the same change nothing but what the plan says of the rules. -/

namespace RuleClasses

open scoped Relator

/-! ## Outlines of rules -/

/-- All that is taken from a rule with a class. -/
@[ext]
structure RuleOutline where
  name : String
  chain : Option (List String)
  attributes : Set String

def RuleOutline.rename (f : String → String) (l : RuleOutline) : RuleOutline :=
  { l with name := f l.name }

def Rule.outline (safe : String → String) (r : Rule) : RuleOutline where
  name := r.name
  chain := r.classPath?.map (chainNames safe)
  attributes := safe '' {n | r.body.Binds n}

/-- The rules with a text in front of their parameters. -/
def Grammar.annotated (g : Grammar) : List Rule := g.rules.filter fun r => r.classPath?.isSome

def Rule.rename (f : String → String) (r : Rule) : Rule := { r with name := f r.name }

def Grammar.renameRules (f : String → String) (g : Grammar) : Grammar :=
  { g with rules := g.rules.map (Rule.rename f) }

def Decl.renameRule (f : String → String) : Decl → Decl
  | .rule n b r attributes => .rule n b (f r) attributes
  | .base n b => .base n b

def Plan.renameRules (f : String → String) (p : Plan) : Plan :=
  { p with decls := p.decls.map (Decl.renameRule f) }

theorem Decl.renameRule_id (d : Decl) : d.renameRule id = d := by
  cases d <;> rfl

theorem Plan.renameRules_id (p : Plan) : p.renameRules id = p := by
  have hid : p.decls.map (Decl.renameRule id) = p.decls :=
    (List.map_congr_left fun d _ => d.renameRule_id).trans (List.map_id _)
  rw [renameRules, hid]

theorem Grammar.annotated_renameRules (f : String → String) (g : Grammar) :
    (g.renameRules f).annotated = g.annotated.map (Rule.rename f) := by
  rw [annotated, renameRules, List.filter_map]
  rfl

variable {safe f : String → String}

/-- Strictly increasing lists with the same members are the same. -/
theorem eq_of_pairwise_lt {l m : List String} (hl : l.Pairwise (· < ·)) (hm : m.Pairwise (· < ·))
    (h : ∀ n, n ∈ l ↔ n ∈ m) : l = m := by
  have hne : ∀ a b : String, a < b → a ≠ b := fun a b hab he => String.lt_irrefl b (he ▸ hab)
  have hperm : l.Perm m :=
    (List.perm_ext_iff_of_nodup (hl.imp fun {a b} => hne a b) (hm.imp fun {a b} => hne a b)).mpr h
  exact hperm.eq_of_pairwise (fun a b _ _ hab hba => absurd hba (String.lt_asymm hab)) hl hm

theorem Rule.attributes_outline (safe : String → String) (r : Rule) :
    (r.outline safe).attributes = {a | a ∈ r.attributes safe} :=
  Set.ext fun _ => mem_attributes.symm

theorem Rule.attributes_eq {r s : Rule}
    (h : (s.outline safe).attributes = (r.outline safe).attributes) :
    s.attributes safe = r.attributes safe := by
  rw [attributes_outline, attributes_outline] at h
  exact eq_of_pairwise_lt (Text.pairwise_sortNames _) (Text.pairwise_sortNames _) (Set.ext_iff.mp h)

theorem Rule.outline_eq {r s : Rule} (hname : s.name = r.name)
    (hchain : s.classPath?.map (chainNames safe) = r.classPath?.map (chainNames safe))
    (hattributes : s.attributes safe = r.attributes safe) : s.outline safe = r.outline safe := by
  have hset : (s.outline safe).attributes = (r.outline safe).attributes := by
    rw [attributes_outline, attributes_outline, hattributes]
  exact RuleOutline.ext hname hchain hset

/-! ## Rules with classes -/

/-- The same classes under another name of the rule. -/
structure SameClasses (safe f : String → String) (c d : ClassRule) : Prop where
  name : d.rule.name = f c.rule.name
  leaf : d.leaf = c.leaf
  above : d.above = c.above
  attributes : d.rule.attributes safe = c.rule.attributes safe

theorem Rule.edges_eq {r s : Rule} (h : (s.outline safe).chain = (r.outline safe).chain) :
    s.edges safe = r.edges safe := by
  have hedges : ∀ t : Rule, t.edges safe = ((t.outline safe).chain.map chainEdges).getD [] := by
    intro t
    unfold edges outline
    cases t.classPath? <;> rfl
  rw [hedges, hedges, h]

theorem sameClasses_of_outline {r s : Rule} (h : s.outline safe = (r.outline safe).rename f) :
    Option.Rel (SameClasses safe f) (ClassRule.ofRule? safe r) (ClassRule.ofRule? safe s) := by
  have hname : s.name = f r.name := congrArg RuleOutline.name h
  have hedges : s.edges safe = r.edges safe := Rule.edges_eq (by rw [h]; rfl)
  have hattributes : s.attributes safe = r.attributes safe := Rule.attributes_eq (by rw [h]; rfl)
  unfold ClassRule.ofRule?
  rw [hedges]
  cases r.edges safe with
  | nil => exact .none
  | cons leaf above => exact .some ⟨hname, rfl, rfl, hattributes⟩

theorem ofRule?_of_annotated {r : Rule} (h : ¬ r.classPath?.isSome) :
    ClassRule.ofRule? safe r = none := by
  have hnone : r.classPath? = none := by simpa using h
  simp [ClassRule.ofRule?, Rule.edges, hnone]

/-- Rules without a class do not count. -/
theorem filterMap_annotated (safe : String → String) (g : Grammar) :
    g.annotated.filterMap (ClassRule.ofRule? safe) =
      g.rules.filterMap (ClassRule.ofRule? safe) := by
  rw [Grammar.annotated, List.filterMap_filter]
  refine List.filterMap_congr fun r _ => ?_
  split
  · rfl
  · rename_i hr
    exact (ofRule?_of_annotated hr).symm

/-! ## Entries side by side -/

namespace Keyed

universe u v w

variable {κ : Type u} {α : Type v} {β : Type w} [DecidableEq κ] {f : κ → κ} {S : α → β → Prop}

/-- One entry has the key of the other under its new name, and a value that goes with
the other value. -/
def Renamed (f : κ → κ) (S : α → β → Prop) (d : κ × α) (e : κ × β) : Prop :=
  e.1 = f d.1 ∧ S d.2 e.2

/-- Two keys are one when their new names are. -/
theorem forall₂_put (hf : f.Injective) {l : List (κ × α)} {m : List (κ × β)}
    (h : List.Forall₂ (Renamed f S) l m) {d : κ × α} {e : κ × β} (hde : Renamed f S d e) :
    List.Forall₂ (Renamed f S) (put d.1 d.2 l) (put e.1 e.2 m) := by
  induction h with
  | nil => exact .cons hde .nil
  | @cons a b l m hab hrest ih =>
    have hkey : b.1 = e.1 ↔ a.1 = d.1 := by rw [hab.1, hde.1, hf.eq_iff]
    by_cases h : a.1 = d.1
    · rw [put, put, if_pos h, if_pos (hkey.mpr h)]
      exact .cons ⟨hab.1, hde.2⟩ hrest
    · rw [put, put, if_neg h, if_neg (mt hkey.mp h)]
      exact .cons hab ih

theorem forall₂_ofList (hf : f.Injective) {l : List (κ × α)} {m : List (κ × β)}
    (h : List.Forall₂ (Renamed f S) l m) :
    List.Forall₂ (Renamed f S) (ofList l) (ofList m) := by
  have hstep : (List.Forall₂ (Renamed f S) ⇒ Renamed f S ⇒ List.Forall₂ (Renamed f S))
      (fun l e => put e.1 e.2 l) fun m e => put e.1 e.2 m :=
    fun _ _ hlm _ _ hde => forall₂_put hf hlm hde
  exact List.rel_foldl hstep .nil h

end Keyed

theorem forall₂_findRev? {α : Type*} {β : Type*} {R : α → β → Prop} {p : α → Bool} {q : β → Bool}
    (hpq : ∀ a b, R a b → p a = q b) {l : List α} {m : List β} (h : List.Forall₂ R l m) :
    Option.Rel R (l.findRev? p) (m.findRev? q) := by
  induction h with
  | nil => exact .none
  | @cons a b l m hab hrest ih =>
    rw [List.findRev?, List.findRev?]
    generalize l.findRev? p = x at ih ⊢
    generalize m.findRev? q = y at ih ⊢
    cases ih with
    | some h => exact .some h
    | none =>
      rw [hpq a b hab]
      cases q b with
      | true => exact .some hab
      | false => exact .none

/-! ## Plans and files -/

variable {g h : Grammar} {o : Options}

theorem forall₂_classRules (hf : f.Injective)
    (hout : List.Forall₂ (fun r s => s.outline safe = (r.outline safe).rename f)
      g.annotated h.annotated) :
    List.Forall₂ (SameClasses safe f) (g.classRules safe) (h.classRules safe) := by
  have hrules : List.Forall₂ (SameClasses safe f) (g.rules.filterMap (ClassRule.ofRule? safe))
      (h.rules.filterMap (ClassRule.ofRule? safe)) := by
    rw [← filterMap_annotated, ← filterMap_annotated]
    exact List.rel_filterMap (fun _ _ hrs => sameClasses_of_outline hrs) hout
  refine List.rel_map (fun _ _ he => he.2) (Keyed.forall₂_ofList hf ?_)
  exact List.rel_map (fun _ _ hcd => ⟨hcd.name, hcd⟩) hrules

theorem edgesOf_eq {rules others : List ClassRule}
    (hrules : List.Forall₂ (SameClasses safe f) rules others) : edgesOf others = edgesOf rules := by
  induction hrules with
  | nil => rfl
  | cons hcd _ ih =>
    rw [edgesOf, edgesOf, List.flatMap_cons, List.flatMap_cons, ClassRule.edges, ClassRule.edges,
      hcd.leaf, hcd.above]
    exact congrArg _ ih

namespace Plan

theorem bases_eq {rules others : List ClassRule} (h : edgesOf others = edgesOf rules)
    (root : String) : bases root others = bases root rules := by
  have hedges : others.flatMap ClassRule.edges = rules.flatMap ClassRule.edges := h
  rw [bases, bases, hedges]

theorem declare_eq {rules others : List ClassRule}
    (hrules : List.Forall₂ (SameClasses safe f) rules others) (bases : List (String × String))
    (n : String) :
    declare safe bases (leaves others) n = (declare safe bases (leaves rules) n).renameRule f := by
  have hleaf : Option.Rel (SameClasses safe f) (Keyed.get? n (leaves rules))
      (Keyed.get? n (leaves others)) := by
    rw [get?_leaves, get?_leaves]
    refine forall₂_findRev? (fun c d hcd => ?_) hrules
    rw [hcd.leaf]
  unfold declare
  generalize Keyed.get? n (leaves rules) = x at hleaf ⊢
  generalize Keyed.get? n (leaves others) = y at hleaf ⊢
  cases hleaf with
  | none => rfl
  | @some c d hcd =>
    simp only [Decl.renameRule, hcd.leaf, hcd.name, hcd.attributes]

theorem declaring_eq (hname : h.name = g.name)
    (hrules : List.Forall₂ (SameClasses o.target.identifier f)
      (g.classRules o.target.identifier) (h.classRules o.target.identifier))
    (names : List String) : declaring o h names = (declaring o g names).renameRules f := by
  rw [declaring, declaring, renameRules, hname, bases_eq (edgesOf_eq hrules), List.map_map]
  refine congrArg _ (List.map_congr_left fun n _ => ?_)
  exact declare_eq hrules _ n

theorem ofGrammar_eq (hname : h.name = g.name)
    (hrules : List.Forall₂ (SameClasses o.target.identifier f)
      (g.classRules o.target.identifier) (h.classRules o.target.identifier)) :
    ofGrammar o h = (ofGrammar o g).map (renameRules f) := by
  have horder : orderOf o.rootType.name (h.classRules o.target.identifier) =
      orderOf o.rootType.name (g.classRules o.target.identifier) := by
    rw [orderOf, orderOf, bases_eq (edgesOf_eq hrules), edgesOf_eq hrules]
  cases hg : orderOf o.rootType.name (g.classRules o.target.identifier) with
  | error left =>
    rw [ofGrammar_of_cycle hg, ofGrammar_of_cycle (horder.trans hg)]
    rfl
  | ok order =>
    rw [ofGrammar_of_order hg, ofGrammar_of_order (horder.trans hg)]
    cases declarable o order with
    | error e => rfl
    | ok names => exact congrArg Except.ok (declaring_eq hname hrules names)

theorem classNames_renameRules (f : String → String) (p : Plan) :
    (p.renameRules f).classNames = p.classNames := by
  rw [classNames, renameRules, List.map_map]
  refine List.map_congr_left fun d _ => ?_
  cases d <;> rfl

theorem declaration_renameRule (t : Target) (f : String → String) (d : Decl) :
    t.declaration (d.renameRule f) = t.declaration d := by
  cases d <;> rfl

/-- No name of a rule stands in a file. -/
theorem render_renameRules (t : Target) (f : String → String) (p : Plan) :
    (p.renameRules f).render t = p.render t := by
  have hhead : t.preamble (p.renameRules f) = t.preamble p := by
    cases t with
    | python => rfl
    | rust =>
      rw [Target.preamble, Target.preamble, Emit.Structs.preamble, Emit.Structs.preamble,
        classNames_renameRules]
      rfl
  have hdecls : (p.renameRules f).decls.flatMap t.declaration = p.decls.flatMap t.declaration := by
    rw [renameRules, List.flatMap_map]
    exact List.flatMap_congr fun d _ => declaration_renameRule t f d
  rw [render, render, hhead, hdecls]

end Plan

namespace Config

/-- Both the plan and the file follow the outlines, up to the names of the rules. -/
theorem plan_and_source_of_outlines (c : Config) (hf : f.Injective) (hname : h.name = g.name)
    (hout : List.Forall₂ (fun r s => s.outline c.target.identifier =
      (r.outline c.target.identifier).rename f) g.annotated h.annotated) :
    c.plan h = (c.plan g).map (Plan.renameRules f) ∧ c.source h = c.source g := by
  unfold plan source Grammar.source
  cases hc : c.options with
  | error e => exact ⟨rfl, rfl⟩
  | ok o =>
    rw [← target_of_options hc] at hout
    have hplan : Plan.ofGrammar o h = (Plan.ofGrammar o g).map (Plan.renameRules f) :=
      Plan.ofGrammar_eq hname (forall₂_classRules hf hout)
    have hsource : (Plan.ofGrammar o h).map (fun p => p.render o.target) =
        (Plan.ofGrammar o g).map fun p => p.render o.target := by
      rw [hplan]
      cases Plan.ofGrammar o g with
      | error e => rfl
      | ok p => exact congrArg Except.ok (p.render_renameRules _ _)
    exact ⟨hplan, hsource⟩

/-- **Only the outlines of the rules with a class count.** Grammars of one name in which
these rules have the same outlines one after the other have the same plan, or fail alike,
and the same file. Other names that keep the rules apart change nothing but the names of the
rules in the plan. -/
theorem outlines_decide (c : Config) (g : Grammar) :
    (∀ h : Grammar, h.name = g.name →
      h.annotated.map (Rule.outline c.target.identifier) =
        g.annotated.map (Rule.outline c.target.identifier) →
      c.plan h = c.plan g ∧ c.source h = c.source g) ∧
    ∀ f : String → String, f.Injective →
      c.plan (g.renameRules f) = (c.plan g).map (Plan.renameRules f) ∧
      c.source (g.renameRules f) = c.source g := by
  constructor
  · intro h hname hout
    have hboth : List.Forall₂ (fun r s : Rule => s.outline c.target.identifier =
        (r.outline c.target.identifier).rename id) g.annotated h.annotated := by
      rw [← List.forall₂_eq_eq_eq, List.forall₂_map_left_iff, List.forall₂_map_right_iff] at hout
      exact hout.flip
    obtain ⟨hplan, hsource⟩ := plan_and_source_of_outlines c Function.injective_id hname hboth
    refine ⟨hplan.trans ?_, hsource⟩
    cases c.plan g with
    | error e => rfl
    | ok p => exact congrArg Except.ok p.renameRules_id
  · intro f hf
    refine plan_and_source_of_outlines c hf rfl ?_
    rw [Grammar.annotated_renameRules, List.forall₂_map_right_iff]
    exact List.forall₂_same.mpr fun r _ => rfl

unseal ClassOrder.run in
/-- These grammars differ in all that does not count: in rules without a class, in a path
that becomes the same one, in more parameters, and in what is bound twice, as a list or where
it is hidden. -/
theorem outlines_decide_of_other_rules :
    ∃ p, ({} : Config).plan ⟨"calc", [⟨"num", [.string "class::C"],
          .sequence [.bind false "v" .void, .bind false "v" .void]⟩, ⟨"ws", [], .void⟩]⟩ = .ok p ∧
      p.decls = [.base "ModelBase" (some "Node"), .base "C" (some "ModelBase"),
        .rule "class_" "C" "num" ["v"]] ∧
      ({} : Config).plan ⟨"calc", [⟨"skip", [.null], .void⟩,
        ⟨"num", [.string "class_::C", .string "D"], .sequence
          [.wrap .override (.bind false "w" .void), .bind true "v" .void]⟩]⟩ = .ok p ∧
      ({} : Config).plan ⟨"calc", [⟨"a_num", [.string "class::C"],
          .sequence [.bind false "v" .void, .bind false "v" .void]⟩, ⟨"a_ws", [], .void⟩]⟩ =
        .ok (p.renameRules ("a_" ++ ·)) := by
  have hc : ({} : Config).options = .ok ⟨.python, ⟨"tatsu.objectmodel", "Node"⟩, none, false⟩ := by
    decide
  have h : Plan.ofGrammar ⟨.python, ⟨"tatsu.objectmodel", "Node"⟩, none, false⟩
      ⟨"calc", [⟨"num", [.string "class::C"],
        .sequence [.bind false "v" .void, .bind false "v" .void]⟩, ⟨"ws", [], .void⟩]⟩ =
      .ok ⟨"calc", ⟨"tatsu.objectmodel", "Node"⟩, [.base "ModelBase" (some "Node"),
        .base "C" (some "ModelBase"), .rule "class_" "C" "num" ["v"]]⟩ := by rfl
  have hp : ({} : Config).plan ⟨"calc", [⟨"num", [.string "class::C"],
      .sequence [.bind false "v" .void, .bind false "v" .void]⟩, ⟨"ws", [], .void⟩]⟩ =
      .ok ⟨"calc", ⟨"tatsu.objectmodel", "Node"⟩, [.base "ModelBase" (some "Node"),
        .base "C" (some "ModelBase"), .rule "class_" "C" "num" ["v"]]⟩ := by
    rw [plan, hc]
    exact h
  have hf : Function.Injective fun s : String => "a_" ++ s := by
    intro s t hst
    exact String.toList_inj.mp (by simpa using congrArg String.toList hst)
  obtain ⟨hsame, hrename⟩ := outlines_decide {} ⟨"calc", [⟨"num", [.string "class::C"],
    .sequence [.bind false "v" .void, .bind false "v" .void]⟩, ⟨"ws", [], .void⟩]⟩
  have hother := (hsame ⟨"calc", [⟨"skip", [.null], .void⟩,
    ⟨"num", [.string "class_::C", .string "D"], .sequence
      [.wrap .override (.bind false "w" .void), .bind true "v" .void]⟩]⟩ rfl
    (congrArg (fun l => [l]) (Rule.outline_eq rfl (by decide) (by decide)))).1
  have hrenamed := (hrename _ hf).1
  simp only [Grammar.renameRules, List.map_cons, List.map_nil, Rule.rename,
    String.reduceAppend] at hrenamed
  exact ⟨_, hp, rfl, hother.trans hp, hrenamed.trans (congrArg _ hp)⟩

end Config

end RuleClasses
