import RuleClasses.Proofs.Annotations

/-! Rules of one name. Among the rules with a class those of one name count as one: the last
of them, at the place of the first. A rule without a class has no part in this, whatever its
name. So a grammar can be cut down to the rules that count, and its plan stays the same. -/

namespace RuleClasses

/-! ## Keys in the order of their first entries -/

namespace Keyed

universe u v

variable {κ : Type u} {α : Type v} [DecidableEq κ]

theorem ofList_append_singleton (entries : List (κ × α)) (e : κ × α) :
    ofList (entries ++ [e]) = put e.1 e.2 (ofList entries) := by
  rw [ofList, List.foldl_append]
  rfl

theorem keys_ofList (entries : List (κ × α)) :
    keys (ofList entries) = (keys entries).eraseDups := by
  induction entries using List.reverseRecOn with
  | nil => rfl
  | append_singleton entries e ih =>
    have hkeys : keys (entries ++ [e]) = keys entries ++ [e.1] := List.map_append
    rw [ofList_append_singleton, keys_put, ih, hkeys, eraseDups_append_singleton]
    simp only [List.mem_eraseDups]

end Keyed

/-! ## The rules that count -/

theorem chainEdges_ne_nil {names : List String} (h : names ≠ []) : chainEdges names ≠ [] := by
  intro hnil
  rw [← map_name_chainEdges names, hnil] at h
  exact h rfl

/-- A text in front of the parameters always gives the rule a class. -/
theorem map_rule_ofRule? (safe : String → String) (r : Rule) :
    (ClassRule.ofRule? safe r).map ClassRule.rule =
      Option.guard (fun r : Rule => r.classPath?.isSome) r := by
  by_cases hr : r.classPath?.isSome
  · obtain ⟨path, hpath⟩ := Option.isSome_iff_exists.mp hr
    have hclasses : r.classes safe = chainNames safe path := by rw [Rule.classes, hpath]; rfl
    have hne : r.edges safe ≠ [] := by
      rw [Rule.edges_eq_chainEdges, hclasses]
      exact chainEdges_ne_nil (by simp [chainNames, Text.segments_ne_nil])
    cases hedges : r.edges safe with
    | nil => exact absurd hedges hne
    | cons leaf above => simp [ClassRule.ofRule?, hedges, Option.guard, hr]
  · rw [ofRule?_of_annotated hr, Option.guard, if_neg hr]
    rfl

namespace Grammar

variable (safe : String → String) (g : Grammar)

/-- The last rule of that name that has a class. -/
def lastNamed? (n : String) : Option Rule := g.annotated.findRev? fun r => r.name = n

/-- Only the rules that count, each once. -/
def effective : Grammar := { g with rules := (g.classRules safe).map ClassRule.rule }

theorem map_rule_filterMap :
    (g.rules.filterMap (ClassRule.ofRule? safe)).map ClassRule.rule = g.annotated := by
  rw [List.map_filterMap, annotated, ← List.filterMap_eq_filter]
  exact List.filterMap_congr fun r _ => map_rule_ofRule? safe r

theorem names_classRules :
    (g.classRules safe).map (fun c => c.rule.name) = (g.annotated.map Rule.name).eraseDups := by
  have hentry : ∀ e ∈ Keyed.ofList ((g.rules.filterMap (ClassRule.ofRule? safe)).map
      fun c => (c.rule.name, c)), e.2.rule.name = e.1 := by
    intro e he
    obtain ⟨c, -, rfl⟩ := List.mem_map.mp (Keyed.mem_of_mem_ofList he)
    rfl
  calc (g.classRules safe).map (fun c => c.rule.name)
      = Keyed.keys (Keyed.ofList ((g.rules.filterMap (ClassRule.ofRule? safe)).map
          fun c => (c.rule.name, c))) := by
        rw [classRules, Keyed.values, List.map_map]
        exact List.map_congr_left hentry
    _ = (((g.rules.filterMap (ClassRule.ofRule? safe)).map ClassRule.rule).map
          Rule.name).eraseDups := by
        rw [Keyed.keys_ofList, Keyed.keys, List.map_map, List.map_map]
        rfl
    _ = (g.annotated.map Rule.name).eraseDups := by rw [map_rule_filterMap]

variable {safe g}

theorem lastNamed?_of_mem {c : ClassRule} (h : c ∈ g.classRules safe) :
    g.lastNamed? c.rule.name = some c.rule := by
  obtain ⟨e, he, rfl⟩ := List.mem_map.mp h
  have hfound := Keyed.get?_of_mem (Keyed.nodup_keys_ofList _) he
  obtain ⟨c, -, rfl⟩ := List.mem_map.mp (Keyed.mem_of_mem_ofList he)
  rw [Keyed.get?_ofList_map (fun c : ClassRule => c.rule.name) (fun c => c),
    Option.map_id'] at hfound
  rw [lastNamed?, ← map_rule_filterMap safe g, findRev?_map, hfound]
  rfl

theorem ofRule?_of_mem {c : ClassRule} (h : c ∈ g.classRules safe) :
    ClassRule.ofRule? safe c.rule = some c := by
  obtain ⟨r, -, hr⟩ := mem_classRules h
  rwa [rule_of_ofRule? hr]

theorem classRules_congr {h : Grammar} (hannotated : h.annotated = g.annotated) :
    h.classRules safe = g.classRules safe := by
  rw [classRules, classRules, ← filterMap_annotated, ← filterMap_annotated, hannotated]

theorem classRules_effective : (g.effective safe).classRules safe = g.classRules safe := by
  have hnames : ((g.effective safe).rules.map Rule.name).Nodup := by
    rw [effective, List.map_map]
    exact (names_classRules safe g) ▸ nodup_eraseDups _
  rw [classRules_of_nodup hnames, effective, List.filterMap_map]
  exact (List.filterMap_congr fun c hc => ofRule?_of_mem hc).trans List.filterMap_some

end Grammar

namespace Plan

theorem ofGrammar_congr {o : Options} {g h : Grammar} (hname : h.name = g.name)
    (hrules : h.classRules o.target.identifier = g.classRules o.target.identifier) :
    ofGrammar o h = ofGrammar o g := by
  rw [ofGrammar, ofGrammar, hname, hrules]

end Plan

/-! ## Main result -/

namespace Grammar

/-- **Of the rules of one name the last one counts, at the place of the first.** There is one
entry for each name of a rule with a class, in the order in which these names come up, and it
has the rule and the chain of the last such rule. A rule without a class changes nothing. With
only these entries for its rules a grammar has the same plan, or fails alike, and it cannot be
cut down any further. -/
theorem last_of_each_name (o : Options) (g : Grammar) :
    (g.classRules o.target.identifier).map (fun c => c.rule.name) =
      (g.annotated.map Rule.name).eraseDups ∧
    (∀ c ∈ g.classRules o.target.identifier,
      g.lastNamed? c.rule.name = some c.rule ∧ c.edges = c.rule.edges o.target.identifier) ∧
    (∀ (before after : List Rule) (r : Rule), g.rules = before ++ r :: after →
      r.classPath? = none →
      ({ g with rules := before ++ after } : Grammar).classRules o.target.identifier =
        g.classRules o.target.identifier) ∧
    Plan.ofGrammar o (g.effective o.target.identifier) = Plan.ofGrammar o g ∧
    (g.effective o.target.identifier).effective o.target.identifier =
      g.effective o.target.identifier := by
  refine ⟨names_classRules _ g, fun c hc => ⟨lastNamed?_of_mem hc, edges_of_mem_classRules hc⟩,
    fun before after r hrules hr => classRules_congr ?_,
    Plan.ofGrammar_congr rfl classRules_effective, ?_⟩
  · simp [annotated, hrules, hr]
  · rw [effective, classRules_effective]
    rfl

/-- The class of `add` is `Add`, the last one, and it comes before that of `num`. The rule of
that name without a class is of no account. -/
theorem last_of_each_name_of_add :
    ∃ rules, Grammar.classRules Target.python.identifier
        ⟨"calc", [⟨"add", [.string "Sum"], .void⟩, ⟨"num", [.string "Num"], .void⟩,
          ⟨"add", [.string "Add::Op"], .bind false "left" .void⟩,
          ⟨"add", [.null, .string "Sum"], .void⟩]⟩ = rules ∧
      Grammar.classRules Target.python.identifier
        ⟨"calc", [⟨"add", [.string "Sum"], .void⟩, ⟨"num", [.string "Num"], .void⟩,
          ⟨"add", [.string "Add::Op"], .bind false "left" .void⟩]⟩ = rules ∧
      rules.map (fun c => c.rule.name) = ["add", "num"] ∧
      ∃ c ∈ rules, c.leaf = ⟨"Add", "Op"⟩ ∧
        Grammar.lastNamed? ⟨"calc", [⟨"add", [.string "Sum"], .void⟩,
          ⟨"num", [.string "Num"], .void⟩,
          ⟨"add", [.string "Add::Op"], .bind false "left" .void⟩,
          ⟨"add", [.null, .string "Sum"], .void⟩]⟩ "add" = some c.rule := by
  obtain ⟨hnames, hlast, hplain, -, -⟩ := last_of_each_name
    ⟨.python, ⟨"ast", "Node"⟩, none, false⟩
    ⟨"calc", [⟨"add", [.string "Sum"], .void⟩, ⟨"num", [.string "Num"], .void⟩,
      ⟨"add", [.string "Add::Op"], .bind false "left" .void⟩,
      ⟨"add", [.null, .string "Sum"], .void⟩]⟩
  have hrules : Grammar.classRules Target.python.identifier
      ⟨"calc", [⟨"add", [.string "Sum"], .void⟩, ⟨"num", [.string "Num"], .void⟩,
        ⟨"add", [.string "Add::Op"], .bind false "left" .void⟩,
        ⟨"add", [.null, .string "Sum"], .void⟩]⟩ =
      [⟨⟨"add", [.string "Add::Op"], .bind false "left" .void⟩, ⟨"Add", "Op"⟩,
        [⟨"Op", "ModelBase"⟩]⟩, ⟨⟨"num", [.string "Num"], .void⟩, ⟨"Num", "ModelBase"⟩, []⟩] := by
    rfl
  refine ⟨_, rfl, hplain [_, _, _] [] ⟨"add", [.null, .string "Sum"], .void⟩ rfl rfl,
    hnames.trans (by decide), ?_⟩
  rw [hrules] at hlast ⊢
  exact ⟨_, List.mem_cons_self, rfl, (hlast _ List.mem_cons_self).1⟩

end Grammar

end RuleClasses
