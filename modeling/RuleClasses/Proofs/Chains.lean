import RuleClasses.Proofs.Hierarchy

/-! Chains of classes. The base in each edge of a chain is the class of the next edge,
and the last base is the class above all chains. -/

namespace RuleClasses

/-- All edges of rules with classes, rule after rule. -/
abbrev edgesOf (rules : List ClassRule) : List Edge := rules.flatMap ClassRule.edges

theorem leaf_mem_edgesOf {rules : List ClassRule} {c : ClassRule} (h : c ∈ rules) :
    c.leaf ∈ edgesOf rules := List.mem_flatMap.mpr ⟨c, h, List.mem_cons_self⟩

/-- The classes in the chains of the rules, and the class above them all. -/
def IsClass (rules : List ClassRule) (name : String) : Prop :=
  name = modelBase ∨ ∃ e ∈ edgesOf rules, e.name = name

instance (rules : List ClassRule) (name : String) : Decidable (IsClass rules name) :=
  inferInstanceAs (Decidable (_ ∨ _))

/-- The edges of every rule are those of a chain. -/
def Chained (rules : List ClassRule) : Prop :=
  ∀ c ∈ rules, ∃ names, c.edges = chainEdges names

/-- The classes in the path of the rule, its own class first. -/
def Rule.classes (safe : String → String) (r : Rule) : List String :=
  (r.classPath?.map (chainNames safe)).getD []

theorem Rule.edges_eq_chainEdges (safe : String → String) (r : Rule) :
    r.edges safe = chainEdges (r.classes safe) := by
  unfold edges classes
  cases r.classPath? <;> rfl

theorem map_name_chainEdges (names : List String) : (chainEdges names).map Edge.name = names := by
  fun_induction chainEdges names with
  | case1 => rfl
  | case2 n => rfl
  | case3 n m rest ih => rw [List.map_cons, ih]

theorem exists_mem_chainEdges {names : List String} {n : String} :
    (∃ e ∈ chainEdges names, e.name = n) ↔ n ∈ names := by
  rw [← List.mem_map, map_name_chainEdges]

theorem base_mem_chainEdges {names : List String} {e : Edge} (h : e ∈ chainEdges names) :
    e.base = modelBase ∨ ∃ f ∈ chainEdges names, f.name = e.base := by
  fun_induction chainEdges names with
  | case1 => cases h
  | case2 n =>
    obtain rfl := List.mem_singleton.mp h
    exact .inl rfl
  | case3 n m rest ih =>
    rcases List.mem_cons.mp h with rfl | h
    · obtain ⟨f, hf, hname⟩ := exists_mem_chainEdges.mpr (List.mem_cons_self (a := m) (l := rest))
      exact .inr ⟨f, List.mem_cons_of_mem _ hf, hname⟩
    · rcases ih h with hb | ⟨f, hf, hname⟩
      · exact .inl hb
      · exact .inr ⟨f, List.mem_cons_of_mem _ hf, hname⟩

theorem edges_of_ofRule? {safe : String → String} {r : Rule} {c : ClassRule}
    (h : ClassRule.ofRule? safe r = some c) : c.edges = r.edges safe := by
  unfold ClassRule.ofRule? at h
  split at h
  · cases h
  · rename_i he
    cases h
    exact he.symm

theorem mem_classRules {safe : String → String} {g : Grammar} {c : ClassRule}
    (h : c ∈ g.classRules safe) : ∃ r ∈ g.rules, ClassRule.ofRule? safe r = some c := by
  obtain ⟨e, he, rfl⟩ := List.mem_map.mp h
  obtain ⟨c, hc, rfl⟩ := List.mem_map.mp (Keyed.mem_of_mem_ofList he)
  exact List.mem_filterMap.mp hc

theorem rule_of_ofRule? {safe : String → String} {r : Rule} {c : ClassRule}
    (h : ClassRule.ofRule? safe r = some c) : c.rule = r := by
  unfold ClassRule.ofRule? at h
  split at h
  · cases h
  · cases h
    rfl

/-- No rule stands in for another when each has a name of its own. -/
theorem classRules_of_nodup {g : Grammar} (h : (g.rules.map Rule.name).Nodup)
    (safe : String → String) :
    g.classRules safe = g.rules.filterMap (ClassRule.ofRule? safe) := by
  have hnames : ∀ rules : List Rule, ((rules.filterMap (ClassRule.ofRule? safe)).map
      fun c => c.rule.name).Sublist (rules.map Rule.name) := by
    intro rules
    induction rules with
    | nil => exact .slnil
    | cons r rest ih =>
      cases hr : ClassRule.ofRule? safe r with
      | none =>
        rw [List.filterMap_cons_none hr]
        exact ih.cons _
      | some c =>
        rw [List.filterMap_cons_some hr, List.map_cons, rule_of_ofRule? hr]
        exact ih.cons_cons _
  have hkeys : (Keyed.keys ((g.rules.filterMap (ClassRule.ofRule? safe)).map
      fun c => (c.rule.name, c))).Nodup := by
    simpa [Keyed.keys, Function.comp_def] using h.sublist (hnames g.rules)
  rw [Grammar.classRules, Keyed.ofList_of_nodup hkeys]
  simp [Keyed.values, Function.comp_def]

theorem edges_of_mem_classRules {safe : String → String} {g : Grammar} {c : ClassRule}
    (h : c ∈ g.classRules safe) : c.edges = c.rule.edges safe := by
  obtain ⟨r, -, hr⟩ := mem_classRules h
  rw [rule_of_ofRule? hr, edges_of_ofRule? hr]

theorem chained_classRules (safe : String → String) (g : Grammar) :
    Chained (g.classRules safe) := by
  intro c hc
  exact ⟨_, (edges_of_mem_classRules hc).trans (c.rule.edges_eq_chainEdges safe)⟩

/-- The path of a rule with a class goes through a class of that name. -/
def Grammar.Mentions (safe : String → String) (g : Grammar) (n : String) : Prop :=
  ∃ c ∈ g.classRules safe, n ∈ c.rule.classes safe

instance (safe : String → String) (g : Grammar) (n : String) : Decidable (g.Mentions safe n) :=
  inferInstanceAs (Decidable (∃ c ∈ g.classRules safe, _))

theorem Grammar.mentions_iff {safe : String → String} {g : Grammar} {n : String} :
    g.Mentions safe n ↔ ∃ e ∈ edgesOf (g.classRules safe), e.name = n := by
  have hrule : ∀ c ∈ g.classRules safe, n ∈ c.rule.classes safe ↔ ∃ e ∈ c.edges, e.name = n := by
    intro c hc
    rw [edges_of_mem_classRules hc, Rule.edges_eq_chainEdges, exists_mem_chainEdges]
  constructor
  · intro h
    obtain ⟨c, hc, hn⟩ := h
    obtain ⟨e, he, hname⟩ := (hrule c hc).mp hn
    exact ⟨e, List.mem_flatMap.mpr ⟨c, hc, he⟩, hname⟩
  · intro h
    obtain ⟨e, he, hname⟩ := h
    obtain ⟨c, hc, he⟩ := List.mem_flatMap.mp he
    exact ⟨c, hc, (hrule c hc).mpr ⟨e, he, hname⟩⟩

theorem isClass_iff {safe : String → String} {g : Grammar} {n : String} :
    IsClass (g.classRules safe) n ↔ n = modelBase ∨ g.Mentions safe n :=
  or_congr_right Grammar.mentions_iff.symm

theorem Rule.exists_safe {safe : String → String} {r : Rule} {n : String}
    (h : n ∈ r.classes safe) : ∃ s, n = safe s := by
  unfold classes at h
  cases hpath : r.classPath? with
  | none => rw [hpath] at h; cases h
  | some path =>
    rw [hpath] at h
    obtain ⟨s, -, hs⟩ := List.mem_map.mp h
    exact ⟨_, hs.symm⟩

/-- The names in the chains are made safe. -/
theorem exists_safe_of_isClass {safe : String → String} {g : Grammar} {n : String}
    (h : IsClass (g.classRules safe) n) : n = modelBase ∨ ∃ s, n = safe s := by
  refine (isClass_iff.mp h).imp_right fun hmention => ?_
  obtain ⟨c, -, hn⟩ := hmention
  exact Rule.exists_safe hn

/-- No name stands above a class but other classes. -/
theorem Chained.isClass_base {rules : List ClassRule} (h : Chained rules) {e : Edge}
    (he : e ∈ edgesOf rules) : IsClass rules e.base := by
  obtain ⟨c, hc, he⟩ := List.mem_flatMap.mp he
  obtain ⟨names, hn⟩ := h c hc
  rw [hn] at he
  refine (base_mem_chainEdges he).imp_right fun ⟨f, hf, hname⟩ => ⟨f, ?_, hname⟩
  exact List.mem_flatMap.mpr ⟨c, hc, by rwa [hn]⟩

end RuleClasses
