import RuleClasses.Proofs.Declarations

/-! Rules that are added, and rules in another order. A rule that is added may close a
cycle, but it never opens one, and it never takes a class away. So a grammar with fewer
rules has a plan whenever the one with more rules has. The order of the rules only settles
what no two of them should say of one class, and where they do not, all declarations are
the same. -/

namespace RuleClasses

/-- The rules agree on the base of every class, and no two of them have the same class for
their own. -/
structure Unambiguous (rules : List ClassRule) : Prop where
  one_base : ∀ e ∈ edgesOf rules, ∀ f ∈ edgesOf rules, e.name = f.name → e.base = f.base
  one_rule : (rules.map fun c => c.leaf.name).Nodup

namespace Unambiguous

variable {rules : List ClassRule}

theorem edge_eq (h : Unambiguous rules) {e f : Edge} (he : e ∈ edgesOf rules)
    (hf : f ∈ edgesOf rules) (hname : e.name = f.name) : e = f := by
  have hbase := h.one_base e he f hf hname
  cases e
  cases f
  simp_all

theorem rule_eq (h : Unambiguous rules) {c d : ClassRule} (hc : c ∈ rules) (hd : d ∈ rules)
    (hname : c.leaf.name = d.leaf.name) : c = d :=
  List.inj_on_of_nodup_map h.one_rule hc hd hname

end Unambiguous

/-! ## More rules -/

variable {g h : Grammar}

theorem classRules_subset (hg : (g.rules.map Rule.name).Nodup)
    (hh : (h.rules.map Rule.name).Nodup) (hsub : g.rules ⊆ h.rules) (safe : String → String) :
    g.classRules safe ⊆ h.classRules safe := by
  rw [classRules_of_nodup hg, classRules_of_nodup hh]
  exact List.filterMap_subset _ hsub

theorem classRules_perm (hg : (g.rules.map Rule.name).Nodup) (hperm : g.rules.Perm h.rules)
    (safe : String → String) : (g.classRules safe).Perm (h.classRules safe) := by
  rw [classRules_of_nodup hg, classRules_of_nodup ((hperm.map _).nodup_iff.mp hg)]
  exact hperm.filterMap _

theorem edgesOf_subset {rules more : List ClassRule} (hsub : rules ⊆ more) :
    edgesOf rules ⊆ edgesOf more := by
  intro e he
  obtain ⟨c, hc, he⟩ := List.mem_flatMap.mp he
  exact List.mem_flatMap.mpr ⟨c, hsub hc, he⟩

theorem IsClass.mono {rules more : List ClassRule} (hsub : edgesOf rules ⊆ edgesOf more)
    {n : String} (hn : IsClass rules n) : IsClass more n := by
  refine hn.imp_right ?_
  rintro ⟨e, he, hname⟩
  exact ⟨e, hsub he, hname⟩

namespace Plan

variable {o : Options} {p q : Plan}

/-- A run that leaves classes out ends with a plan or at a cycle, and nowhere else. -/
theorem ofGrammar_lax_outcome (hlax : o.strict = false) (g : Grammar) :
    (∃ p, ofGrammar o g = .ok p ∧ Acyclic (edgesOf (g.classRules o.target.identifier))) ∨
    ∃ left, ofGrammar o g = .error (.cycle left) ∧
      ¬ Acyclic (edgesOf (g.classRules o.target.identifier)) ∧
      ∀ n, n ∈ left ↔ LeadsToCycle (edgesOf (g.classRules o.target.identifier)) n := by
  rcases classOrder_outcome (Keyed.keys (bases o.rootType.name
      (g.classRules o.target.identifier))) (edgesOf (g.classRules o.target.identifier)) with
    ⟨order, ho, hacyclic, -⟩ | ⟨left, ho, hcyclic, -, hleft⟩
  · refine .inl ⟨declaring o g (order.filter fun n => ¬ Taken o n), ?_, hacyclic⟩
    rw [ofGrammar_of_order ho, declarable_lax hlax]
    rfl
  · exact .inr ⟨left, ofGrammar_of_cycle ho, hcyclic, hleft⟩

theorem exists_ofGrammar_lax (hlax : o.strict = false)
    (hc : Acyclic (edgesOf (g.classRules o.target.identifier))) :
    ∃ p, ofGrammar o g = .ok p := by
  rcases ofGrammar_lax_outcome hlax g with ⟨p, hp, -⟩ | ⟨_, -, hcyclic, -⟩
  · exact ⟨p, hp⟩
  · exact absurd hc hcyclic

theorem acyclic_of_ofGrammar (hp : ofGrammar o g = .ok p) :
    Acyclic (edgesOf (g.classRules o.target.identifier)) := by
  obtain ⟨order, hm⟩ := made_of_ofGrammar hp
  exact acyclic_of_classOrder hm.ordered

theorem classNames_subset (hsub : edgesOf (g.classRules o.target.identifier) ⊆
      edgesOf (h.classRules o.target.identifier))
    (hp : ofGrammar o g = .ok p) (hq : ofGrammar o h = .ok q) : p.classNames ⊆ q.classNames := by
  obtain ⟨_, hpm⟩ := made_of_ofGrammar hp
  obtain ⟨_, hqm⟩ := made_of_ofGrammar hq
  intro n hn
  obtain ⟨hclass, hfree⟩ := (hpm.mem_classNames (chained_classRules _ g) n).mp hn
  exact (hqm.mem_classNames (chained_classRules _ h) n).mpr ⟨hclass.mono hsub, hfree⟩

theorem cycle_subset (hlax : o.strict = false)
    (hsub : edgesOf (g.classRules o.target.identifier) ⊆
      edgesOf (h.classRules o.target.identifier))
    {left : List String} (hleft : ofGrammar o g = .error (.cycle left)) :
    ∃ more, ofGrammar o h = .error (.cycle more) ∧ left ⊆ more := by
  rcases ofGrammar_lax_outcome hlax g with ⟨_, hp, -⟩ | ⟨_, hl, hcyclic, hmem⟩
  · rw [hleft] at hp
    cases hp
  · rw [hleft] at hl
    cases hl
    rcases ofGrammar_lax_outcome hlax h with ⟨_, -, hacyclic⟩ | ⟨more, hmore, -, hmem'⟩
    · exact absurd (hacyclic.anti hsub) hcyclic
    · exact ⟨more, hmore, fun n hn => (hmem' n).mpr (((hmem n).mp hn).mono hsub)⟩

/-! ## The same rules in another order -/

variable {rules others : List ClassRule}

theorem expected?_eq_of_perm (hperm : rules.Perm others) (hu : Unambiguous rules) (n : String) :
    expected? o rules n = expected? o others n := by
  have hleaf : (rules.findRev? fun c => c.leaf.name = n) =
      others.findRev? fun c => c.leaf.name = n := by
    refine findRev?_eq_of_perm hperm fun c hc d hd hcn hdn => hu.rule_eq hc hd ?_
    rw [of_decide_eq_true hcn, of_decide_eq_true hdn]
  have hedge : ((edgesOf rules).findRev? fun e => e.name = n) =
      (edgesOf others).findRev? fun e => e.name = n := by
    refine findRev?_eq_of_perm (hperm.flatMap_right _) fun e he f hf hen hfn =>
      hu.edge_eq he hf ?_
    rw [of_decide_eq_true hen, of_decide_eq_true hfn]
  rw [expected?, expected?, hleaf, hedge]

/-- A declaration is in a plan when it is the one that the plan has for its name. -/
theorem mem_decls_iff (hp : p.classNames.Nodup) (d : Decl) :
    d ∈ p.decls ↔ p.decl? d.name = some d := by
  constructor
  · intro hd
    cases hf : p.decl? d.name with
    | none =>
      have hne : ¬ d.name = d.name := by
        simpa only [decide_eq_true_eq] using List.find?_eq_none.mp hf d hd
      exact absurd rfl hne
    | some e =>
      have he := List.mem_of_find?_eq_some hf
      have hname : e.name = d.name := by simpa using List.find?_some hf
      rw [List.inj_on_of_nodup_map hp he hd hname]
  · exact List.mem_of_find?_eq_some

theorem decls_perm (hp : p.classNames.Nodup) (hq : q.classNames.Nodup)
    (hdecl : ∀ n, p.decl? n = q.decl? n) : p.decls.Perm q.decls := by
  refine (List.perm_ext_iff_of_nodup hp.of_map hq.of_map).mpr fun d => ?_
  rw [mem_decls_iff hp, mem_decls_iff hq, hdecl]

theorem decls_perm_of_rules
    (hperm : (g.classRules o.target.identifier).Perm (h.classRules o.target.identifier))
    (hu : Unambiguous (h.classRules o.target.identifier))
    (hp : ofGrammar o g = .ok p) (hq : ofGrammar o h = .ok q) : p.decls.Perm q.decls := by
  obtain ⟨_, hpm⟩ := made_of_ofGrammar hp
  obtain ⟨_, hqm⟩ := made_of_ofGrammar hq
  refine decls_perm hpm.nodup_classNames hqm.nodup_classNames fun n => ?_
  rw [hpm.decl?_eq_expected? (chained_classRules _ g),
    hqm.decl?_eq_expected? (chained_classRules _ h), expected?_eq_of_perm hperm.symm hu]

/-! ## Main result -/

/-- **Rules can be added, and their order does not matter.** When a grammar has a plan, so
has every grammar with fewer rules, and it declares no other classes. The names that lead to
a cycle still lead to one when rules are added. Rules in another order make a plan with the
same declarations, unless they speak of one class in two ways. -/
theorem rules_added (hlax : o.strict = false) (hg : (g.rules.map Rule.name).Nodup)
    (hh : (h.rules.map Rule.name).Nodup) (hsub : g.rules ⊆ h.rules) :
    (∀ q, ofGrammar o h = .ok q → ∃ p, ofGrammar o g = .ok p ∧ p.classNames ⊆ q.classNames) ∧
    (∀ left, ofGrammar o g = .error (.cycle left) →
      ∃ more, ofGrammar o h = .error (.cycle more) ∧ left ⊆ more) ∧
    (g.rules.Perm h.rules → Unambiguous (h.classRules o.target.identifier) →
      ∀ p, ofGrammar o g = .ok p → ∃ q, ofGrammar o h = .ok q ∧ p.decls.Perm q.decls) := by
  have hedges := edgesOf_subset (classRules_subset hg hh hsub o.target.identifier)
  refine ⟨fun q hq => ?_, fun left hleft => cycle_subset hlax hedges hleft,
    fun hperm hu p hp => ?_⟩
  · obtain ⟨p, hp⟩ := exists_ofGrammar_lax hlax ((acyclic_of_ofGrammar hq).anti hedges)
    exact ⟨p, hp, classNames_subset hedges hp hq⟩
  · have hback := edgesOf_subset (classRules_subset hh hg hperm.symm.subset o.target.identifier)
    obtain ⟨q, hq⟩ := exists_ofGrammar_lax hlax ((acyclic_of_ofGrammar hp).anti hback)
    exact ⟨q, hq, decls_perm_of_rules (classRules_perm hg hperm _) hu hp hq⟩

unseal ClassOrder.run in
/-- Two rules change places, which their classes do as well, and a rule joins a cycle. -/
theorem rules_added_of_two_orders :
    (∃ p q, ofGrammar ⟨.python, ⟨"ast", "Node"⟩, none, false⟩
        ⟨"calc", [⟨"num", [.string "Num"], .bind false "value" .void⟩,
          ⟨"add", [.string "Add"], .void⟩]⟩ = .ok p ∧
      ofGrammar ⟨.python, ⟨"ast", "Node"⟩, none, false⟩
        ⟨"calc", [⟨"add", [.string "Add"], .void⟩,
          ⟨"num", [.string "Num"], .bind false "value" .void⟩]⟩ = .ok q ∧
      p ≠ q ∧ p.decls.Perm q.decls ∧ p.classNames ⊆ q.classNames) ∧
    ∃ more, ofGrammar ⟨.rust, ⟨"", "Node"⟩, none, false⟩
        ⟨"calc", [⟨"sub", [.string "Sub::Neg"], .void⟩, ⟨"a", [.string "A::B::A"], .void⟩]⟩ =
          .error (.cycle more) ∧ ["A", "B"] ⊆ more := by
  have h : ofGrammar ⟨.python, ⟨"ast", "Node"⟩, none, false⟩
      ⟨"calc", [⟨"num", [.string "Num"], .bind false "value" .void⟩,
        ⟨"add", [.string "Add"], .void⟩]⟩ =
      .ok ⟨"calc", ⟨"ast", "Node"⟩, [.base "ModelBase" (some "Node"),
        .rule "Num" "ModelBase" "num" ["value"], .rule "Add" "ModelBase" "add" []]⟩ := by rfl
  have h' : ofGrammar ⟨.python, ⟨"ast", "Node"⟩, none, false⟩
      ⟨"calc", [⟨"add", [.string "Add"], .void⟩,
        ⟨"num", [.string "Num"], .bind false "value" .void⟩]⟩ =
      .ok ⟨"calc", ⟨"ast", "Node"⟩, [.base "ModelBase" (some "Node"),
        .rule "Add" "ModelBase" "add" [], .rule "Num" "ModelBase" "num" ["value"]]⟩ := by rfl
  have hcycle : ofGrammar ⟨.rust, ⟨"", "Node"⟩, none, false⟩
      ⟨"calc", [⟨"a", [.string "A::B::A"], .void⟩]⟩ = .error (.cycle ["A", "B"]) := by rfl
  have hswap : [(⟨"num", [.string "Num"], .bind false "value" .void⟩ : Rule),
      ⟨"add", [.string "Add"], .void⟩].Perm [⟨"add", [.string "Add"], .void⟩,
        ⟨"num", [.string "Num"], .bind false "value" .void⟩] := .swap _ _ _
  obtain ⟨hsub, -, hperm⟩ := rules_added (o := ⟨.python, ⟨"ast", "Node"⟩, none, false⟩)
    (g := ⟨"calc", _⟩) (h := ⟨"calc", _⟩) rfl (by decide) (by decide) hswap.subset
  obtain ⟨-, hmore, -⟩ := rules_added (o := ⟨.rust, ⟨"", "Node"⟩, none, false⟩)
    (g := ⟨"calc", [⟨"a", [.string "A::B::A"], .void⟩]⟩)
    (h := ⟨"calc", [⟨"sub", [.string "Sub::Neg"], .void⟩, ⟨"a", [.string "A::B::A"], .void⟩]⟩)
    rfl (by decide) (by decide) (List.subset_cons_self _ _)
  obtain ⟨q, hq, hdecls⟩ := hperm hswap ⟨by decide, by decide⟩ _ h
  cases h'.symm.trans hq
  obtain ⟨p, hp, hnames⟩ := hsub _ h'
  cases h.symm.trans hp
  exact ⟨⟨_, _, h, h', by decide, hdecls, hnames⟩, hmore _ hcycle⟩

end Plan

end RuleClasses
