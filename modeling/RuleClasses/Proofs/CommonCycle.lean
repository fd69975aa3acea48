import RuleClasses.Proofs.Declarations

/-! Paths that go through the common class. Every class has the common class somewhere above
it. A path with its name inside puts a base above the common class in turn, and that closes a
cycle. So all classes lead to this cycle, those of the other rules too. Without such a path
nothing stands above the common class, and no cycle can go through it. -/

namespace RuleClasses

open Relation (ReflTransGen TransGen)

/-- From every class of a chain there is a way up to the common class. -/
theorem transGen_of_mem_chain (names : List String) :
    ∀ n ∈ names, TransGen (Extends (chainEdges names)) n modelBase := by
  fun_induction chainEdges names with
  | case1 => exact fun n hn => absurd hn List.not_mem_nil
  | case2 m =>
    intro n hn
    obtain rfl := List.mem_singleton.mp hn
    exact .single List.mem_cons_self
  | case3 m k rest ih =>
    have hrest : ∀ n ∈ k :: rest,
        TransGen (Extends (⟨m, k⟩ :: chainEdges (k :: rest))) n modelBase :=
      fun n hn => TransGen.mono (fun _ _ he => List.mem_cons_of_mem _ he) _ _ (ih n hn)
    intro n hn
    rcases List.mem_cons.mp hn with rfl | hn
    · exact .head List.mem_cons_self (hrest k List.mem_cons_self)
    · exact hrest n hn

namespace Chained

variable {rules : List ClassRule}

theorem transGen_of_edge (h : Chained rules) {e : Edge} (he : e ∈ edgesOf rules) :
    TransGen (Extends (edgesOf rules)) e.name modelBase := by
  obtain ⟨c, hc, he⟩ := List.mem_flatMap.mp he
  obtain ⟨names, hnames⟩ := h c hc
  have hsub : ∀ a b, Extends (chainEdges names) a b → Extends (edgesOf rules) a b := by
    intro a b hab
    exact List.mem_flatMap.mpr ⟨c, hc, hnames ▸ hab⟩
  have hname : e.name ∈ names := exists_mem_chainEdges.mp ⟨e, hnames ▸ he, rfl⟩
  exact TransGen.mono hsub _ _ (transGen_of_mem_chain names _ hname)

theorem leadsToCycle_modelBase_iff (h : Chained rules) :
    LeadsToCycle (edgesOf rules) modelBase ↔ ∃ e ∈ edgesOf rules, e.name = modelBase := by
  constructor
  · intro hcycle
    obtain ⟨b, he⟩ := hcycle.exists_base
    exact ⟨_, he, rfl⟩
  · intro hedge
    obtain ⟨e, he, hname⟩ := hedge
    have hway := h.transGen_of_edge he
    rw [hname] at hway
    exact ⟨modelBase, .refl, hway⟩

/-- Once the common class leads to a cycle, every class does. -/
theorem leadsToCycle_iff (h : Chained rules) (hroot : LeadsToCycle (edgesOf rules) modelBase)
    (n : String) : LeadsToCycle (edgesOf rules) n ↔ IsClass rules n := by
  constructor
  · intro hcycle
    obtain ⟨b, he⟩ := hcycle.exists_base
    exact .inr ⟨_, he, rfl⟩
  · intro hclass
    rcases hclass with rfl | ⟨e, he, rfl⟩
    · exact hroot
    · obtain ⟨top, hway, hcycle⟩ := hroot
      exact ⟨top, (h.transGen_of_edge he).to_reflTransGen.trans hway, hcycle⟩

end Chained

namespace Plan

variable {o : Options} {g : Grammar}

/-- No name that is taken makes a cycle. -/
theorem refusal_ne_cycle (o : Options) (n : String) (left : List String) :
    refusal o n ≠ .cycle left := by
  unfold refusal
  split <;> nofun

theorem declarable_ne_cycle (o : Options) (order left : List String) :
    declarable o order ≠ .error (.cycle left) := by
  intro h
  cases hs : o.strict with
  | false => rw [declarable_lax hs] at h; cases h
  | true =>
    rw [declarable_strict hs] at h
    cases hf : order.find? fun n => Taken o n with
    | none => rw [hf] at h; cases h
    | some n =>
      rw [hf] at h
      exact refusal_ne_cycle o n left (Except.error.inj h)

theorem ofGrammar_eq_cycle_iff {left : List String} :
    ofGrammar o g = .error (.cycle left) ↔
      orderOf o.rootType.name (g.classRules o.target.identifier) = .error left := by
  refine ⟨fun h => ?_, ofGrammar_of_cycle⟩
  cases ho : orderOf o.rootType.name (g.classRules o.target.identifier) with
  | error more =>
    rw [ofGrammar_of_cycle ho] at h
    cases h
    rfl
  | ok order =>
    rw [ofGrammar_of_order ho] at h
    cases hd : declarable o order with
    | ok names => rw [hd] at h; cases h
    | error e =>
      rw [hd] at h
      cases h
      exact absurd hd (declarable_ne_cycle o order left)

theorem mem_of_ofGrammar_cycle {left : List String} (h : ofGrammar o g = .error (.cycle left)) :
    left.Pairwise (· < ·) ∧
      ∀ n, n ∈ left ↔ LeadsToCycle (edgesOf (g.classRules o.target.identifier)) n :=
  mem_of_classOrder_error (ofGrammar_eq_cycle_iff.mp h)

theorem exists_ofGrammar_cycle {n : String}
    (h : LeadsToCycle (edgesOf (g.classRules o.target.identifier)) n) :
    ∃ left, ofGrammar o g = .error (.cycle left) := by
  cases ho : orderOf o.rootType.name (g.classRules o.target.identifier) with
  | error left => exact ⟨left, ofGrammar_of_cycle ho⟩
  | ok order => exact absurd h (acyclic_iff.mp (acyclic_of_classOrder ho) n)

/-- **The common class is blamed for its own cycle only.** It is in the error when some path
goes through its name, and not otherwise. With such a path the error has all classes in it, in
whatever rules they are. -/
theorem common_class_blamed_iff (o : Options) (g : Grammar) :
    ((∃ left, ofGrammar o g = .error (.cycle left) ∧ modelBase ∈ left) ↔
      g.Mentions o.target.identifier modelBase) ∧
    (g.Mentions o.target.identifier modelBase →
      ∃ left, ofGrammar o g = .error (.cycle left) ∧ left.Pairwise (· < ·) ∧
        ∀ n, n ∈ left ↔ n = modelBase ∨ g.Mentions o.target.identifier n) := by
  have hc := chained_classRules o.target.identifier g
  have hroot : LeadsToCycle (edgesOf (g.classRules o.target.identifier)) modelBase ↔
      g.Mentions o.target.identifier modelBase := by
    rw [hc.leadsToCycle_modelBase_iff, Grammar.mentions_iff]
  constructor
  · constructor
    · intro h
      obtain ⟨left, hleft, hmem⟩ := h
      exact hroot.mp (((mem_of_ofGrammar_cycle hleft).2 modelBase).mp hmem)
    · intro h
      obtain ⟨left, hleft⟩ := exists_ofGrammar_cycle (o := o) (hroot.mpr h)
      exact ⟨left, hleft, ((mem_of_ofGrammar_cycle hleft).2 modelBase).mpr (hroot.mpr h)⟩
  · intro h
    obtain ⟨left, hleft⟩ := exists_ofGrammar_cycle (o := o) (hroot.mpr h)
    obtain ⟨hsorted, hmem⟩ := mem_of_ofGrammar_cycle hleft
    refine ⟨left, hleft, hsorted, fun n => ?_⟩
    rw [hmem, hc.leadsToCycle_iff (hroot.mpr h), isClass_iff]

/-- The class `Num` has a path of its own, and comes to the cycle in the path of the other
rule. -/
theorem common_class_blamed_with_all :
    ∃ left, ofGrammar ⟨.rust, ⟨"", "Node"⟩, none, true⟩
        ⟨"calc", [⟨"num", [.string "Num"], .void⟩,
          ⟨"add", [.string "Add::ModelBase::Op"], .void⟩]⟩ = .error (.cycle left) ∧
      left.Pairwise (· < ·) ∧ "ModelBase" ∈ left ∧ "Num" ∈ left ∧ "Sub" ∉ left := by
  have hmention : Grammar.Mentions Target.rust.identifier
      ⟨"calc", [⟨"num", [.string "Num"], .void⟩, ⟨"add", [.string "Add::ModelBase::Op"], .void⟩]⟩
      modelBase := by decide
  obtain ⟨left, hleft, hsorted, hmem⟩ :=
    (common_class_blamed_iff ⟨.rust, ⟨"", "Node"⟩, none, true⟩ _).2 hmention
  refine ⟨left, hleft, hsorted, (hmem _).mpr (.inl rfl), (hmem _).mpr (.inr ?_), ?_⟩
  · decide
  · intro hsub
    exact absurd ((hmem _).mp hsub) (by decide)

end Plan

end RuleClasses
