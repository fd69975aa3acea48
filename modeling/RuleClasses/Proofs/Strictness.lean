import RuleClasses.Proofs.Declarations

/-! Strict runs and others. Both put the classes in order first, and a cycle ends both
alike. Then one run leaves out each class whose name is taken, where the strict run stops
at the first of them. So the plans agree when there is none. -/

namespace RuleClasses.Plan

variable {o : Options} {g : Grammar} {order : List String}

theorem ofGrammar_lax
    (h : orderOf o.rootType.name (g.classRules o.target.identifier) = .ok order) :
    ofGrammar { o with strict := false } g =
      .ok (declaring o g (order.filter fun n => ¬ Taken o n)) := by
  rw [ofGrammar_of_order (o := { o with strict := false }) h, declarable_lax rfl]
  rfl

theorem ofGrammar_strict
    (h : orderOf o.rootType.name (g.classRules o.target.identifier) = .ok order) :
    ofGrammar { o with strict := true } g = match order.find? fun n => Taken o n with
      | none => .ok (declaring o g order)
      | some n => .error (refusal o n) := by
  rw [ofGrammar_of_order (o := { o with strict := true }) h, declarable_strict rfl]
  have hsame : (order.find? fun n => Taken { o with strict := true } n) =
      order.find? fun n => Taken o n := rfl
  rw [hsame]
  cases order.find? fun n => Taken o n <;> rfl

/-- Of the classes in the order, those that a plan does not declare are those whose names
are taken. -/
theorem find?_notMem_classNames (o : Options) (g : Grammar) (order : List String) :
    (order.find? fun n => n ∉ (declaring o g (order.filter fun n => ¬ Taken o n)).classNames) =
      order.find? fun n => Taken o n := by
  rw [classNames_declaring, ← List.head?_filter, ← List.head?_filter]
  refine congrArg List.head? (List.filter_congr fun n hn => ?_)
  simp [hn]

/-- **A strict run refuses the first class that is left out otherwise.** A cycle ends both
runs with the same classes. Without one the run that is not strict has a plan, and the
strict run has the same plan, or it stops at the first class of the order that this plan
does not declare. -/
theorem strict_refuses_first (o : Options) (g : Grammar) :
    (∃ left, orderOf o.rootType.name (g.classRules o.target.identifier) = .error left ∧
      ofGrammar { o with strict := false } g = .error (.cycle left) ∧
      ofGrammar { o with strict := true } g = .error (.cycle left)) ∨
    ∃ order p, orderOf o.rootType.name (g.classRules o.target.identifier) = .ok order ∧
      (∀ n, n ∈ order ↔ IsClass (g.classRules o.target.identifier) n) ∧
      ofGrammar { o with strict := false } g = .ok p ∧
      ofGrammar { o with strict := true } g =
        match order.find? fun n => n ∉ p.classNames with
        | none => .ok p
        | some n => .error (refusal o n) := by
  cases ho : orderOf o.rootType.name (g.classRules o.target.identifier) with
  | error left => exact .inl ⟨left, rfl, ofGrammar_of_cycle ho, ofGrammar_of_cycle ho⟩
  | ok order =>
    have hmem := mem_of_orderOf (chained_classRules o.target.identifier g) ho
    refine .inr ⟨order, _, rfl, hmem, ofGrammar_lax ho, ?_⟩
    rw [find?_notMem_classNames, ofGrammar_strict ho]
    cases hf : order.find? fun n => Taken o n with
    | some n => rfl
    | none =>
      have hall : (order.filter fun n => ¬ Taken o n) = order := by
        refine List.filter_eq_self.mpr fun n hn => ?_
        simpa using List.find?_eq_none.mp hf n hn
      rw [hall]

unseal ClassOrder.run in
/-- The root type's name counts first, though it is a built-in too. -/
example : ofGrammar ⟨.python, ⟨"ast", "list"⟩, none, true⟩
    ⟨"calc", [⟨"items", [.string "Items::list"], .void⟩, ⟨"map", [.string "dict"], .void⟩]⟩ =
      .error (.hidesRootType "list" "list") := by rfl

end RuleClasses.Plan
