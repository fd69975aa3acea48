import RuleClasses.Plan
import RuleClasses.Proofs.FirstBindings

/-! Names that a rule body binds. A name counts wherever it is bound in the body, but not
inside an override or a negative lookahead, however deep. How often it is bound, in which
order and whether as a list does not show in the attributes of the rule. -/

namespace RuleClasses

namespace Expr

/-- Some part of the expression binds the name, and neither an override nor a negative
lookahead is above that part. -/
inductive Binds (n : String) : Expr → Prop where
  | here (isList : Bool) (body : Expr) : Binds n (.bind isList n body)
  | inside {isList : Bool} {m : String} {body : Expr} : Binds n body → Binds n (.bind isList m body)
  | wrapped {wrapper : Wrapper} {body : Expr} : wrapper ≠ .override →
      wrapper ≠ .negativeLookahead → Binds n body → Binds n (.wrap wrapper body)
  | item {items : List Expr} {e : Expr} : e ∈ items → Binds n e → Binds n (.sequence items)
  | option {options : List Expr} {e : Expr} : e ∈ options → Binds n e → Binds n (.choice options)

variable {n : String}

theorem not_binds_atom (a : Atom) : ¬ Binds n (.atom a) := nofun

theorem binds_bind {isList : Bool} {m : String} {body : Expr} :
    Binds n (.bind isList m body) ↔ n = m ∨ Binds n body := by
  constructor
  · intro h
    cases h with
    | here => exact .inl rfl
    | inside h => exact .inr h
  · rintro (rfl | h)
    · exact .here _ _
    · exact .inside h

theorem hides_eq_false_iff {w : Wrapper} :
    w.hides = false ↔ w ≠ .override ∧ w ≠ .negativeLookahead := by
  cases w <;> decide

theorem binds_wrap {w : Wrapper} {body : Expr} :
    Binds n (.wrap w body) ↔ w.hides = false ∧ Binds n body := by
  rw [hides_eq_false_iff, and_assoc]
  constructor
  · intro h
    cases h with
    | wrapped h₁ h₂ h => exact ⟨h₁, h₂, h⟩
  · rintro ⟨h₁, h₂, h⟩
    exact .wrapped h₁ h₂ h

theorem binds_sequence {items : List Expr} :
    Binds n (.sequence items) ↔ ∃ e ∈ items, Binds n e := by
  constructor
  · intro h
    cases h with
    | item he h => exact ⟨_, he, h⟩
  · rintro ⟨e, he, h⟩
    exact .item he h

theorem binds_choice {options : List Expr} :
    Binds n (.choice options) ↔ ∃ e ∈ options, Binds n e := by
  constructor
  · intro h
    cases h with
    | option he h => exact ⟨_, he, h⟩
  · rintro ⟨e, he, h⟩
    exact .option he h

mutual

theorem mem_names_bindings (n : String) (e : Expr) :
    n ∈ e.bindings.map Binding.name ↔ Binds n e := by
  match e with
  | .atom a => simp [bindings, not_binds_atom]
  | .bind isList m body => simp [bindings, binds_bind, ← mem_names_bindings n body]
  | .wrap w body =>
    rw [binds_wrap, ← mem_names_bindings n body, bindings]
    cases w.hides <;> simp
  | .sequence items => rw [binds_sequence, bindings, mem_names_bindingsAll n items]
  | .choice options => rw [binds_choice, bindings, mem_names_bindingsAll n options]

theorem mem_names_bindingsAll (n : String) (l : List Expr) :
    n ∈ (bindingsAll l).map Binding.name ↔ ∃ e ∈ l, Binds n e := by
  match l with
  | [] => simp [bindingsAll]
  | e :: rest =>
    rw [bindingsAll, List.map_append, List.mem_append, mem_names_bindings n e,
      mem_names_bindingsAll n rest]
    simp

end

end Expr

/-- The attributes of a rule are the safe forms of the names that its body binds. -/
theorem Rule.mem_attributes {safe : String → String} {r : Rule} {a : String} :
    a ∈ r.attributes safe ↔ ∃ n, r.body.Binds n ∧ safe n = a := by
  have hmap : r.bindings.map (fun d => safe d.name) = (r.bindings.map Binding.name).map safe := by
    simp [Function.comp_def]
  rw [attributes, Text.mem_sortNames, hmap, List.mem_map]
  simp only [bindings, Binding.mem_names_unique, Expr.mem_names_bindings]

end RuleClasses
