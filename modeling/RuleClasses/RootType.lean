import RuleClasses.Text.Blank
import RuleClasses.Text.Separated

/-! The type that every class derives from in the end. -/

namespace RuleClasses

structure RootType where
  /-- Where the type is imported from; empty when it is in scope already. -/
  module : String
  name : String
  deriving DecidableEq, Repr

namespace RootType

/-- The part in front of the last separator, and the simple name. -/
def split (separator path : List Char) : List Char × List Char :=
  (Text.splitLast? separator path).getD ([], path)

/-- A qualified type name, read between blanks at its ends. The simple name is
not empty, and there are no blanks inside. The error is the trimmed text. -/
def ofPath (separator path : String) : Except String RootType :=
  let path := Text.trim path.toList
  let (module, name) := split separator.toList path
  if name = [] ∨ name.any Text.isBlank ∨ module.any Text.isBlank then
    .error (String.ofList path)
  else .ok ⟨String.ofList module, String.ofList name⟩

section

variable {separator path : String} {root : RootType}

theorem ofPath_eq_ok : ofPath separator path = .ok root ↔
    split separator.toList (Text.trim path.toList) = (root.module.toList, root.name.toList) ∧
      root.name ≠ "" ∧ root.name.toList.any Text.isBlank = false ∧
      root.module.toList.any Text.isBlank = false := by
  obtain ⟨module, name⟩ := root
  unfold ofPath
  simp only
  generalize split separator.toList (Text.trim path.toList) = parts
  obtain ⟨front, back⟩ := parts
  split
  · rename_i hbad
    refine iff_of_false nofun fun h => ?_
    obtain ⟨hparts, hname, hback, hfront⟩ := h
    obtain ⟨rfl, rfl⟩ := Prod.mk.inj hparts
    simp [hname, hback, hfront] at hbad
  · rename_i hvalid
    simp only [not_or, Bool.not_eq_true] at hvalid
    constructor
    · intro h
      cases h
      simpa using hvalid
    · intro h
      obtain ⟨rfl, rfl⟩ := Prod.mk.inj h.1
      simp

theorem ofPath_eq_error {text : String} : ofPath separator path = .error text ↔
    text = String.ofList (Text.trim path.toList) ∧
      ∃ module name, split separator.toList (Text.trim path.toList) = (module, name) ∧
        (name = [] ∨ name.any Text.isBlank ∨ module.any Text.isBlank) := by
  unfold ofPath
  simp only
  generalize split separator.toList (Text.trim path.toList) = parts
  obtain ⟨front, back⟩ := parts
  split
  · rename_i hbad
    constructor
    · intro h
      cases h
      exact ⟨rfl, front, back, rfl, hbad⟩
    · intro h
      rw [h.1]
  · rename_i hvalid
    refine iff_of_false nofun fun h => ?_
    obtain ⟨-, module, name, hparts, hbad⟩ := h
    obtain ⟨rfl, rfl⟩ := Prod.mk.inj hparts
    exact hvalid hbad

/-- A module and a name are the parts of a text at its last separator. -/
theorem splitLast?_of_ofPath (h : ofPath separator path = .ok root) (hmodule : root.module ≠ "") :
    Text.splitLast? separator.toList
        (root.module.toList ++ separator.toList ++ root.name.toList) =
      some (root.module.toList, root.name.toList) := by
  have hparts := (ofPath_eq_ok.mp h).1
  unfold split at hparts
  cases hsplit : Text.splitLast? separator.toList (Text.trim path.toList) with
  | none =>
    rw [hsplit] at hparts
    exact absurd (String.toList_eq_nil_iff.mp (Prod.mk.inj hparts).1.symm) hmodule
  | some parts =>
    obtain rfl : parts = (root.module.toList, root.name.toList) := by simpa [hsplit] using hparts
    rw [← Text.eq_of_splitLast? hsplit, hsplit]

theorem isBlank_of_ofPath (h : ofPath separator path = .ok root) {c : Char}
    (hc : c ∈ root.name.toList) : Text.isBlank c = false := by
  simpa using List.any_eq_false.mp (ofPath_eq_ok.mp h).2.2.1 c hc

theorem isBlank_module_of_ofPath (h : ofPath separator path = .ok root) {c : Char}
    (hc : c ∈ root.module.toList) : Text.isBlank c = false := by
  simpa using List.any_eq_false.mp (ofPath_eq_ok.mp h).2.2.2 c hc

end

end RootType

end RuleClasses
