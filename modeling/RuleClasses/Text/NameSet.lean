/-! Sets of names, kept as strictly increasing lists in code point order. -/

namespace RuleClasses.Text

/-- Put a name at its place; a name that is there already stays single. -/
def insertName (n : String) : List String → List String
  | [] => [n]
  | m :: rest =>
    if n < m then n :: m :: rest
    else if n = m then m :: rest
    else m :: insertName n rest

/-- The names of a list, sorted by code point and without repeats. -/
def sortNames (names : List String) : List String := names.foldr insertName []

@[simp] theorem mem_insertName {n x : String} {l : List String} :
    x ∈ insertName n l ↔ x = n ∨ x ∈ l := by
  induction l with
  | nil => simp [insertName]
  | cons m rest ih =>
    simp only [insertName]
    split
    · simp
    · split
      · rename_i h; subst h; simp
      · simp [ih]; grind

@[simp] theorem mem_sortNames {x : String} {l : List String} : x ∈ sortNames l ↔ x ∈ l := by
  induction l with
  | nil => simp [sortNames]
  | cons n rest ih => simpa [sortNames] using by simp [sortNames] at ih; simp [ih]

theorem pairwise_insertName {n : String} {l : List String} (h : l.Pairwise (· < ·)) :
    (insertName n l).Pairwise (· < ·) := by
  induction l with
  | nil => exact List.pairwise_singleton _ _
  | cons m rest ih =>
    obtain ⟨hm, hrest⟩ := List.pairwise_cons.mp h
    simp only [insertName]
    split
    · rename_i hlt
      refine List.pairwise_cons.mpr ⟨fun x hx => ?_, h⟩
      rcases List.mem_cons.mp hx with rfl | hx
      · exact hlt
      · exact String.lt_trans hlt (hm x hx)
    · rename_i hle
      split
      · exact h
      · rename_i hne
        have hlt : m < n := Std.lt_of_le_of_ne (String.not_lt.mp hle) (Ne.symm hne)
        refine List.pairwise_cons.mpr ⟨fun x hx => ?_, ih hrest⟩
        rcases mem_insertName.mp hx with rfl | hx
        · exact hlt
        · exact hm x hx

theorem pairwise_sortNames (l : List String) : (sortNames l).Pairwise (· < ·) := by
  induction l with
  | nil => exact List.Pairwise.nil
  | cons n rest ih => exact pairwise_insertName ih

end RuleClasses.Text
