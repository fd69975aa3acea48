/-! The lines of a text. A line ends at a newline, and one carriage return right
before that newline belongs to the line end. What follows the last newline is a
line only when it is not empty. -/

namespace RuleClasses.Text

def lines : List Char → List (List Char)
  | [] => []
  | '\n' :: rest => [] :: lines rest
  | '\r' :: '\n' :: rest => [] :: lines rest
  | c :: rest =>
    match lines rest with
    | [] => [[c]]
    | l :: ls => (c :: l) :: ls

/-- A line as it is when its end is taken off: a carriage return belongs to the newline behind
it. -/
def withoutReturn (l : List Char) : List Char := if l.getLast? = some '\r' then l.dropLast else l

theorem withoutReturn_of_ne {l : List Char} (h : l.getLast? ≠ some '\r') : withoutReturn l = l :=
  if_neg h

theorem withoutReturn_cons {c : Char} {l : List Char} (h : c = '\r' → l ≠ []) :
    withoutReturn (c :: l) = c :: withoutReturn l := by
  cases l with
  | nil =>
    have hc : c ≠ '\r' := fun hc => h hc rfl
    simp [withoutReturn, hc]
  | cons d l =>
    rw [withoutReturn, withoutReturn, List.getLast?_cons_cons, List.dropLast_cons_cons]
    split <;> rfl

theorem lines_append_newline {l : List Char} (h : '\n' ∉ l) (rest : List Char) :
    lines (l ++ '\n' :: rest) = withoutReturn l :: lines rest := by
  induction l with
  | nil => rfl
  | cons c l ih =>
    obtain ⟨hc, hl⟩ := not_or.mp (mt List.mem_cons.mpr h)
    by_cases hreturn : c = '\r' ∧ l = []
    · obtain ⟨rfl, rfl⟩ := hreturn
      rfl
    · rw [List.cons_append, lines, ih hl, withoutReturn_cons fun hc hnil => hreturn ⟨hc, hnil⟩]
      · exact fun hc' => hc hc'.symm
      · rintro rest' rfl hrest
        cases l with
        | nil => exact hreturn ⟨rfl, rfl⟩
        | cons d l => exact hl (List.mem_cons.mpr (.inl (List.cons.inj hrest).1.symm))

theorem lines_of_notMem {l : List Char} (hne : l ≠ []) (h : '\n' ∉ l) : lines l = [l] := by
  induction l with
  | nil => exact absurd rfl hne
  | cons c l ih =>
    obtain ⟨hc, hl⟩ := not_or.mp (mt List.mem_cons.mpr h)
    cases l with
    | nil =>
      rw [lines]
      · rfl
      · exact fun hc' => hc hc'.symm
      · exact nofun
    | cons d l =>
      rw [lines, ih (List.cons_ne_nil d l) hl]
      · exact fun hc' => hc hc'.symm
      · rintro rest' - hrest
        exact hl (List.mem_cons.mpr (.inl (List.cons.inj hrest).1.symm))

theorem lines_flatMap {rows : List (List Char)} (h : ∀ r ∈ rows, '\n' ∉ r) :
    lines (rows.flatMap (· ++ ['\n'])) = rows.map withoutReturn := by
  induction rows with
  | nil => rfl
  | cons r rest ih =>
    obtain ⟨hr, hrest⟩ := List.forall_mem_cons.mp h
    rw [List.flatMap_cons, List.append_assoc, List.singleton_append, lines_append_newline hr,
      ih hrest, List.map_cons]

end RuleClasses.Text
