/-! Sets of characters given as ranges of code points. One of them is white space in the
sense of Unicode, and texts are freed of it at their ends. -/

namespace RuleClasses.Text

def inRanges (ranges : List (Nat × Nat)) (n : Nat) : Bool :=
  ranges.any fun r => r.1 ≤ n && n ≤ r.2

theorem inRanges_iff {ranges : List (Nat × Nat)} {n : Nat} :
    inRanges ranges n = true ↔ ∃ r ∈ ranges, r.1 ≤ n ∧ n ≤ r.2 := by
  simp [inRanges]

/-- The white space characters of Unicode. -/
def blankRanges : List (Nat × Nat) :=
  [(0x9, 0xD), (0x20, 0x20), (0x85, 0x85), (0xA0, 0xA0), (0x1680, 0x1680), (0x2000, 0x200A),
   (0x2028, 0x2029), (0x202F, 0x202F), (0x205F, 0x205F), (0x3000, 0x3000)]

def isBlank (c : Char) : Bool := inRanges blankRanges c.toNat

/-- Without the characters at the end that satisfy `p`. -/
def dropEndWhile (p : Char → Bool) (s : List Char) : List Char :=
  (s.reverse.dropWhile p).reverse

/-- What is dropped at the end of a text, and where it starts. -/
theorem exists_dropEndWhile (p : Char → Bool) (s : List Char) :
    ∃ back, s = dropEndWhile p s ++ back ∧ (∀ c ∈ back, p c = true) ∧
      ∀ c ∈ (dropEndWhile p s).getLast?, p c = false := by
  refine ⟨(s.reverse.takeWhile p).reverse, ?_, fun c hc => ?_, fun c hc => ?_⟩
  · rw [dropEndWhile, ← List.reverse_append, List.takeWhile_append_dropWhile, List.reverse_reverse]
  · exact List.all_eq_true.mp List.all_takeWhile c (List.mem_reverse.mp hc)
  · have hhead := List.head?_dropWhile_not p s.reverse
    rw [dropEndWhile, List.getLast?_reverse] at hc
    rw [hc] at hhead
    exact hhead

theorem dropEndWhile_append_of_neg {p : Char → Bool} {c : Char} (h : p c = false)
    (s : List Char) : dropEndWhile p (s ++ [c]) = s ++ [c] := by
  rw [dropEndWhile, List.reverse_append, List.reverse_singleton, List.singleton_append,
    List.dropWhile_cons_of_neg (by simp [h]), List.reverse_cons, List.reverse_reverse]

def trim (s : List Char) : List Char := dropEndWhile isBlank (s.dropWhile isBlank)

end RuleClasses.Text
