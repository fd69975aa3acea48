/-! Texts cut at a separator, and put together again. -/

namespace RuleClasses.Text

/-- The segments between double colons, cut from the left: of three colons in a
row the last one belongs to the segment that follows. -/
def segments : List Char → List (List Char)
  | [] => [[]]
  | ':' :: ':' :: rest => [] :: segments rest
  | c :: rest =>
    match segments rest with
    | [] => [[c]]
    | s :: ss => (c :: s) :: ss

theorem segments_ne_nil (s : List Char) : segments s ≠ [] := by
  unfold segments
  split
  · simp
  · simp
  · split <;> simp

/-- The parts before and after the rightmost occurrence of `sep`. The empty
separator occurs at the very end. -/
def splitLast? (sep : List Char) : List Char → Option (List Char × List Char)
  | [] => if sep = [] then some ([], []) else none
  | c :: rest =>
    match splitLast? sep rest with
    | some (before, after) => some (c :: before, after)
    | none =>
      if sep.isPrefixOf (c :: rest) then some ([], (c :: rest).drop sep.length) else none

theorem eq_of_splitLast? {sep s before after : List Char}
    (h : splitLast? sep s = some (before, after)) : s = before ++ sep ++ after := by
  induction s generalizing before after with
  | nil =>
    unfold splitLast? at h
    split at h
    · rename_i hsep; cases h; simp [hsep]
    · cases h
  | cons c rest ih =>
    unfold splitLast? at h
    split at h
    · rename_i hrest
      cases h
      simp [ih hrest]
    · split at h
      · rename_i hsep
        cases h
        obtain ⟨t, ht⟩ := List.isPrefixOf_iff_prefix.mp hsep
        simp [← ht]
      · cases h

theorem splitLast?_append_left {sep s before after : List Char}
    (h : splitLast? sep s = some (before, after)) (left : List Char) :
    splitLast? sep (left ++ s) = some (left ++ before, after) := by
  induction left with
  | nil => exact h
  | cons c left ih => rw [List.cons_append, splitLast?, ih]; rfl

theorem splitLast?_concat {sep : List Char} {c : Char} (hne : sep ≠ []) (hc : c ∉ sep)
    (s : List Char) :
    splitLast? sep (s ++ [c]) = (splitLast? sep s).map fun p => (p.1, p.2 ++ [c]) := by
  have hprefix : ∀ t, sep.isPrefixOf (t ++ [c]) = sep.isPrefixOf t := by
    intro t
    rw [Bool.eq_iff_iff, List.isPrefixOf_iff_prefix, List.isPrefixOf_iff_prefix,
      List.prefix_concat_iff]
    refine ⟨fun h => h.resolve_left ?_, .inr⟩
    rintro rfl
    simp at hc
  induction s with
  | nil =>
    have h := hprefix []
    simp only [List.nil_append] at h
    simp [splitLast?, hne, h]
  | cons d s ih =>
    rw [List.cons_append, splitLast?, splitLast?, ih, ← List.cons_append, hprefix]
    cases splitLast? sep s with
    | some p => rfl
    | none =>
      by_cases h : sep.isPrefixOf (d :: s)
      · have hlen := (List.isPrefixOf_iff_prefix.mp h).length_le
        rw [if_pos h, if_pos h, List.drop_append_of_le_length hlen]
        rfl
      · simp [h]

theorem splitLast?_eq_none_iff {sep s : List Char} : splitLast? sep s = none ↔ ¬ sep <:+: s := by
  induction s with
  | nil =>
    rw [splitLast?, List.infix_nil]
    split <;> simp [*]
  | cons c rest ih =>
    rw [splitLast?, List.infix_cons_iff, not_or, ← ih]
    cases splitLast? sep rest with
    | some p => simp
    | none =>
      rw [← List.isPrefixOf_iff_prefix]
      simp

/-- Behind the last occurrence of a character there is none. -/
theorem splitLast?_char {c : Char} {after : List Char} (h : c ∉ after) (before : List Char) :
    splitLast? [c] (before ++ c :: after) = some (before, after) := by
  have hnone : ¬ [c] <:+: after := fun hin => h (hin.subset List.mem_cons_self)
  have hhead : splitLast? [c] (c :: after) = some ([], after) := by
    rw [splitLast?, splitLast?_eq_none_iff.mpr hnone]
    simp
  simpa using splitLast?_append_left hhead before

/-- The parts between occurrences of one character. -/
def splitOnChar (sep : Char) : List Char → List (List Char)
  | [] => [[]]
  | c :: rest =>
    if c = sep then [] :: splitOnChar sep rest
    else match splitOnChar sep rest with
      | [] => [[c]]
      | s :: ss => (c :: s) :: ss

theorem splitOnChar_ne_nil (sep : Char) (s : List Char) : splitOnChar sep s ≠ [] := by
  induction s with
  | nil => simp [splitOnChar]
  | cons c rest ih =>
    rw [splitOnChar]
    split
    · simp
    · split <;> simp

theorem splitOnChar_append (sep : Char) (a b : List Char) :
    splitOnChar sep (a ++ sep :: b) = splitOnChar sep a ++ splitOnChar sep b := by
  induction a with
  | nil => simp [splitOnChar]
  | cons c a ih =>
    rw [List.cons_append, splitOnChar, ih, splitOnChar]
    split
    · rfl
    · cases ha : splitOnChar sep a with
      | nil => exact absurd ha (splitOnChar_ne_nil sep a)
      | cons s ss => rfl

theorem splitOnChar_of_notMem {sep : Char} {s : List Char} (h : sep ∉ s) :
    splitOnChar sep s = [s] := by
  induction s with
  | nil => rfl
  | cons c rest ih =>
    obtain ⟨hc, hrest⟩ := not_or.mp (mt List.mem_cons.mpr h)
    rw [splitOnChar, if_neg (Ne.symm hc), ih hrest]

/-- Parts are told from the text in which each of them has the separator behind it. -/
theorem splitOnChar_flatMap {sep : Char} {parts : List (List Char)}
    (h : ∀ s ∈ parts, sep ∉ s) :
    splitOnChar sep (parts.flatMap (· ++ [sep])) = parts ++ [[]] := by
  induction parts with
  | nil => rfl
  | cons s rest ih =>
    obtain ⟨hs, hrest⟩ := List.forall_mem_cons.mp h
    rw [List.flatMap_cons, List.append_assoc, List.singleton_append, splitOnChar_append,
      splitOnChar_of_notMem hs, ih hrest, List.singleton_append, List.cons_append]

/-- Texts in a row with `sep` between neighbours. -/
def joinWith (sep : String) : List String → String
  | [] => ""
  | [s] => s
  | s :: rest => s ++ sep ++ joinWith sep rest

theorem joinWith_cons (sep s : String) {rest : List String} (h : rest ≠ []) :
    joinWith sep (s :: rest) = s ++ sep ++ joinWith sep rest := by
  cases rest with
  | nil => exact absurd rfl h
  | cons t rest => rfl

end RuleClasses.Text
