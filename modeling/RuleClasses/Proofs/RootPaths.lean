import RuleClasses.Proofs.Rows
import RuleClasses.RootType

/-! Paths of root types. A path is freed of blanks at its ends and cut at the occurrence of
the separator that starts last. What is in front of it is the module, what is behind it the
name, and module and name can be joined to the path again. -/

namespace RuleClasses

namespace Text

/-! ## Blanks at the ends -/

/-- What is left of a text when the blanks at its ends are taken away. -/
structure IsTrimmed (text rest : List Char) : Prop where
  ends : ∃ front back, text = front ++ rest ++ back ∧ ∀ c ∈ front ++ back, isBlank c = true
  head : ∀ c ∈ rest.head?, isBlank c = false
  last : ∀ c ∈ rest.getLast?, isBlank c = false

theorem isTrimmed_trim (s : List Char) : IsTrimmed s (trim s) := by
  obtain ⟨back, hs, hback, hlast⟩ := exists_dropEndWhile isBlank (s.dropWhile isBlank)
  refine ⟨⟨s.takeWhile isBlank, back, ?_, fun c hc => ?_⟩, fun c hc => ?_, hlast⟩
  · rw [trim, List.append_assoc, ← hs, List.takeWhile_append_dropWhile]
  · rcases List.mem_append.mp hc with hc | hc
    · exact List.all_eq_true.mp List.all_takeWhile c hc
    · exact hback c hc
  · obtain ⟨rest, hrest⟩ := List.head?_eq_some_iff.mp hc
    have hhead := List.head?_dropWhile_not isBlank s
    rw [hs, ← trim, hrest] at hhead
    exact hhead

theorem trim_eq_self {s : List Char} (h : ∀ c ∈ s, isBlank c = false) : trim s = s := by
  have hself : ∀ l : List Char, (∀ c ∈ l, isBlank c = false) → l.dropWhile isBlank = l := by
    intro l hl
    cases l with
    | nil => rfl
    | cons c l => exact List.dropWhile_cons_of_neg (by simp [hl c List.mem_cons_self])
  rw [trim, hself s h, dropEndWhile, hself _ fun c hc => h c (List.mem_reverse.mp hc),
    List.reverse_reverse]

/-! ## The last cut -/

/-- A text cut at an occurrence of the separator, behind whose start no other one starts. -/
structure IsLastCut (sep text before after : List Char) : Prop where
  eq : text = before ++ sep ++ after
  last : ∀ b a, text = b ++ sep ++ a → b.length ≤ before.length

variable {sep s before after : List Char}

theorem IsLastCut.isInfix (h : IsLastCut sep s before after) : sep <:+: s :=
  ⟨before, after, h.eq.symm⟩

theorem isLastCut_of_splitLast? (h : splitLast? sep s = some (before, after)) :
    IsLastCut sep s before after := by
  refine ⟨eq_of_splitLast? h, ?_⟩
  induction s generalizing before after with
  | nil =>
    intro b a hs
    obtain ⟨hb, -⟩ := List.append_eq_nil_iff.mp (List.append_eq_nil_iff.mp hs.symm).1
    exact hb ▸ Nat.zero_le _
  | cons c rest ih =>
    intro b a hs
    cases b with
    | nil => exact Nat.zero_le _
    | cons d b =>
      have hrest : rest = b ++ sep ++ a := (List.cons.inj hs).2
      rw [splitLast?] at h
      split at h
      · rename_i hsplit
        cases h
        exact Nat.succ_le_succ (ih hsplit b a hrest)
      · rename_i hsplit
        exact absurd ⟨b, a, hrest.symm⟩ (splitLast?_eq_none_iff.mp hsplit)

theorem IsLastCut.unique {before' after' : List Char} (h : IsLastCut sep s before after)
    (h' : IsLastCut sep s before' after') : before = before' ∧ after = after' := by
  have hlen : before.length = before'.length :=
    Nat.le_antisymm (h'.last _ _ h.eq) (h.last _ _ h'.eq)
  have heq := h.eq.symm.trans h'.eq
  rw [List.append_assoc, List.append_assoc] at heq
  obtain ⟨hbefore, hrest⟩ := List.append_inj heq hlen
  exact ⟨hbefore, List.append_cancel_left hrest⟩

theorem splitLast?_eq_some_iff :
    splitLast? sep s = some (before, after) ↔ IsLastCut sep s before after := by
  refine ⟨isLastCut_of_splitLast?, fun h => ?_⟩
  cases hsplit : splitLast? sep s with
  | none => exact absurd h.isInfix (splitLast?_eq_none_iff.mp hsplit)
  | some parts =>
    obtain ⟨hbefore, hafter⟩ := h.unique (isLastCut_of_splitLast? hsplit)
    rw [hbefore, hafter]

/-- Another occurrence behind the cut would start later. -/
theorem IsLastCut.notInfix (h : IsLastCut sep s before after) (hne : sep ≠ []) :
    ¬ sep <:+: after := by
  intro hin
  obtain ⟨b, a, rfl⟩ := hin
  have hlast := h.last (before ++ sep ++ b) a (by rw [h.eq]; simp only [List.append_assoc])
  have hpos := List.length_pos_iff.mpr hne
  rw [List.length_append, List.length_append] at hlast
  omega

/-- An occurrence that starts later lies in what follows the first character of the separator. -/
theorem isLastCut_append (hne : sep ≠ []) (h : ¬ sep <:+: sep.tail ++ after)
    (before : List Char) : IsLastCut sep (before ++ sep ++ after) before after := by
  refine ⟨rfl, fun b a hs => Nat.le_of_not_lt fun hlt => h ?_⟩
  have hfront : before <+: before ++ sep ++ after := by
    rw [List.append_assoc]
    exact List.prefix_append _ _
  have hb : b <+: before ++ sep ++ after := by
    rw [hs, List.append_assoc]
    exact List.prefix_append _ _
  obtain ⟨gap, rfl⟩ := List.prefix_of_prefix_length_le hfront hb (Nat.le_of_lt hlt)
  simp only [List.append_assoc] at hs
  have hgap := List.append_cancel_left hs
  cases gap with
  | nil => simp at hlt
  | cons c gap =>
    cases sep with
    | nil => exact absurd rfl hne
    | cons d sep =>
      have htail := (List.cons.inj hgap).2
      exact ⟨gap, a, by rw [List.append_assoc]; exact htail.symm⟩

end Text

namespace RootType

open Text (IsTrimmed IsLastCut HasNoBlank)

/-! ## Module and name -/

/-- The module and the name in a text. Without a separator all of it is the name. -/
inductive IsSplit (sep text : List Char) : List Char → List Char → Prop where
  | cut {module name : List Char} : IsLastCut sep text module name → IsSplit sep text module name
  | bare : ¬ sep <:+: text → IsSplit sep text [] text

theorem split_eq_iff {sep text module name : List Char} :
    split sep text = (module, name) ↔ IsSplit sep text module name := by
  unfold split
  cases hsplit : Text.splitLast? sep text with
  | some parts =>
    have hcut : IsLastCut sep text parts.1 parts.2 := Text.splitLast?_eq_some_iff.mp hsplit
    rw [Option.getD_some]
    constructor
    · rintro rfl
      exact .cut hcut
    · intro h
      cases h with
      | cut h =>
        obtain ⟨hmodule, hname⟩ := hcut.unique h
        exact Prod.ext hmodule hname
      | bare h => exact absurd hcut.isInfix h
  | none =>
    have hnone : ¬ sep <:+: text := Text.splitLast?_eq_none_iff.mp hsplit
    rw [Option.getD_none]
    constructor
    · intro h
      obtain ⟨rfl, rfl⟩ := Prod.mk.inj h
      exact .bare hnone
    · intro h
      cases h with
      | cut h => exact absurd h.isInfix hnone
      | bare => rfl

theorem IsSplit.notInfix {sep text module name : List Char} (h : IsSplit sep text module name)
    (hne : sep ≠ []) : ¬ sep <:+: name := by
  cases h with
  | cut h => exact h.notInfix hne
  | bare h => exact h

/-- Without a separator to look for, the cut is at the end. -/
theorem IsSplit.name_eq_nil {text module name : List Char} (h : IsSplit [] text module name) :
    name = [] := by
  cases h with
  | cut h =>
    have hlast := h.last text [] (by simp)
    rw [h.eq, List.append_nil, List.length_append] at hlast
    exact List.eq_nil_of_length_eq_zero (by omega)
  | bare h => exact absurd (List.nil_infix) h

variable {separator path : String} {root : RootType}

theorem separator_ne_nil (h : ofPath separator path = .ok root) : separator.toList ≠ [] := by
  obtain ⟨hsplit, hname, -⟩ := ofPath_eq_ok.mp h
  intro hempty
  rw [hempty] at hsplit
  exact hname (String.toList_eq_nil_iff.mp (split_eq_iff.mp hsplit).name_eq_nil)

/-- No occurrence of a target's separator reaches into a name without one, except that the
first colon of a name makes a separator with a colon in front of it. -/
theorem notInfix_tail {name : String} (h : separator ∈ [".", "::"])
    (hnone : ¬ separator.toList <:+: name.toList) (hcolon : name.toList.head? ≠ some ':') :
    ¬ separator.toList <:+: separator.toList.tail ++ name.toList := by
  rcases List.mem_pair.mp h with rfl | rfl
  · exact hnone
  · have hcolons : "::".toList = [':', ':'] := by decide
    rw [hcolons] at hnone ⊢
    intro hin
    rcases List.infix_cons_iff.mp hin with hprefix | hin
    · obtain ⟨rest, hrest⟩ := (List.cons_prefix_cons.mp hprefix).2
      exact hcolon (List.head?_eq_some_iff.mpr ⟨rest, hrest.symm⟩)
    · exact hnone hin

/-- Texts without blanks are read from the text that they make, when it is cut where they were
joined. -/
theorem ofPath_join {module name : String} (hsep : HasNoBlank separator)
    (hmodule : HasNoBlank module) (hname : HasNoBlank name) (hne : name ≠ "")
    (hcut : IsLastCut separator.toList (module.toList ++ separator.toList ++ name.toList)
      module.toList name.toList) :
    ofPath separator (module ++ separator ++ name) = .ok ⟨module, name⟩ := by
  have hblank : ∀ c ∈ module.toList ++ separator.toList ++ name.toList,
      Text.isBlank c = false := by
    intro c hc
    rcases List.mem_append.mp hc with hc | hc
    · rcases List.mem_append.mp hc with hc | hc
      · exact hmodule.isBlank hc
      · exact hsep.isBlank hc
    · exact hname.isBlank hc
  rw [ofPath_eq_ok, String.toList_append, String.toList_append, Text.trim_eq_self hblank]
  exact ⟨split_eq_iff.mpr (.cut hcut), hne, hname, hmodule⟩

/-- **Reading a path and joining its parts undo each other.** What is read is the path without
the blanks at its ends, cut at the last separator. It is a root type when there are no blanks in
its parts and there is a name, and else it is blamed. An empty separator leaves no name. Module
and name, joined with the separator of a target, are read as they were. -/
theorem ofPath_splits_and_joins (separator : String) :
    (∀ path : String, ∃ text, IsTrimmed path.toList text ∧
      match ofPath separator path with
      | .ok root => IsSplit separator.toList text root.module.toList root.name.toList ∧
          root.name ≠ "" ∧ HasNoBlank root.module ∧ HasNoBlank root.name ∧
          ¬ separator.toList <:+: root.name.toList
      | .error blamed => blamed.toList = text ∧ ∃ module name : String,
          IsSplit separator.toList text module.toList name.toList ∧
          (name = "" ∨ ¬ HasNoBlank module ∨ ¬ HasNoBlank name)) ∧
    (separator = "" → ∀ path, ∃ blamed, ofPath separator path = .error blamed) ∧
    (separator ∈ [".", "::"] → ∀ module name : String, HasNoBlank module → HasNoBlank name →
      name ≠ "" → ¬ separator.toList <:+: name.toList → name.toList.head? ≠ some ':' →
      ofPath separator (module ++ separator ++ name) = .ok ⟨module, name⟩) := by
  refine ⟨fun path => ⟨_, Text.isTrimmed_trim path.toList, ?_⟩, fun hempty path => ?_,
    fun hsep module name hmodule hname hne hnone hcolon => ?_⟩
  · cases h : ofPath separator path with
    | ok root =>
      obtain ⟨hsplit, hne, hname, hmodule⟩ := ofPath_eq_ok.mp h
      have hparts := split_eq_iff.mp hsplit
      exact ⟨hparts, hne, hmodule, hname, hparts.notInfix (separator_ne_nil h)⟩
    | error blamed =>
      obtain ⟨rfl, module, name, hsplit, hbad⟩ := ofPath_eq_error.mp h
      refine ⟨String.toList_ofList, String.ofList module, String.ofList name, ?_, ?_⟩
      · simpa using split_eq_iff.mp hsplit
      · simpa [HasNoBlank, or_comm] using hbad
  · cases h : ofPath separator path with
    | ok root => exact absurd (String.toList_eq_nil_iff.mpr hempty) (separator_ne_nil h)
    | error blamed => exact ⟨blamed, rfl⟩
  · have hfree : HasNoBlank separator ∧ separator.toList ≠ [] := by
      rcases List.mem_pair.mp hsep with rfl | rfl <;> decide
    have hcut := Text.isLastCut_append hfree.2 (notInfix_tail hsep hnone hcolon) module.toList
    exact ofPath_join hfree.1 hmodule hname hne hcut

/-- The separator is found in the last two of three colons, so the first one stays with the
module. -/
theorem ofPath_splits_and_joins_of_colons :
    "::" ∈ [".", "::"] ∧ HasNoBlank "a:" ∧ HasNoBlank "B" ∧ "B" ≠ "" ∧
    ¬ "::".toList <:+: "B".toList ∧ "B".toList.head? ≠ some ':' ∧
    ofPath "::" ("a:" ++ "::" ++ "B") = .ok ⟨"a:", "B"⟩ ∧
    (∃ text, IsTrimmed "\u00a0a:::B\n".toList text ∧
      IsSplit "::".toList text "a:".toList "B".toList) ∧
    ∃ blamed, ofPath "" "a" = .error blamed := by
  have hread : ofPath "::" "\u00a0a:::B\n" = .ok ⟨"a:", "B"⟩ := by decide +kernel
  obtain ⟨hsplits, -, hjoins⟩ := ofPath_splits_and_joins "::"
  obtain ⟨text, htext, hparts⟩ := hsplits "\u00a0a:::B\n"
  rw [hread] at hparts
  have hsep : "::" ∈ [".", "::"] := by decide
  have hmodule : HasNoBlank "a:" := by decide
  have hname : HasNoBlank "B" := by decide
  have hne : "B" ≠ "" := by decide
  have hnone : ¬ "::".toList <:+: "B".toList := by decide
  have hcolon : "B".toList.head? ≠ some ':' := by decide
  exact ⟨hsep, hmodule, hname, hne, hnone, hcolon,
    hjoins hsep "a:" "B" hmodule hname hne hnone hcolon, ⟨text, htext, hparts.1⟩,
    (ofPath_splits_and_joins "").2.1 rfl "a"⟩

end RootType

end RuleClasses
