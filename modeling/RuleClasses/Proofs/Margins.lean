import RuleClasses.Layout.Page
import Mathlib.Data.List.Forall2
import Mathlib.Data.List.Infix
import Mathlib.Data.List.TakeWhile

/-! Margins of blocks. The margin of a block is measured in bytes, as the smallest indentation
of its lines, and that many bytes are taken off every line. They are never more than a line
has, and no more than its blanks. But where blanks of several bytes are in front, they can end
inside a character, and then the block cannot be placed. -/

namespace RuleClasses

/-! ## Lists of optional values -/

section

variable {α β : Type} {f : α → Option β} {l : List α}

theorem mapM_eq_some {bs : List β} :
    l.mapM f = some bs ↔ List.Forall₂ (fun a b => f a = some b) l bs := by
  induction l generalizing bs with
  | nil => exact ⟨fun h => by cases h; exact .nil, fun h => by cases h; rfl⟩
  | cons a l ih =>
    simp only [List.mapM_cons, Option.bind_eq_bind, Option.bind_eq_some_iff, Option.pure_def,
      Option.some.injEq]
    constructor
    · rintro ⟨b, hb, rest, hrest, rfl⟩
      exact .cons hb (ih.mp hrest)
    · intro h
      cases h with
      | cons hb hrest => exact ⟨_, hb, _, ih.mpr hrest, rfl⟩

theorem mapM_eq_none : l.mapM f = none ↔ ∃ a ∈ l, f a = none := by
  induction l with
  | nil => simp
  | cons a l ih =>
    rw [List.mapM_cons, List.exists_mem_cons_iff, ← ih]
    cases f a <;> cases l.mapM f <;> simp

end

namespace Layout

/-! ## Bytes at the start of a line -/

theorem width_cons (c : Char) (s : List Char) : width (c :: s) = c.utf8Size + width s := rfl

theorem width_append (s t : List Char) : width (s ++ t) = width s + width t := by
  induction s with
  | nil => exact (Nat.zero_add _).symm
  | cons c s ih => rw [List.cons_append, width_cons, width_cons, ih, Nat.add_assoc]

theorem eq_nil_of_width {s : List Char} (h : width s = 0) : s = [] := by
  cases s with
  | nil => rfl
  | cons c s =>
    have hpos : 0 < c.utf8Size := c.utf8Size_pos
    rw [width_cons] at h
    omega

/-- The place `n` bytes into a text is not inside a character. -/
def OnBoundary (n : Nat) (s : List Char) : Prop := ∃ front, front <+: s ∧ width front = n

theorem dropBytes?_eq_some {n : Nat} {s rest : List Char} :
    dropBytes? n s = some rest ↔ ∃ front, s = front ++ rest ∧ width front = n := by
  fun_induction dropBytes? n s with
  | case1 s =>
    constructor
    · rintro ⟨⟩
      exact ⟨[], rfl, rfl⟩
    · rintro ⟨front, rfl, hfront⟩
      rw [eq_nil_of_width hfront, List.nil_append]
  | case2 n =>
    refine ⟨nofun, fun ⟨front, hs, hfront⟩ => ?_⟩
    rw [(List.append_eq_nil_iff.mp hs.symm).1] at hfront
    cases hfront
  | case3 n c s hle ih =>
    rw [ih]
    constructor
    · rintro ⟨front, hs, hfront⟩
      exact ⟨c :: front, congrArg _ hs, by rw [width_cons, hfront]; omega⟩
    · rintro ⟨front, hs, hfront⟩
      cases front with
      | nil => cases hfront
      | cons d front =>
        obtain ⟨rfl, hrest⟩ := List.cons.inj hs
        rw [width_cons] at hfront
        exact ⟨front, hrest, by omega⟩
  | case4 n c s hle =>
    refine ⟨nofun, fun ⟨front, hs, hfront⟩ => ?_⟩
    cases front with
    | nil => cases hfront
    | cons d front =>
      obtain ⟨rfl, -⟩ := List.cons.inj hs
      rw [width_cons] at hfront
      omega

theorem dropBytes?_eq_none {n : Nat} {s : List Char} :
    dropBytes? n s = none ↔ ¬ OnBoundary n s := by
  rw [Option.eq_none_iff_forall_ne_some, OnBoundary, not_exists]
  simp only [ne_eq, dropBytes?_eq_some, not_exists, not_and]
  constructor
  · rintro h front ⟨rest, rfl⟩ hfront
    exact h rest front rfl hfront
  · rintro h rest front rfl hfront
    exact h front (List.prefix_append front rest) hfront

/-- No more bytes than the margin of a line has are all blanks. -/
theorem all_isBlank_of_width_le {front rest : List Char}
    (h : width front ≤ margin (front ++ rest)) : ∀ c ∈ front, Text.isBlank c = true := by
  have hblanks : ∀ c ∈ (front ++ rest).takeWhile Text.isBlank, Text.isBlank c = true :=
    fun c hc => List.mem_takeWhile_imp hc
  rcases List.prefix_or_prefix_of_prefix (List.prefix_append front rest)
      (List.takeWhile_prefix (p := Text.isBlank) (l := front ++ rest)) with hfront | ⟨more, hmore⟩
  · exact fun c hc => hblanks c (hfront.subset hc)
  · rw [margin, ← hmore, width_append] at h
    have hnil : more = [] := eq_nil_of_width (by rw [hmore] at h; omega)
    rw [hnil, List.append_nil] at hmore
    exact hmore ▸ hblanks

/-! ## The margin that lines have in common -/

variable {lines : List (List Char)} {l : List Char}

theorem margin_le_width (l : List Char) : margin l ≤ width l := by
  obtain ⟨rest, hrest⟩ := List.takeWhile_prefix (p := Text.isBlank) (l := l)
  have hwidth := congrArg width hrest
  rw [width_append] at hwidth
  exact Nat.le.intro hwidth

theorem commonMargin_le (hl : l ∈ lines) (h : isBlankLine l = false) :
    commonMargin lines ≤ margin l :=
  List.min?_getD_le_of_mem (List.mem_map_of_mem (List.mem_filter.mpr ⟨hl, by simp [h]⟩))

/-- Some line has no more indentation than what is taken off. -/
theorem exists_margin_eq (h : ∃ l ∈ lines, isBlankLine l = false) :
    ∃ l ∈ lines, isBlankLine l = false ∧ margin l = commonMargin lines := by
  obtain ⟨l, hl, hfull⟩ := h
  have hmem : margin l ∈ (lines.filter fun l => !isBlankLine l).map margin :=
    List.mem_map_of_mem (List.mem_filter.mpr ⟨hl, by simp [hfull]⟩)
  obtain ⟨n, hn⟩ := Option.isSome_iff_exists.mp
    (List.isSome_min?_of_mem hmem)
  obtain ⟨l', hl', hmargin⟩ := List.mem_map.mp (List.min?_mem hn)
  obtain ⟨hl', hfull'⟩ := List.mem_filter.mp hl'
  refine ⟨l', hl', by simpa using hfull', ?_⟩
  rw [hmargin, commonMargin, hn, Option.getD_some]

theorem block?_eq_some {text : String} {ls : List Layout} : block? text = some ls ↔
    List.Forall₂ (fun l out => blockLine? (commonMargin (blockLines text.toList)) l = some out)
      (blockLines text.toList) ls := mapM_eq_some

theorem blockLine?_eq_none {cut : Nat} :
    blockLine? cut l = none ↔ isBlankLine l = false ∧ ¬ OnBoundary cut l := by
  unfold blockLine?
  split
  · simp [*]
  · simp [*, dropBytes?_eq_none]

theorem block?_eq_none {text : String} : block? text = none ↔
    ∃ l ∈ blockLines text.toList, isBlankLine l = false ∧
      ¬ OnBoundary (commonMargin (blockLines text.toList)) l := by
  simp only [block?, mapM_eq_none, blockLine?_eq_none]

theorem width_eq_length {s : List Char} (h : ∀ c ∈ s, c.utf8Size = 1) : width s = s.length := by
  induction s with
  | nil => rfl
  | cons c s ih =>
    obtain ⟨hc, hs⟩ := List.forall_mem_cons.mp h
    rw [width_cons, hc, ih hs, Nat.add_comm, List.length_cons]

/-- Blanks of one byte can be cut anywhere. -/
theorem onBoundary_of_narrow {n : Nat} (hn : n ≤ margin l)
    (h : ∀ c ∈ l.takeWhile Text.isBlank, c.utf8Size = 1) : OnBoundary n l := by
  refine ⟨(l.takeWhile Text.isBlank).take n,
    (List.take_prefix n _).trans (List.takeWhile_prefix _), ?_⟩
  rw [margin, width_eq_length h] at hn
  rw [width_eq_length fun c hc => h c (List.mem_of_mem_take hc), List.length_take]
  exact Nat.min_eq_left hn

end Layout

namespace Page

open Layout

/-- **A block cannot be placed exactly if its margin ends inside a character of some line.** The
margin is never more than a line has, so this takes blanks of several bytes: with blanks of one
byte in front of its lines every block can be placed. -/
theorem write_block_eq_none_iff (p : Page) (text : String) :
    (∀ l ∈ blockLines text.toList, isBlankLine l = false →
      commonMargin (blockLines text.toList) ≤ width l) ∧
    (p.write (.block text) = none ↔
      ∃ l ∈ blockLines text.toList, isBlankLine l = false ∧
        ¬ OnBoundary (commonMargin (blockLines text.toList)) l) ∧
    ((∀ l ∈ blockLines text.toList, ∀ c ∈ l.takeWhile Text.isBlank, c.utf8Size = 1) →
      p.write (.block text) ≠ none) := by
  have hnone : p.write (.block text) = none ↔ block? text = none := Option.map_eq_none_iff
  refine ⟨fun l hl h => (commonMargin_le hl h).trans (margin_le_width l),
    hnone.trans block?_eq_none, fun hnarrow => ?_⟩
  rw [ne_eq, hnone, block?_eq_none]
  rintro ⟨l, hl, h, hinside⟩
  exact hinside (onBoundary_of_narrow (commonMargin_le hl h) (hnarrow l hl))

/-- One line starts with a space, the other with a no-break space, which has two bytes. What the
two have in common is nothing, but one byte is taken off both. -/
theorem margin_inside_character :
    blockLines " a\n\u00a0b".toList = [[' ', 'a'], ['\u00a0', 'b']] ∧
      isBlankLine ['\u00a0', 'b'] = false ∧
      commonMargin [[' ', 'a'], ['\u00a0', 'b']] = 1 ∧
      ¬ OnBoundary 1 ['\u00a0', 'b'] ∧
      write {} (.block " a\n\u00a0b") = none := by
  rw [← dropBytes?_eq_none]
  decide

end Page

end RuleClasses
