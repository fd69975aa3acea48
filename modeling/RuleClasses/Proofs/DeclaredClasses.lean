import RuleClasses.Proofs.Identifiers

/-! What a line declares. The keyword of a class can stand anywhere in a line, and there can be
blanks or comments between it and the name. Whether all of it is in a comment or in a literal
is not asked, so that no line is read as declaring less than it does. -/

namespace RuleClasses

namespace Text

/-- A word character, or one of the two others with which an identifier can start. -/
def isNameChar (c : Char) : Bool := isWordChar c || c == '\u2118' || c == '\u212E'

/-- The marks beside the names in a row. -/
def nameMarks : List Char := [' ', '(', ')', ':', ';', ',', '"', '&', '\x7b']

theorem isNameChar_mark {c : Char} (h : c ∈ nameMarks) : isNameChar c = false := by
  have hall : (nameMarks.all fun c => !isNameChar c) = true := by decide +kernel
  simpa using List.all_eq_true.mp hall c h

theorem isNameChar_space : isNameChar ' ' = false := isNameChar_mark (by decide)

/-- A list of marks is told by computation. -/
theorem mem_nameMarks_of_all {marks : List Char} (h : marks.all nameMarks.contains = true) :
    ∀ c ∈ marks, c ∈ nameMarks :=
  fun c hc => List.contains_iff_mem.mp (List.all_eq_true.mp h c hc)

theorem IsWord.isNameChar {s : String} (h : IsWord s) {c : Char} (hc : c ∈ s.toList) :
    Text.isNameChar c = true := by
  simp [Text.isNameChar, h.isWordChar hc]

theorem isWordChar_of_isNameChar {c : Char} (h : isNameChar c = false) : isWordChar c = false := by
  simp only [isNameChar, Bool.or_eq_false_iff] at h
  exact h.1.1

theorem isBlank_eq_false_of_isNameChar {c : Char} (h : isNameChar c = true) :
    isBlank c = false := by
  simp only [isNameChar, Bool.or_eq_true, beq_iff_eq] at h
  rcases h with (h | rfl) | rfl
  · rw [← Bool.not_eq_true]
    intro hblank
    exact absurd (h.symm.trans (isWordChar_eq_false_of_isBlank hblank)) (by decide)
  · decide
  · decide

theorem takeWhile_append_marks {marks : List Char} (h : ∀ c ∈ marks, c ∈ nameMarks)
    (s : List Char) : (s ++ marks).takeWhile isNameChar = s.takeWhile isNameChar := by
  have hmarks : marks.takeWhile isNameChar = [] := by
    cases marks with
    | nil => rfl
    | cons c rest =>
      exact List.takeWhile_cons_of_neg (by simp [isNameChar_mark (h c List.mem_cons_self)])
  rw [List.takeWhile_append, hmarks, List.append_nil]
  split
  · rename_i hall
    exact ((List.takeWhile_sublist _).eq_of_length hall).symm
  · rfl

end Text

open Text (IsWord HasNoBlank IsIdentifier isNameChar nameMarks isNameChar_mark isNameChar_space)

namespace Emit.Structs

/-- White space, and the two direction marks that can stand for it. -/
def isGap (c : Char) : Bool := Text.isBlank c || c == '\u200E' || c == '\u200F'

/-- Drops blanks and comments. There can be comments in a comment, and `depth` of them are
open. -/
def dropGap : Nat → List Char → List Char
  | _, [] => []
  | depth, '/' :: '*' :: rest => dropGap (depth + 1) rest
  | depth + 1, '*' :: '/' :: rest => dropGap depth rest
  | depth + 1, _ :: rest => dropGap (depth + 1) rest
  | 0, c :: rest => if isGap c then dropGap 0 rest else c :: rest

section

variable {c : Char} {rest : List Char}

/-- In a comment a character is dropped that neither opens nor closes one. -/
theorem dropGap_succ_cons (hopen : ∀ s, c = '/' → rest ≠ '*' :: s)
    (hclose : ∀ s, c = '*' → rest ≠ '/' :: s) (depth : Nat) :
    dropGap (depth + 1) (c :: rest) = dropGap (depth + 1) rest := by
  rw [dropGap]
  exacts [hopen, hclose]

theorem dropGap_zero_cons (hopen : ∀ s, c = '/' → rest ≠ '*' :: s) :
    dropGap 0 (c :: rest) = if isGap c then dropGap 0 rest else c :: rest := by
  rw [dropGap]
  exact hopen

end

variable {marks : List Char}

theorem takeWhile_dropGap_marks (h : ∀ c ∈ marks, c ∈ nameMarks) (depth : Nat) :
    (dropGap depth marks).takeWhile isNameChar = [] := by
  induction marks generalizing depth with
  | nil => rw [dropGap]; rfl
  | cons c rest ih =>
    obtain ⟨hc, hrest⟩ := List.forall_mem_cons.mp h
    have hopen : ∀ s, c = '/' → rest ≠ '*' :: s := by
      rintro s rfl
      exact absurd hc (by decide)
    have hclose : ∀ s, c = '*' → rest ≠ '/' :: s := by
      rintro s rfl
      exact absurd hc (by decide)
    cases depth with
    | succ depth => rw [dropGap_succ_cons hopen hclose, ih hrest]
    | zero =>
      rw [dropGap_zero_cons hopen]
      split
      · exact ih hrest 0
      · exact List.takeWhile_cons_of_neg (by simp [isNameChar_mark hc])

/-- Marks behind a text add nothing to what is read behind its gap. -/
theorem takeWhile_dropGap_append (h : ∀ c ∈ marks, c ∈ nameMarks) (depth : Nat) (s : List Char) :
    (dropGap depth (s ++ marks)).takeWhile isNameChar =
      (dropGap depth s).takeWhile isNameChar := by
  have hnext : ∀ {d : Char} {rest : List Char}, d ∉ nameMarks → (∀ s, rest ≠ d :: s) →
      ∀ s, rest ++ marks ≠ d :: s := by
    intro d rest hd hrest s he
    cases rest with
    | nil =>
      obtain rfl : marks = d :: s := he
      exact hd (h d List.mem_cons_self)
    | cons e rest => exact hrest rest (congrArg (· :: rest) (List.cons.inj he).1)
  have hslash : '/' ∉ nameMarks := by decide
  have hstar : '*' ∉ nameMarks := by decide
  fun_induction dropGap depth s with
  | case1 depth => exact takeWhile_dropGap_marks h depth
  | case2 depth rest ih => exact ih
  | case3 depth rest ih => exact ih
  | case4 depth c rest hopen hclose ih =>
    rw [List.cons_append, dropGap_succ_cons _ _, ih]
    · exact fun s hc => hnext hstar (fun s => hopen s hc) s
    · exact fun s hc => hnext hslash (fun s => hclose s hc) s
  | case5 c rest hopen hgap ih =>
    rw [List.cons_append, dropGap_zero_cons, if_pos hgap, ih]
    exact fun s hc => hnext hstar (fun s => hopen s hc) s
  | case6 c rest hopen hgap =>
    rw [List.cons_append, dropGap_zero_cons, if_neg hgap, ← List.cons_append,
      Text.takeWhile_append_marks h]
    exact fun s hc => hnext hstar (fun s => hopen s hc) s

end Emit.Structs

namespace Target

/-! ## Declarations in a line -/

/-- What stands in front of the name of a class. -/
def classKeyword : Target → String
  | python => "class"
  | rust => "struct"

/-- The words that are no names of classes. In Rust every word is taken for a name. -/
def otherWords : Target → List String
  | python => python.keywords
  | rust => []

/-- Drops what can stand between the keyword and the name. -/
def dropGap : Target → List Char → List Char
  | python, s => s.dropWhile Text.isBlank
  | rust, s => Emit.Structs.dropGap 0 s

/-- The name of a class, read behind the keyword. -/
def nameBehind? (t : Target) (s : List Char) : Option String :=
  -- of a raw identifier only the mark in front is read, which is a name as well
  let name := String.ofList ((t.dropGap s).takeWhile isNameChar)
  if s.head?.any isNameChar ∨ name = "" ∨ name ∈ t.otherWords then none else some name

/-- The name of the class with whose declaration the text starts. -/
def declaredAt? (t : Target) (s : List Char) : Option String :=
  (s.dropPrefix? t.classKeyword.toList).bind t.nameBehind?

/-- The names of the classes that are declared in a text, when a word may go on into it. No
keyword starts inside of a word. -/
def declaredFrom (t : Target) : Bool → List Char → List String
  | _, [] => []
  | inWord, c :: rest =>
    ((t.declaredAt? (c :: rest)).filter fun _ => !inWord).toList ++
      t.declaredFrom (isNameChar c) rest

/-- The names of the classes that the line declares, wherever in it. -/
def declaredIn (t : Target) (line : List Char) : List String := t.declaredFrom false line

example : rust.declaredIn "use structs::Op;pub struct/* of */Num;".toList = ["Num"] := by
  decide +kernel

variable {t : Target}

theorem dropGap_space (t : Target) (s : List Char) : t.dropGap (' ' :: s) = t.dropGap s := by
  cases t with
  | python =>
    have hblank : Text.isBlank ' ' = true := by decide
    exact List.dropWhile_cons_of_pos hblank
  | rust => exact Emit.Structs.dropGap_zero_cons fun _ h => absurd h (show ' ' ≠ '/' by decide)

theorem dropGap_of_isNameChar {c : Char} (h : isNameChar c = true) (s : List Char) :
    t.dropGap (c :: s) = c :: s := by
  have hblank := Text.isBlank_eq_false_of_isNameChar h
  cases t with
  | python => exact List.dropWhile_cons_of_neg (by simp [hblank])
  | rust =>
    have hother : ∀ d ∈ ['/', '\u200E', '\u200F'], c ≠ d := by
      have hall : (['/', '\u200E', '\u200F'].all fun d => !isNameChar d) = true := by
        decide +kernel
      rintro d hd rfl
      simpa [h] using List.all_eq_true.mp hall c hd
    have hgap : Emit.Structs.isGap c = false := by
      simp [Emit.Structs.isGap, hblank, hother]
    refine (Emit.Structs.dropGap_zero_cons fun _ hc => absurd hc (hother _ (by simp))).trans ?_
    rw [hgap]
    rfl

theorem takeWhile_dropGap_append (t : Target) {marks : List Char}
    (h : ∀ c ∈ marks, c ∈ nameMarks) (s : List Char) :
    (t.dropGap (s ++ marks)).takeWhile isNameChar = (t.dropGap s).takeWhile isNameChar := by
  cases t with
  | rust => exact Emit.Structs.takeWhile_dropGap_append h 0 s
  | python =>
    rw [dropGap, dropGap, List.dropWhile_append]
    split
    · rename_i hempty
      rw [List.isEmpty_iff.mp hempty]
      exact Text.takeWhile_append_marks
        (fun c hc => h c ((List.dropWhile_sublist _).subset hc)) []
    · exact Text.takeWhile_append_marks h _

theorem isWord_classKeyword (t : Target) : IsWord t.classKeyword := by
  cases t <;> decide

theorem classKeyword_ne_nil (t : Target) : t.classKeyword.toList ≠ [] := by
  cases t <;> decide

theorem isNameChar_of_mem_classKeyword {c : Char} (h : c ∈ t.classKeyword.toList) :
    isNameChar c = true := t.isWord_classKeyword.isNameChar h

theorem declaredAt?_eq_none {s : List Char} (h : ¬ t.classKeyword.toList <+: s) :
    t.declaredAt? s = none := by
  have hprefix : s.dropPrefix? t.classKeyword.toList = none := by
    refine Option.eq_none_iff_forall_ne_some.mpr fun rest hrest => h ?_
    obtain ⟨keyword, rfl, hk⟩ := List.dropPrefix?_eq_some_iff.mp hrest
    obtain rfl : keyword = t.classKeyword.toList := by simpa using hk
    exact List.prefix_append _ _
  rw [declaredAt?, hprefix]
  rfl

theorem declaredAt?_append (t : Target) (s : List Char) :
    t.declaredAt? (t.classKeyword.toList ++ s) = t.nameBehind? s := by
  rw [declaredAt?, List.dropPrefix?_append_of_beq _ (by simp), Option.bind_some]

/-- No class is declared at a place where no name is behind the keyword. -/
theorem declaredAt?_eq_none_of_behind {s : List Char}
    (h : ∀ rest, s = t.classKeyword.toList ++ rest → t.nameBehind? rest = none) :
    t.declaredAt? s = none := by
  by_cases hs : t.classKeyword.toList <+: s
  · obtain ⟨rest, rfl⟩ := hs
    rw [declaredAt?_append, h rest rfl]
  · exact declaredAt?_eq_none hs

/-- A word that goes on is no keyword, and without a gap there is no name. -/
theorem nameBehind?_eq_none {s : List Char} (h : t.dropGap s = s) : t.nameBehind? s = none := by
  refine if_pos ?_
  rw [h]
  cases s with
  | nil => exact .inr (.inl rfl)
  | cons c rest =>
    cases hc : isNameChar c with
    | true => exact .inl hc
    | false =>
      refine .inr (.inl ?_)
      rw [List.takeWhile_cons_of_neg (by simp [hc])]

/-- The keyword does not go across a mark. -/
theorem prefix_of_prefix_append {a s : List Char} {m : Char} (hm : isNameChar m = false)
    (h : t.classKeyword.toList <+: a ++ m :: s) : t.classKeyword.toList <+: a := by
  rcases List.prefix_or_prefix_of_prefix h (List.prefix_append a (m :: s)) with h' | ⟨r, hr⟩
  · exact h'
  · rw [← hr, List.prefix_append_right_inj] at h
    cases r with
    | nil => exact ⟨[], by simpa using hr.symm⟩
    | cons c r =>
      obtain rfl := (List.cons_prefix_cons.mp h).1
      have hc : isNameChar c = true := isNameChar_of_mem_classKeyword (t := t) (by simp [← hr])
      rw [hm] at hc
      cases hc

variable {s : List Char} {m : Char}

theorem declaredFrom_cons {c : Char} (h : t.declaredAt? (c :: s) = none) (w : Bool) :
    t.declaredFrom w (c :: s) = t.declaredFrom (isNameChar c) s := by
  rw [declaredFrom, h]
  rfl

theorem declaredFrom_mark (hm : isNameChar m = false) (w : Bool) (s : List Char) :
    t.declaredFrom w (m :: s) = t.declaredFrom false s := by
  have hat : t.declaredAt? (m :: s) = none := declaredAt?_eq_none fun h =>
    t.classKeyword_ne_nil (List.prefix_nil.mp (prefix_of_prefix_append (a := []) hm h))
  rw [declaredFrom_cons hat, hm]

/-- A text in front of a mark adds nothing if the keyword is not in it. -/
theorem declaredFrom_behind {a : List Char} (ha : ¬ t.classKeyword.toList <:+: a)
    (hm : isNameChar m = false) (w : Bool) (s : List Char) :
    t.declaredFrom w (a ++ m :: s) = t.declaredFrom false s := by
  induction a generalizing w with
  | nil => exact declaredFrom_mark hm w s
  | cons c a ih =>
    have hat : t.declaredAt? (c :: (a ++ m :: s)) = none := declaredAt?_eq_none fun h =>
      ha (prefix_of_prefix_append (a := c :: a) hm h).isInfix
    rw [List.cons_append, declaredFrom_cons hat, ih fun h => ha (List.infix_cons h)]

theorem declaredFrom_eq_nil (h : ¬ t.classKeyword.toList <:+: s) (w : Bool) :
    t.declaredFrom w s = [] := by
  induction s generalizing w with
  | nil => rfl
  | cons c rest ih =>
    have hat : t.declaredAt? (c :: rest) = none := declaredAt?_eq_none fun hp => h hp.isInfix
    rw [declaredFrom_cons hat, ih fun hi => h (List.infix_cons hi)]

theorem declaredFrom_inside {a : List Char} (ha : ∀ c ∈ a, isNameChar c = true)
    (hm : isNameChar m = false) (s : List Char) :
    t.declaredFrom true (a ++ m :: s) = t.declaredFrom false s := by
  induction a with
  | nil => exact declaredFrom_mark hm true s
  | cons c a ih =>
    obtain ⟨hc, hrest⟩ := List.forall_mem_cons.mp ha
    rw [List.cons_append, declaredFrom, hc, ih hrest]
    simp

theorem declaredFrom_word {a : String} (ha : IsWord a) (hne : a ≠ t.classKeyword)
    (hm : isNameChar m = false) (s : List Char) :
    t.declaredFrom false (a.toList ++ m :: s) = t.declaredFrom false s := by
  cases hchars : a.toList with
  | nil => exact declaredFrom_mark hm false s
  | cons c rest =>
    have hword : ∀ c ∈ a.toList, isNameChar c = true := fun _ => ha.isNameChar
    rw [hchars] at hword
    obtain ⟨hc, hrest⟩ := List.forall_mem_cons.mp hword
    have hat : t.declaredAt? (c :: (rest ++ m :: s)) = none := by
      rw [← List.cons_append]
      refine declaredAt?_eq_none_of_behind fun behind hbehind => ?_
      obtain ⟨more, hmore⟩ := prefix_of_prefix_append hm ⟨behind, hbehind.symm⟩
      rw [← hmore, List.append_assoc, List.append_cancel_left_eq] at hbehind
      subst hbehind
      cases more with
      | nil =>
        rw [List.append_nil, ← hchars] at hmore
        exact absurd (String.toList_inj.mp hmore).symm hne
      | cons d more =>
        have hd : isNameChar d = true := hword d (hmore ▸ by simp)
        exact if_pos (.inl hd)
    rw [List.cons_append, declaredFrom_cons hat, hc, declaredFrom_inside hrest hm]

theorem ne_classKeyword {name : String} (h : IsIdentifier t.isKeyword name) :
    name ≠ t.classKeyword := by
  have hkeyword : t.isKeyword t.classKeyword = true := by cases t <;> decide
  rintro rfl
  exact absurd (h.free.symm.trans hkeyword) (by decide)

/-- The word behind one blank is the name, unless it is none at all. -/
theorem nameBehind?_space {a : String} (ha : IsWord a) (hne : a ≠ "")
    (hm : isNameChar m = false) (s : List Char) :
    t.nameBehind? (' ' :: (a.toList ++ m :: s)) = if a ∈ t.otherWords then none else some a := by
  have hgap : t.dropGap (' ' :: (a.toList ++ m :: s)) = a.toList ++ m :: s := by
    rw [dropGap_space]
    cases hchars : a.toList with
    | nil => exact absurd (String.toList_eq_nil_iff.mp hchars) hne
    | cons c rest => exact dropGap_of_isNameChar (ha.isNameChar (hchars ▸ List.mem_cons_self)) _
  have htake : (a.toList ++ m :: s).takeWhile isNameChar = a.toList := by
    rw [List.takeWhile_append_of_pos fun _ => ha.isNameChar,
      List.takeWhile_cons_of_neg (by simp [hm]), List.append_nil]
  rw [nameBehind?, hgap, htake, String.ofList_toList, List.head?_cons, Option.any_some,
    isNameChar_space]
  simp [hne]

/-- A class header declares its class. -/
theorem declaredFrom_header {name : String} (h : IsIdentifier t.isKeyword name)
    (hm : isNameChar m = false) (s : List Char) :
    t.declaredFrom false (t.classKeyword.toList ++ ' ' :: (name.toList ++ m :: s)) =
      name :: t.declaredFrom false s := by
  have hother : name ∉ t.otherWords := by
    cases t with
    | rust => exact List.not_mem_nil
    | python =>
      intro hmem
      exact absurd (h.free.symm.trans (List.contains_iff_mem.mpr hmem)) (by decide)
  have hname : t.nameBehind? (' ' :: (name.toList ++ m :: s)) = some name := by
    rw [nameBehind?_space h.word h.nonempty hm, if_neg hother]
  cases hchars : t.classKeyword.toList with
  | nil => exact absurd hchars t.classKeyword_ne_nil
  | cons c rest =>
    have hword : ∀ d ∈ c :: rest, isNameChar d = true :=
      fun d hd => isNameChar_of_mem_classKeyword (t := t) (hchars ▸ hd)
    obtain ⟨hc, hrest⟩ := List.forall_mem_cons.mp hword
    have hat := t.declaredAt?_append (' ' :: (name.toList ++ m :: s))
    rw [hchars, hname] at hat
    rw [List.cons_append, declaredFrom, ← List.cons_append, hat, hc,
      declaredFrom_inside hrest isNameChar_space, declaredFrom_word h.word (ne_classKeyword h) hm]
    rfl

theorem nameBehind?_append_marks {marks : List Char} (h : ∀ c ∈ marks, c ∈ nameMarks)
    (s : List Char) : t.nameBehind? (s ++ marks) = t.nameBehind? s := by
  have hhead : (s ++ marks).head?.any isNameChar = s.head?.any isNameChar := by
    cases s with
    | cons c rest => rfl
    | nil =>
      cases marks with
      | nil => rfl
      | cons c rest => exact isNameChar_mark (h c List.mem_cons_self)
  rw [nameBehind?, nameBehind?, takeWhile_dropGap_append t h, hhead]

theorem declaredAt?_append_marks {marks : List Char} (h : ∀ c ∈ marks, c ∈ nameMarks)
    (s : List Char) : t.declaredAt? (s ++ marks) = t.declaredAt? s := by
  by_cases hs : t.classKeyword.toList <+: s
  · obtain ⟨rest, rfl⟩ := hs
    rw [List.append_assoc, declaredAt?_append, declaredAt?_append, nameBehind?_append_marks h]
  · rw [declaredAt?_eq_none hs]
    refine declaredAt?_eq_none fun hp => hs ?_
    cases marks with
    | nil => simpa using hp
    | cons m rest => exact prefix_of_prefix_append (isNameChar_mark (h m List.mem_cons_self)) hp

/-- Marks at the end of a text declare nothing. -/
theorem declaredFrom_append_marks {marks : List Char} (h : ∀ c ∈ marks, c ∈ nameMarks)
    (w : Bool) (s : List Char) : t.declaredFrom w (s ++ marks) = t.declaredFrom w s := by
  induction s generalizing w with
  | nil =>
    refine declaredFrom_eq_nil (fun hi => ?_) w
    obtain ⟨c, hc⟩ := List.exists_mem_of_ne_nil _ t.classKeyword_ne_nil
    have hmark := isNameChar_mark (h c (hi.subset hc))
    exact absurd ((isNameChar_of_mem_classKeyword hc).symm.trans hmark) (by decide)
  | cons c rest ih =>
    rw [List.cons_append, declaredFrom, declaredFrom, ← List.cons_append,
      declaredAt?_append_marks h, ih]

/-- An indentation adds nothing. -/
theorem declaredIn_row (t : Target) (level : Nat) (s : String) :
    t.declaredIn (Layout.row level s) = t.declaredIn s.toList := by
  have hspaces : ∀ n, t.declaredFrom false (List.replicate n ' ' ++ s.toList) =
      t.declaredFrom false s.toList := by
    intro n
    induction n with
    | zero => rfl
    | succ n ih =>
      rw [List.replicate_succ, List.cons_append, declaredFrom_mark isNameChar_space, ih]
  unfold Layout.row
  split
  · rename_i hs
    rw [hs]
    rfl
  · exact hspaces _

/-! ## Texts without blanks in Python -/

/-- No gap is behind the keyword. -/
theorem declaredFrom_python {s : List Char} (h : ∀ c ∈ s, Text.isBlank c = false) (w : Bool) :
    python.declaredFrom w s = [] := by
  induction s generalizing w with
  | nil => rfl
  | cons c rest ih =>
    have hat : python.declaredAt? (c :: rest) = none := by
      refine declaredAt?_eq_none_of_behind fun more hmore => nameBehind?_eq_none ?_
      cases more with
      | nil => rfl
      | cons d more =>
        have hd : Text.isBlank d = false := h d (hmore ▸ by simp)
        exact List.dropWhile_cons_of_neg (by simp [hd])
    rw [declaredFrom_cons hat, ih (List.forall_mem_cons.mp h).2]

/-- The word behind the module of an import is no name. -/
theorem declaredFrom_import {module name : List Char}
    (hmodule : ∀ c ∈ module, Text.isBlank c = false) (hname : ∀ c ∈ name, Text.isBlank c = false)
    (w : Bool) :
    python.declaredFrom w (module ++ ' ' :: ("import".toList ++ ' ' :: name)) = [] := by
  have hword : python.nameBehind? (' ' :: ("import".toList ++ ' ' :: name)) = none := by
    rw [nameBehind?_space (by decide) (by decide) isNameChar_space, if_pos (by decide)]
  have hat : ∀ front : List Char, (∀ c ∈ front, Text.isBlank c = false) →
      python.declaredAt? (front ++ ' ' :: ("import".toList ++ ' ' :: name)) = none := by
    intro front hfront
    refine declaredAt?_eq_none_of_behind fun behind hbehind => ?_
    obtain ⟨more, rfl⟩ := prefix_of_prefix_append isNameChar_space ⟨behind, hbehind.symm⟩
    rw [List.append_assoc, List.append_cancel_left_eq] at hbehind
    subst hbehind
    cases more with
    | nil => exact hword
    | cons d more =>
      have hd : Text.isBlank d = false := hfront d (by simp)
      exact nameBehind?_eq_none (List.dropWhile_cons_of_neg (by simp [hd]))
  induction module generalizing w with
  | nil =>
    rw [List.nil_append, declaredFrom_mark isNameChar_space,
      declaredFrom_behind (by decide) isNameChar_space, declaredFrom_python hname]
  | cons c rest ih =>
    have hfront := hat (c :: rest) hmodule
    rw [List.cons_append] at hfront
    rw [List.cons_append, declaredFrom_cons hfront, ih (List.forall_mem_cons.mp hmodule).2]

end Target

end RuleClasses
