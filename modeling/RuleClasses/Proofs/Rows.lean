import RuleClasses.Emit
import RuleClasses.Text.Lines
import Mathlib.Data.List.Forall2

/-! The lines of a file. A layout takes up rows, and a row is a line of the text as long as
no line break stands in it. The words and names in the rows of a plan have none. -/

namespace RuleClasses

/-- Two lists that are one are cut alike by a test, when each is cut where the test fails for
the first time, or at the end. -/
theorem append_inj_of_stop {α : Type*} {p : α → Bool} {a b r s : List α} (ha : ∀ x ∈ a, p x)
    (hb : ∀ x ∈ b, p x) (hr : ∀ x ∈ r.head?, ¬ p x) (hs : ∀ x ∈ s.head?, ¬ p x)
    (h : a ++ r = b ++ s) : a = b ∧ r = s := by
  have hstop : ∀ {l : List α}, (∀ x ∈ l.head?, ¬ p x) → l.takeWhile p = [] := by
    intro l hl
    cases l with
    | nil => rfl
    | cons c l => exact List.takeWhile_cons_of_neg (hl c rfl)
  have hab : a = b := by
    simpa [List.takeWhile_append_of_pos ha, List.takeWhile_append_of_pos hb, hstop hr, hstop hs]
      using congrArg (List.takeWhile p) h
  subst hab
  exact ⟨rfl, List.append_cancel_left h⟩

namespace Text

/-! ## Words, and texts without blanks -/

/-- Only word characters. -/
def IsWord (s : String) : Prop := s.toList.all isWordChar = true

/-- No white space. -/
def HasNoBlank (s : String) : Prop := s.toList.any isBlank = false

instance (s : String) : Decidable (IsWord s) := inferInstanceAs (Decidable (_ = _))

instance (s : String) : Decidable (HasNoBlank s) := inferInstanceAs (Decidable (_ = _))

theorem IsWord.isWordChar {s : String} (h : IsWord s) {c : Char} (hc : c ∈ s.toList) :
    Text.isWordChar c = true := List.all_eq_true.mp h c hc

theorem HasNoBlank.isBlank {s : String} (h : HasNoBlank s) {c : Char} (hc : c ∈ s.toList) :
    Text.isBlank c = false := by
  simpa using List.any_eq_false.mp h c hc

theorem isWordChar_eq_false_of_isBlank {c : Char} (h : isBlank c = true) :
    Text.isWordChar c = false := by
  have hranges : (blankRanges.all fun r => (List.range (r.2 + 1 - r.1)).all fun k =>
      !inRanges wordRanges (r.1 + k)) = true := by decide +kernel
  obtain ⟨r, hr, hle, hge⟩ := inRanges_iff.mp h
  have hk := List.all_eq_true.mp (List.all_eq_true.mp hranges r hr) (c.toNat - r.1)
    (List.mem_range.mpr (by omega))
  rw [Nat.add_sub_cancel' hle] at hk
  simpa [Text.isWordChar] using hk

theorem IsWord.hasNoBlank {s : String} (h : IsWord s) : HasNoBlank s := by
  refine List.any_eq_false.mpr fun c hc hblank => ?_
  exact absurd (h.isWordChar hc) (by simp [isWordChar_eq_false_of_isBlank hblank])

/-- The marks that stand behind a word in a row. -/
theorem isWordChar_mark {c : Char} (h : c ∈ [' ', '(', ':', ';', '"']) :
    Text.isWordChar c = false := by
  have hall : ([' ', '(', ':', ';', '"'].all fun c => !Text.isWordChar c) = true := by
    decide +kernel
  simpa using List.all_eq_true.mp hall c h

/-- A word ends where the first other character is. -/
theorem IsWord.append_inj {a b : String} (ha : IsWord a) (hb : IsWord b) {c d : Char}
    (hc : Text.isWordChar c = false) (hd : Text.isWordChar d = false) {r s : List Char}
    (h : a.toList ++ c :: r = b.toList ++ d :: s) : a = b ∧ c = d ∧ r = s := by
  obtain ⟨hab, hrest⟩ := append_inj_of_stop (p := Text.isWordChar) (fun _ => ha.isWordChar)
    (fun _ => hb.isWordChar) (by simp [hc]) (by simp [hd]) h
  exact ⟨String.toList_inj.mp hab, List.cons.inj hrest⟩

theorem IsWord.takeWhile_append {s : String} (h : IsWord s) {c : Char}
    (hc : Text.isWordChar c = false) (rest : List Char) :
    (s.toList ++ c :: rest).takeWhile Text.isWordChar = s.toList := by
  rw [List.takeWhile_append_of_pos fun _ => h.isWordChar,
    List.takeWhile_cons_of_neg (by simp [hc]), List.append_nil]

theorem IsWord.dropWhile_append {s : String} (h : IsWord s) {c : Char}
    (hc : Text.isWordChar c = false) (rest : List Char) :
    (s.toList ++ c :: rest).dropWhile Text.isWordChar = c :: rest := by
  rw [List.dropWhile_append_of_pos fun _ => h.isWordChar,
    List.dropWhile_cons_of_neg (by simp [hc])]

/-! ## One line -/

/-- The text stays on one line. -/
def OneLine (s : List Char) : Prop := (s.any fun c => c == '\n' || c == '\r') = false

instance (s : List Char) : Decidable (OneLine s) := inferInstanceAs (Decidable (_ = _))

theorem oneLine_iff {s : List Char} : OneLine s ↔ '\n' ∉ s ∧ '\r' ∉ s := by
  simp only [OneLine, List.any_eq_false, Bool.or_eq_true, beq_iff_eq, not_or]
  constructor
  · intro h
    exact ⟨fun hc => (h _ hc).1 rfl, fun hc => (h _ hc).2 rfl⟩
  · rintro ⟨hn, hr⟩ c hc
    exact ⟨fun he => hn (he ▸ hc), fun he => hr (he ▸ hc)⟩

theorem oneLine_append {s t : List Char} : OneLine (s ++ t) ↔ OneLine s ∧ OneLine t := by
  rw [OneLine, List.any_append, Bool.or_eq_false_iff]
  rfl

theorem OneLine.append {s t : String} (hs : OneLine s.toList) (ht : OneLine t.toList) :
    OneLine (s ++ t).toList := by
  rw [String.toList_append]
  exact oneLine_append.mpr ⟨hs, ht⟩

/-- A literal is put together from its characters, so that a test of it need not read them
back from the text. -/
theorem oneLine_ofList {s : List Char} (h : OneLine s) : OneLine (String.ofList s).toList := by
  rwa [String.toList_ofList]

theorem OneLine.behind {s : String} (h : OneLine s.toList) {start : List Char}
    (hstart : OneLine start) : OneLine (String.ofList start ++ s).toList :=
  (oneLine_ofList hstart).append h

theorem OneLine.before {s : String} (h : OneLine s.toList) {rest : List Char}
    (hrest : OneLine rest) : OneLine (s ++ String.ofList rest).toList :=
  h.append (oneLine_ofList hrest)

theorem OneLine.between {s : String} (h : OneLine s.toList) {start rest : List Char}
    (hstart : OneLine start) (hrest : OneLine rest) :
    OneLine (String.ofList start ++ s ++ String.ofList rest).toList :=
  (h.behind hstart).before hrest

theorem HasNoBlank.oneLine {s : String} (h : HasNoBlank s) : OneLine s.toList :=
  oneLine_iff.mpr ⟨fun hc => absurd (h.isBlank hc) (by decide),
    fun hc => absurd (h.isBlank hc) (by decide)⟩

theorem lines_flatMap_of_oneLine {rows : List (List Char)} (h : ∀ r ∈ rows, OneLine r) :
    lines (rows.flatMap (· ++ ['\n'])) = rows := by
  rw [lines_flatMap fun r hr => (oneLine_iff.mp (h r hr)).1]
  refine (List.map_congr_left fun r hr => withoutReturn_of_ne fun hlast => ?_).trans
    (List.map_id rows)
  exact (oneLine_iff.mp (h r hr)).2 (List.mem_of_getLast? hlast)

end Text

/-! ## Rows of layouts -/

namespace Layout

open Text (OneLine)

/-- A text at a level of indentation. An empty one stays empty. -/
def row (level : Nat) (s : String) : List Char :=
  if s = "" then [] else List.replicate (4 * level) ' ' ++ s.toList

mutual

/-- What the layout takes up, line by line. -/
def rows (level : Nat) : Layout → List (List Char)
  | .line s => [row level s]
  | .blank => [[]]
  | .nested body => rowsAll (level + 1) body

def rowsAll (level : Nat) : List Layout → List (List Char)
  | [] => []
  | l :: rest => rows level l ++ rowsAll level rest

end

@[simp] theorem row_zero (s : String) : row 0 s = s.toList := by
  unfold row
  split
  · rename_i hs
    rw [hs]
    rfl
  · rfl

theorem row_ne_nil {level : Nat} {s : String} (h : s ≠ "") : row level s ≠ [] := by
  rw [row, if_neg h]
  simpa using fun _ => h

theorem row_inj {level : Nat} {s t : String} : row level s = row level t ↔ s = t := by
  refine ⟨fun h => ?_, congrArg _⟩
  by_cases hs : s = ""
  · by_contra hne
    exact row_ne_nil (fun ht => hne (hs.trans ht.symm)) (h.symm.trans (by rw [hs]; rfl))
  · by_cases ht : t = ""
    · exact absurd (h.trans (by rw [ht]; rfl)) (row_ne_nil hs)
    · rw [row, row, if_neg hs, if_neg ht] at h
      exact String.toList_inj.mp (List.append_cancel_left h)

theorem oneLine_row {level : Nat} {s : String} (h : OneLine s.toList) : OneLine (row level s) := by
  unfold row
  split
  · decide
  · exact Text.oneLine_append.mpr ⟨Text.oneLine_iff.mpr ⟨by simp, by simp⟩, h⟩

theorem dropWhile_isBlank_row (level : Nat) (s : String) :
    (row level s).dropWhile Text.isBlank = s.toList.dropWhile Text.isBlank := by
  unfold row
  split
  · rename_i hs
    rw [hs]
    rfl
  · refine List.dropWhile_append_of_pos fun c hc => ?_
    obtain rfl := List.eq_of_mem_replicate hc
    decide

theorem rowsAll_eq_flatMap (level : Nat) (ls : List Layout) :
    rowsAll level ls = ls.flatMap (rows level) := by
  induction ls with
  | nil => rfl
  | cons l rest ih => rw [rowsAll, ih, List.flatMap_cons]

theorem rowsAll_append (level : Nat) (ls ms : List Layout) :
    rowsAll level (ls ++ ms) = rowsAll level ls ++ rowsAll level ms := by
  simp only [rowsAll_eq_flatMap, List.flatMap_append]

theorem rowsAll_map_line {α : Type*} (level : Nat) (f : α → String) (l : List α) :
    rowsAll level (l.map fun a => .line (f a)) = l.map fun a => row level (f a) := by
  rw [rowsAll_eq_flatMap, List.flatMap_map]
  exact (List.map_eq_flatMap).symm

/-- Layouts of one row each, side by side with something else. -/
theorem forall₂_rowsAll {α : Type*} {S : α → Layout → Prop} {R : α → List Char → Prop}
    {as : List α} {ls : List Layout} {level : Nat} (h : List.Forall₂ S as ls)
    (hrow : ∀ a l, S a l → ∃ r, rows level l = [r] ∧ R a r) :
    List.Forall₂ R as (rowsAll level ls) := by
  induction h with
  | nil => exact .nil
  | cons hal _ ih =>
    obtain ⟨r, hr, har⟩ := hrow _ _ hal
    rw [rowsAll, hr]
    exact .cons har ih

/-- What is read off the rows of several parts, each of them read on its own. -/
theorem filterMap_rowsAll_flatMap {α β : Type*} {read : List Char → Option β} {level : Nat}
    {f : α → List Layout} {g : α → List β} {l : List α}
    (h : ∀ a ∈ l, (rowsAll level (f a)).filterMap read = g a) :
    (rowsAll level (l.flatMap f)).filterMap read = l.flatMap g := by
  induction l with
  | nil => rfl
  | cons a rest ih =>
    obtain ⟨ha, hrest⟩ := List.forall_mem_cons.mp h
    rw [List.flatMap_cons, rowsAll_append, List.filterMap_append, ha, ih hrest, List.flatMap_cons]

mutual

theorem toList_text (level : Nat) (l : Layout) :
    (l.text level).toList = (rows level l).flatMap (· ++ ['\n']) := by
  match l with
  | .line s =>
    rw [text, lineText, rows, row]
    split <;> simp [indentation]
  | .blank =>
    rw [text, rows]
    rfl
  | .nested body => rw [text, rows, toList_textAll (level + 1) body]

theorem toList_textAll (level : Nat) (ls : List Layout) :
    (textAll level ls).toList = (rowsAll level ls).flatMap (· ++ ['\n']) := by
  match ls with
  | [] => rfl
  | l :: rest =>
    rw [textAll, String.toList_append, toList_text level l, toList_textAll level rest, rowsAll,
      List.flatMap_append]

end

/-! ## What holds of every text -/

mutual

/-- Each text in the layout satisfies `P`. -/
def Every (P : String → Prop) : Layout → Prop
  | .line s => P s
  | .blank => True
  | .nested body => EveryAll P body

def EveryAll (P : String → Prop) : List Layout → Prop
  | [] => True
  | l :: rest => Every P l ∧ EveryAll P rest

end

mutual

def decideEvery (P : String → Prop) [DecidablePred P] : (l : Layout) → Decidable (Every P l)
  | .line s => inferInstanceAs (Decidable (P s))
  | .blank => isTrue trivial
  | .nested body => decideEveryAll P body

def decideEveryAll (P : String → Prop) [DecidablePred P] :
    (ls : List Layout) → Decidable (EveryAll P ls)
  | [] => isTrue trivial
  | l :: rest =>
    have := decideEvery P l
    have := decideEveryAll P rest
    inferInstanceAs (Decidable (_ ∧ _))

end

instance (P : String → Prop) [DecidablePred P] (ls : List Layout) : Decidable (EveryAll P ls) :=
  decideEveryAll P ls

variable {P : String → Prop}

theorem everyAll_append {ls ms : List Layout} :
    EveryAll P (ls ++ ms) ↔ EveryAll P ls ∧ EveryAll P ms := by
  induction ls with
  | nil => simp [EveryAll]
  | cons l rest ih => rw [List.cons_append, EveryAll, EveryAll, ih, and_assoc]

theorem everyAll_map_line {α : Type*} {f : α → String} {l : List α} (h : ∀ a ∈ l, P (f a)) :
    EveryAll P (l.map fun a => .line (f a)) := by
  induction l with
  | nil => exact trivial
  | cons a rest ih =>
    obtain ⟨ha, hrest⟩ := List.forall_mem_cons.mp h
    exact ⟨ha, ih hrest⟩

theorem everyAll_flatMap {α : Type*} {f : α → List Layout} {l : List α}
    (h : ∀ a ∈ l, EveryAll P (f a)) : EveryAll P (l.flatMap f) := by
  induction l with
  | nil => exact trivial
  | cons a rest ih =>
    obtain ⟨ha, hrest⟩ := List.forall_mem_cons.mp h
    exact everyAll_append.mpr ⟨ha, ih hrest⟩

mutual

theorem Every.imp {R : String → Prop} (hR : ∀ s, P s → R s) {l : Layout} (h : Every P l) :
    Every R l := by
  match l with
  | .line s => exact hR s h
  | .blank => trivial
  | .nested body => exact EveryAll.imp hR h

theorem EveryAll.imp {R : String → Prop} (hR : ∀ s, P s → R s) {ls : List Layout}
    (h : EveryAll P ls) : EveryAll R ls := by
  match ls with
  | [] => trivial
  | l :: rest => exact ⟨Every.imp hR h.1, EveryAll.imp hR h.2⟩

end

variable {Q : List Char → Prop}

mutual

theorem Every.forall_mem_rows (hblank : Q []) (hrow : ∀ level s, P s → Q (row level s))
    {level : Nat} {l : Layout} (h : Every P l) : ∀ r ∈ rows level l, Q r := by
  match l with
  | .line s =>
    intro r hr
    rw [List.mem_singleton.mp hr]
    exact hrow level s h
  | .blank =>
    intro r hr
    rwa [List.mem_singleton.mp hr]
  | .nested body => exact EveryAll.forall_mem_rowsAll hblank hrow h

/-- What the texts of a layout satisfy carries over to its rows. -/
theorem EveryAll.forall_mem_rowsAll (hblank : Q []) (hrow : ∀ level s, P s → Q (row level s))
    {level : Nat} {ls : List Layout} (h : EveryAll P ls) : ∀ r ∈ rowsAll level ls, Q r := by
  match ls with
  | [] => exact fun _ hr => absurd hr List.not_mem_nil
  | l :: rest =>
    intro r hr
    rcases List.mem_append.mp hr with hr | hr
    · exact Every.forall_mem_rows hblank hrow h.1 r hr
    · exact EveryAll.forall_mem_rowsAll hblank hrow h.2 r hr

end

/-- Each text stays on one line. -/
abbrev Unbroken (ls : List Layout) : Prop := EveryAll (fun s => OneLine s.toList) ls

/-- The rows are the lines of the text. -/
theorem lines_textAll {ls : List Layout} (h : Unbroken ls) :
    Text.lines (textAll 0 ls).toList = rowsAll 0 ls := by
  rw [toList_textAll]
  exact Text.lines_flatMap_of_oneLine (h.forall_mem_rowsAll (by decide) fun _ _ => oneLine_row)

end Layout

end RuleClasses
