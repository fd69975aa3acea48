import RuleClasses.Proofs.Answers
import RuleClasses.Proofs.Margins
import RuleClasses.Proofs.Rows

/-! Blocks as they are placed. Each line of a block gives one line of the page: an empty one if
it has only blanks, and otherwise what is left of it behind the common margin, at the level of
the page. Some line then starts right there. A block that was placed at the left margin can be
placed again and stays as it is, unless it begins with an empty line, which is not kept, or a
line of it ends with a carriage return, which would be taken for a part of the line end. -/

namespace RuleClasses

/-! ## The lines of a text -/

namespace Text

/-- A text and its lines. Each line ends at a newline, with a carriage return in front of it or
without one, and the last line may have no end. -/
inductive IsLines : List Char → List (List Char) → Prop
  | nil : IsLines [] []
  | last {l : List Char} : l ≠ [] → '\n' ∉ l → IsLines l [l]
  | newline {l rest : List Char} {ls : List (List Char)} : '\n' ∉ l → l.getLast? ≠ some '\r' →
      IsLines rest ls → IsLines (l ++ '\n' :: rest) (l :: ls)
  | carriageReturn {l rest : List Char} {ls : List (List Char)} : '\n' ∉ l →
      IsLines rest ls → IsLines (l ++ '\r' :: '\n' :: rest) (l :: ls)

theorem IsLines.notMem {s : List Char} {ls : List (List Char)} (h : IsLines s ls) :
    ∀ l ∈ ls, '\n' ∉ l := by
  induction h with
  | nil => nofun
  | last _ hl => exact List.forall_mem_singleton.mpr hl
  | newline hl _ _ ih => exact List.forall_mem_cons.mpr ⟨hl, ih⟩
  | carriageReturn hl _ ih => exact List.forall_mem_cons.mpr ⟨hl, ih⟩

theorem isLines_lines (s : List Char) : IsLines s (lines s) := by
  by_cases hs : '\n' ∈ s
  · obtain ⟨l, rest, rfl, hl⟩ := List.eq_append_cons_of_mem hs
    have hrest := isLines_lines rest
    rw [lines_append_newline hl]
    by_cases hreturn : l.getLast? = some '\r'
    · obtain ⟨l, rfl⟩ := List.getLast?_eq_some_iff.mp hreturn
      rw [withoutReturn, if_pos hreturn, List.dropLast_concat, List.append_assoc]
      exact .carriageReturn (fun h => hl (List.mem_append_left _ h)) hrest
    · rw [withoutReturn_of_ne hreturn]
      exact .newline hl hreturn hrest
  · by_cases hnil : s = []
    · exact hnil ▸ .nil
    · rw [lines_of_notMem hnil hs]
      exact .last hnil hs
termination_by s.length

end Text

namespace Layout

open Text (IsLines)

/-! ## The lines of a block -/

/-- What counts of a block: one newline in front of it and the spaces and tabs behind it are
left out. -/
def IsBody (text body : List Char) : Prop :=
  ∃ front back, text = front ++ body ++ back ∧
    (front = ['\n'] ∨ front = [] ∧ text.head? ≠ some '\n') ∧
    (∀ c ∈ back, c = ' ' ∨ c = '\t') ∧ ∀ c ∈ body.getLast?, c ≠ ' ' ∧ c ≠ '\t'

theorem isSpaceOrTab_iff {c : Char} : isSpaceOrTab c = true ↔ c = ' ' ∨ c = '\t' := by
  simp [isSpaceOrTab]

theorem blockLines_newline (s : List Char) :
    blockLines ('\n' :: s) = Text.lines (Text.dropEndWhile isSpaceOrTab s) := rfl

theorem blockLines_of_ne {s : List Char} (h : s.head? ≠ some '\n') :
    blockLines s = Text.lines (Text.dropEndWhile isSpaceOrTab s) := by
  unfold blockLines
  split
  · exact absurd rfl h
  · rfl

theorem exists_isBody (text : List Char) :
    ∃ body, IsBody text body ∧ blockLines text = Text.lines body := by
  have hbody : ∀ front rest, text = front ++ rest →
      (front = ['\n'] ∨ front = [] ∧ text.head? ≠ some '\n') →
      IsBody text (Text.dropEndWhile isSpaceOrTab rest) := by
    intro front rest htext hfront
    obtain ⟨back, hrest, hback, hlast⟩ := Text.exists_dropEndWhile isSpaceOrTab rest
    refine ⟨front, back, ?_, hfront, fun c hc => isSpaceOrTab_iff.mp (hback c hc), fun c hc => ?_⟩
    · rw [htext, List.append_assoc, ← hrest]
    · rw [← not_or, ← isSpaceOrTab_iff, hlast c hc]
      exact Bool.false_ne_true
  by_cases h : text.head? = some '\n'
  · obtain ⟨rest, rfl⟩ := List.head?_eq_some_iff.mp h
    exact ⟨_, hbody ['\n'] rest rfl (.inl rfl), blockLines_newline rest⟩
  · exact ⟨_, hbody [] text rfl (.inr ⟨rfl, h⟩), blockLines_of_ne h⟩

/-! ## Lines on the page -/

/-- What a line of a block becomes at a level when so many bytes of margin are taken off. -/
inductive Dedents (level cut : Nat) : List Char → List Char → Prop
  | blank {l : List Char} : isBlankLine l = true → Dedents level cut l []
  | text {front rest : List Char} : isBlankLine (front ++ rest) = false →
      isBlankLine front = true → width front = cut →
      Dedents level cut (front ++ rest) (List.replicate (4 * level) ' ' ++ rest)

variable {lines : List (List Char)} {level cut : Nat} {l : List Char}

theorem blockLine?_eq_some {out : Layout} : blockLine? cut l = some out ↔
    (isBlankLine l = true ∧ out = .blank) ∨ (isBlankLine l = false ∧
      ∃ front rest, l = front ++ rest ∧ width front = cut ∧ out = .line (String.ofList rest)) := by
  unfold blockLine?
  split
  · rename_i h
    simp [h, eq_comm]
  · rename_i h
    have hfull : isBlankLine l = false := Bool.eq_false_iff.mpr h
    simp only [Option.map_eq_some_iff, dropBytes?_eq_some, hfull, Bool.false_eq_true, false_and,
      true_and, false_or]
    constructor
    · rintro ⟨rest, ⟨front, rfl, hfront⟩, rfl⟩
      exact ⟨front, rest, rfl, hfront, rfl⟩
    · rintro ⟨front, rest, rfl, hfront, rfl⟩
      exact ⟨rest, ⟨front, rfl, hfront⟩, rfl⟩

theorem isBlankLine_rest {front rest : List Char} (h : isBlankLine (front ++ rest) = false)
    (hfront : isBlankLine front = true) : isBlankLine rest = false := by
  have happend : isBlankLine (front ++ rest) = (isBlankLine front && isBlankLine rest) :=
    List.all_append
  rwa [happend, hfront, Bool.true_and] at h

theorem ne_nil_of_not_blank (h : isBlankLine l = false) : l ≠ [] := by
  rintro rfl
  cases h

/-- A cut within the margin takes blanks off the line, and leaves something of it. -/
theorem blockLine?_cases {out : Layout} (h : blockLine? cut l = some out)
    (hcut : isBlankLine l = false → cut ≤ margin l) :
    (isBlankLine l = true ∧ out = .blank) ∨ (isBlankLine l = false ∧
      ∃ front rest, l = front ++ rest ∧ isBlankLine front = true ∧ width front = cut ∧
        isBlankLine rest = false ∧ out = .line (String.ofList rest)) := by
  rcases blockLine?_eq_some.mp h with hblank | ⟨hfull, front, rest, rfl, hfront, hout⟩
  · exact .inl hblank
  · have hblanks : isBlankLine front = true :=
      List.all_eq_true.mpr (all_isBlank_of_width_le (hfront.trans_le (hcut hfull)))
    exact .inr ⟨hfull, front, rest, rfl, hblanks, hfront, isBlankLine_rest hfull hblanks, hout⟩

theorem exists_row_blockLine? (level : Nat) {out : Layout} (h : blockLine? cut l = some out)
    (hcut : isBlankLine l = false → cut ≤ margin l) :
    ∃ r, rows level out = [r] ∧ Dedents level cut l r := by
  rcases blockLine?_cases h hcut with
    ⟨hblank, rfl⟩ | ⟨hfull, front, rest, rfl, hblanks, hfront, hrest, rfl⟩
  · exact ⟨[], rfl, .blank hblank⟩
  · have hne : String.ofList rest ≠ "" := by simpa using ne_nil_of_not_blank hrest
    refine ⟨_, ?_, .text hfull hblanks hfront⟩
    rw [rows, row, if_neg hne, String.toList_ofList]

/-- The lines of a block are those on the page, one by one. -/
theorem dedents_block? {text : String} {ls : List Layout} (h : block? text = some ls)
    (level : Nat) :
    List.Forall₂ (Dedents level (commonMargin (blockLines text.toList))) (blockLines text.toList)
      (rowsAll level ls) := by
  have hcut : ∀ l ∈ blockLines text.toList, isBlankLine l = false →
      commonMargin (blockLines text.toList) ≤ margin l := fun _ => commonMargin_le
  exact forall₂_rowsAll ((List.forall₂_and_left _ _).mpr ⟨hcut, block?_eq_some.mp h⟩)
    fun _ _ hl => exists_row_blockLine? level hl.2 hl.1

namespace Dedents

variable {r : List Char}

theorem notMem (h : Dedents level cut l r) (hl : '\n' ∉ l) : '\n' ∉ r := by
  cases h with
  | blank => exact List.not_mem_nil
  | text =>
    rw [List.mem_append, not_or] at hl ⊢
    exact ⟨fun h => absurd (List.eq_of_mem_replicate h) (by decide), hl.2⟩

/-- A line whose indentation is the whole margin starts at the level of the page. -/
theorem flush (h : Dedents level cut l r) (hl : isBlankLine l = false) (hcut : margin l = cut) :
    ∃ c rest, r = List.replicate (4 * level) ' ' ++ c :: rest ∧ Text.isBlank c = false := by
  cases h with
  | blank hblank => rw [hblank] at hl; cases hl
  | @text front rest _ hfront hwidth =>
    have htake : (front ++ rest).takeWhile Text.isBlank = front ++ rest.takeWhile Text.isBlank :=
      List.takeWhile_append_of_pos (List.all_eq_true.mp hfront)
    rw [margin, htake, width_append] at hcut
    have hnone := eq_nil_of_width (s := rest.takeWhile Text.isBlank) (by omega)
    cases rest with
    | nil => exact absurd rfl (ne_nil_of_not_blank (isBlankLine_rest hl hfront))
    | cons c rest =>
      refine ⟨c, rest, rfl, Bool.eq_false_iff.mpr fun hc => ?_⟩
      rw [List.takeWhile_cons_of_pos hc] at hnone
      cases hnone

theorem isBlankLine_eq_false (h : Dedents level cut l r) (hr : isBlankLine r = false) :
    isBlankLine l = false := by
  cases h with
  | blank => cases hr
  | text hfull => exact hfull

theorem length_le (h : Dedents 0 cut l r) : r.length ≤ l.length := by
  cases h with
  | blank => exact Nat.zero_le _
  | text => simp

end Dedents

theorem exists_flush {rows : List (List Char)}
    (h : List.Forall₂ (Dedents level (commonMargin lines)) lines rows)
    (hfull : ∃ l ∈ lines, isBlankLine l = false) :
    ∃ r ∈ rows, ∃ c rest, r = List.replicate (4 * level) ' ' ++ c :: rest ∧
      Text.isBlank c = false := by
  obtain ⟨l, hl, hlfull, hmargin⟩ := exists_margin_eq hfull
  obtain ⟨r, hr, hdedents⟩ := exists_of_forall₂_left h l hl
  exact ⟨r, hr, hdedents.flush hlfull hmargin⟩

/-! ## A placed block placed again -/

section

variable {rs : List (List Char)}

/-- Only a newline in front of a placed block is lost, if its first line is empty, and the
carriage returns at the ends of its lines. -/
theorem blockLines_flatMap (h : ∀ r ∈ rs, '\n' ∉ r) :
    blockLines (rs.flatMap (· ++ ['\n'])) =
      (if rs.head? = some [] then rs.tail else rs).map Text.withoutReturn := by
  have hend : ∀ rs : List (List Char), Text.dropEndWhile isSpaceOrTab
      (rs.flatMap (· ++ ['\n'])) = rs.flatMap (· ++ ['\n']) := by
    intro rs
    rcases rs.eq_nil_or_concat with rfl | ⟨rs, r, rfl⟩
    · rfl
    · rw [List.concat_eq_append, List.flatMap_append, List.flatMap_singleton, ← List.append_assoc]
      exact Text.dropEndWhile_append_of_neg (by decide) _
  cases rs with
  | nil => rfl
  | cons r rest =>
    obtain ⟨hr, hrest⟩ := List.forall_mem_cons.mp h
    cases r with
    | nil =>
      rw [List.flatMap_cons, List.nil_append, List.singleton_append, blockLines_newline, hend,
        Text.lines_flatMap hrest]
      rfl
    | cons c r =>
      have hc : c ≠ '\n' := fun hc => hr (hc ▸ List.mem_cons_self)
      rw [blockLines_of_ne (by simpa using hc), hend, Text.lines_flatMap h]
      rfl

/-- Nothing more is taken off the lines of a placed block. -/
theorem commonMargin_rows
    (h : List.Forall₂ (Dedents 0 (commonMargin lines)) lines rs) : commonMargin rs = 0 := by
  by_cases hfull : ∃ r ∈ rs, isBlankLine r = false
  · obtain ⟨r, hr, hrfull⟩ := hfull
    obtain ⟨l, hl, hdedents⟩ := exists_of_forall₂_right h r hr
    obtain ⟨r', hr', c, rest, rfl, hc⟩ :=
      exists_flush h ⟨l, hl, hdedents.isBlankLine_eq_false hrfull⟩
    have hmargin : margin (c :: rest) = 0 := by
      rw [margin, List.takeWhile_cons_of_neg (by simp [hc])]
      rfl
    have hle := commonMargin_le hr' (by simp [isBlankLine, hc])
    exact Nat.le_zero.mp (hmargin ▸ hle)
  · have hnone : rs.filter (fun l => !isBlankLine l) = [] := by
      rw [List.filter_eq_nil_iff]
      intro r hr hrfull
      exact hfull ⟨r, hr, by simpa using hrfull⟩
    rw [commonMargin, hnone]
    rfl

theorem blockLine?_row {out : Layout} (h : blockLine? cut l = some out)
    (hcut : isBlankLine l = false → cut ≤ margin l) :
    ∃ r, rows 0 out = [r] ∧ blockLine? 0 r = some out := by
  rcases blockLine?_cases h hcut with ⟨-, rfl⟩ | ⟨-, -, rest, -, -, -, hrest, rfl⟩
  · exact ⟨[], rfl, rfl⟩
  · exact ⟨rest, by rw [rows, row_zero, String.toList_ofList],
      blockLine?_eq_some.mpr (.inr ⟨hrest, [], rest, rfl, rfl, rfl⟩)⟩

variable {text : String} {ls : List Layout}

/-- Each line of a placed block is placed as it is. -/
theorem blockLine?_rowsAll (h : block? text = some ls) :
    List.Forall₂ (fun r out => blockLine? 0 r = some out) (rowsAll 0 ls) ls := by
  have hrow : ∀ out ∈ ls, ∃ r, rows 0 out = [r] ∧ blockLine? 0 r = some out := by
    intro out hout
    obtain ⟨l, hl, hlout⟩ := exists_of_forall₂_right (block?_eq_some.mp h) out hout
    exact blockLine?_row hlout (commonMargin_le hl)
  refine List.Forall₂.flip (forall₂_rowsAll (S := fun a out => a = out ∧ out ∈ ls)
    (List.forall₂_same.mpr fun out hout => ⟨rfl, hout⟩) ?_)
  rintro out _ ⟨rfl, hout⟩
  exact hrow out hout

theorem notMem_rowsAll (h : block? text = some ls) (level : Nat) :
    ∀ r ∈ rowsAll level ls, '\n' ∉ r := by
  obtain ⟨body, -, hlines⟩ := exists_isBody text.toList
  have hnewline := (Text.isLines_lines body).notMem
  rw [← hlines] at hnewline
  exact forall_of_forall₂ (fun _ _ hl hdedents => hdedents.notMem hl) (dedents_block? h level)
    hnewline

/-- Rows without newlines are told from the text that they make. -/
theorem rowsAll_eq_of_textAll {again : List Layout} {level : Nat}
    (hagain : ∀ r ∈ rowsAll level again, '\n' ∉ r) (hls : ∀ r ∈ rowsAll level ls, '\n' ∉ r)
    (htext : textAll level again = textAll level ls) : rowsAll level again = rowsAll level ls := by
  have hsplit := congrArg (fun s => Text.splitOnChar '\n' s.toList) htext
  simp only [toList_textAll, Text.splitOnChar_flatMap hagain, Text.splitOnChar_flatMap hls]
    at hsplit
  exact List.append_cancel_right hsplit

/-- A block that is placed at the left margin stays as it is when it is placed again, as long
as it does not begin with an empty line and no line of it ends with a carriage return. -/
theorem block?_textAll_iff (h : block? text = some ls) :
    (∃ again, block? (textAll 0 ls) = some again ∧ textAll 0 again = textAll 0 ls) ↔
      (rowsAll 0 ls).head? ≠ some [] ∧ ∀ r ∈ rowsAll 0 ls, r.getLast? ≠ some '\r' := by
  have hlines := blockLines_flatMap (notMem_rowsAll h 0)
  rw [← toList_textAll] at hlines
  constructor
  · rintro ⟨again, hagain, htext⟩
    have hrows := rowsAll_eq_of_textAll (notMem_rowsAll hagain 0) (notMem_rowsAll h 0) htext
    have hdedents := dedents_block? hagain 0
    rw [hrows, hlines] at hdedents
    have hhead : (rowsAll 0 ls).head? ≠ some [] := by
      -- a line less is read than was placed
      intro hhead
      have hlength := hdedents.length_eq
      rw [if_pos hhead, List.length_map, List.length_tail] at hlength
      have hpos := List.length_pos_of_mem (List.mem_of_head? hhead)
      omega
    refine ⟨hhead, fun r hr hreturn => ?_⟩
    rw [if_neg hhead, List.forall₂_map_left_iff, List.forall₂_same] at hdedents
    have hlength := (hdedents r hr).length_le
    rw [Text.withoutReturn, if_pos hreturn, List.length_dropLast] at hlength
    have hpos := List.length_pos_of_mem (List.mem_of_getLast? hreturn)
    omega
  · rintro ⟨hhead, hreturn⟩
    have hself : blockLines (textAll 0 ls).toList = rowsAll 0 ls := by
      rw [hlines, if_neg hhead]
      exact (List.map_congr_left fun r hr => Text.withoutReturn_of_ne (hreturn r hr)).trans
        (List.map_id _)
    refine ⟨ls, block?_eq_some.mpr ?_, rfl⟩
    rw [hself, commonMargin_rows (dedents_block? h 0)]
    exact blockLine?_rowsAll h

end

end Layout

namespace Page

open Layout

theorem write_block_eq_some {p q : Page} {text : String} :
    p.write (.block text) = some q ↔ ∃ ls, block? text = some ls ∧ p.place ls = q :=
  Option.map_eq_some_iff

/-- **A placed block has the lines of its text without the common margin.** Nothing else is
written, and some line starts at the level of the page if not all of them are blank. At the left
margin what was written can be written in place of the text, exactly if it does not begin with
an empty line and no line of it ends with a carriage return. -/
theorem block_keeps_lines {p q : Page} {text : String} (h : p.write (.block text) = some q) :
    ∃ body lines rows cut out, IsBody text.toList body ∧ Text.IsLines body lines ∧
      q = { p with text := p.text ++ out } ∧ out.toList = rows.flatMap (· ++ ['\n']) ∧
      (∀ r ∈ rows, '\n' ∉ r) ∧ List.Forall₂ (Dedents p.level cut) lines rows ∧
      ((∃ l ∈ lines, isBlankLine l = false) → ∃ r ∈ rows, ∃ c rest,
        r = List.replicate (4 * p.level) ' ' ++ c :: rest ∧ Text.isBlank c = false) ∧
      (p.level = 0 → (p.write (.block out) = some q ↔
        rows.head? ≠ some [] ∧ ∀ r ∈ rows, r.getLast? ≠ some '\r')) := by
  obtain ⟨ls, hls, rfl⟩ := write_block_eq_some.mp h
  obtain ⟨body, hbody, hlines⟩ := exists_isBody text.toList
  have hdedents := dedents_block? hls p.level
  refine ⟨body, blockLines text.toList, rowsAll p.level ls, commonMargin (blockLines text.toList),
    textAll p.level ls, hbody, hlines ▸ Text.isLines_lines body, rfl, toList_textAll p.level ls,
    notMem_rowsAll hls p.level, hdedents, exists_flush hdedents, fun hlevel => ?_⟩
  rw [write_block_eq_some, hlevel, ← block?_textAll_iff hls]
  refine exists_congr fun again => and_congr_right fun _ => ?_
  rw [place, place, Page.mk.injEq, hlevel, String.append_right_inj]
  exact and_iff_left rfl

/-- The lines begin with blanks of different kinds, and a carriage return and a line of one
space are left out. -/
theorem block_keeps_lines_placed_twice :
    ∃ q, write {} (.block "\n    first\r\n \n\t    second\n  ") = some q ∧
      q.text = "first\n\n second\n" ∧ write {} (.block q.text) = some q := by
  have hlines : blockLines "\n    first\r\n \n\t    second\n  ".toList =
      ["    first".toList, " ".toList, "\t    second".toList] := by rfl
  have hmargin : commonMargin
      ["    first".toList, " ".toList, "\t    second".toList] = 4 := by rfl
  have hblock : block? "\n    first\r\n \n\t    second\n  " =
      some [.line "first", .blank, .line " second"] := by
    rw [block?_eq_some, hlines, hmargin]
    exact .cons rfl (.cons rfl (.cons rfl .nil))
  have hwrite : write {} (.block "\n    first\r\n \n\t    second\n  ") =
      some ⟨"first\n\n second\n", 0⟩ := by
    rw [write_block_eq_some]
    exact ⟨_, hblock, by rfl⟩
  obtain ⟨-, -, rows, -, out, -, -, hq, hout, hnewline, -, -, hagain⟩ := block_keeps_lines hwrite
  obtain rfl : "first\n\n second\n" = out :=
    (Page.mk.inj hq).1.trans String.empty_append
  have hrows : rows = ["first".toList, [], " second".toList] := by
    have hsplit := Text.splitOnChar_flatMap hnewline
    rw [← hout] at hsplit
    exact List.append_cancel_right (hsplit.symm.trans (by rfl))
  refine ⟨_, hwrite, rfl, (hagain rfl).mpr ?_⟩
  rw [hrows]
  decide

end Page

end RuleClasses
