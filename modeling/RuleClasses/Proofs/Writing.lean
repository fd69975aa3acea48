import RuleClasses.Proofs.Blocks

/-! What strokes leave on a page. They do not read the page: what they add is the same behind
every text, at one level, and it is put together from what the parts add. Inside an indentation
each line that is not empty stands four spaces further in, at any depth, if no printed text
breaks a line by itself. -/

namespace RuleClasses

namespace Text

/-- A line one step further in. An empty one stays empty. -/
def indentLine (l : List Char) : List Char := if l = [] then [] else List.replicate 4 ' ' ++ l

/-- Every line of a text one step further in. -/
def indent (s : String) : String :=
  joinWith "\n" ((splitOnChar '\n' s.toList).map fun l => String.ofList (indentLine l))

theorem toList_joinWith_concat (rows : List (List Char)) :
    (joinWith "\n" ((rows ++ [[]]).map String.ofList)).toList =
      rows.flatMap (· ++ ['\n']) := by
  induction rows with
  | nil => rfl
  | cons r rest ih =>
    have hne : (rest ++ [[]]).map String.ofList ≠ [] := by simp
    rw [List.cons_append, List.map_cons, joinWith_cons "\n" _ hne, String.toList_append, ih,
      String.toList_append, String.toList_ofList, List.flatMap_cons]
    rfl

theorem toList_indent {rows : List (List Char)} (h : ∀ r ∈ rows, '\n' ∉ r) {s : String}
    (hs : s.toList = rows.flatMap (· ++ ['\n'])) :
    (indent s).toList = (rows.map indentLine).flatMap (· ++ ['\n']) := by
  have hlast : (rows ++ [[]]).map indentLine = rows.map indentLine ++ [[]] := List.map_append
  rw [indent, hs, splitOnChar_flatMap h, ← toList_joinWith_concat, ← hlast, List.map_map]
  rfl

end Text

namespace Layout

/-- One level deeper each row stands one step further in. -/
theorem row_succ (level : Nat) (s : String) :
    row (level + 1) s = Text.indentLine (row level s) := by
  by_cases hs : s = ""
  · simp [row, Text.indentLine, hs]
  · rw [Text.indentLine, if_neg (row_ne_nil hs), row, row, if_neg hs, if_neg hs,
      ← List.append_assoc, List.replicate_append_replicate]
    congr 2
    omega

mutual

theorem rows_succ (level : Nat) (l : Layout) :
    rows (level + 1) l = (rows level l).map Text.indentLine := by
  match l with
  | .line s => rw [rows, rows, List.map_singleton, row_succ]
  | .blank => rfl
  | .nested body => rw [rows, rows, rowsAll_succ (level + 1) body]

theorem rowsAll_succ (level : Nat) (ls : List Layout) :
    rowsAll (level + 1) ls = (rowsAll level ls).map Text.indentLine := by
  match ls with
  | [] => rfl
  | l :: rest => rw [rowsAll, rowsAll, List.map_append, rows_succ level l, rowsAll_succ level rest]

end

theorem notMem_row {s : String} (h : '\n' ∉ s.toList) {level : Nat} : '\n' ∉ row level s := by
  unfold row
  split
  · exact List.not_mem_nil
  · rw [List.mem_append, not_or]
    exact ⟨fun hc => absurd (List.eq_of_mem_replicate hc) (by decide), h⟩

theorem textAll_append (level : Nat) (ls ms : List Layout) :
    textAll level (ls ++ ms) = textAll level ls ++ textAll level ms := by
  rw [← String.toList_inj, String.toList_append, toList_textAll, toList_textAll, toList_textAll,
    rowsAll_append, List.flatMap_append]

/-- A text of layouts ends with a line end, if it is not empty. -/
theorem textAll_ends (level : Nat) (ls : List Layout) :
    textAll level ls = "" ∨ ∃ s, textAll level ls = s ++ "\n" := by
  rcases (rowsAll level ls).eq_nil_or_concat with h | ⟨rs, r, h⟩
  · left
    rw [← String.toList_inj, toList_textAll, h]
    rfl
  · right
    refine ⟨String.ofList (rs.flatMap (· ++ ['\n']) ++ r), ?_⟩
    rw [← String.toList_inj, toList_textAll, h]
    simp

end Layout

namespace Stroke

mutual

/-- What a stroke places, unless a block in it cannot be placed. -/
def layouts? : Stroke → Option (List Layout)
  | .print line => some [.line line]
  | .newline => some [.blank]
  | .block text => Layout.block? text
  | .indented body => (layoutsAll? body).map fun ls => [.nested ls]

def layoutsAll? : List Stroke → Option (List Layout)
  | [] => some []
  | x :: rest => (layouts? x).bind fun ls => (layoutsAll? rest).map (ls ++ ·)

end

mutual

/-- No text is printed with a line break in it. Blocks are cut into lines anyway. -/
def Unbroken : Stroke → Prop
  | .print line => '\n' ∉ line.toList
  | .newline => True
  | .block _ => True
  | .indented body => UnbrokenAll body

def UnbrokenAll : List Stroke → Prop
  | [] => True
  | x :: rest => Unbroken x ∧ UnbrokenAll rest

end

theorem layoutsAll?_append (l m : List Stroke) : layoutsAll? (l ++ m) =
    (layoutsAll? l).bind fun ls => (layoutsAll? m).map (ls ++ ·) := by
  induction l with
  | nil => simp [layoutsAll?]
  | cons x rest ih =>
    rw [List.cons_append, layoutsAll?, layoutsAll?, ih]
    cases layouts? x with
    | none => rfl
    | some ls => cases layoutsAll? rest <;> cases layoutsAll? m <;> simp

mutual

theorem notMem_rows {x : Stroke} {ls : List Layout} (h : layouts? x = some ls) (hx : Unbroken x)
    (level : Nat) : ∀ r ∈ Layout.rowsAll level ls, '\n' ∉ r := by
  match x with
  | .print line =>
    obtain rfl := Option.some.inj h
    exact List.forall_mem_singleton.mpr (Layout.notMem_row hx)
  | .newline =>
    obtain rfl := Option.some.inj h
    exact List.forall_mem_singleton.mpr List.not_mem_nil
  | .block text => exact Layout.notMem_rowsAll h level
  | .indented body =>
    obtain ⟨inner, hinner, rfl⟩ := Option.map_eq_some_iff.mp h
    rw [Layout.rowsAll, Layout.rows, Layout.rowsAll, List.append_nil]
    exact notMem_rowsAll hinner hx (level + 1)

theorem notMem_rowsAll {l : List Stroke} {ls : List Layout} (h : layoutsAll? l = some ls)
    (hl : UnbrokenAll l) (level : Nat) : ∀ r ∈ Layout.rowsAll level ls, '\n' ∉ r := by
  match l with
  | [] =>
    obtain rfl := Option.some.inj h
    exact nofun
  | x :: rest =>
    obtain ⟨first, hfirst, h⟩ := Option.bind_eq_some_iff.mp h
    obtain ⟨others, hothers, rfl⟩ := Option.map_eq_some_iff.mp h
    rw [Layout.rowsAll_append]
    exact List.forall_mem_append.mpr
      ⟨notMem_rows hfirst hl.1 level, notMem_rowsAll hothers hl.2 level⟩

end

end Stroke

namespace Page

open Stroke (layouts? layoutsAll?)

/-- What strokes leave on an empty page at a level. -/
def output? (level : Nat) (l : List Stroke) : Option String := (writeAll ⟨"", level⟩ l).map text

theorem place_append (p : Page) (ls ms : List Layout) :
    p.place (ls ++ ms) = (p.place ls).place ms := by
  rw [place, place, place, Layout.textAll_append, String.append_assoc]

mutual

/-- Writing places layouts that do not depend on the page. -/
theorem write_eq (p : Page) (x : Stroke) : p.write x = (layouts? x).map p.place := by
  match x with
  | .print _ | .newline | .block _ => rfl
  | .indented body =>
    rw [write, writeAll_eq, layouts?, Option.map_map, Option.map_map]
    refine Option.map_congr fun ls _ => ?_
    simp [place, Layout.textAll, Layout.text]

theorem writeAll_eq (p : Page) (l : List Stroke) : p.writeAll l = (layoutsAll? l).map p.place := by
  match l with
  | [] => simp [writeAll, layoutsAll?, place, Layout.textAll]
  | x :: rest =>
    rw [writeAll, write_eq p x, layoutsAll?]
    cases layouts? x with
    | none => rfl
    | some ls =>
      change writeAll (p.place ls) rest = _
      rw [writeAll_eq (p.place ls) rest, Option.bind_some, Option.map_map]
      exact Option.map_congr fun ms _ => (place_append p ls ms).symm

end

theorem output?_eq (level : Nat) (l : List Stroke) :
    output? level l = (layoutsAll? l).map (Layout.textAll level) := by
  rw [output?, writeAll_eq, Option.map_map]
  refine Option.map_congr fun ls _ => ?_
  simp [place]

/-- One level deeper every line is one step further in. -/
theorem output?_add {l : List Stroke} (h : Stroke.UnbrokenAll l) (level depth : Nat) :
    output? (level + depth) l = (output? level l).map Text.indent^[depth] := by
  induction depth with
  | zero => simp
  | succ depth ih =>
    rw [Function.iterate_succ', ← Option.map_map, ← ih, ← Nat.add_assoc, output?_eq, output?_eq,
      Option.map_map]
    refine Option.map_congr fun ls hls => ?_
    have hindent := Text.toList_indent (Stroke.notMem_rowsAll hls h (level + depth))
      (Layout.toList_textAll (level + depth) ls)
    rw [← String.toList_inj, Layout.toList_textAll, Layout.rowsAll_succ, ← hindent]
    rfl

theorem output?_indented (level : Nat) (l : List Stroke) :
    output? level [.indented l] = output? (level + 1) l := by
  rw [output?_eq, output?_eq, layoutsAll?, layouts?, layoutsAll?]
  cases layoutsAll? l with
  | none => rfl
  | some ls => simp [Layout.textAll, Layout.text]

theorem output?_nested (level depth : Nat) (l : List Stroke) :
    output? level ((fun l => [.indented l])^[depth] l) = output? (level + depth) l := by
  induction depth generalizing level with
  | zero => rfl
  | succ depth ih =>
    rw [Function.iterate_succ', Function.comp_apply, output?_indented, ih, Nat.add_right_comm,
      Nat.add_assoc]

/-- **Writing is put together from its parts.** Strokes leave the level as it was, and what they
add to the text of the page depends only on them and on that level. What strokes leave that come
after others comes behind what those leave, and it ends with a line end or is empty. Around
strokes that print no line breaks, each further indentation moves every line one step in. -/
theorem writing_composes (p : Page) (l m : List Stroke) :
    p.writeAll l = (output? p.level l).map (fun s => ⟨p.text ++ s, p.level⟩) ∧
    output? p.level (l ++ m) =
      (output? p.level l).bind (fun s => (output? p.level m).map (s ++ ·)) ∧
    (∀ s, output? p.level l = some s → s = "" ∨ ∃ t, s = t ++ "\n") ∧
    (Stroke.UnbrokenAll l →
      output? (p.level + 1) l = (output? p.level l).map Text.indent ∧
      ∀ depth, output? p.level ((fun l => [.indented l])^[depth] l) =
        (output? p.level l).map Text.indent^[depth]) := by
  refine ⟨?_, ?_, fun s hs => ?_, fun hl => ⟨output?_add hl p.level 1, fun depth => ?_⟩⟩
  · rw [writeAll_eq, output?_eq, Option.map_map]
    rfl
  · rw [output?_eq, output?_eq, output?_eq, Stroke.layoutsAll?_append]
    cases layoutsAll? l with
    | none => rfl
    | some ls =>
      cases layoutsAll? m with
      | none => rfl
      | some ms => simp [Layout.textAll_append]
  · rw [output?_eq] at hs
    obtain ⟨ls, -, rfl⟩ := Option.map_eq_some_iff.mp hs
    exact Layout.textAll_ends p.level ls
  · rw [output?_nested, output?_add hl]

/-- A blank line of the block and the empty line behind it stay empty further in. -/
theorem writing_composes_two_levels_in :
    output? 0 [.print "class A:", .indented [.block "\n  x\n\n    y\n  ", .newline]] =
      some "class A:\n    x\n\n      y\n\n" ∧
    output? 0 [.indented [.indented
        [.print "class A:", .indented [.block "\n  x\n\n    y\n  ", .newline]]]] =
      some "        class A:\n            x\n\n              y\n\n" := by
  have hlines : Layout.blockLines "\n  x\n\n    y\n  ".toList =
      ["  x".toList, [], "    y".toList] := by rfl
  have hmargin : Layout.commonMargin ["  x".toList, [], "    y".toList] = 2 := by rfl
  have hblock : Layout.block? "\n  x\n\n    y\n  " =
      some [.line "x", .blank, .line "  y"] := by
    rw [Layout.block?_eq_some, hlines, hmargin]
    exact .cons rfl (.cons rfl (.cons rfl .nil))
  have houtput : output? 0
      [.print "class A:", .indented [.block "\n  x\n\n    y\n  ", .newline]] =
      some "class A:\n    x\n\n      y\n\n" := by
    rw [output?_eq]
    simp only [layoutsAll?, layouts?, hblock]
    rfl
  have hprint : '\n' ∉ "class A:".toList := by decide
  obtain ⟨-, -, -, hin⟩ := writing_composes ⟨"", 0⟩
    [.print "class A:", .indented [.block "\n  x\n\n    y\n  ", .newline]] []
  refine ⟨houtput, ((hin ⟨hprint, ⟨trivial, trivial, trivial⟩, trivial⟩).2 2).trans ?_⟩
  rw [houtput]
  rfl

end Page

end RuleClasses
