import RuleClasses.Proofs.DeclaredClasses
import RuleClasses.Proofs.Sources

/-! Headers of classes in a source file. A file has parts, one for the builder semantics and
one for each class of the plan, and there is one header at the left margin in each of them. The
other lines are fixed or hold names of the plan, which are safe, and declare nothing. Only the
root type is written as the config has it. -/

namespace RuleClasses

open Layout
open Text (IsWord HasNoBlank IsIdentifier nameMarks isNameChar isNameChar_mark isNameChar_space)

namespace Target

/-! ## Reading a file -/

/-- What the header of a class in a plan starts with. -/
def headerMark : Target → String
  | python => "class "
  | rust => "pub struct "

/-- The name in a class header at the left margin. -/
def headerName? (t : Target) (line : List Char) : Option String :=
  (Emit.nameAfter? t.headerMark.toList line).map String.ofList

def headerNames (t : Target) (text : String) : List String :=
  (Text.lines text.toList).filterMap t.headerName?

/-- What a line declares, wherever in it, is the class in its header at the left margin. -/
def OnlyHeaders (t : Target) (text : String) : Prop :=
  ∀ line ∈ Text.lines text.toList, t.declaredIn line = (t.headerName? line).toList

variable {t : Target}

/-- No header begins like this, and this begins with no header. -/
def StartsOther (t : Target) (start : List Char) : Prop :=
  ¬ t.headerMark.toList <+: start ∧ ¬ start <+: t.headerMark.toList

instance (t : Target) (start : List Char) : Decidable (t.StartsOther start) :=
  inferInstanceAs (Decidable (_ ∧ _))

theorem headerName?_append {start : List Char} (h : t.StartsOther start) (rest : List Char) :
    t.headerName? (start ++ rest) = none := by
  rw [headerName?, Emit.nameAfter?_eq_none h.1 h.2]
  rfl

theorem headerName?_headerMark {name : String} (hname : IsWord name) {c : Char}
    (hc : Text.isWordChar c = false) (rest : List Char) :
    t.headerName? (t.headerMark.toList ++ (name.toList ++ c :: rest)) = some name := by
  rw [headerName?, Emit.nameAfter?_append (fun _ => hname.isWordChar) hc]
  simp

/-- An indentation does not make a header. -/
theorem headerName?_row {s : String} (h : t.headerName? s.toList = none) (level : Nat) :
    t.headerName? (row level s) = none := by
  have hspace : t.StartsOther [' '] := by cases t <;> decide
  cases level with
  | zero => rwa [row_zero]
  | succ level =>
    unfold row
    split
    · cases t <;> rfl
    · have hindented : List.replicate (4 * (level + 1)) ' ' ++ s.toList =
          [' '] ++ (List.replicate (4 * level + 3) ' ' ++ s.toList) := by
        rw [Nat.mul_succ, List.replicate_succ]
        rfl
      rw [hindented]
      exact headerName?_append hspace _

/-! ## Lines without a class -/

/-- The text is no header and declares no class. -/
def Silent (t : Target) (s : String) : Prop :=
  t.headerName? s.toList = none ∧ t.declaredIn s.toList = []

instance (t : Target) : DecidablePred t.Silent := fun _ => inferInstanceAs (Decidable (_ ∧ _))

theorem silent_ofList {s : List Char} (h : t.headerName? s = none)
    (h' : ¬ t.classKeyword.toList <:+: s) : t.Silent (String.ofList s) := by
  rw [Silent, String.toList_ofList]
  exact ⟨h, declaredFrom_eq_nil h' false⟩

theorem silent_append {start rest : List Char} (h : t.StartsOther start)
    (h' : ¬ t.classKeyword.toList <:+: start ++ rest) :
    t.Silent (String.ofList start ++ String.ofList rest) := by
  rw [Silent, String.toList_append, String.toList_ofList, String.toList_ofList]
  exact ⟨headerName?_append h rest, declaredFrom_eq_nil h' false⟩

/-- What can be in front of a name: a text that begins as no header does, does not hold the
keyword and ends in a mark. -/
def LineStart (t : Target) (start : List Char) : Prop :=
  t.StartsOther start ∧ ¬ t.classKeyword.toList <:+: start ∧
    start.getLast?.any nameMarks.contains = true

/-- What can be behind a name: a text that begins with a mark and does not hold the keyword. -/
def LineEnd (t : Target) (rest : List Char) : Prop :=
  rest.head?.any nameMarks.contains = true ∧ ¬ t.classKeyword.toList <:+: rest

instance (t : Target) (start : List Char) : Decidable (t.LineStart start) :=
  inferInstanceAs (Decidable (_ ∧ _))

instance (t : Target) (rest : List Char) : Decidable (t.LineEnd rest) :=
  inferInstanceAs (Decidable (_ ∧ _))

theorem LineStart.declaredIn {start : List Char} (h : t.LineStart start) (rest : List Char) :
    t.declaredIn (start ++ rest) = t.declaredIn rest := by
  obtain ⟨-, hfree, hmark⟩ := h
  obtain ⟨m, hlast, hm⟩ := (Option.any_eq_true _ _).mp hmark
  obtain ⟨before, rfl⟩ := List.getLast?_eq_some_iff.mp hlast
  rw [List.append_assoc]
  exact declaredFrom_behind (fun hi => hfree (hi.trans (List.prefix_append _ _).isInfix))
    (isNameChar_mark (List.contains_iff_mem.mp hm)) false rest

theorem LineEnd.declaredIn {rest : List Char} (h : t.LineEnd rest) {name : String}
    (hname : IsIdentifier t.isKeyword name) : t.declaredIn (name.toList ++ rest) = [] := by
  obtain ⟨hmark, hfree⟩ := h
  obtain ⟨m, hhead, hm⟩ := (Option.any_eq_true _ _).mp hmark
  obtain ⟨rest, rfl⟩ := List.head?_eq_some_iff.mp hhead
  exact (declaredFrom_word hname.word (ne_classKeyword hname)
    (isNameChar_mark (List.contains_iff_mem.mp hm)) rest).trans
    (declaredFrom_eq_nil (fun hi => hfree (List.infix_cons hi)) false)

/-- A line around a name of a plan. -/
theorem LineStart.silent {start rest : List Char} (h : t.LineStart start) {name : String}
    (hname : IsIdentifier t.isKeyword name) (hrest : t.LineEnd rest) :
    t.Silent (String.ofList start ++ name ++ String.ofList rest) := by
  rw [Silent, String.toList_append, String.toList_append, String.toList_ofList,
    String.toList_ofList, List.append_assoc, headerName?_append h.1, h.declaredIn,
    hrest.declaredIn hname]
  exact ⟨rfl, rfl⟩

/-- A word that something else than a blank follows is not the last word of a mark. -/
theorem nameAfter?_word_eq_none {a w : String} (ha : IsWord a) (hw : IsWord w) {c : Char}
    (hc : Text.isWordChar c = false) (hne : c ≠ ' ') (start rest : List Char) :
    Emit.nameAfter? (start ++ (w.toList ++ [' '])) (start ++ (a.toList ++ c :: rest)) = none := by
  refine Option.map_eq_none_iff.mpr (Option.eq_none_iff_forall_ne_some.mpr fun s hs => ?_)
  obtain ⟨mark, he, hmark⟩ := List.dropPrefix?_eq_some_iff.mp hs
  obtain rfl : mark = start ++ (w.toList ++ [' ']) := by simpa using hmark
  rw [List.append_assoc, List.append_assoc] at he
  exact hne (ha.append_inj hw hc (Text.isWordChar_mark (by decide))
    (List.append_cancel_left he)).2.1

theorem silent_attribute_python {a : String} (h : IsIdentifier python.isKeyword a) :
    python.Silent (a ++ ": Any = None") := by
  have hcolon := Text.isWordChar_mark (c := ':') (by decide)
  have hheader : Emit.nameAfter? "class ".toList (a.toList ++ ": Any = None".toList) = none :=
    nameAfter?_word_eq_none (w := "class") h.word (by decide) hcolon (by decide) []
      " Any = None".toList
  have hend : python.LineEnd ": Any = None".toList := by decide
  rw [Silent, String.toList_append, headerName?, headerMark, hheader, hend.declaredIn h]
  exact ⟨rfl, rfl⟩

theorem silent_attribute_rust {a : String} (h : IsIdentifier rust.isKeyword a) :
    rust.Silent ("pub " ++ a ++ ": Option<Value>,") := by
  have hcolon := Text.isWordChar_mark (c := ':') (by decide)
  have hmark : rust.headerMark.toList = "pub ".toList ++ ("struct".toList ++ [' ']) := by decide
  have hheader : Emit.nameAfter? ("pub ".toList ++ ("struct".toList ++ [' ']))
      ("pub ".toList ++ (a.toList ++ ": Option<Value>,".toList)) = none :=
    nameAfter?_word_eq_none h.word (by decide) hcolon (by decide) _ " Option<Value>,".toList
  have hend : rust.LineEnd ": Option<Value>,".toList := by decide
  have hdeclared :
      rust.declaredIn ("pub ".toList ++ (a.toList ++ ": Option<Value>,".toList)) = [] :=
    (declaredFrom_behind (a := "pub".toList) (by decide) isNameChar_space false _).trans
      (hend.declaredIn h)
  rw [Silent, String.toList_append, String.toList_append, List.append_assoc, hdeclared, headerName?,
    hmark, hheader]
  exact ⟨rfl, rfl⟩

theorem silent_noticeComment {mark : List Char} (h : t.StartsOther mark)
    (hmark : ¬ t.classKeyword.toList <:+: mark) :
    EveryAll t.Silent (Emit.noticeComment (String.ofList mark)) := by
  have hlines : ∀ line ∈ Emit.notice, t.declaredIn line.toList = [] := by
    have hfree : ∀ s : List Char, ¬ "class".toList <:+: s → ¬ "struct".toList <:+: s →
        t.declaredIn (String.ofList s).toList = [] := by
      intro s hclass hstruct
      rw [String.toList_ofList]
      cases t with
      | python => exact declaredFrom_eq_nil (t := python) hclass false
      | rust => exact declaredFrom_eq_nil (t := rust) hstruct false
    simp only [Emit.notice, List.forall_mem_cons]
    exact ⟨hfree _ (by decide) (by decide), hfree [] (by decide) (by decide),
      hfree _ (by decide) (by decide), hfree [] (by decide) (by decide),
      hfree _ (by decide) (by decide), hfree _ (by decide) (by decide), List.forall_mem_nil _⟩
  refine everyAll_map_line fun line hline => ?_
  split
  · exact silent_ofList (by simpa using headerName?_append h []) hmark
  · rw [Silent, String.toList_append, String.toList_append, String.toList_ofList,
      List.append_assoc, headerName?_append h]
    exact ⟨rfl, (declaredFrom_behind hmark isNameChar_space false _).trans
      (hlines line hline)⟩

/-! ## The lines around the headers -/

/-- The lines in which the root type can declare something. There are none in Python, where
it takes a blank to get from the keyword to a name. -/
def rootLines : Target → RootType → List String
  | python, _ => []
  | rust, root =>
    ["use " ++ (root.module ++ "::" ++ root.name) ++ ";", "pub base: " ++ root.name ++ ",",
     "type Target = " ++ root.name ++ ";", "fn deref(&self) -> &" ++ root.name ++ " \x7b"]

/-- The text of a line that is no header. -/
def Aside (t : Target) (root : RootType) (s : String) : Prop := t.Silent s ∨ s ∈ t.rootLines root

/-- A line around a text declares what the text does. -/
theorem LineStart.around {start : List Char} (h : t.LineStart start) {marks : List Char}
    (hmarks : marks.all nameMarks.contains = true) (x : String) :
    t.headerName? (String.ofList start ++ x ++ String.ofList marks).toList = none ∧
      t.declaredIn (String.ofList start ++ x ++ String.ofList marks).toList =
        t.declaredIn x.toList := by
  rw [String.toList_append, String.toList_append, String.toList_ofList, String.toList_ofList,
    List.append_assoc, headerName?_append h.1, h.declaredIn]
  exact ⟨rfl, declaredFrom_append_marks (Text.mem_nameMarks_of_all hmarks) false _⟩

theorem around_import (root : RootType) :
    rust.headerName? ("use " ++ (root.module ++ "::" ++ root.name) ++ ";").toList = none ∧
      rust.declaredIn ("use " ++ (root.module ++ "::" ++ root.name) ++ ";").toList =
        rust.declaredIn (root.module ++ rust.separator ++ root.name).toList :=
  LineStart.around (by decide) rfl _

theorem around_field (base : String) :
    rust.headerName? ("pub base: " ++ base ++ ",").toList = none ∧
      rust.declaredIn ("pub base: " ++ base ++ ",").toList = rust.declaredIn base.toList :=
  LineStart.around (by decide) rfl _

variable {root : RootType}

theorem declaredIn_of_mem_rootLines {s : String} (h : s ∈ t.rootLines root) :
    t.headerName? s.toList = none ∧
      (t.declaredIn s.toList = t.declaredIn (root.module ++ t.separator ++ root.name).toList ∨
        t.declaredIn s.toList = t.declaredIn root.name.toList) := by
  cases t with
  | python => exact absurd h List.not_mem_nil
  | rust =>
    simp only [rootLines, List.mem_cons, List.not_mem_nil, or_false] at h
    rcases h with rfl | rfl | rfl | rfl
    · exact (around_import root).imp_right .inl
    · exact (around_field root.name).imp_right .inr
    · exact (LineStart.around (by decide) rfl _).imp_right .inr
    · exact (LineStart.around (by decide) rfl _).imp_right .inr

theorem Aside.headerName?_row {s : String} (h : t.Aside root s) (level : Nat) :
    t.headerName? (row level s) = none :=
  Target.headerName?_row (h.elim And.left fun h => (declaredIn_of_mem_rootLines h).1) level

theorem Aside.declaredIn_row (hroot : ∀ s ∈ t.rootLines root, t.declaredIn s.toList = [])
    {s : String} (h : t.Aside root s) (level : Nat) : t.declaredIn (row level s) = [] :=
  (t.declaredIn_row level s).trans (h.elim And.right (hroot s))

/-- Of all lines of the layouts one is a header. It stands at the left margin and declares
the class with the given name and nothing else. -/
inductive Introduces (t : Target) (root : RootType) (name : String) : List Layout → Prop where
  | intro {before after : List Layout} {header : String}
    (hbefore : EveryAll (t.Aside root) before) (m : Char) (rest : List Char)
    (hm : m ∈ nameMarks) (hrest : t.declaredIn rest = [])
    (heq : header.toList = t.headerMark.toList ++ (name.toList ++ m :: rest))
    (hafter : EveryAll (t.Aside root) after) :
    Introduces t root name (before ++ .line header :: after)

namespace Introduces

variable {name : String} {before ls after : List Layout}

theorem append_left (h : t.Introduces root name ls) (hbefore : EveryAll (t.Aside root) before) :
    t.Introduces root name (before ++ ls) := by
  obtain ⟨hinner, m, rest, hm, hrest, heq, hafter⟩ := h
  rw [← List.append_assoc]
  exact .intro (everyAll_append.mpr ⟨hbefore, hinner⟩) m rest hm hrest heq hafter

theorem append_right (h : t.Introduces root name ls) (hafter : EveryAll (t.Aside root) after) :
    t.Introduces root name (ls ++ after) := by
  obtain ⟨hbefore, m, rest, hm, hrest, heq, hinner⟩ := h
  rw [List.append_assoc]
  exact .intro hbefore m rest hm hrest heq (everyAll_append.mpr ⟨hinner, hafter⟩)

/-- The header is the only one, and what it declares is its class. -/
theorem headers (h : t.Introduces root name ls) (hname : IsIdentifier t.isKeyword name) :
    (rowsAll 0 ls).filterMap t.headerName? = [name] := by
  obtain @⟨before, after, header, hbefore, m, rest, hm, hrest, heq, hafter⟩ := h
  have haside : ∀ {ls}, EveryAll (t.Aside root) ls → (rowsAll 0 ls).filterMap t.headerName? = [] :=
    fun h => List.filterMap_eq_nil_iff.mpr
      (h.forall_mem_rowsAll (by cases t <;> rfl) fun level s hs => hs.headerName?_row level)
  have hheader : t.headerName? (row 0 header) = some name := by
    rw [row_zero, heq]
    exact headerName?_headerMark hname.word
      (Text.isWordChar_of_isNameChar (isNameChar_mark hm)) rest
  rw [rowsAll_append, List.filterMap_append, haside hbefore, rowsAll, rows,
    List.filterMap_append, haside hafter, List.filterMap_cons_some hheader]
  rfl

theorem onlyHeaders (h : t.Introduces root name ls) (hname : IsIdentifier t.isKeyword name)
    (hroot : ∀ s ∈ t.rootLines root, t.declaredIn s.toList = []) :
    ∀ line ∈ rowsAll 0 ls, t.declaredIn line = (t.headerName? line).toList := by
  obtain @⟨before, after, header, hbefore, m, rest, hm, hrest, heq, hafter⟩ := h
  have haside : ∀ {ls}, EveryAll (t.Aside root) ls →
      ∀ line ∈ rowsAll 0 ls, t.declaredIn line = (t.headerName? line).toList := by
    refine fun h => h.forall_mem_rowsAll (by cases t <;> rfl) fun level s hs => ?_
    rw [hs.declaredIn_row hroot, hs.headerName?_row]
    rfl
  have hdeclared : t.declaredIn (t.headerMark.toList ++ (name.toList ++ m :: rest)) = [name] := by
    have hkeyword := declaredFrom_header hname (isNameChar_mark hm) rest
    rw [show t.declaredFrom false rest = [] from hrest] at hkeyword
    cases t with
    | python => exact hkeyword
    | rust =>
      exact (declaredFrom_behind (a := "pub".toList) (by decide) isNameChar_space
        false _).trans hkeyword
  intro line hline
  rw [rowsAll_append, rowsAll, rows, List.mem_append, List.mem_append, List.mem_singleton] at hline
  rcases hline with hline | rfl | hline
  · exact haside hbefore line hline
  · rw [row_zero, heq, hdeclared, headerName?_headerMark hname.word
      (Text.isWordChar_of_isNameChar (isNameChar_mark hm))]
    rfl
  · exact haside hafter line hline

end Introduces

end Target

/-- No keyword has a capital letter behind its start. -/
theorem Emit.isIdentifier_semanticsName (t : Target) (name : String) :
    IsIdentifier t.isKeyword (semanticsName (t.identifier name)) := by
  have hident := t.isIdentifier_identifier name
  have hne : (t.identifier name).toList ≠ [] := mt String.toList_eq_nil_iff.mp hident.nonempty
  have hcapital : ∀ k ∈ t.keywords, 'B' ∉ k.toList := by cases t <;> decide
  refine ⟨fun h => hne ?_, isWord_semanticsName t name, fun c hc => hident.start c ?_, ?_⟩
  · have hnil := congrArg String.toList h
    rw [semanticsName, String.toList_append] at hnil
    exact (List.append_eq_nil_iff.mp hnil).1
  · rwa [semanticsName, String.toList_append, List.head?_append_of_ne_nil _ hne] at hc
  · rw [← Bool.not_eq_true]
    intro h
    refine hcapital _ (List.contains_iff_mem.mp h) ?_
    rw [semanticsName, String.toList_append]
    exact List.mem_append_right _ (by decide)

namespace Target

/-! ## Dataclasses -/

theorem silent_import_python {root : RootType} (hmodule : HasNoBlank root.module)
    (hname : HasNoBlank root.name) :
    python.Silent ("from " ++ root.module ++ " import " ++ root.name) := by
  have hline : ("from " ++ root.module ++ " import " ++ root.name).toList =
      "from".toList ++ ' ' :: (root.module.toList ++ ' ' :: ("import".toList ++
        ' ' :: root.name.toList)) := by simp
  have hdeclared : python.declaredIn ("from".toList ++ ' ' :: (root.module.toList ++
      ' ' :: ("import".toList ++ ' ' :: root.name.toList))) = [] :=
    (declaredFrom_behind (by decide) isNameChar_space false _).trans
      (declaredFrom_import (fun _ => hmodule.isBlank) (fun _ => hname.isBlank) false)
  have hother : python.StartsOther "from".toList := by decide
  rw [Silent, hline]
  exact ⟨headerName?_append hother _, hdeclared⟩

theorem silent_subclass_python {name : String} (h : HasNoBlank name) :
    python.Silent ("if type(t) is type and issubclass(t, " ++ name ++ ")") := by
  have hline : ("if type(t) is type and issubclass(t, " ++ name ++ ")").toList =
      "if type(t) is type and".toList ++ ' ' :: ("issubclass".toList ++
        '(' :: ("t,".toList ++ ' ' :: (name.toList ++ [')']))) := by simp
  have hdeclared : python.declaredIn ("if type(t) is type and".toList ++ ' ' ::
      ("issubclass".toList ++ '(' :: ("t,".toList ++ ' ' :: (name.toList ++ [')'])))) = [] := by
    rw [declaredIn, declaredFrom_behind (by decide) isNameChar_space,
      declaredFrom_word (by decide) (by decide) (isNameChar_mark (by decide)),
      declaredFrom_behind (by decide) isNameChar_space,
      declaredFrom_append_marks (Text.mem_nameMarks_of_all rfl),
      declaredFrom_python fun _ => h.isBlank]
  have hother : python.StartsOther "if type(t) is type and".toList := by decide
  rw [Silent, hline]
  exact ⟨headerName?_append hother _, hdeclared⟩

theorem introduces_semantics_python (name : String) {root : RootType} (h : HasNoBlank root.name) :
    python.Introduces root (Emit.semanticsName (python.identifier name))
      (Emit.Dataclasses.semantics name root) := by
  have hafter : EveryAll python.Silent
      [.nested
        [.line "def __init__(self, context=None, types=None):",
         .nested
          [.line "types = [",
           .nested
            [.line "t for t in globals().values()",
             .line ("if type(t) is type and issubclass(t, " ++ root.name ++ ")")],
           .line "] + (types or [])",
           .line "super().__init__(context=context, types=types)"]]] :=
    ⟨⟨silent_ofList rfl (by decide), ⟨silent_ofList rfl (by decide),
      ⟨silent_ofList rfl (by decide), silent_subclass_python h, trivial⟩,
      silent_ofList rfl (by decide), silent_ofList rfl (by decide), trivial⟩, trivial⟩, trivial⟩
  show python.Introduces root _ ([] ++ .line _ :: _)
  refine .intro trivial '(' "ModelBuilderSemantics):".toList (by decide)
    (declaredFrom_eq_nil (by decide) false) ?_ (hafter.imp fun _ => .inl)
  simp [headerMark]

theorem introduces_preamble_python {p : Plan} (hmodule : HasNoBlank p.rootType.module)
    (hname : HasNoBlank p.rootType.name) :
    python.Introduces p.rootType (Emit.semanticsName (python.identifier p.name))
      (Emit.Dataclasses.preamble p) := by
  have hhead : EveryAll python.Silent
      ([.line "#!/usr/bin/env python3", .blank] ++ Emit.noticeComment "#" ++ [.blank]) :=
    everyAll_append.mpr ⟨⟨silent_ofList rfl (by decide), trivial,
      silent_noticeComment (by decide) (by decide)⟩, trivial, trivial⟩
  have hdataclass : python.Silent "from dataclasses import dataclass" := by decide +kernel
  have himports : EveryAll python.Silent (Emit.Dataclasses.imports p.rootType) := by
    refine everyAll_append.mpr ⟨⟨silent_ofList rfl (by decide), trivial,
      silent_ofList rfl (by decide), hdataclass, trivial, silent_ofList rfl (by decide),
      trivial⟩, ?_⟩
    split
    · trivial
    · exact ⟨silent_import_python hmodule hname, trivial⟩
  have habove := everyAll_append.mpr ⟨everyAll_append.mpr ⟨hhead, himports⟩,
    (by decide : EveryAll python.Silent [.blank, .blank])⟩
  exact (introduces_semantics_python p.name hname).append_left (habove.imp fun _ => .inl)

theorem introduces_dataclass {root : RootType} {name : String} {base : Option String}
    (hbase : ∀ b ∈ base, HasNoBlank b) {attributes : List String}
    (h : ∀ a ∈ attributes, IsIdentifier python.isKeyword a) :
    python.Introduces root name (Emit.Dataclasses.dataclass name base attributes) := by
  have hdecorator : python.Silent "@dataclass(eq=False)" := by decide +kernel
  have hbefore : EveryAll python.Silent [.blank, .blank, .line "@dataclass(eq=False)"] :=
    ⟨trivial, trivial, hdecorator, trivial⟩
  have hbody : EveryAll python.Silent (Emit.Dataclasses.body attributes) := by
    unfold Emit.Dataclasses.body
    split
    · exact ⟨silent_ofList rfl (by decide), trivial⟩
    · exact everyAll_map_line fun a ha => silent_attribute_python (h a ha)
  have hafter : EveryAll (python.Aside root) [.nested (Emit.Dataclasses.body attributes)] :=
    ⟨hbody.imp fun _ => .inl, trivial⟩
  cases base with
  | none =>
    refine .intro (hbefore.imp fun _ => .inl) ':' [] (by decide) rfl ?_ hafter
    simp [Emit.Dataclasses.header, headerMark]
  | some b =>
    have hrest : python.declaredIn (b.toList ++ "):".toList) = [] := by
      have hend : HasNoBlank "):" := by decide
      refine declaredFrom_python (fun c hc => ?_) false
      exact (List.mem_append.mp hc).elim (hbase b rfl).isBlank hend.isBlank
    refine .intro (hbefore.imp fun _ => .inl) '(' (b.toList ++ "):".toList) (by decide) hrest ?_
      hafter
    simp [Emit.Dataclasses.header, headerMark]

/-! ## Structs -/

/-- Some name of a plan, or the root type. -/
def IsBase (t : Target) (root : RootType) (b : String) : Prop :=
  IsIdentifier t.isKeyword b ∨ b = root.name

theorem IsBase.aside {t : Target} {root : RootType} {b : String} {start rest : List Char}
    (h : t.IsBase root b) (hstart : t.LineStart start) (hrest : t.LineEnd rest)
    (hroot : String.ofList start ++ root.name ++ String.ofList rest ∈ t.rootLines root) :
    t.Aside root (String.ofList start ++ b ++ String.ofList rest) := by
  rcases h with hb | rfl
  · exact .inl (hstart.silent hb hrest)
  · exact .inr hroot

theorem introduces_braces {root : RootType} {name : String} {body : List Layout}
    (h : EveryAll (rust.Aside root) body) :
    rust.Introduces root name (Emit.Structs.braces ("pub struct " ++ name) body) := by
  have hclose : rust.Silent "\x7d" := silent_ofList rfl (by decide)
  have hheader : ("pub struct " ++ name ++ " \x7b").toList =
      rust.headerMark.toList ++ (name.toList ++ ' ' :: "\x7b".toList) := by simp [headerMark]
  show rust.Introduces root name ([] ++ .line ("pub struct " ++ name ++ " \x7b") :: _)
  exact .intro trivial ' ' _ (by decide) (declaredFrom_eq_nil (by decide) false) hheader
    ⟨h, .inl hclose, trivial⟩

theorem introduces_semantics_rust (root : RootType) (name : String) :
    rust.Introduces root (Emit.semanticsName (rust.identifier name))
      (Emit.Structs.semantics name) := by
  have hderives : EveryAll rust.Silent [Emit.Structs.derives] :=
    ⟨silent_ofList rfl (by decide), trivial⟩
  have htypes : EveryAll rust.Silent [.line "pub types: Vec<String>,"] :=
    ⟨silent_ofList rfl (by decide), trivial⟩
  have hstruct : rust.Introduces root (Emit.semanticsName (rust.identifier name))
      (Emit.Structs.braces ("pub struct " ++ Emit.semanticsName (rust.identifier name)) _) :=
    introduces_braces (htypes.imp fun _ => .inl)
  have hname := Emit.isIdentifier_semanticsName rust name
  have himpl : rust.Silent ("impl " ++ Emit.semanticsName (rust.identifier name) ++ " \x7b") :=
    LineStart.silent (by decide) hname (by decide)
  have hnew : EveryAll rust.Silent
      (Emit.Structs.braces "pub fn new(types: Option<Vec<String>>) -> Self"
        [.line "let mut all: Vec<String> = MODEL_TYPES.iter().map(|t| t.to_string()).collect();",
         .line "all.extend(types.unwrap_or_default());",
         .line "Self \x7b types: all \x7d"]) :=
    ⟨silent_append (by decide) (by decide), ⟨silent_ofList rfl (by decide +kernel),
      silent_ofList rfl (by decide), silent_ofList rfl (by decide), trivial⟩,
      silent_ofList rfl (by decide), trivial⟩
  have himpl : EveryAll rust.Silent (Emit.Structs.braces
      ("impl " ++ Emit.semanticsName (rust.identifier name)) (Emit.Structs.braces
        "pub fn new(types: Option<Vec<String>>) -> Self" _)) :=
    ⟨himpl, hnew, silent_ofList rfl (by decide), trivial⟩
  have hblank : EveryAll rust.Silent [.blank] := ⟨trivial, trivial⟩
  exact ((hstruct.append_left (hderives.imp fun _ => .inl)).append_right
    (hblank.imp fun _ => .inl)).append_right (himpl.imp fun _ => .inl)

theorem silent_registry {names : List String} (h : ∀ n ∈ names, IsIdentifier rust.isKeyword n) :
    EveryAll rust.Silent (Emit.Structs.registry names) := by
  have hentries : EveryAll rust.Silent (names.map fun n => .line ("\"" ++ n ++ "\",")) :=
    everyAll_map_line fun n hn => LineStart.silent (by decide) (h n hn) (by decide)
  exact ⟨silent_ofList rfl (by decide), silent_ofList rfl (by decide), hentries,
    silent_ofList rfl (by decide), trivial⟩

theorem aside_imports (root : RootType) :
    EveryAll (rust.Aside root) (Emit.Structs.imports root) := by
  have hfixed : EveryAll rust.Silent
      [.line "use std::ops::Deref;", .blank, .line "use serde_json::Value;"] :=
    ⟨silent_ofList rfl (by decide), trivial, silent_ofList rfl (by decide), trivial⟩
  refine everyAll_append.mpr ⟨hfixed.imp fun _ => .inl, ?_⟩
  split
  · trivial
  · have himport : "use " ++ root.module ++ "::" ++ root.name ++ ";" ∈ rust.rootLines root := by
      simp [rootLines, String.append_assoc]
    exact ⟨trivial, .inr himport, trivial⟩

theorem introduces_preamble_rust {p : Plan}
    (h : ∀ n ∈ p.classNames, IsIdentifier rust.isKeyword n) :
    rust.Introduces p.rootType (Emit.semanticsName (rust.identifier p.name))
      (Emit.Structs.preamble p) := by
  have hnotice : EveryAll rust.Silent (Emit.noticeComment "//" ++ [.blank]) :=
    everyAll_append.mpr ⟨silent_noticeComment (by decide) (by decide), trivial, trivial⟩
  have hregistry : EveryAll rust.Silent (Emit.Structs.registry p.classNames) := silent_registry h
  have hblank : EveryAll rust.Silent [.blank] := ⟨trivial, trivial⟩
  have hside : ∀ {ls}, EveryAll rust.Silent ls → EveryAll (rust.Aside p.rootType) ls :=
    fun h => h.imp fun _ => .inl
  exact (introduces_semantics_rust p.rootType p.name).append_left (everyAll_append.mpr
    ⟨everyAll_append.mpr ⟨everyAll_append.mpr ⟨everyAll_append.mpr
      ⟨hside hnotice, aside_imports p.rootType⟩, hside hblank⟩, hside hregistry⟩, hside hblank⟩)

theorem aside_fields {root : RootType} {base : Option String}
    (hbase : ∀ b ∈ base, rust.IsBase root b) {attributes : List String}
    (h : ∀ a ∈ attributes, IsIdentifier rust.isKeyword a) :
    EveryAll (rust.Aside root) (Emit.Structs.fields base attributes) := by
  refine everyAll_append.mpr ⟨everyAll_map_line fun b hb => ?_,
    everyAll_map_line fun a ha => .inl (silent_attribute_rust (h a ha))⟩
  exact (hbase b (Option.mem_toList.mp hb)).aside (by decide) (by decide) (.tail _ (.head _))

theorem aside_dereference {root : RootType} {name base : String}
    (hname : IsIdentifier rust.isKeyword name) (hbase : rust.IsBase root base) :
    EveryAll (rust.Aside root) (Emit.Structs.dereference name base) := by
  have himpl : rust.Silent ("impl Deref for " ++ name ++ " \x7b") :=
    LineStart.silent (by decide) hname (by decide)
  have hself : rust.Silent "&self.base" := silent_ofList rfl (by decide)
  have hclose : rust.Silent "\x7d" := silent_ofList rfl (by decide)
  have htarget : rust.Aside root ("type Target = " ++ base ++ ";") :=
    hbase.aside (by decide) (by decide) (.tail _ (.tail _ (.head _)))
  have hderef : rust.Aside root ("fn deref(&self) -> &" ++ base ++ " \x7b") :=
    hbase.aside (by decide) (by decide) (.tail _ (.tail _ (.tail _ (.head _))))
  exact ⟨trivial, .inl himpl, ⟨htarget, trivial, hderef, ⟨.inl hself, trivial⟩, .inl hclose,
    trivial⟩, .inl hclose, trivial⟩

theorem introduces_struct {root : RootType} {name : String}
    (hname : IsIdentifier rust.isKeyword name) {base : Option String}
    (hbase : ∀ b ∈ base, rust.IsBase root b) {attributes : List String}
    (h : ∀ a ∈ attributes, IsIdentifier rust.isKeyword a) :
    rust.Introduces root name (Emit.Structs.struct name base attributes) := by
  have hbefore : EveryAll rust.Silent [.blank, Emit.Structs.derives] :=
    ⟨trivial, silent_ofList rfl (by decide), trivial⟩
  have hbefore : EveryAll (rust.Aside root) [.blank, Emit.Structs.derives] :=
    hbefore.imp fun _ => .inl
  unfold Emit.Structs.struct
  split
  · refine .intro hbefore ';' [] (by decide) rfl ?_ trivial
    simp [headerMark]
  · exact (introduces_braces (aside_fields hbase h)).append_left hbefore
  · exact ((introduces_braces (aside_fields hbase h)).append_right
      (aside_dereference hname (hbase _ rfl))).append_left hbefore

/-! ## Files -/

theorem introduces_preamble {t : Target} {p : Plan} (h : p.Legible)
    (hnames : ∀ n ∈ p.classNames, IsIdentifier t.isKeyword n) :
    t.Introduces p.rootType (Emit.semanticsName (t.identifier p.name)) (t.preamble p) := by
  cases t with
  | python => exact introduces_preamble_python h.root_module h.root_name
  | rust => exact introduces_preamble_rust hnames

theorem introduces_declaration {t : Target} {root : RootType} {d : Decl}
    (hname : IsIdentifier t.isKeyword d.name) (hblank : ∀ b ∈ d.base?, HasNoBlank b)
    (hbase : ∀ b ∈ d.base?, t.IsBase root b)
    (h : ∀ a ∈ d.attributes, IsIdentifier t.isKeyword a) :
    t.Introduces root d.name (t.declaration d) := by
  cases t with
  | python => exact introduces_dataclass hblank h
  | rust => exact introduces_struct hname hbase h

end Target

end RuleClasses
