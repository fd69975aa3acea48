import RuleClasses.Config
import RuleClasses.Emit
import RuleClasses.Proofs.Declarations

/-! Classes that take a name which the file binds itself. The head of a file imports what
the classes use, and what collects the classes has a name as well. All these names are read
off the lines of the head here. A class is kept from the root type's name and from the
built-ins, so the question is which names of the head are built-ins. -/

namespace RuleClasses

namespace Emit

/-! ## Names at the left margin -/

/-- The identifier behind a mark at the start of a line. -/
def nameAfter? (mark line : List Char) : Option (List Char) :=
  (line.dropPrefix? mark).map fun rest => rest.takeWhile Text.isWordChar

/-- What stands behind the last separator in a line that starts with a mark. -/
def lastAfter? (mark separator line : List Char) : Option (List Char) :=
  (line.dropPrefix? mark).bind fun rest => (Text.splitLast? separator rest).map Prod.snd

/-- An import binds the last word of its line, and a class the name in its header. -/
def Dataclasses.boundName? (line : List Char) : Option (List Char) :=
  (lastAfter? "from ".toList [' '] line).or (nameAfter? "class ".toList line)

/-- An import ends in a semicolon behind the name that it binds. -/
def Structs.boundName? (line : List Char) : Option (List Char) :=
  ((lastAfter? "use ".toList "::".toList line).map List.dropLast).or
    ((nameAfter? "pub const ".toList line).or (nameAfter? "pub struct ".toList line))

theorem nameAfter?_append {mark name : List Char} (h : ∀ c ∈ name, Text.isWordChar c = true)
    {c : Char} (hc : Text.isWordChar c = false) (rest : List Char) :
    nameAfter? mark (mark ++ (name ++ c :: rest)) = some name := by
  rw [nameAfter?, List.dropPrefix?_append_of_beq _ (by simp), Option.map_some,
    List.takeWhile_append_of_pos h, List.takeWhile_cons_of_neg (by simp [hc]), List.append_nil]

theorem lastAfter?_append {separator rest before after : List Char}
    (h : Text.splitLast? separator rest = some (before, after)) (mark : List Char) :
    lastAfter? mark separator (mark ++ rest) = some after := by
  rw [lastAfter?, List.dropPrefix?_append_of_beq _ (by simp), Option.bind_some, h]
  rfl

/-- Of two marks at the start of one line the longer starts with the other. -/
theorem dropPrefix?_append_eq_none {mark other : List Char} (h : ¬ mark <+: other)
    (h' : ¬ other <+: mark) (rest : List Char) : (other ++ rest).dropPrefix? mark = none := by
  refine Option.eq_none_iff_forall_ne_some.mpr fun s hs => ?_
  obtain ⟨m, hm, he⟩ := List.dropPrefix?_eq_some_iff.mp hs
  obtain rfl : m = mark := by simpa using he
  exact (List.prefix_or_prefix_of_prefix ⟨s, hm.symm⟩ (List.prefix_append other rest)).elim h h'

theorem nameAfter?_eq_none {mark other : List Char} (h : ¬ mark <+: other)
    (h' : ¬ other <+: mark) (rest : List Char) : nameAfter? mark (other ++ rest) = none := by
  rw [nameAfter?, dropPrefix?_append_eq_none h h']
  rfl

theorem lastAfter?_eq_none {mark other : List Char} (h : ¬ mark <+: other)
    (h' : ¬ other <+: mark) (separator rest : List Char) :
    lastAfter? mark separator (other ++ rest) = none := by
  rw [lastAfter?, dropPrefix?_append_eq_none h h']
  rfl

theorem isWordChar_of_mem_semanticsName {t : Target} {name : String} {c : Char}
    (h : c ∈ (semanticsName (t.identifier name)).toList) : Text.isWordChar c = true := by
  have hends : "ModelBuilderSemantics".toList.all Text.isWordChar = true := by decide
  rw [semanticsName, String.toList_append] at h
  rcases List.mem_append.mp h with h | h
  · exact Text.isWordChar_of_mem_identifier h
  · exact List.all_eq_true.mp hends c h

end Emit

namespace Target

open Emit

/-- The name that a line at the left margin binds. -/
def boundName? (t : Target) : Layout → Option String
  | .line text =>
    (match t with
      | python => Dataclasses.boundName? text.toList
      | rust => Structs.boundName? text.toList).map String.ofList
  | .blank | .nested _ => none

/-- The names that the head of a file binds. -/
def boundNames (t : Target) (p : Plan) : List String := (t.preamble p).filterMap t.boundName?

@[simp] theorem boundName?_blank (t : Target) : t.boundName? .blank = none := rfl

@[simp] theorem boundName?_nested (t : Target) (body : List Layout) :
    t.boundName? (.nested body) = none := rfl

/-! ## The lines that depend on the plan -/

theorem boundName?_from {name : String} (h : ∀ c ∈ name.toList, Text.isBlank c = false)
    (module : String) :
    python.boundName? (.line ("from " ++ module ++ " import " ++ name)) = some name := by
  have hspace : ' ' ∉ name.toList := fun hc => absurd (h ' ' hc) (by decide)
  have hsplit := Text.splitLast?_char hspace (module.toList ++ " import".toList)
  have hline : ("from " ++ module ++ " import " ++ name).toList =
      "from ".toList ++ (module.toList ++ " import".toList ++ ' ' :: name.toList) := by simp
  rw [boundName?, Dataclasses.boundName?, hline, lastAfter?_append hsplit]
  simp

theorem boundName?_class {name rest : String}
    (h : ∀ c ∈ name.toList, Text.isWordChar c = true) {c : Char} {tail : List Char}
    (hrest : rest.toList = c :: tail) (hc : Text.isWordChar c = false) :
    python.boundName? (.line ("class " ++ name ++ rest)) = some name := by
  have hline : ("class " ++ name ++ rest).toList =
      "class ".toList ++ (name.toList ++ c :: tail) := by simp [hrest]
  rw [boundName?, Dataclasses.boundName?, hline, lastAfter?_eq_none (by decide) (by decide),
    nameAfter?_append h hc]
  simp

theorem boundName?_use {module name : String}
    (h : Text.splitLast? "::".toList (module.toList ++ "::".toList ++ name.toList) =
      some (module.toList, name.toList)) :
    rust.boundName? (.line ("use " ++ module ++ "::" ++ name ++ ";")) = some name := by
  have hline : ("use " ++ module ++ "::" ++ name ++ ";").toList =
      "use ".toList ++ (module.toList ++ "::".toList ++ name.toList ++ [';']) := by simp
  have hsplit : Text.splitLast? "::".toList (module.toList ++ "::".toList ++ name.toList ++ [';']) =
      some (module.toList, name.toList ++ [';']) := by
    rw [Text.splitLast?_concat (by simp) (by simp), h]
    rfl
  rw [boundName?, Structs.boundName?, hline, lastAfter?_append hsplit]
  simp

theorem boundName?_struct {name rest : String}
    (h : ∀ c ∈ name.toList, Text.isWordChar c = true) {c : Char} {tail : List Char}
    (hrest : rest.toList = c :: tail) (hc : Text.isWordChar c = false) :
    rust.boundName? (.line ("pub struct " ++ name ++ rest)) = some name := by
  have hline : ("pub struct " ++ name ++ rest).toList =
      "pub struct ".toList ++ (name.toList ++ c :: tail) := by simp [hrest]
  rw [boundName?, Structs.boundName?, hline, lastAfter?_eq_none (by decide) (by decide),
    nameAfter?_eq_none (by decide) (by decide), nameAfter?_append h hc]
  simp

theorem boundName?_impl (rest : String) : rust.boundName? (.line ("impl " ++ rest)) = none := by
  rw [boundName?, Structs.boundName?, String.toList_append,
    lastAfter?_eq_none (by decide) (by decide), nameAfter?_eq_none (by decide) (by decide),
    nameAfter?_eq_none (by decide) (by decide)]
  rfl

/-! ## The heads of files -/

/-- The names that the head of every file binds. -/
def headNames : Target → List String
  | python => ["annotations", "Any", "dataclass", "ModelBuilderSemantics"]
  | rust => ["Deref", "Value", "MODEL_TYPES"]

/-- The name under which the root type is imported, if it is. -/
def importedNames (root : RootType) : List String := if root.module = "" then [] else [root.name]

theorem boundNames_imports_python {path : String} {root : RootType}
    (h : RootType.ofPath python.separator path = .ok root) :
    (Dataclasses.imports root).filterMap python.boundName? =
      python.headNames ++ importedNames root := by
  rw [Dataclasses.imports, List.filterMap_append, importedNames]
  refine congrArg₂ _ (by decide) ?_
  split
  · rfl
  · simp [boundName?_from fun c => RootType.isBlank_of_ofPath h]

set_option maxRecDepth 2000 in
theorem boundNames_semantics_python (name : String) (root : RootType) :
    (Dataclasses.semantics name root).filterMap python.boundName? =
      [semanticsName (python.identifier name)] := by
  have hclass : python.boundName?
      (.line ("class " ++ semanticsName (python.identifier name) ++ "(ModelBuilderSemantics):")) =
      some (semanticsName (python.identifier name)) :=
    boundName?_class (fun c hc => isWordChar_of_mem_semanticsName hc) rfl (by decide)
  simp only [Dataclasses.semantics, List.filterMap_cons, List.filterMap_nil, hclass,
    boundName?_nested]

theorem boundNames_python {path : String} {p : Plan}
    (h : RootType.ofPath python.separator path = .ok p.rootType) :
    python.boundNames p = python.headNames ++ importedNames p.rootType ++
      [semanticsName (python.identifier p.name)] := by
  have hhead : ([Layout.line "#!/usr/bin/env python3", .blank] ++ noticeComment "#" ++
      [Layout.blank]).filterMap python.boundName? = [] := by decide
  have hblank : [Layout.blank, .blank].filterMap python.boundName? = [] := rfl
  rw [boundNames, preamble, Dataclasses.preamble, List.filterMap_append, List.filterMap_append,
    List.filterMap_append, hhead, boundNames_imports_python h, hblank,
    boundNames_semantics_python, List.nil_append, List.append_nil]

theorem boundNames_imports_rust {path : String} {root : RootType}
    (h : RootType.ofPath rust.separator path = .ok root) :
    (Structs.imports root).filterMap rust.boundName? =
      ["Deref", "Value"] ++ importedNames root := by
  rw [Structs.imports, List.filterMap_append, importedNames]
  refine congrArg₂ _ (by decide) ?_
  split
  · rfl
  · rename_i hmodule
    simp only [List.filterMap_cons, List.filterMap_nil, boundName?_blank,
      boundName?_use (RootType.splitLast?_of_ofPath h hmodule)]

set_option maxRecDepth 2000 in
theorem boundNames_registry (names : List String) :
    (Structs.registry names).filterMap rust.boundName? = ["MODEL_TYPES"] := by
  have hnote : rust.boundName? (.line "/// Every model type declared in this file, bases first.") =
      none := by decide
  have hconst : rust.boundName? (.line "pub const MODEL_TYPES: &[&str] = &[") =
      some "MODEL_TYPES" := by decide
  have hclose : rust.boundName? (.line "];") = none := by decide
  rw [Structs.registry, List.filterMap_cons_none hnote, List.filterMap_cons_some hconst,
    List.filterMap_cons_none rfl, List.filterMap_cons_none hclose, List.filterMap_nil]

set_option maxRecDepth 2000 in
theorem boundNames_semantics_rust (name : String) :
    (Structs.semantics name).filterMap rust.boundName? =
      [semanticsName (rust.identifier name)] := by
  have hderives : rust.boundName? Structs.derives = none := by decide
  have hclose : rust.boundName? (.line "\x7d") = none := by decide
  have hstruct : rust.boundName?
      (.line ("pub struct " ++ semanticsName (rust.identifier name) ++ " \x7b")) =
      some (semanticsName (rust.identifier name)) :=
    boundName?_struct (fun c hc => isWordChar_of_mem_semanticsName hc) rfl (by decide)
  have himpl : rust.boundName?
      (.line ("impl " ++ semanticsName (rust.identifier name) ++ " \x7b")) = none := by
    rw [String.append_assoc]
    exact boundName?_impl _
  simp only [Structs.semantics, Structs.braces, List.cons_append, List.nil_append,
    List.filterMap_cons, List.filterMap_nil, hderives, hclose, hstruct, himpl, boundName?_blank,
    boundName?_nested]

theorem boundNames_rust {path : String} {p : Plan}
    (h : RootType.ofPath rust.separator path = .ok p.rootType) :
    rust.boundNames p = ["Deref", "Value"] ++ importedNames p.rootType ++
      ["MODEL_TYPES", semanticsName (rust.identifier p.name)] := by
  have hhead : (noticeComment "//" ++ [Layout.blank]).filterMap rust.boundName? = [] := by
    decide
  have hblank : [Layout.blank].filterMap rust.boundName? = [] := rfl
  rw [boundNames, preamble, Structs.preamble, List.filterMap_append, List.filterMap_append,
    List.filterMap_append, List.filterMap_append, List.filterMap_append, hhead,
    boundNames_imports_rust h, boundNames_registry, boundNames_semantics_rust, hblank]
  simp only [List.nil_append, List.append_nil, List.append_assoc, List.cons_append]

theorem mem_boundNames {t : Target} {path : String} {p : Plan}
    (h : RootType.ofPath t.separator path = .ok p.rootType) {n : String} :
    n ∈ t.boundNames p ↔ n ∈ t.headNames ∨ (p.rootType.module ≠ "" ∧ n = p.rootType.name) ∨
      n = semanticsName (t.identifier p.name) := by
  have himported : n ∈ importedNames p.rootType ↔
      p.rootType.module ≠ "" ∧ n = p.rootType.name := by
    unfold importedNames
    split <;> simp [*]
  cases t with
  | python =>
    rw [boundNames_python h, List.mem_append, List.mem_append, himported, List.mem_singleton,
      or_assoc]
  | rust =>
    rw [boundNames_rust h, List.mem_append, List.mem_append, himported]
    simp only [headNames, List.mem_cons, List.not_mem_nil, or_false, or_assoc, or_left_comm]

/-! ## Names of the head that are no built-ins -/

theorem isBuiltin_semanticsName (t : Target) (name : String) :
    t.isBuiltin (semanticsName name) = false := by
  -- no built-in ends as these names do, whatever the plan is called
  have hends : ∀ b ∈ t.builtins, ¬ "ModelBuilderSemantics".toList <:+ b.toList := by
    cases t <;> decide +kernel
  rw [← Bool.not_eq_true]
  intro h
  refine hends _ (List.contains_iff_mem.mp h) ?_
  rw [semanticsName, String.toList_append]
  exact List.suffix_append _ _

theorem isBuiltin_iff_of_mem_headNames {t : Target} {n : String} (h : n ∈ t.headNames) :
    t.isBuiltin n = true ↔ t ≠ python := by
  have hpython : ∀ n ∈ python.headNames, python.isBuiltin n = false := by decide
  have hrust : ∀ n ∈ rust.headNames, rust.isBuiltin n = true := by decide
  cases t with
  | python => simp [hpython n h]
  | rust => simp [hrust n h]

end Target

/-! ## Main result -/

namespace Plan

variable {c : Config} {o : Options} {g : Grammar} {p : Plan}

/-- **Where a class takes a name of the head.** Of the names that the head of a file binds
a class can have that of the builder semantics, and in Python those of the imports. In Rust
these are built-ins. Every class with such a name is declared, unless the root type is
imported under it. -/
theorem declared_and_bound_iff (hc : c.options = .ok o) (h : ofGrammar o g = .ok p)
    (n : String) : n ∈ p.classNames ∧ n ∈ o.target.boundNames p ↔
      IsClass (g.classRules o.target.identifier) n ∧
      ¬ (o.rootType.module ≠ "" ∧ n = o.rootType.name) ∧
      (n = Emit.semanticsName (o.target.identifier p.name) ∨
        o.target = .python ∧ n ∈ o.target.headNames) := by
  obtain ⟨order, hm⟩ := made_of_ofGrammar h
  obtain ⟨path, hpath⟩ := Config.exists_ofPath_of_options hc
  have hroot := rootType_of_ofGrammar h
  rw [hm.mem_classNames (chained_classRules _ g), Target.mem_boundNames (hroot ▸ hpath), hroot,
    Taken, not_or]
  constructor
  · rintro ⟨⟨hclass, hbuiltin, himported⟩, hhead | hbound | rfl⟩
    · rw [Target.isBuiltin_iff_of_mem_headNames hhead, not_not] at hbuiltin
      exact ⟨hclass, himported, .inr ⟨hbuiltin, hhead⟩⟩
    · exact absurd hbound himported
    · exact ⟨hclass, himported, .inl rfl⟩
  · rintro ⟨hclass, himported, rfl | ⟨ht, hhead⟩⟩
    · refine ⟨⟨hclass, ?_, himported⟩, .inr (.inr rfl)⟩
      rw [Target.isBuiltin_semanticsName]
      exact Bool.false_ne_true
    · refine ⟨⟨hclass, ?_, himported⟩, .inl hhead⟩
      rw [Target.isBuiltin_iff_of_mem_headNames hhead, not_not]
      exact ht

unseal ClassOrder.run in
/-- A class with the name of its builder semantics, which is no built-in. -/
theorem declared_and_bound_of_semantics :
    ∃ o p, ({ target := .rust } : Config).options = .ok o ∧
      ofGrammar o ⟨"Calc", [⟨"num", [.string "CalcModelBuilderSemantics"], .void⟩]⟩ = .ok p ∧
      "CalcModelBuilderSemantics" ∈ p.classNames ∧
      "CalcModelBuilderSemantics" ∈ o.target.boundNames p := by
  have hc : ({ target := .rust } : Config).options =
      .ok ⟨.rust, ⟨"crate::ast", "Node"⟩, none, false⟩ := by decide
  have h : ofGrammar ⟨.rust, ⟨"crate::ast", "Node"⟩, none, false⟩
      ⟨"Calc", [⟨"num", [.string "CalcModelBuilderSemantics"], .void⟩]⟩ =
      .ok ⟨"Calc", ⟨"crate::ast", "Node"⟩, [.base "ModelBase" (some "Node"),
        .rule "CalcModelBuilderSemantics" "ModelBase" "num" []]⟩ := by rfl
  refine ⟨_, _, hc, h, (declared_and_bound_iff hc h _).mpr ⟨?_, ?_, .inl ?_⟩⟩
  · decide
  · decide
  · decide

unseal ClassOrder.run in
/-- A Python file imports `Any`, and a class may have that name. -/
theorem import_redeclared :
    ∃ o p, ({} : Config).options = .ok o ∧
      ofGrammar o ⟨"calc", [⟨"num", [.string "Any"], .void⟩]⟩ = .ok p ∧
      "Any" ∈ p.classNames ∧ "Any" ∈ o.target.boundNames p := by
  refine ⟨⟨.python, ⟨"tatsu.objectmodel", "Node"⟩, none, false⟩,
    ⟨"calc", ⟨"tatsu.objectmodel", "Node"⟩,
      [.base "ModelBase" (some "Node"), .rule "Any" "ModelBase" "num" []]⟩, ?_, ?_, ?_, ?_⟩
  · decide
  · rfl
  · decide
  · decide

end Plan

end RuleClasses
