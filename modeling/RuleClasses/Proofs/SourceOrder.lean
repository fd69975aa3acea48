import RuleClasses.Generation
import RuleClasses.Proofs.CommonClass
import RuleClasses.Proofs.Headers

/-! The classes of a report and of a source file. The class headers of the file have the names
of the report, in that order, and so has the registry of a Rust file. Python needs a blank to
get from the keyword to a name, and there is none in a root type, so no line of a Python file
declares another class. In Rust a comment is enough, and a file declares the structs that the
path of its root type brings along. -/

namespace RuleClasses

open Layout
open Text (IsWord HasNoBlank IsIdentifier isNameChar isNameChar_mark)

/-! ## The registry of a Rust file -/

namespace Emit.Structs

/-- What stands between the quotation mark behind the indentation and the next one. -/
def quoted? (line : List Char) : Option String :=
  ((line.dropWhile Text.isBlank).dropPrefix? ['"']).map fun rest =>
    String.ofList (rest.takeWhile (· ≠ '"'))

/-- The line above the entries. -/
def registryOpening : String := "pub const MODEL_TYPES: &[&str] = &["

/-- The quoted entries of the list of all types. -/
def registered (text : String) : List String :=
  let below := (Text.lines text.toList).dropWhile (· ≠ registryOpening.toList)
  (below.tail.takeWhile (· ≠ "];".toList)).filterMap quoted?

theorem quoted?_row {name : String} (h : IsWord name) (level : Nat) :
    quoted? (row level ("\"" ++ name ++ "\",")) = some name := by
  have hline : ("\"" ++ name ++ "\",").toList = '"' :: (name.toList ++ '"' :: [',']) := by simp
  have hquote : ∀ c ∈ name.toList, c ≠ '"' := by
    rintro c hc rfl
    exact absurd (h.isWordChar hc) (by simp [Text.isWordChar_mark])
  have hname : (name.toList ++ '"' :: [',']).takeWhile (· ≠ '"') = name.toList := by
    rw [List.takeWhile_append_of_pos (by simpa using hquote)]
    simp
  have hopen : ('"' :: (name.toList ++ '"' :: [','])).dropPrefix? ['"'] =
      some (name.toList ++ '"' :: [',']) := by simp [List.dropPrefix?]
  rw [quoted?, dropWhile_isBlank_row, hline, List.dropWhile_cons_of_neg (by decide), hopen,
    Option.map_some, hname, String.ofList_toList]

/-- What is above the first line of the registry. -/
def aboveRegistry (root : RootType) : List Layout :=
  noticeComment "//" ++ [.blank] ++ imports root ++ [.blank] ++
    [.line "/// Every model type declared in this file, bases first."]

theorem ne_opening_of_mem_aboveRegistry {root : RootType} {r : List Char}
    (hr : r ∈ rowsAll 0 (aboveRegistry root)) : r ≠ registryOpening.toList := by
  have himports : EveryAll (fun s => s.toList.dropWhile Text.isBlank ≠ registryOpening.toList)
      (imports root) := by
    refine everyAll_append.mpr ⟨by decide, ?_⟩
    split
    · trivial
    · have hline : ("use " ++ root.module ++ "::" ++ root.name ++ ";").toList =
          'u' :: ("se ".toList ++ (root.module ++ "::" ++ root.name ++ ";").toList) := by simp
      have himport : ("use " ++ root.module ++ "::" ++ root.name ++ ";").toList.dropWhile
          Text.isBlank ≠ registryOpening.toList := by
        rw [hline, List.dropWhile_cons_of_neg (by decide)]
        simp [registryOpening]
      exact ⟨trivial, himport, trivial⟩
  have htexts : EveryAll (fun s => s.toList.dropWhile Text.isBlank ≠ registryOpening.toList)
      (aboveRegistry root) :=
    everyAll_append.mpr ⟨everyAll_append.mpr ⟨everyAll_append.mpr ⟨by decide, himports⟩,
      by decide⟩, by decide⟩
  have hrow : r.dropWhile Text.isBlank ≠ registryOpening.toList :=
    htexts.forall_mem_rowsAll (Q := fun r => r.dropWhile Text.isBlank ≠ registryOpening.toList)
      (by decide) (fun level s hs => by rwa [dropWhile_isBlank_row]) r hr
  rintro rfl
  exact hrow (by decide)

theorem registered_render {p : Plan} (h : p.Legible) :
    registered (p.render .rust) = p.classNames := by
  have hrows : rowsAll 0 (Target.rust.preamble p ++ p.decls.flatMap Target.rust.declaration) =
      rowsAll 0 (aboveRegistry p.rootType) ++ registryOpening.toList ::
        ((p.classNames.map fun n => row 1 ("\"" ++ n ++ "\",")) ++ "];".toList ::
          rowsAll 0 ([.blank] ++ semantics p.name ++ p.decls.flatMap Target.rust.declaration)) := by
    simp [Target.preamble, preamble, aboveRegistry, registry, registryOpening, rowsAll_append,
      rowsAll, rows, rowsAll_map_line]
  have habove : ∀ r ∈ rowsAll 0 (aboveRegistry p.rootType),
      decide (r ≠ registryOpening.toList) = true :=
    fun r hr => decide_eq_true (ne_opening_of_mem_aboveRegistry hr)
  have hentries : ∀ r ∈ p.classNames.map fun n => row 1 ("\"" ++ n ++ "\","),
      decide (r ≠ "];".toList) = true := by
    intro r hr
    obtain ⟨n, -, rfl⟩ := List.mem_map.mp hr
    simp [row]
  have hnames : (p.classNames.map fun n => row 1 ("\"" ++ n ++ "\",")).filterMap quoted? =
      p.classNames := by
    have hword : ∀ n ∈ p.classNames, quoted? (row 1 ("\"" ++ n ++ "\",")) = some n := by
      intro n hn
      obtain ⟨d, hd, rfl⟩ := List.mem_map.mp hn
      exact quoted?_row (h.name d hd) 1
    exact List.filterMap_map.trans ((List.filterMap_congr hword).trans List.filterMap_some)
  rw [registered, h.lines_render, hrows, List.dropWhile_append_of_pos habove,
    List.dropWhile_cons_of_neg (by simp), List.tail_cons, List.takeWhile_append_of_pos hentries,
    List.takeWhile_cons_of_neg (by simp), List.append_nil, hnames]

end Emit.Structs

/-! ## Lines of a file -/

namespace Plan

variable {c : Config} {o : Options} {g : Grammar} {p : Plan}

/-- Parts of a file with one header each, for a head and for every declaration. -/
theorem introduces_of_ofGrammar (hc : c.options = .ok o) (h : ofGrammar o g = .ok p) :
    o.target.Introduces o.rootType (Emit.semanticsName (o.target.identifier p.name))
        (o.target.preamble p) ∧
      ∀ d ∈ p.decls, o.target.Introduces o.rootType d.name (o.target.declaration d) := by
  have hlegible := legible_of_ofGrammar hc h
  have hroot := rootType_of_ofGrammar h
  obtain ⟨order, hm⟩ := made_of_ofGrammar h
  have hchained := chained_classRules o.target.identifier g
  have hclass : ∀ d ∈ p.decls, IsIdentifier o.target.isKeyword d.name :=
    fun d hd => (HasName.ofClass hd).isIdentifier h
  refine ⟨?_, fun d hd => Target.introduces_declaration (hclass d hd) (hlegible.base d hd)
    (fun b hb => ?_) fun a ha => (HasName.ofAttribute hd ha).isIdentifier h⟩
  · rw [← hroot]
    exact Target.introduces_preamble hlegible (List.forall_mem_map.mpr hclass)
  · obtain ⟨b', hb', hup⟩ := hm.base_of_mem hchained hd
    obtain rfl : b' = b := Option.some.inj (hb'.symm.trans hb)
    exact hup.elim (fun hroot => .inr hroot.2)
      fun he => .inl (isIdentifier_of_isClass (hchained.isClass_base he))

theorem headerNames_render (hc : c.options = .ok o) (h : ofGrammar o g = .ok p) :
    o.target.headerNames (p.render o.target) =
      Emit.semanticsName (o.target.identifier p.name) :: p.classNames := by
  obtain ⟨hhead, hdecls⟩ := introduces_of_ofGrammar hc h
  have hdecl : ∀ d ∈ p.decls,
      (rowsAll 0 (o.target.declaration d)).filterMap o.target.headerName? = [d.name] :=
    fun d hd => (hdecls d hd).headers ((HasName.ofClass hd).isIdentifier h)
  have hhead := hhead.headers (Emit.isIdentifier_semanticsName o.target p.name)
  rw [Target.headerNames, (legible_of_ofGrammar hc h).lines_render, rowsAll_append,
    List.filterMap_append, hhead, filterMap_rowsAll_flatMap hdecl, ← List.map_eq_flatMap]
  rfl

theorem onlyHeaders_render (hc : c.options = .ok o) (h : ofGrammar o g = .ok p)
    (hroot : ∀ s ∈ o.target.rootLines o.rootType, o.target.declaredIn s.toList = []) :
    o.target.OnlyHeaders (p.render o.target) := by
  obtain ⟨hhead, hdecls⟩ := introduces_of_ofGrammar hc h
  intro line hline
  rw [(legible_of_ofGrammar hc h).lines_render, rowsAll_append, List.mem_append] at hline
  rcases hline with hline | hline
  · exact hhead.onlyHeaders (Emit.isIdentifier_semanticsName o.target p.name) hroot line hline
  · rw [rowsAll_eq_flatMap, List.flatMap_assoc, List.mem_flatMap] at hline
    obtain ⟨d, hd, hline⟩ := hline
    rw [← rowsAll_eq_flatMap] at hline
    exact (hdecls d hd).onlyHeaders ((HasName.ofClass hd).isIdentifier h) hroot line hline

end Plan

namespace Target

/-- Neither the path of an imported root type nor its name alone declares a class. -/
def Harmless (t : Target) (root : RootType) : Prop :=
  (root.module ≠ "" → t.declaredIn (root.module ++ t.separator ++ root.name).toList = []) ∧
    t.declaredIn root.name.toList = []

theorem Harmless.rootLines {t : Target} {root : RootType} (h : t.Harmless root) :
    ∀ s ∈ t.rootLines root, t.declaredIn s.toList = [] := by
  intro s hs
  cases t with
  | python => exact absurd hs List.not_mem_nil
  | rust =>
    rcases (declaredIn_of_mem_rootLines hs).2 with hpath | hname
    · refine hpath.trans ?_
      by_cases hmodule : root.module = ""
      · have hcolon : isNameChar ':' = false := isNameChar_mark (by decide)
        have hcolons : (root.module ++ rust.separator ++ root.name).toList =
            ':' :: ':' :: root.name.toList := by simp [hmodule, separator]
        rw [hcolons, declaredIn, declaredFrom_mark hcolon, declaredFrom_mark hcolon]
        exact h.2
      · exact h.1 hmodule
    · exact hname.trans h.2

theorem harmless_python {root : RootType} (hmodule : HasNoBlank root.module)
    (hname : HasNoBlank root.name) : python.Harmless root := by
  have hseparator : HasNoBlank python.separator := by decide
  refine ⟨fun _ => declaredFrom_python (fun c hc => ?_) false,
    declaredFrom_python (fun _ => hname.isBlank) false⟩
  rw [String.toList_append, String.toList_append, List.mem_append, List.mem_append] at hc
  exact hc.elim (fun hc => hc.elim hmodule.isBlank hseparator.isBlank) hname.isBlank

/-- What a line without a header declares, when all lines declare their headers only. -/
theorem OnlyHeaders.declaredIn_eq_nil {t : Target} {text : String} (h : t.OnlyHeaders text)
    {level : Nat} {s : String} (hs : t.headerName? s.toList = none)
    (hline : row level s ∈ Text.lines text.toList) : t.declaredIn s.toList = [] := by
  rw [← t.declaredIn_row level, h _ hline, headerName?_row hs]
  rfl

end Target

namespace Plan

variable {c : Config} {o : Options} {g : Grammar} {p : Plan}

theorem row_import_mem_lines (h : p.Legible) (hmodule : p.rootType.module ≠ "") :
    row 0 ("use " ++ (p.rootType.module ++ "::" ++ p.rootType.name) ++ ";") ∈
      Text.lines (p.render .rust).toList := by
  rw [h.lines_render]
  simp [Target.preamble, Emit.Structs.preamble, Emit.Structs.imports, rowsAll_append, rowsAll,
    rows, hmodule, String.append_assoc]

theorem row_base_mem_lines (h : p.Legible) {d : Decl} (hd : d ∈ p.decls) {b : String}
    (hb : d.base? = some b) :
    row 1 ("pub base: " ++ b ++ ",") ∈ Text.lines (p.render .rust).toList := by
  have hrow : row 1 ("pub base: " ++ b ++ ",") ∈ rowsAll 0 (Target.rust.declaration d) := by
    simp [Target.declaration, hb, Emit.Structs.struct, Emit.Structs.braces, Emit.Structs.fields,
      rowsAll, rows]
  rw [h.lines_render, rowsAll_append, rowsAll_eq_flatMap, rowsAll_eq_flatMap, List.flatMap_assoc]
  refine List.mem_append_right _ (List.mem_flatMap.mpr ⟨d, hd, ?_⟩)
  rwa [← rowsAll_eq_flatMap]

theorem harmless_of_onlyHeaders (hc : c.options = .ok o) (h : ofGrammar o g = .ok p)
    (ho : o.target.OnlyHeaders (p.render o.target)) : o.target.Harmless o.rootType := by
  have hlegible := legible_of_ofGrammar hc h
  have hroot := rootType_of_ofGrammar h
  cases ht : o.target with
  | python =>
    rw [← hroot]
    exact Target.harmless_python hlegible.root_module hlegible.root_name
  | rust =>
    rw [ht] at ho
    refine ⟨fun hmodule => ?_, ?_⟩
    · obtain ⟨hheader, hdeclared⟩ := Target.around_import o.rootType
      rw [← hdeclared]
      exact ho.declaredIn_eq_nil hheader (hroot ▸ row_import_mem_lines hlegible (hroot ▸ hmodule))
    · obtain ⟨order, hm⟩ := made_of_ofGrammar h
      by_cases himported : o.rootType.module ≠ "" ∧ o.rootType.name = modelBase
      · rw [himported.2]
        exact Target.declaredFrom_eq_nil (by decide) false
      · obtain ⟨rest, hdecls⟩ := hm.exists_decls_eq_cons
          (chained_classRules o.target.identifier g) (mt taken_modelBase.mp himported)
        obtain ⟨hheader, hdeclared⟩ := Target.around_field o.rootType.name
        rw [← hdeclared]
        exact ho.declaredIn_eq_nil hheader
          (row_base_mem_lines hlegible (hdecls ▸ List.mem_cons_self) rfl)

end Plan

/-! ## Main result -/

namespace Config

/-- **The report lists what the file declares.** A report and a source file are made of the
same grammars, and else they fail with the same error. Behind the builder semantics the class
headers in the file have the names of the report, in that order, and so do the entries of the
registry. In a Python file no line declares another class. In a Rust file this is so exactly
when none is declared in the path of the root type, as the lines hold it: behind `use` when it
is imported, and by its simple name. -/
theorem source_declares_order (c : Config) (g : Grammar) :
    (∀ e, c.report g = .error e ↔ c.source g = .error e) ∧
    ∀ report text, c.report g = .ok report → c.source g = .ok text →
      c.target.headerNames text =
        Emit.semanticsName (c.target.identifier (c.name.getD g.name)) :: report.order ∧
      (c.target = .rust → Emit.Structs.registered text = report.order) ∧
      (c.target = .python → c.target.OnlyHeaders text) ∧
      ∃ root, c.rootType = .ok root ∧ (c.target.OnlyHeaders text ↔ c.target.Harmless root) := by
  unfold report source
  cases hc : c.options with
  | error e => exact ⟨fun _ => by simp [bind, Except.bind], nofun⟩
  | ok o =>
    simp only [bind, Except.bind, Report.ofGrammar, Grammar.source]
    cases hp : Plan.ofGrammar o g with
    | error e => exact ⟨fun _ => by simp [Except.map], nofun⟩
    | ok p =>
      refine ⟨fun _ => ⟨nofun, nofun⟩, ?_⟩
      intro report text hreport htext
      cases hreport
      cases htext
      have hlegible := Plan.legible_of_ofGrammar hc hp
      have hroot := Plan.rootType_of_ofGrammar hp
      have hname : p.name = c.name.getD g.name := by
        rw [Plan.name_of_ofGrammar hp, name_of_options hc]
      have hiff : o.target.OnlyHeaders (p.render o.target) ↔ o.target.Harmless o.rootType :=
        ⟨Plan.harmless_of_onlyHeaders hc hp,
          fun h => Plan.onlyHeaders_render hc hp h.rootLines⟩
      rw [← target_of_options hc, ← hname]
      refine ⟨Plan.headerNames_render hc hp, fun hrust => ?_, fun hpython => ?_, o.rootType, ?_,
        hiff⟩
      · rw [hrust]
        exact Emit.Structs.registered_render hlegible
      · refine hiff.mpr ?_
        rw [hpython, ← hroot]
        exact Target.harmless_python hlegible.root_module hlegible.root_name
      · exact rootType_of_options hc

unseal ClassOrder.run in
/-- A file with three structs behind that of the builder semantics, and the default root type. -/
theorem source_declares_order_of_chain :
    ∃ report text, ({ target := .rust } : Config).report
        ⟨"Calc", [⟨"add", [.string "Add::BinOp"], .bind false "left" .void⟩]⟩ = .ok report ∧
      ({ target := .rust } : Config).source
        ⟨"Calc", [⟨"add", [.string "Add::BinOp"], .bind false "left" .void⟩]⟩ = .ok text ∧
      report.order = ["ModelBase", "BinOp", "Add"] ∧
      Target.rust.headerNames text = "CalcModelBuilderSemantics" :: report.order ∧
      Emit.Structs.registered text = report.order ∧ Target.rust.OnlyHeaders text := by
  have hreport : ({ target := .rust } : Config).report
      ⟨"Calc", [⟨"add", [.string "Add::BinOp"], .bind false "left" .void⟩]⟩ =
      .ok ⟨"Calc", [("add", [⟨"Add", "BinOp"⟩, ⟨"BinOp", "ModelBase"⟩])],
        ["ModelBase", "BinOp", "Add"]⟩ := by rfl
  have hsource : ({ target := .rust } : Config).source
      ⟨"Calc", [⟨"add", [.string "Add::BinOp"], .bind false "left" .void⟩]⟩ =
      .ok (Plan.render ⟨"Calc", ⟨"crate::ast", "Node"⟩, [.base "ModelBase" (some "Node"),
        .base "BinOp" (some "ModelBase"), .rule "Add" "BinOp" "add" ["left"]]⟩ .rust) := by rfl
  have hdefault : ({ target := .rust } : Config).rootType = .ok ⟨"crate::ast", "Node"⟩ := by rfl
  obtain ⟨hheaders, hregistered, -, root, hroot, hiff⟩ :=
    (source_declares_order _ _).2 _ _ hreport hsource
  obtain rfl : root = ⟨"crate::ast", "Node"⟩ := Except.ok.inj (hroot.symm.trans hdefault)
  exact ⟨_, _, hreport, hsource, rfl, hheaders, hregistered rfl, hiff.mpr
    ⟨fun _ => Target.declaredFrom_eq_nil (by decide) false,
      Target.declaredFrom_eq_nil (by decide) false⟩⟩

unseal ClassOrder.run in
/-- The path of this root type has a struct between two imports, and comments for blanks. The
line of the import declares the struct, and neither the report nor the registry lists it. -/
theorem import_declares_struct :
    ∃ (c : Config) (report : Report) (text : String) (line : List Char),
      c.target = .rust ∧
      c.rootPath = some "crate::ast;pub/**/struct/**/Evil;use/**/crate::ast::Node" ∧
      c.report ⟨"Calc", []⟩ = .ok report ∧ c.source ⟨"Calc", []⟩ = .ok text ∧
      line ∈ Text.lines text.toList ∧
      line = "use crate::ast;pub/**/struct/**/Evil;use/**/crate::ast::Node;".toList ∧
      Target.rust.declaredIn line = ["Evil"] ∧
      Target.rust.headerNames text = ["CalcModelBuilderSemantics", "ModelBase"] ∧
      report.order = ["ModelBase"] ∧ Emit.Structs.registered text = ["ModelBase"] := by
  have hoptions : (⟨none, some "crate::ast;pub/**/struct/**/Evil;use/**/crate::ast::Node", .rust,
        false⟩ : Config).options =
      .ok ⟨.rust, ⟨"crate::ast;pub/**/struct/**/Evil;use/**/crate::ast", "Node"⟩, none, false⟩ := by
    rfl
  have hplan : Plan.ofGrammar
      ⟨.rust, ⟨"crate::ast;pub/**/struct/**/Evil;use/**/crate::ast", "Node"⟩, none, false⟩
      ⟨"Calc", []⟩ =
      .ok ⟨"Calc", ⟨"crate::ast;pub/**/struct/**/Evil;use/**/crate::ast", "Node"⟩,
        [.base "ModelBase" (some "Node")]⟩ := by rfl
  have hlegible := Plan.legible_of_ofGrammar hoptions hplan
  have hheaders := Plan.headerNames_render hoptions hplan
  have hline : row 0 ("use " ++ ("crate::ast;pub/**/struct/**/Evil;use/**/crate::ast" ++ "::" ++
      "Node") ++ ";") =
      "use crate::ast;pub/**/struct/**/Evil;use/**/crate::ast::Node;".toList := by
    rw [row_zero]
    decide
  have hmem := hline ▸ Plan.row_import_mem_lines hlegible (by decide)
  refine ⟨⟨none, some "crate::ast;pub/**/struct/**/Evil;use/**/crate::ast::Node", .rust, false⟩,
    ⟨"Calc", [], ["ModelBase"]⟩, _, _, rfl, rfl, ?_, ?_, hmem, rfl, by decide +kernel, hheaders,
    rfl, Emit.Structs.registered_render hlegible⟩
  · rw [report, hoptions]
    rfl
  · rw [source, hoptions]
    rfl

end Config

end RuleClasses
