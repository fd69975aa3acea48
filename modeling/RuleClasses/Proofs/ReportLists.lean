import RuleClasses.Proofs.Batches
import RuleClasses.Proofs.PrettyTexts
import RuleClasses.Proofs.SameNames

/-! Reports on several grammars at once. They are the reports that each grammar has alone, in one
list in the order of the inputs. Whatever the names in them are, the list and every report can be
read back from what is printed. -/

namespace RuleClasses

/-! ## Reports as values -/

namespace Report

open Json

variable {o : Options} {g : Grammar} {r : Report}

/-- There is no number in a report. -/
theorem eachNumber_toJson (P : Json.Number → Prop) (r : Report) : r.toJson.EachNumber P := by
  have hedge : ∀ e : Edge, e.toJson.EachNumber P := fun e => ⟨trivial, trivial, trivial⟩
  have hrules : EachNumberOfEntries P
      (r.rules.map fun x => (x.1, Json.list (x.2.map Edge.toJson))) :=
    eachNumberOfEntries_iff.mpr (List.forall_mem_map.mpr fun x _ =>
      eachNumberOfItems_iff.mpr (List.forall_mem_map.mpr fun e _ => hedge e))
  have horder : EachNumberOfItems P (r.order.map Json.string) :=
    eachNumberOfItems_iff.mpr (List.forall_mem_map.mpr fun _ _ => trivial)
  exact ⟨trivial, hrules, horder, trivial⟩

theorem nodup_rules (h : ofGrammar o g = .ok r) : (r.rules.map Prod.fst).Nodup := by
  obtain ⟨p, -, rfl⟩ := map_eq_ok.mp h
  have hnames := Grammar.names_classRules o.target.identifier g
  rw [List.map_map]
  exact hnames ▸ nodup_eraseDups _

theorem mergeKeys_edges (edges : List Edge) :
    (Json.list (edges.map Edge.toJson)).mergeKeys = .list (edges.map Edge.toJson) := by
  refine mergeKeys_list (List.forall_mem_map.mpr fun e _ => mergeKeys_object ?_ ?_)
  · change ["class_name", "base"].Nodup
    decide
  · exact List.forall_mem_cons.mpr ⟨mergeKeys_string e.name,
      List.forall_mem_singleton.mpr (mergeKeys_string e.base)⟩

/-- No key stands twice in an object of a report: the names of the rules are all different. -/
theorem mergeKeys_toJson (h : ofGrammar o g = .ok r) : r.toJson.mergeKeys = r.toJson := by
  have hrules : (Json.object (r.rules.map fun x =>
      (x.1, Json.list (x.2.map Edge.toJson)))).mergeKeys =
        .object (r.rules.map fun x => (x.1, Json.list (x.2.map Edge.toJson))) := by
    refine mergeKeys_object ?_ (List.forall_mem_map.mpr fun x _ => mergeKeys_edges x.2)
    rw [Keyed.keys, List.map_map]
    exact nodup_rules h
  have horder : (Json.list (r.order.map Json.string)).mergeKeys =
      .list (r.order.map Json.string) :=
    mergeKeys_list (List.forall_mem_map.mpr fun n _ => mergeKeys_string n)
  refine mergeKeys_object ?_ (List.forall_mem_cons.mpr ⟨mergeKeys_string r.grammar,
    List.forall_mem_cons.mpr ⟨hrules, List.forall_mem_singleton.mpr horder⟩⟩)
  change ["grammar", "rules", "order"].Nodup
  decide

theorem isText_toJson (r : Report) : r.toJson.IsText r.toJson.pretty :=
  isText_pretty (eachNumber_toJson _ r) (eachNumber_toJson _ r)

theorem isText_list (rs : List Report) :
    (Json.list (rs.map toJson)).IsText (Json.list (rs.map toJson)).pretty := by
  have hnumbers (P : Json.Number → Prop) : (Json.list (rs.map toJson)).EachNumber P :=
    eachNumberOfItems_iff.mpr (List.forall_mem_map.mpr fun r _ => eachNumber_toJson P r)
  exact isText_pretty (hnumbers _) (hnumbers _)

end Report

/-! ## Reports of a run -/

namespace CommandLine

open Files

variable {d : Disk} {s : Settings} {o : Options} {path : String} {r : Report} {rs : List Report}
  {failure : Failure}

def reportOn (o : Options) (x : String × Grammar) : Except Failure Report :=
  (Report.ofGrammar o x.2).mapError (.order x.1)

/-- The report on one of the inputs. -/
def inputReport (d : Disk) (s : Settings) (path : String) : Except Failure Report := do
  let o ← optionsFor d s
  let x ← load d path
  reportOn o x

/-- The reports on all inputs. -/
def reports (d : Disk) (s : Settings) : Except Failure (List Report) := do
  let o ← optionsFor d s
  let grammars ← readInputs d s.inputs
  grammars.mapM (reportOn o)

/-- Reports are printed with a line end, and saved without. -/
def deliver (d : Disk) (out : Option String) (text : String) : Except Failure Outcome :=
  match out with
  | some out => (save d out text).map fun e => ⟨"", e⟩
  | none => .ok ⟨text ++ "\n", d⟩

theorem run_specs (hrun : s.noOp = false) :
    Command.run d ⟨.specs, s⟩ = (reports d s).map reportText >>= deliver d s.out := by
  have hspecs : Command.run d ⟨.specs, s⟩ = runSpecs d s := if_neg (by simp [hrun])
  rw [hspecs, runSpecs, reports]
  cases optionsFor d s with
  | error _ => rfl
  | ok o =>
    cases readInputs d s.inputs with
    | error _ => rfl
    | ok grammars =>
      change (grammars.mapM (reportOn o) >>= _) = (grammars.mapM (reportOn o)).map reportText >>= _
      cases grammars.mapM (reportOn o) with
      | error _ => rfl
      | ok rs => cases s.out <;> rfl

/-! ## One input and many -/

theorem reports_alone (h : hasWildcards path = false) :
    reports d (s.alone path) = (inputReport d s path).map fun r => [r] := by
  have hoptions : optionsFor d (s.alone path) = optionsFor d s := rfl
  have hinputs : (s.alone path).inputs = [path] := rfl
  rw [reports, inputReport, hoptions, hinputs, readInputs_alone h]
  cases optionsFor d s with
  | error _ => rfl
  | ok o =>
    cases load d path with
    | error _ => rfl
    | ok x =>
      change [x].mapM (reportOn o) = (reportOn o x).map fun r => [r]
      rw [List.mapM_cons, List.mapM_nil]
      cases reportOn o x <;> rfl

theorem run_specs_alone (hrun : s.noOp = false) (h : hasWildcards path = false) :
    Command.run d ⟨.specs, s.alone path⟩ =
      (inputReport d s path).map fun r => ⟨r.toJson.pretty ++ "\n", d⟩ := by
  have hnoOp : (s.alone path).noOp = false := hrun
  rw [run_specs hnoOp, reports_alone h]
  cases inputReport d s path <;> rfl

theorem inputReport_eq (ho : optionsFor d s = .ok o) (path : String) :
    inputReport d s path = load d path >>= reportOn o := by
  rw [inputReport, ho]
  rfl

theorem inputReport_error (ho : optionsFor d s = .error failure) (path : String) :
    inputReport d s path = .error failure := by
  rw [inputReport, ho]
  rfl

theorem reports_error (ho : optionsFor d s = .error failure) : reports d s = .error failure := by
  rw [reports, ho]
  rfl

section

variable (hliteral : ∀ p ∈ s.inputs, hasWildcards p = false)

include hliteral

theorem reports_eq (ho : optionsFor d s = .ok o) :
    reports d s = s.inputs.mapM (load d) >>= fun grammars => grammars.mapM (reportOn o) := by
  rw [reports, ho, readInputs_literal hliteral]
  rfl

theorem reports_eq_ok (hne : s.inputs ≠ []) : reports d s = .ok rs ↔
    List.Forall₂ (fun p r => inputReport d s p = .ok r) s.inputs rs := by
  cases ho : optionsFor d s with
  | error f =>
    rw [reports_error ho]
    refine ⟨nofun, fun h => ?_⟩
    obtain ⟨first, hfirst⟩ := List.exists_mem_of_ne_nil s.inputs hne
    obtain ⟨r, -, hr⟩ := exists_of_forall₂_left h first hfirst
    cases (inputReport_error ho first).symm.trans hr
  | ok o =>
    simp only [reports_eq hliteral ho, inputReport_eq ho, bind_eq_ok, mapM_eq_ok, forall₂_comp]

/-- What goes wrong for all inputs goes wrong for one of them. -/
theorem exists_of_reports_error (hne : s.inputs ≠ []) (h : reports d s = .error failure) :
    ∃ p ∈ s.inputs, inputReport d s p = .error failure := by
  cases ho : optionsFor d s with
  | error f =>
    obtain ⟨first, hfirst⟩ := List.exists_mem_of_ne_nil s.inputs hne
    cases (reports_error ho).symm.trans h
    exact ⟨first, hfirst, inputReport_error ho first⟩
  | ok o =>
    simp only [inputReport_eq ho, bind_eq_error]
    rw [reports_eq hliteral ho] at h
    rcases bind_eq_error.mp h with hload | ⟨grammars, hloads, hreport⟩
    · obtain ⟨p, hp, hload⟩ := exists_of_mapM_error hload
      exact ⟨p, hp, .inl hload⟩
    · obtain ⟨x, hx, hreport⟩ := exists_of_mapM_error hreport
      obtain ⟨p, hp, hload⟩ := exists_of_forall₂_right (mapM_eq_ok.mp hloads) x hx
      exact ⟨p, hp, .inr ⟨x, hload, hreport⟩⟩

end

theorem exists_ofGrammar_of_inputReport (h : inputReport d s path = .ok r) :
    ∃ o g, Report.ofGrammar o g = .ok r := by
  obtain ⟨o, -, h⟩ := bind_eq_ok.mp h
  obtain ⟨x, -, h⟩ := bind_eq_ok.mp h
  exact ⟨o, x.2, mapError_eq_ok.mp h⟩

/-- A list of one report would be printed as that report. -/
theorem reportText_several (h : 2 ≤ rs.length) :
    reportText rs = (Json.list (rs.map Report.toJson)).pretty := by
  match rs with
  | _ :: _ :: _ => rfl

/-- With an output the same text is saved as it is, and nothing is printed. -/
theorem run_specs_file {file : String} {b : Outcome} (hrun : s.noOp = false) :
    Command.run d ⟨.specs, { s with out := some file }⟩ = .ok b ↔ b.stdout = "" ∧
      ∃ text, Command.run d ⟨.specs, { s with out := none }⟩ = .ok ⟨text ++ "\n", d⟩ ∧
        save d file text = .ok b.disk := by
  have hfile : Command.run d ⟨.specs, { s with out := some file }⟩ =
      (reports d s).map reportText >>= deliver d (some file) := run_specs hrun
  have hprint : Command.run d ⟨.specs, { s with out := none }⟩ =
      (reports d s).map reportText >>= deliver d none := run_specs hrun
  rw [hfile, hprint, bind_eq_ok]
  constructor
  · rintro ⟨text, htext, h⟩
    obtain ⟨e, he, rfl⟩ := map_eq_ok.mp h
    exact ⟨rfl, text, bind_eq_ok.mpr ⟨text, htext, rfl⟩, he⟩
  · rintro ⟨hout, text, h, hsave⟩
    obtain ⟨text', htext, h⟩ := bind_eq_ok.mp h
    have hsame : text' = text :=
      (String.append_left_inj _).mp (congrArg Outcome.stdout (Except.ok.inj h))
    subst hsame
    refine ⟨text', htext, map_eq_ok.mpr ⟨b.disk, hsave, ?_⟩⟩
    rw [← hout]

theorem read_save {file text : String} {e : Disk} (h : save d file text = .ok e) :
    e.read file = .ok text := by
  obtain ⟨_, -, hwrite⟩ := save_eq_ok.mp h
  exact Disk.read_write hwrite

/-! ## Main result -/

/-- What one run prints for an input is the report with this value. -/
structure PrintsReport (d : Disk) (s : Settings) (path : String) (j : Json) : Prop where
  isObject : ∃ entries, j = .object entries
  run : Command.run d ⟨.specs, s.alone path⟩ = .ok ⟨j.pretty ++ "\n", d⟩
  readable : ∀ k : Json, k.IsText (j.pretty ++ "\n") ↔ k = j

theorem printsReport (hrun : s.noOp = false) (hpath : hasWildcards path = false)
    (h : inputReport d s path = .ok r) : PrintsReport d s path r.toJson := by
  refine ⟨⟨_, rfl⟩, ?_, fun k => r.isText_toJson.line_iff_eq⟩
  rw [run_specs_alone hrun hpath, h]
  rfl

theorem printsReports {inputs : List String} (hrun : s.noOp = false)
    (hliteral : ∀ p ∈ inputs, hasWildcards p = false)
    (h : List.Forall₂ (fun p r => inputReport d s p = .ok r) inputs rs) :
    List.Forall₂ (PrintsReport d s) inputs (rs.map Report.toJson) := by
  induction h with
  | nil => exact .nil
  | cons hr _ ih =>
    obtain ⟨hp, hrest⟩ := List.forall_mem_cons.mp hliteral
    exact .cons (printsReport hrun hp hr) (ih hrest)

section

variable (hmany : 2 ≤ s.inputs.length) (hliteral : ∀ p ∈ s.inputs, hasWildcards p = false)
  (hrun : s.noOp = false)

include hmany hliteral hrun

theorem run_specs_together_eq_ok {a : Outcome} :
    Command.run d ⟨.specs, { s with out := none }⟩ = .ok a ↔ ∃ rs,
      List.Forall₂ (fun p r => inputReport d s p = .ok r) s.inputs rs ∧
        a = ⟨(Json.list (rs.map Report.toJson)).pretty ++ "\n", d⟩ := by
  have hprint : Command.run d ⟨.specs, { s with out := none }⟩ =
      (reports d s).map reportText >>= deliver d none := run_specs hrun
  have hreports {rs : List Report} : reports d s = .ok rs ↔
      List.Forall₂ (fun p r => inputReport d s p = .ok r) s.inputs rs :=
    reports_eq_ok hliteral (List.ne_nil_of_length_pos (Nat.lt_of_succ_lt hmany))
  rw [hprint, bind_eq_ok]
  constructor
  · rintro ⟨text, h, hdeliver⟩
    obtain ⟨rs, hrs, rfl⟩ := map_eq_ok.mp h
    have hall := hreports.mp hrs
    refine ⟨rs, hall, ?_⟩
    rw [← reportText_several (hall.length_eq ▸ hmany)]
    exact (Except.ok.inj hdeliver).symm
  · rintro ⟨rs, hall, rfl⟩
    refine ⟨_, map_eq_ok.mpr ⟨rs, hreports.mpr hall, rfl⟩, ?_⟩
    rw [reportText_several (hall.length_eq ▸ hmany)]
    rfl

theorem exists_of_run_specs_error
    (h : Command.run d ⟨.specs, { s with out := none }⟩ = .error failure) :
    ∃ p ∈ s.inputs, Command.run d ⟨.specs, s.alone p⟩ = .error failure := by
  have hprint : Command.run d ⟨.specs, { s with out := none }⟩ =
      (reports d s).map reportText >>= deliver d none := run_specs hrun
  rw [hprint] at h
  rcases bind_eq_error.mp h with hreports | ⟨_, -, hdeliver⟩
  · obtain ⟨p, hp, hinput⟩ := exists_of_reports_error hliteral
      (List.ne_nil_of_length_pos (Nat.lt_of_succ_lt hmany)) (map_eq_error.mp hreports)
    refine ⟨p, hp, ?_⟩
    rw [run_specs_alone hrun (hliteral p hp)]
    exact map_eq_error.mpr hinput
  · cases hdeliver

end

/-- Reports on several inputs are a list of those that are printed for each input alone, and there
is a list if there is a report on each of them. No other value has the text that is printed; a
file gets it without the line end. -/
theorem specs_together (hmany : 2 ≤ s.inputs.length)
    (hliteral : ∀ p ∈ s.inputs, hasWildcards p = false) (hrun : s.noOp = false) :
    ((∃ a, Command.run d ⟨.specs, { s with out := none }⟩ = .ok a) ↔
      ∀ p ∈ s.inputs, ∃ a, Command.run d ⟨.specs, s.alone p⟩ = .ok a) ∧
    (∀ a, Command.run d ⟨.specs, { s with out := none }⟩ = .ok a → ∃ items : List Json,
      a = ⟨(Json.list items).pretty ++ "\n", d⟩ ∧
      (∀ k : Json, k.IsText a.stdout ↔ k = .list items) ∧
      (Json.list items).mergeKeys = .list items ∧
      List.Forall₂ (PrintsReport d s) s.inputs items) ∧
    (∀ failure, Command.run d ⟨.specs, { s with out := none }⟩ = .error failure →
      ∃ p ∈ s.inputs, Command.run d ⟨.specs, s.alone p⟩ = .error failure) ∧
    ∀ file b, Command.run d ⟨.specs, { s with out := some file }⟩ = .ok b ↔ b.stdout = "" ∧
      ∃ text, Command.run d ⟨.specs, { s with out := none }⟩ = .ok ⟨text ++ "\n", d⟩ ∧
        save d file text = .ok b.disk ∧ b.disk.read file = .ok text := by
  have hok {a : Outcome} := run_specs_together_eq_ok (d := d) (a := a) hmany hliteral hrun
  refine ⟨?_, fun a ha => ?_, fun _ => exists_of_run_specs_error hmany hliteral hrun,
    fun file b => ?_⟩
  · have halone : ∀ p ∈ s.inputs, (∃ a, Command.run d ⟨.specs, s.alone p⟩ = .ok a) ↔
        ∃ r, inputReport d s p = .ok r := by
      intro p hp
      simp only [run_specs_alone hrun (hliteral p hp), map_eq_ok]
      exact ⟨fun ⟨_, r, hr, _⟩ => ⟨r, hr⟩, fun ⟨r, hr⟩ => ⟨_, r, hr, rfl⟩⟩
    rw [forall₂_congr halone, ← exists_mapM_eq_ok]
    simp only [hok, mapM_eq_ok]
    exact ⟨fun ⟨_, rs, hrs, _⟩ => ⟨rs, hrs⟩, fun ⟨rs, hrs⟩ => ⟨_, rs, hrs, rfl⟩⟩
  · obtain ⟨rs, hall, rfl⟩ := hok.mp ha
    refine ⟨rs.map Report.toJson, rfl, fun k => (Report.isText_list rs).line_iff_eq, ?_, ?_⟩
    · refine Json.mergeKeys_list (List.forall_mem_map.mpr fun r hr => ?_)
      obtain ⟨p, -, hp⟩ := exists_of_forall₂_right hall r hr
      obtain ⟨o, g, hg⟩ := exists_ofGrammar_of_inputReport hp
      exact Report.mergeKeys_toJson hg
    · exact printsReports hrun hliteral hall
  · rw [run_specs_file hrun]
    refine and_congr_right fun _ => exists_congr fun text => and_congr_right fun _ =>
      ⟨fun h => ⟨h, read_save h⟩, And.left⟩

/-- One of the two grammars twice. -/
def threeInputs : Settings := { twoInputs with inputs := ["a.json", "b.json", "a.json"] }

theorem optionsFor_three : optionsFor twoGrammars threeInputs = .ok twoOptions := rfl

unseal ClassOrder.run in
theorem declsOf_noRules : Plan.declsOf twoOptions [] = .ok [.base "ModelBase" (some "Node")] := rfl

theorem ofGrammar_noRules (n : String) :
    Report.ofGrammar twoOptions ⟨n, []⟩ = .ok ⟨n, [], ["ModelBase"]⟩ := by
  have hrules : Grammar.classRules twoOptions.target.identifier ⟨n, []⟩ = [] := rfl
  rw [Report.ofGrammar, Plan.ofGrammar, hrules, declsOf_noRules]
  rfl

theorem inputReport_three {path n : String} (h : load twoGrammars path = .ok (path, ⟨n, []⟩)) :
    inputReport twoGrammars threeInputs path = .ok ⟨n, [], ["ModelBase"]⟩ := by
  rw [inputReport_eq optionsFor_three, h]
  exact mapError_eq_ok.mpr (ofGrammar_noRules n)

/-- An input that is given twice is reported twice, on the screen as in a file. -/
theorem specs_together_three : ∃ items : List Json,
    Command.run twoGrammars ⟨.specs, { threeInputs with out := none }⟩ =
      .ok ⟨(Json.list items).pretty ++ "\n", twoGrammars⟩ ∧
    List.Forall₂ (PrintsReport twoGrammars threeInputs) ["a.json", "b.json", "a.json"] items ∧
    ∃ b, Command.run twoGrammars ⟨.specs, { threeInputs with out := some "out/r.json" }⟩ = .ok b ∧
      b.disk.read "out/r.json" = .ok (Json.list items).pretty := by
  have hliteral : ∀ p ∈ threeInputs.inputs, hasWildcards p = false := by decide
  have hreports : ∀ p ∈ threeInputs.inputs,
      ∃ r, inputReport twoGrammars threeInputs p = .ok r :=
    List.forall_mem_cons.mpr ⟨⟨_, inputReport_three load_a⟩, List.forall_mem_cons.mpr
      ⟨⟨_, inputReport_three load_b⟩, List.forall_mem_singleton.mpr
        ⟨_, inputReport_three load_a⟩⟩⟩
  obtain ⟨hiff, hlist, -, hfile⟩ := specs_together (d := twoGrammars) (s := threeInputs)
    (Nat.le_succ 2) hliteral rfl
  have halone : ∀ p ∈ threeInputs.inputs,
      ∃ a, Command.run twoGrammars ⟨.specs, threeInputs.alone p⟩ = .ok a := by
    intro p hp
    obtain ⟨r, hr⟩ := hreports p hp
    exact ⟨_, (printsReport rfl (hliteral p hp) hr).run⟩
  obtain ⟨a, ha⟩ := hiff.mpr halone
  obtain ⟨items, rfl, -, -, hitems⟩ := hlist a ha
  obtain ⟨e, he⟩ : ∃ e, save twoGrammars "out/r.json" (Json.list items).pretty = .ok e :=
    ⟨_, save_in_out (by decide) rfl⟩
  exact ⟨items, ha, hitems, ⟨"", e⟩, (hfile "out/r.json" ⟨"", e⟩).mpr
    ⟨rfl, _, ha, he, read_save he⟩, read_save he⟩

end CommandLine

end RuleClasses
