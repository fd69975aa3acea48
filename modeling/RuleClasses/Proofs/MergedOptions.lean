import RuleClasses.Proofs.Batches
import RuleClasses.Proofs.ConfigForms
import RuleClasses.Proofs.SideBySide

/-! Options of the command line, and the file that holds them. A run with options does what a run
without any does with a file in which they stand among the options of the first file. -/

namespace RuleClasses

open Json

namespace CommandLine

open Files Disk

variable {d e : Disk} {o : Options} {s : Settings} {c : Config} {way : List (List String)}
  {file path text : String}

/-! ## Settings -/

/-- No options but those of a file. -/
def Settings.withFile (s : Settings) (file : String) : Settings :=
  { s with config := some file, name := none, rootPath := none, target := none, strict := false }

theorem override_withFile (s : Settings) (file : String) (c : Config) :
    (s.withFile file).override c = c := by
  simp [Settings.override, Settings.withFile]

theorem optionsFor_withFile (hconfig : readConfigFile d s.config = .ok c)
    (hread : e.read file = .ok text) (htext : (s.override c).toJson.IsText text) :
    optionsFor e (s.withFile file) = optionsFor d s := by
  have hfile : readConfigFile e (some file) = .ok (s.override c) := by
    rw [readConfigFile, readWith, hread]
    exact mapError_eq_ok.mpr (mapError_eq_ok.mpr (Config.ofText_toJson htext))
  have hsettings : (s.withFile file).config = some file := rfl
  rw [optionsFor, optionsFor, hconfig, hsettings, hfile]
  simp only [bind, Except.bind, override_withFile]

/-! ## Inputs -/

theorem readInputs_congr {inputs : List String} (hliteral : ∀ p ∈ inputs, hasWildcards p = false)
    (h : ∀ p ∈ inputs, e.read p = d.read p) : readInputs e inputs = readInputs d inputs := by
  rw [readInputs_literal hliteral, readInputs_literal hliteral]
  clear hliteral
  induction inputs with
  | nil => rfl
  | cons p rest ih =>
    obtain ⟨hp, hrest⟩ := List.forall_mem_cons.mp h
    have hload : load e p = load d p := by rw [load, load, readWith, readWith, hp]
    rw [List.mapM_cons, List.mapM_cons, hload, ih hrest]

/-! ## Outputs -/

/-- The same text is printed, and the files change in the same way. -/
structure SameOutcome (d e : Disk) (a b : Outcome) : Prop where
  stdout : a.stdout = b.stdout
  files : SameChange d e a.disk b.disk

theorem sameOutcome_print (text : String) : SameOutcome d e ⟨text, d⟩ ⟨text, e⟩ :=
  ⟨rfl, .refl d e⟩

theorem sameOutcome_save {x y : Except Failure Disk} (h : Together (SameChange d e) x y) :
    Together (SameOutcome d e) (x >>= fun d => .ok ⟨"", d⟩) (y >>= fun e => .ok ⟨"", e⟩) :=
  h.bind fun _ _ hc => .ok ⟨rfl, hc⟩

theorem generateEach_alike (h : Alike way d e) {outs : List ((String × Grammar) × String)}
    (hway : ∀ x ∈ outs, d.stopsBefore x.2 ⊆ way) :
    Together (SameChange d e) (generateEach o d outs) (generateEach o e outs) := by
  induction outs generalizing d e with
  | nil => exact .ok (.refl d e)
  | cons x rest ih =>
    obtain ⟨⟨path, g⟩, out⟩ := x
    obtain ⟨hout, hrest⟩ := List.forall_mem_cons.mp hway
    refine .bind_same fun text _ => sameChange_bind (save_alike h hout text) fun d' e' hc => ?_
    refine ih (h.step hc) fun x hx => ?_
    rw [hc.stopsBefore]
    exact hrest x hx

theorem generateMany_alike {dir : String} {grammars : List (String × Grammar)}
    (h : Alike way d e) (hway : d.stopsOf dir ⊆ way) :
    Together (SameOutcome d e) (generateMany o d dir grammars) (generateMany o e dir grammars) := by
  refine .bind_same fun outs houts => sameOutcome_save (generateEach_alike h fun x hx => ?_)
  obtain ⟨rfl, -⟩ := assignOutputs_eq_ok.mp houts
  rw [zip_map_self] at hx
  obtain ⟨g, -, rfl⟩ := List.mem_map.mp hx
  have hname := isName_modelFileName g.2.name o.target
  rwa [outPath, stopsBefore, origin_join hname, Path.parts_join hname, List.dropLast_concat]

theorem generateOne_alike {out : Option String} {g : Grammar} (h : Alike way d e)
    (hway : ∀ path ∈ out, d.stopsBefore path ⊆ way) :
    Together (SameOutcome d e) (generateOne o d out path g) (generateOne o e out path g) := by
  refine .bind_same fun text _ => ?_
  cases out with
  | none => exact .ok (sameOutcome_print text)
  | some out => exact sameOutcome_save (save_alike h (hway out rfl) text)

theorem generate_alike {out : Option String} {grammars : List (String × Grammar)}
    (h : Alike way d e)
    (hway : ∀ path ∈ out,
      (if 2 ≤ grammars.length then d.stopsOf path else d.stopsBefore path) ⊆ way) :
    Together (SameOutcome d e) (generate o d grammars out) (generate o e grammars out) := by
  match grammars, out with
  | [(path, g)], out => exact generateOne_alike h hway
  | [], none => exact .error _
  | _ :: _ :: _, none => exact .error _
  | [], some dir => exact .ok (sameOutcome_print "")
  | x :: y :: rest, some dir =>
    exact generateMany_alike h (by simpa using hway dir rfl)

/-! ## Runs -/

/-- The stops on the way to what a command writes. The sources of several grammars go into one
directory. -/
def Command.stops (d : Disk) (c : Command) : List (List String) :=
  match c.settings.out with
  | none => []
  | some out =>
    if c.action = .generate ∧ 2 ≤ c.settings.inputs.length then d.stopsOf out
    else d.stopsBefore out

section

variable {s' : Settings} (hoptions : optionsFor e s' = optionsFor d s)
  (hinputs : readInputs e s'.inputs = readInputs d s.inputs) (hout : s'.out = s.out)

include hoptions hinputs hout

theorem runSpecs_alike (h : Alike (Command.stops d ⟨.specs, s⟩) d e) :
    Together (SameOutcome d e) (runSpecs d s) (runSpecs e s') := by
  rw [runSpecs, runSpecs, hoptions, hinputs, hout]
  refine .bind_same fun o _ => .bind_same fun grammars _ => .bind_same fun reports _ => ?_
  cases hpath : s.out with
  | none => exact .ok (sameOutcome_print _)
  | some out =>
    refine sameOutcome_save (save_alike h ?_ _)
    simp [Command.stops, hpath]

theorem runGenerate_alike (hliteral : ∀ p ∈ s.inputs, hasWildcards p = false)
    (h : Alike (Command.stops d ⟨.generate, s⟩) d e) :
    Together (SameOutcome d e) (runGenerate d s) (runGenerate e s') := by
  rw [runGenerate, runGenerate, hoptions, hinputs, hout]
  refine .bind_same fun o _ => .bind_same fun grammars hgrammars => generate_alike h ?_
  rw [readInputs_literal hliteral] at hgrammars
  have hlength := (mapM_eq_ok.mp hgrammars).length_eq
  intro out hout
  rw [Option.mem_def] at hout
  simp [Command.stops, hout, hlength]

end

/-- Options of the command line do what a file does that holds them next to the other options of
the first file. Each file may be in a tree of its own: the grammars must be the same in both trees,
and so must be the way to what the command writes. -/
theorem run_withFile {action : Action} (h : Alike (Command.stops d ⟨action, s⟩) d e)
    (hliteral : ∀ p ∈ s.inputs, hasWildcards p = false)
    (hinputs : ∀ p ∈ s.inputs, e.read p = d.read p)
    (hconfig : readConfigFile d s.config = .ok c)
    (hread : e.read file = .ok text)
    (htext : Json.IsText (Config.toJson {
      name := s.name <|> c.name
      rootPath := s.rootPath <|> c.rootPath
      target := s.target.getD c.target
      strict := c.strict || s.strict }) text) :
    Together (SameOutcome d e) (Command.run d ⟨action, s⟩)
      (Command.run e ⟨action, s.withFile file⟩) := by
  have hoptions := optionsFor_withFile hconfig hread htext
  have hsame : readInputs e (s.withFile file).inputs = readInputs d s.inputs :=
    readInputs_congr hliteral hinputs
  have hnoOp : (s.withFile file).noOp = s.noOp := rfl
  rw [Command.run, Command.run, hnoOp]
  split
  · exact .ok (sameOutcome_print "")
  · cases action with
    | specs => exact runSpecs_alike hoptions hsame rfl h
    | generate => exact runGenerate_alike hoptions hsame rfl hliteral h

/-- A grammar without rules, and a file with the name of its semantics. -/
def oneGrammar : Disk where
  root := .dir [("a.json", .file (.text (Grammar.toJson ⟨"A", []⟩).text)),
    ("base.json", .file (.text (Config.toJson ⟨some "Base", none, .python, false⟩).text)),
    ("out", .dir [])]
  workingDirectory := []

def strictRust : Settings where
  inputs := ["a.json"]
  config := some "base.json"
  name := none
  rootPath := none
  target := some .rust
  strict := true
  out := some "out/a.rs"
  noOp := false

/-- A file with the name as well as the options of the command line. -/
def withAllOptions : Disk :=
  oneGrammar.put ([] ++ ["all.json"])
    (.file (.text (Config.toJson ⟨some "Base", none, .rust, true⟩).text))

theorem run_withFile_rust : Together (SameOutcome oneGrammar withAllOptions)
    (Command.run oneGrammar ⟨.generate, strictRust⟩)
    (Command.run withAllOptions ⟨.generate, strictRust.withFile "all.json"⟩) := by
  have halike : Alike (Command.stops oneGrammar ⟨.generate, strictRust⟩) oneGrammar
      withAllOptions := .of_write rfl (by decide) (by decide)
  have hbase : readConfigFile oneGrammar (some "base.json") =
      .ok ⟨some "Base", none, .python, false⟩ := by
    have hread : oneGrammar.read "base.json" =
        .ok (Config.toJson ⟨some "Base", none, .python, false⟩).text := rfl
    rw [readConfigFile, readWith, hread]
    exact mapError_eq_ok.mpr (mapError_eq_ok.mpr (Config.ofText_toJson (Config.isText_toJson _)))
  exact run_withFile halike (by decide) (List.forall_mem_singleton.mpr rfl) hbase rfl
    (Config.isText_toJson _)

end CommandLine

end RuleClasses
