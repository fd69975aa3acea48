import RuleClasses.Proofs.Encodings
import RuleClasses.Proofs.Saving
import Mathlib.Data.List.Forall2
import Mathlib.Data.List.Nodup

/-! Several grammars at once. All of them are read before anything is written, and no output is
in the way of another one, so the result is that of a run for each of them alone. -/

namespace RuleClasses.CommandLine

open Files

variable {d e : Disk} {o : Options} {s : Settings} {dir : String} {position : List String}

/-! ## Many files in one directory -/

/-- Files that are written one after another into the directory at a position. -/
def writeAll (d : Disk) (position : List String) : List (String × String) → Disk
  | [] => d
  | (name, text) :: rest =>
    writeAll (d.put (position ++ [name]) (.file (.text text))) position rest

/-- A directory that is there, and files that can be written into it. -/
structure Ready (d : Disk) (dir : String) (position : List String) (names : List String) : Prop
    extends Settled d dir position where
  isName : ∀ n ∈ names, Path.IsName n
  free : ∀ n ∈ names, Free d dir position n

theorem Ready.write {name : String} {names : List String} (h : Ready d dir position (name :: names))
    (text : String) :
    Ready (d.put (position ++ [name]) (.file (.text text))) dir position names := by
  obtain ⟨hfree, hrest⟩ := List.forall_mem_cons.mp h.free
  have hkeeps : d.Keeps (d.put (position ++ [name]) (.file (.text text))) :=
    Disk.keeps_write h.room.isDir hfree.notDir
  refine ⟨⟨h.room.keeps hkeeps, fun f hf => h.made f (hkeeps.trans hf)⟩,
    fun n hn => h.isName n (List.mem_cons_of_mem _ hn), fun n hn => ?_⟩
  refine ⟨(hrest n hn).checkPath, (hrest n hn).checkName, ?_⟩
  rw [Disk.kind?_write h.room.isDir hfree.notDir]
  split
  · nofun
  · exact (hrest n hn).notDir

theorem Ready.save {name : String} {names : List String} (h : Ready d dir position (name :: names))
    (text : String) : save d (Path.join dir name) text =
      .ok (d.put (position ++ [name]) (.file (.text text))) := by
  have hname := h.isName name List.mem_cons_self
  exact save_eq_ok.mpr ⟨d, h.made d (.refl d) name hname, (write_join_eq_ok hname).mpr
    ⟨position, h.room, h.free name List.mem_cons_self, rfl⟩⟩

theorem Ready.keeps {files : List (String × String)}
    (h : Ready d dir position (files.map Prod.fst)) : d.Keeps (writeAll d position files) := by
  induction files generalizing d with
  | nil => exact .refl d
  | cons f files ih =>
    have hfree := h.free f.1 List.mem_cons_self
    exact (Disk.keeps_write h.room.isDir hfree.notDir).trans (ih (h.write f.2))

/-- Where no file is written nothing changes. -/
theorem Ready.kind?_other {files : List (String × String)}
    (h : Ready d dir position (files.map Prod.fst)) {q : List String}
    (hq : ∀ f ∈ files, q ≠ position ++ [f.1]) :
    (writeAll d position files).kind? q = d.kind? q := by
  induction files generalizing d with
  | nil => rfl
  | cons f files ih =>
    obtain ⟨hf, hrest⟩ := List.forall_mem_cons.mp hq
    rw [writeAll, ih (h.write f.2) hrest,
      Disk.kind?_write h.room.isDir (h.free f.1 List.mem_cons_self).notDir, if_neg hf]

/-- Every file holds its text if no two have the same name. -/
theorem Ready.kind?_file {files : List (String × String)}
    (h : Ready d dir position (files.map Prod.fst)) (hnodup : (files.map Prod.fst).Nodup)
    {f : String × String} (hf : f ∈ files) :
    (writeAll d position files).kind? (position ++ [f.1]) = some (.file (.text f.2)) := by
  induction files generalizing d with
  | nil => cases hf
  | cons g files ih =>
    rw [List.map_cons, List.nodup_cons] at hnodup
    rcases List.mem_cons.mp hf with rfl | hf
    · have hother : ∀ g ∈ files, position ++ [f.1] ≠ position ++ [g.1] := fun g hg he =>
        hnodup.1 ((List.append_singleton_inj.mp he).2 ▸ List.mem_map_of_mem hg)
      rw [writeAll, (h.write f.2).kind?_other hother,
        Disk.kind?_write h.room.isDir (h.free f.1 List.mem_cons_self).notDir, if_pos rfl]
    · exact ih (h.write g.2) hnodup.2 hf

theorem Ready.find {files : List (String × String)}
    (h : Ready d dir position (files.map Prod.fst)) (hnodup : (files.map Prod.fst).Nodup)
    {f : String × String} (hf : f ∈ files) :
    (writeAll d position files).find (Path.join dir f.1) = .ok (position ++ [f.1]) := by
  have hmem := List.mem_map_of_mem (f := Prod.fst) hf
  have hkind := h.kind?_file hnodup hf
  have hfree : Free (writeAll d position files) dir position f.1 :=
    ⟨(h.free _ hmem).checkPath, (h.free _ hmem).checkName, by rw [hkind]; nofun⟩
  exact find_join (h.isName _ hmem) (h.room.keeps h.keeps) hfree (by rw [hkind]; rfl)

theorem Ready.read {files : List (String × String)}
    (h : Ready d dir position (files.map Prod.fst)) (hnodup : (files.map Prod.fst).Nodup)
    {f : String × String} (hf : f ∈ files) :
    (writeAll d position files).read (Path.join dir f.1) = .ok f.2 :=
  Disk.read_of_file (h.find hnodup hf) (h.kind?_file hnodup hf)

/-! ## Outputs of a batch -/

def outName (o : Options) (g : Grammar) : String := modelFileName g.name o.target.fileExtension

/-- The file that a grammar's classes go to. -/
def outFile (o : Options) (x : String × Grammar) : Except Failure (String × String) :=
  ((x.2.source o).mapError (.generation x.1)).map fun text => (outName o x.2, text)

theorem generateEach_eq {grammars : List (String × Grammar)}
    (h : Ready d dir position (grammars.map fun x => outName o x.2)) :
    generateEach o d (grammars.map fun x => (x, Path.join dir (outName o x.2))) =
      (grammars.mapM (outFile o)).map (writeAll d position) := by
  induction grammars generalizing d with
  | nil => rfl
  | cons x rest ih =>
    obtain ⟨path, g⟩ := x
    rw [List.map_cons, generateEach, List.mapM_cons, outFile]
    cases hsource : (g.source o).mapError (Failure.generation path) with
    | error e => rfl
    | ok text =>
      have hrest := ih (h.write text)
      change (save d _ text >>= fun d => generateEach o d _) = _
      rw [h.save text]
      change generateEach o _ _ = _
      rw [hrest]
      cases rest.mapM (outFile o) <;> rfl

/-! ## Reading the inputs -/

/-- One input of a run. -/
def load (d : Disk) (path : String) : Except Failure (String × Grammar) :=
  ((readWith d Grammar.ofText path).mapError (.grammar path)).map fun g => (path, g)

theorem readInputs_literal {inputs : List String} (h : ∀ p ∈ inputs, hasWildcards p = false) :
    readInputs d inputs = inputs.mapM (load d) := by
  have hpaths : inputs.mapM (resolveInput d) = .ok (inputs.map fun p => [p]) := by
    induction inputs with
    | nil => rfl
    | cons p rest ih =>
      obtain ⟨hp, hrest⟩ := List.forall_mem_cons.mp h
      rw [List.mapM_cons, resolveInput, if_neg (by simp [hp]), ih hrest]
      rfl
  have hflatten : (inputs.map fun p => [p]).flatten = inputs := by
    rw [← List.flatMap_def, List.flatMap_singleton']
  rw [readInputs, hpaths]
  change (inputs.map fun p => [p]).flatten.mapM _ = _
  rw [hflatten]
  rfl

theorem readInputs_alone {path : String} (h : hasWildcards path = false) :
    readInputs d [path] = (load d path).map fun x => [x] := by
  rw [readInputs_literal (List.forall_mem_singleton.mpr h), List.mapM_cons, List.mapM_nil]
  cases load d path <;> rfl

theorem load_eq_ok {path : String} {x : String × Grammar} : load d path = .ok x ↔
    x.1 = path ∧ readWith d Grammar.ofText path = .ok x.2 := by
  rw [load, map_eq_ok]
  simp only [mapError_eq_ok]
  constructor
  · rintro ⟨g, hg, rfl⟩
    exact ⟨rfl, hg⟩
  · rintro ⟨rfl, hg⟩
    exact ⟨x.2, hg, rfl⟩

/-! ## One directory for all outputs -/

/-- The first output makes the directory; then all files can be written. -/
theorem exists_ready {names : List String} (hne : names ≠ []) (hname : ∀ n ∈ names, Path.IsName n)
    (hsave : ∀ n ∈ names, ∃ e, save d (Path.join dir n) "" = .ok e) :
    ∃ made position, d.Grows made ∧ Ready made dir position names ∧
      ∀ n, Path.IsName n → prepare d (Path.join dir n) = .ok made := by
  obtain ⟨first, rest, rfl⟩ := List.exists_cons_of_ne_nil hne
  obtain ⟨_, hsaved⟩ := hsave first List.mem_cons_self
  obtain ⟨made, position, hgrows, hsettled, hmade⟩ :=
    exists_settled (hname first List.mem_cons_self) hsaved
  refine ⟨made, position, hgrows, ⟨hsettled, hname, fun n hn => ?_⟩, hmade⟩
  obtain ⟨_, hsaved⟩ := hsave n hn
  obtain ⟨made', hprepare, hwrite⟩ := save_eq_ok.mp hsaved
  cases hprepare.symm.trans (hmade n (hname n hn))
  obtain ⟨position', hroom, hfree, -⟩ := (write_join_eq_ok (hname n hn)).mp hwrite
  cases hsettled.room.walk.symm.trans hroom.walk
  exact hfree

theorem generateEach_made {grammars : List (String × Grammar)} {made : Disk}
    (hne : grammars ≠ []) (hready : Ready made dir position (grammars.map fun x => outName o x.2))
    (hmade : ∀ n, Path.IsName n → prepare d (Path.join dir n) = .ok made) :
    generateEach o d (grammars.map fun x => (x, Path.join dir (outName o x.2))) =
      (grammars.mapM (outFile o)).map (writeAll made position) := by
  rw [← generateEach_eq hready]
  obtain ⟨⟨path, g⟩, rest, rfl⟩ := List.exists_cons_of_ne_nil hne
  have hsame := hready.toSettled.save_eq hmade (hready.isName (outName o g) List.mem_cons_self)
  rw [List.map_cons, generateEach, generateEach]
  simp only [hsame]

/-! ## Runs -/

/-- The settings for one of the inputs alone; its output is printed. -/
def Settings.alone (s : Settings) (path : String) : Settings :=
  { s with inputs := [path], out := none }

/-- The name of the file that the classes of an input go to. -/
def outputName (d : Disk) (s : Settings) (path : String) : Except Failure String := do
  let o ← optionsFor d s
  let (_, g) ← load d path
  return outName o g

theorem outputName_eq {path : String} {x : String × Grammar} (ho : optionsFor d s = .ok o)
    (hx : load d path = .ok x) : outputName d s path = .ok (outName o x.2) := by
  rw [outputName, ho, hx]
  rfl

theorem run_alone_eq_ok {path : String} {a : Outcome} (hrun : s.noOp = false)
    (hpath : hasWildcards path = false) :
    Command.run d ⟨.generate, s.alone path⟩ = .ok a ↔ ∃ o x f,
      optionsFor d s = .ok o ∧ load d path = .ok x ∧ outFile o x = .ok f ∧ a = ⟨f.2, d⟩ := by
  have hgenerate : Command.run d ⟨.generate, s.alone path⟩ = runGenerate d (s.alone path) :=
    if_neg (by simp [Settings.alone, hrun])
  have hinputs : (s.alone path).inputs = [path] := rfl
  rw [hgenerate, runGenerate, hinputs, readInputs_alone hpath, bind_eq_ok]
  constructor
  · rintro ⟨o, ho, h⟩
    obtain ⟨_, hload, h⟩ := bind_eq_ok.mp h
    obtain ⟨x, hx, rfl⟩ := map_eq_ok.mp hload
    obtain ⟨text, htext, h⟩ := bind_eq_ok.mp h
    cases h
    exact ⟨o, x, (outName o x.2, text), ho, hx, map_eq_ok.mpr ⟨text, htext, rfl⟩, rfl⟩
  · rintro ⟨o, x, f, ho, hx, hf, rfl⟩
    obtain ⟨text, htext, rfl⟩ := map_eq_ok.mp hf
    exact ⟨o, ho, bind_eq_ok.mpr ⟨[x], map_eq_ok.mpr ⟨x, hx, rfl⟩,
      bind_eq_ok.mpr ⟨text, htext, rfl⟩⟩⟩

theorem zip_map_self {α β : Type} (f : α → β) (l : List α) :
    l.zip (l.map f) = l.map fun a => (a, f a) := by
  induction l with
  | nil => rfl
  | cons a l ih => rw [List.map_cons, List.zip_cons_cons, ih, List.map_cons]

theorem generate_several {grammars : List (String × Grammar)} (h : 2 ≤ grammars.length) :
    generate o d grammars (some dir) = generateMany o d dir grammars := by
  match grammars with
  | _ :: _ :: _ => rfl

theorem run_together_eq_ok {a : Outcome} (hmany : 2 ≤ s.inputs.length)
    (hliteral : ∀ p ∈ s.inputs, hasWildcards p = false) (hout : s.out = some dir)
    (hrun : s.noOp = false) :
    Command.run d ⟨.generate, s⟩ = .ok a ↔ ∃ o grammars e,
      optionsFor d s = .ok o ∧ List.Forall₂ (fun p x => load d p = .ok x) s.inputs grammars ∧
      (grammars.map fun x => outName o x.2).Nodup ∧
      generateEach o d (grammars.map fun x => (x, Path.join dir (outName o x.2))) = .ok e ∧
      a = ⟨"", e⟩ := by
  have hgenerate : Command.run d ⟨.generate, s⟩ = runGenerate d s := if_neg (by simp [hrun])
  rw [hgenerate, runGenerate, readInputs_literal hliteral, bind_eq_ok]
  refine exists_congr fun o => ?_
  constructor
  · rintro ⟨ho, h⟩
    obtain ⟨grammars, hgrammars, h⟩ := bind_eq_ok.mp h
    have hloads := mapM_eq_ok.mp hgrammars
    rw [hout, generate_several (hloads.length_eq ▸ hmany)] at h
    obtain ⟨outs, houts, h⟩ := bind_eq_ok.mp h
    obtain ⟨rfl, hnodup⟩ := assignOutputs_eq_ok.mp houts
    obtain ⟨e, he, h⟩ := bind_eq_ok.mp h
    cases h
    rw [zip_map_self] at he
    exact ⟨grammars, e, ho, hloads, hnodup, he, rfl⟩
  · rintro ⟨grammars, e, ho, hloads, hnodup, he, rfl⟩
    refine ⟨ho, bind_eq_ok.mpr ⟨grammars, mapM_eq_ok.mpr hloads, ?_⟩⟩
    rw [hout, generate_several (hloads.length_eq ▸ hmany)]
    rw [← zip_map_self] at he
    exact bind_eq_ok.mpr ⟨_, assignOutputs_eq_ok.mpr ⟨rfl, hnodup⟩, bind_eq_ok.mpr ⟨e, he, rfl⟩⟩

theorem name_of_outFile {x : String × Grammar} {f : String × String} (h : outFile o x = .ok f) :
    f.1 = outName o x.2 := by
  obtain ⟨text, -, rfl⟩ := map_eq_ok.mp h
  rfl

theorem outputName_of_outFile {path : String} {x : String × Grammar} {f : String × String}
    (ho : optionsFor d s = .ok o) (hx : load d path = .ok x) (hf : outFile o x = .ok f) :
    outputName d s path = .ok f.1 := by
  rw [name_of_outFile hf]
  exact outputName_eq ho hx

theorem names_of_outFiles {grammars : List (String × Grammar)} {files : List (String × String)}
    (h : List.Forall₂ (fun x f => outFile o x = .ok f) grammars files) :
    files.map Prod.fst = grammars.map fun x => outName o x.2 := by
  induction h with
  | nil => rfl
  | cons hx _ ih => rw [List.map_cons, List.map_cons, ih, name_of_outFile hx]

theorem outputNames_eq {inputs : List String} {grammars : List (String × Grammar)}
    (ho : optionsFor d s = .ok o)
    (h : List.Forall₂ (fun p x => load d p = .ok x) inputs grammars) :
    inputs.map (outputName d s) = (grammars.map fun x => outName o x.2).map .ok := by
  induction h with
  | nil => rfl
  | cons hx _ ih => rw [List.map_cons, List.map_cons, List.map_cons, ih, outputName_eq ho hx]

theorem nodup_outputNames {inputs : List String} {grammars : List (String × Grammar)}
    (ho : optionsFor d s = .ok o)
    (h : List.Forall₂ (fun p x => load d p = .ok x) inputs grammars) :
    (inputs.map (outputName d s)).Nodup ↔ (grammars.map fun x => outName o x.2).Nodup := by
  rw [outputNames_eq ho h]
  exact List.nodup_map_iff fun _ _ => Except.ok.inj

section

variable (hmany : 2 ≤ s.inputs.length) (hliteral : ∀ p ∈ s.inputs, hasWildcards p = false)
  (hout : s.out = some dir) (hrun : s.noOp = false)
  (hsave : ∀ p ∈ s.inputs, ∀ name, outputName d s p = .ok name →
    ∃ e, save d (Path.join dir name) "" = .ok e)

include hmany hsave in
theorem exists_ready_of_loads {grammars : List (String × Grammar)} (ho : optionsFor d s = .ok o)
    (hloads : List.Forall₂ (fun p x => load d p = .ok x) s.inputs grammars) :
    ∃ made position, d.Grows made ∧
      Ready made dir position (grammars.map fun x => outName o x.2) ∧
      generateEach o d (grammars.map fun x => (x, Path.join dir (outName o x.2))) =
        (grammars.mapM (outFile o)).map (writeAll made position) := by
  have hne : grammars ≠ [] := by
    rintro rfl
    rw [hloads.length_eq] at hmany
    cases hmany
  have hnames : ∀ n ∈ grammars.map fun x => outName o x.2, Path.IsName n :=
    List.forall_mem_map.mpr fun x _ => isName_modelFileName x.2.name o.target
  have hsaves : ∀ n ∈ grammars.map fun x => outName o x.2,
      ∃ e, save d (Path.join dir n) "" = .ok e :=
    List.forall_mem_map.mpr fun x hx => by
      obtain ⟨p, hp, hload⟩ := exists_of_forall₂_right hloads x hx
      exact hsave p hp _ (outputName_eq ho hload)
  obtain ⟨made, position, hgrows, hready, hmade⟩ :=
    exists_ready (mt List.map_eq_nil_iff.mp hne) hnames hsaves
  exact ⟨made, position, hgrows, hready, generateEach_made hne hready hmade⟩

include hliteral hrun in
/-- Every input by itself, where a run for all of them succeeds. -/
theorem alone_of_files {grammars : List (String × Grammar)} {files : List (String × String)}
    (ho : optionsFor d s = .ok o)
    (hloads : List.Forall₂ (fun p x => load d p = .ok x) s.inputs grammars)
    (hfiles : List.Forall₂ (fun x f => outFile o x = .ok f) grammars files) :
    ∀ p ∈ s.inputs, ∃ f ∈ files, outputName d s p = .ok f.1 ∧
      Command.run d ⟨.generate, s.alone p⟩ = .ok ⟨f.2, d⟩ := by
  intro p hp
  obtain ⟨x, hx, hload⟩ := exists_of_forall₂_left hloads p hp
  obtain ⟨f, hf, hfile⟩ := exists_of_forall₂_left hfiles x hx
  exact ⟨f, hf, outputName_of_outFile ho hload hfile,
    (run_alone_eq_ok hrun (hliteral p hp)).mpr ⟨o, x, f, ho, hload, hfile, rfl⟩⟩

include hliteral hrun in
/-- All inputs together, where each of them succeeds by itself. -/
theorem files_of_alone (hne : s.inputs ≠ [])
    (halone : ∀ p ∈ s.inputs, ∃ a, Command.run d ⟨.generate, s.alone p⟩ = .ok a) :
    ∃ o grammars files, optionsFor d s = .ok o ∧
      List.Forall₂ (fun p x => load d p = .ok x) s.inputs grammars ∧
      List.Forall₂ (fun x f => outFile o x = .ok f) grammars files := by
  obtain ⟨first, hfirst⟩ := List.exists_mem_of_ne_nil s.inputs hne
  obtain ⟨a, ha⟩ := halone first hfirst
  obtain ⟨o, -, -, ho, -⟩ := (run_alone_eq_ok hrun (hliteral first hfirst)).mp ha
  have hparts : ∀ p ∈ s.inputs, ∃ x, load d p = .ok x ∧ ∃ f, outFile o x = .ok f := by
    intro p hp
    obtain ⟨a, ha⟩ := halone p hp
    obtain ⟨o', x, f, ho', hload, hfile, -⟩ := (run_alone_eq_ok hrun (hliteral p hp)).mp ha
    rw [ho] at ho'
    cases ho'
    exact ⟨x, hload, f, hfile⟩
  obtain ⟨grammars, hgrammars⟩ := exists_mapM_eq_ok.mpr fun p hp =>
    (hparts p hp).imp fun _ h => h.1
  have hloads := mapM_eq_ok.mp hgrammars
  obtain ⟨files, hfiles⟩ := exists_mapM_eq_ok (f := outFile o) (l := grammars).mpr fun x hx => by
    obtain ⟨p, hp, hload⟩ := exists_of_forall₂_right hloads x hx
    obtain ⟨x', hload', hfile⟩ := hparts p hp
    rw [hload] at hload'
    cases hload'
    exact hfile
  exact ⟨o, grammars, files, ho, hloads, mapM_eq_ok.mp hfiles⟩

include hmany hliteral hout hrun hsave

/-- What a run for several grammars leaves behind. -/
theorem exists_files_of_run {a : Outcome} (h : Command.run d ⟨.generate, s⟩ = .ok a) :
    ∃ o grammars files made position, optionsFor d s = .ok o ∧
      List.Forall₂ (fun p x => load d p = .ok x) s.inputs grammars ∧
      List.Forall₂ (fun x f => outFile o x = .ok f) grammars files ∧
      (files.map Prod.fst).Nodup ∧ d.Grows made ∧
      Ready made dir position (files.map Prod.fst) ∧ a = ⟨"", writeAll made position files⟩ := by
  obtain ⟨o, grammars, e, ho, hloads, hnodup, he, rfl⟩ :=
    (run_together_eq_ok hmany hliteral hout hrun).mp h
  obtain ⟨made, position, hgrows, hready, hgenerate⟩ := exists_ready_of_loads hmany hsave ho hloads
  rw [hgenerate] at he
  obtain ⟨files, hfiles, rfl⟩ := map_eq_ok.mp he
  have hall := mapM_eq_ok.mp hfiles
  rw [← names_of_outFiles hall] at hnodup hready
  exact ⟨o, grammars, files, made, position, ho, hloads, hall, hnodup, hgrows, hready, rfl⟩

theorem exists_run_of_files {grammars : List (String × Grammar)} {files : List (String × String)}
    (ho : optionsFor d s = .ok o)
    (hloads : List.Forall₂ (fun p x => load d p = .ok x) s.inputs grammars)
    (hfiles : List.Forall₂ (fun x f => outFile o x = .ok f) grammars files)
    (hnodup : (grammars.map fun x => outName o x.2).Nodup) :
    ∃ a, Command.run d ⟨.generate, s⟩ = .ok a := by
  obtain ⟨made, position, -, -, hgenerate⟩ := exists_ready_of_loads hmany hsave ho hloads
  rw [mapM_eq_ok.mpr hfiles] at hgenerate
  exact ⟨_, (run_together_eq_ok hmany hliteral hout hrun).mpr
    ⟨o, grammars, _, ho, hloads, hnodup, hgenerate, rfl⟩⟩

theorem exists_run_iff : (∃ a, Command.run d ⟨.generate, s⟩ = .ok a) ↔
    (∀ p ∈ s.inputs, ∃ a, Command.run d ⟨.generate, s.alone p⟩ = .ok a) ∧
      (s.inputs.map (outputName d s)).Nodup := by
  constructor
  · rintro ⟨a, ha⟩
    obtain ⟨o, grammars, files, -, -, ho, hloads, hfiles, hnodup, -, -, -⟩ :=
      exists_files_of_run hmany hliteral hout hrun hsave ha
    refine ⟨fun p hp => ?_, ?_⟩
    · obtain ⟨f, -, -, hf⟩ := alone_of_files hliteral hrun ho hloads hfiles p hp
      exact ⟨_, hf⟩
    · rw [nodup_outputNames ho hloads, ← names_of_outFiles hfiles]
      exact hnodup
  · rintro ⟨halone, hnodup⟩
    obtain ⟨o, grammars, files, ho, hloads, hfiles⟩ :=
      files_of_alone hliteral hrun (List.ne_nil_of_length_pos (Nat.lt_of_succ_lt hmany)) halone
    exact exists_run_of_files hmany hliteral hout hrun hsave ho hloads hfiles
      ((nodup_outputNames ho hloads).mp hnodup)

end

/-- Several grammars at once are generated as each of them is alone. The outputs are those that
can be saved in the tree as it stands, whatever they hold. -/
theorem generate_together (hmany : 2 ≤ s.inputs.length)
    (hliteral : ∀ p ∈ s.inputs, hasWildcards p = false) (hout : s.out = some dir)
    (hrun : s.noOp = false)
    (hsave : ∀ p ∈ s.inputs, ∀ name, outputName d s p = .ok name →
      ∃ e, save d (Path.join dir name) "" = .ok e) :
    ((∃ a, Command.run d ⟨.generate, s⟩ = .ok a) ↔
      (∀ p ∈ s.inputs, ∃ a, Command.run d ⟨.generate, s.alone p⟩ = .ok a) ∧
        (s.inputs.map (outputName d s)).Nodup) ∧
    ∀ a, Command.run d ⟨.generate, s⟩ = .ok a → a.stdout = "" ∧
      (∀ p ∈ s.inputs, ∃ name text, outputName d s p = .ok name ∧
        Command.run d ⟨.generate, s.alone p⟩ = .ok ⟨text, d⟩ ∧
        a.disk.read (Path.join dir name) = .ok text) ∧
      ∀ q, (∀ p ∈ s.inputs, ∀ name, outputName d s p = .ok name →
          a.disk.find (Path.join dir name) ≠ .ok q) →
        a.disk.kind? q = d.kind? q ∨ d.kind? q = none ∧ a.disk.kind? q = some .dir := by
  refine ⟨exists_run_iff hmany hliteral hout hrun hsave, fun a ha => ?_⟩
  obtain ⟨o, grammars, files, made, position, ho, hloads, hfiles, hnodup, hgrows, hready, rfl⟩ :=
    exists_files_of_run hmany hliteral hout hrun hsave ha
  refine ⟨rfl, fun p hp => ?_, fun q hq => ?_⟩
  · obtain ⟨f, hf, hname, halone⟩ := alone_of_files hliteral hrun ho hloads hfiles p hp
    exact ⟨f.1, f.2, hname, halone, hready.read hnodup hf⟩
  · have hother : ∀ f ∈ files, q ≠ position ++ [f.1] := by
      rintro f hf rfl
      obtain ⟨x, hx, hfile⟩ := exists_of_forall₂_right hfiles f hf
      obtain ⟨p, hp, hload⟩ := exists_of_forall₂_right hloads x hx
      exact hq p hp f.1 (outputName_of_outFile ho hload hfile) (hready.find hnodup hf)
    rw [hready.kind?_other hother]
    exact hgrows.kinds q

/-- Two grammars without rules, and a directory for what is made of them. -/
def twoGrammars : Disk where
  root := .dir [("a.json", .file (.text (Grammar.toJson ⟨"A", []⟩).text)),
    ("b.json", .file (.text (Grammar.toJson ⟨"B", []⟩).text)), ("out", .dir [])]
  workingDirectory := []

def twoInputs : Settings where
  inputs := ["a.json", "b.json"]
  config := none
  name := none
  rootPath := none
  target := none
  strict := false
  out := some "out"
  noOp := false

theorem load_noRules {path name : String}
    (hread : twoGrammars.read path = .ok (Grammar.toJson ⟨name, []⟩).text) :
    load twoGrammars path = .ok (path, ⟨name, []⟩) := by
  have htext : Grammar.ofText (Grammar.toJson ⟨name, []⟩).text = .ok ⟨name, []⟩ :=
    Grammar.ofText_form (Grammar.form_toJson (List.forall_mem_nil _))
      (Json.isText_text (Grammar.eachNumber_toJson (List.forall_mem_nil _))
        (Grammar.eachNumber_toJson (List.forall_mem_nil _))) (Nat.le_of_ble_eq_true rfl)
  refine load_eq_ok.mpr ⟨rfl, ?_⟩
  rw [readWith, hread]
  exact mapError_eq_ok.mpr htext

def twoOptions : Options := ⟨.python, ⟨"tatsu.objectmodel", "Node"⟩, none, false⟩

theorem optionsFor_two : optionsFor twoGrammars twoInputs = .ok twoOptions := rfl

theorem outNames_two :
    outName twoOptions ⟨"A", []⟩ = "a_model.py" ∧ outName twoOptions ⟨"B", []⟩ = "b_model.py" := by
  decide +kernel

theorem load_a : load twoGrammars "a.json" = .ok ("a.json", ⟨"A", []⟩) := load_noRules rfl

theorem load_b : load twoGrammars "b.json" = .ok ("b.json", ⟨"B", []⟩) := load_noRules rfl

theorem outputName_two : outputName twoGrammars twoInputs "a.json" = .ok "a_model.py" ∧
    outputName twoGrammars twoInputs "b.json" = .ok "b_model.py" := by
  have ha := outputName_eq optionsFor_two load_a
  have hb := outputName_eq optionsFor_two load_b
  rw [outNames_two.1] at ha
  rw [outNames_two.2] at hb
  exact ⟨ha, hb⟩

unseal ClassOrder.run in
theorem source_two : (∃ text, Grammar.source twoOptions ⟨"A", []⟩ = .ok text) ∧
    ∃ text, Grammar.source twoOptions ⟨"B", []⟩ = .ok text := ⟨⟨_, rfl⟩, ⟨_, rfl⟩⟩

theorem save_in_out {path text : String} (hparent : Path.parent? path = some "out")
    (h : twoGrammars.write path text = .ok e) : save twoGrammars path text = .ok e := by
  have hmade : twoGrammars.makeDirectories "out" = .ok twoGrammars :=
    Disk.makeDirectories_of_isDir rfl
  have hprepare : prepare twoGrammars path = .ok twoGrammars := by
    rw [prepare, hparent]
    exact mapError_eq_ok.mpr hmade
  exact save_eq_ok.mpr ⟨twoGrammars, hprepare, h⟩

theorem save_two : (∃ e, save twoGrammars "out/a_model.py" "" = .ok e) ∧
    ∃ e, save twoGrammars "out/b_model.py" "" = .ok e :=
  ⟨⟨_, save_in_out (by decide) rfl⟩, ⟨_, save_in_out (by decide) rfl⟩⟩

theorem alone_two : ∀ p ∈ twoInputs.inputs,
    ∃ a, Command.run twoGrammars ⟨.generate, twoInputs.alone p⟩ = .ok a := by
  have halone {path : String} {g : Grammar} (hpath : hasWildcards path = false)
      (hload : load twoGrammars path = .ok (path, g))
      (hsource : ∃ text, g.source twoOptions = .ok text) :
      ∃ a, Command.run twoGrammars ⟨.generate, twoInputs.alone path⟩ = .ok a := by
    obtain ⟨text, htext⟩ := hsource
    exact ⟨_, (run_alone_eq_ok rfl hpath).mpr ⟨_, _, (_, text), optionsFor_two, hload,
      map_eq_ok.mpr ⟨text, mapError_eq_ok.mpr htext, rfl⟩, rfl⟩⟩
  exact List.forall_mem_cons.mpr ⟨halone (by decide) load_a source_two.1,
    List.forall_mem_singleton.mpr (halone (by decide) load_b source_two.2)⟩

/-- Both grammars go to a file of their own, with what is printed for each of them. -/
theorem generate_together_two : ∃ a, Command.run twoGrammars ⟨.generate, twoInputs⟩ = .ok a ∧
    a.stdout = "" ∧ ∀ p ∈ twoInputs.inputs, ∃ name text,
      outputName twoGrammars twoInputs p = .ok name ∧
      Command.run twoGrammars ⟨.generate, twoInputs.alone p⟩ = .ok ⟨text, twoGrammars⟩ ∧
      a.disk.read (Path.join "out" name) = .ok text := by
  have hsave : ∀ p ∈ twoInputs.inputs, ∀ name, outputName twoGrammars twoInputs p = .ok name →
      ∃ e, save twoGrammars (Path.join "out" name) "" = .ok e := by
    refine List.forall_mem_cons.mpr ⟨fun name h => ?_, List.forall_mem_singleton.mpr
      fun name h => ?_⟩
    · cases outputName_two.1.symm.trans h
      exact save_two.1
    · cases outputName_two.2.symm.trans h
      exact save_two.2
  have hnodup : (twoInputs.inputs.map (outputName twoGrammars twoInputs)).Nodup := by
    change [outputName twoGrammars twoInputs "a.json", outputName twoGrammars twoInputs
      "b.json"].Nodup
    rw [outputName_two.1, outputName_two.2]
    simp
  obtain ⟨hiff, hruns⟩ := generate_together (d := twoGrammars) (s := twoInputs)
    (Nat.le_refl 2) (by decide) rfl rfl hsave
  obtain ⟨a, ha⟩ := hiff.mpr ⟨alone_two, hnodup⟩
  obtain ⟨hstdout, hfiles, -⟩ := hruns a ha
  exact ⟨a, ha, hstdout, hfiles⟩

end RuleClasses.CommandLine
