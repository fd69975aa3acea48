import RuleClasses.Proofs.Batches

/-! The directory of outputs holds all that is written for several grammars. The name of a grammar
comes from outside and can be any text; the name of its file is one part of a path all the same, and
leads neither up nor away from the directory. -/

namespace RuleClasses.CommandLine

open Files

variable {d e : Disk} {o : Options} {dir : String} {position : List String}
  {grammars : List (String × Grammar)}

theorem nul_notMem_modelFileName (grammarName : String) (t : Target) :
    '\x00' ∉ (modelFileName grammarName t.fileExtension).toList := by
  have hstem := nul_notMem_modelStem grammarName
  rw [modelFileName_eq]
  cases t <;> simp [hstem, Target.fileExtension]

theorem child_of_assigned {t : Target} {outs : List String}
    (h : assignOutputs dir t.fileExtension grammars = .ok outs) : ∀ out ∈ outs, ∃ x ∈ grammars,
      Path.parts out = Path.parts dir ++ [modelFileName x.2.name t.fileExtension] ∧
        Path.isAbsolute out = Path.isAbsolute dir := by
  intro out hout
  rw [(assignOutputs_eq_ok.mp h).1] at hout
  obtain ⟨x, hx, rfl⟩ := List.mem_map.mp hout
  have hname := isName_modelFileName x.2.name t
  exact ⟨x, hx, Path.parts_join hname dir, Path.isAbsolute_join hname dir⟩

/-- Writing one file after another changes nothing but these files. -/
theorem Settled.generateEach (h : Settled d dir position)
    (hrun : generateEach o d (grammars.map fun x =>
      (x, outPath dir o.target.fileExtension x)) = .ok e) :
    ∀ q, e.kind? q = d.kind? q ∨
      ∃ x ∈ grammars, q = position ++ [modelFileName x.2.name o.target.fileExtension] := by
  induction grammars generalizing d with
  | nil =>
    cases hrun
    exact fun q => .inl rfl
  | cons x rest ih =>
    obtain ⟨path, g⟩ := x
    obtain ⟨text, -, hrun⟩ := bind_eq_ok.mp hrun
    obtain ⟨next, hsave, hrun⟩ := bind_eq_ok.mp hrun
    obtain ⟨hnext, hother⟩ := h.save (isName_modelFileName g.name o.target) hsave
    intro q
    by_cases hq : q = position ++ [modelFileName g.name o.target.fileExtension]
    · exact .inr ⟨_, List.mem_cons_self, hq⟩
    · rcases ih hnext hrun q with hsame | ⟨x, hx, hq⟩
      · exact .inl (hsame.trans (hother q hq))
      · exact .inr ⟨x, List.mem_cons_of_mem _ hx, hq⟩

/-- A whole batch changes files right in the directory. The directory itself is made in the same
way for all names. -/
theorem exists_directory_of_generateMany {a : Outcome} (hne : grammars ≠ [])
    (h : generateMany o d dir grammars = .ok a) : ∃ made position, d.Grows made ∧
      (∀ n, Path.IsName n → prepare d (Path.join dir n) = .ok made) ∧
      Disk.walk made.root (d.origin dir) (Path.parts dir) = .ok position ∧
      ∀ q, a.disk.kind? q = made.kind? q ∨
        ∃ x ∈ grammars, q = position ++ [modelFileName x.2.name o.target.fileExtension] := by
  obtain ⟨outs, houts, h⟩ := bind_eq_ok.mp h
  obtain ⟨rfl, -⟩ := assignOutputs_eq_ok.mp houts
  obtain ⟨e, hrun, h⟩ := bind_eq_ok.mp h
  cases h
  rw [zip_map_self] at hrun
  obtain ⟨⟨path, g⟩, rest, rfl⟩ := List.exists_cons_of_ne_nil hne
  have hname := isName_modelFileName g.name o.target
  obtain ⟨text, htext, hrun⟩ := bind_eq_ok.mp hrun
  obtain ⟨next, hsave, hrun⟩ := bind_eq_ok.mp hrun
  obtain ⟨made, position, hgrows, hsettled, hmade⟩ := exists_settled hname hsave
  refine ⟨made, position, hgrows, hmade, ?_, ?_⟩
  · have hwalk := hsettled.room.walk
    rwa [Disk.origin, hgrows.here] at hwalk
  · have hfirst : save made (outPath dir o.target.fileExtension (path, g)) text = .ok next :=
      (hsettled.save_eq hmade hname text).symm.trans hsave
    have hagain : generateEach o made (((path, g) :: rest).map fun x =>
        (x, outPath dir o.target.fileExtension x)) = .ok e :=
      bind_eq_ok.mpr ⟨text, htext, bind_eq_ok.mpr ⟨next, hfirst, hrun⟩⟩
    exact hsettled.generateEach hagain

theorem suffix_modelFileName (grammarName fileExtension : String) :
    ("_model." ++ fileExtension).toList <:+ (modelFileName grammarName fileExtension).toList := by
  rw [toList_modelFileName]
  exact List.suffix_append _ _

/-- What keeps a name inside a directory. -/
structure StaysInside (name : String) : Prop where
  nonempty : name ≠ ""
  here : name ≠ "."
  up : name ≠ ".."
  slash : '/' ∉ name.toList
  nul : '\x00' ∉ name.toList

theorem StaysInside.of_isName {name : String} (h : Path.IsName name) (hnul : '\x00' ∉ name.toList) :
    StaysInside name where
  nonempty := by
    rintro rfl
    exact h.ne_nil rfl
  here := h.ne_here
  up := h.ne_up
  slash := h.slash
  nul := hnul

/-- Whatever the names of grammars are, their files have names without slash and null character
that are no dots, so that every output is right in the output directory, and a batch changes
nothing else than it would with harmless names. -/
theorem outputs_stay_inside (t : Target) :
    (∀ grammarName, StaysInside (modelFileName grammarName t.fileExtension) ∧
      ("_model." ++ t.fileExtension).toList <:+
        (modelFileName grammarName t.fileExtension).toList) ∧
    (∀ dir grammars outs, assignOutputs dir t.fileExtension grammars = .ok outs →
      ∀ out ∈ outs, ∃ x ∈ grammars,
        Path.parts out = Path.parts dir ++ [modelFileName x.2.name t.fileExtension] ∧
          Path.isAbsolute out = Path.isAbsolute dir) ∧
    ∀ o d dir grammars a, o.target = t → grammars ≠ [] →
      generateMany o d dir grammars = .ok a → ∃ made position, d.Grows made ∧
        (∀ n, Path.IsName n → prepare d (Path.join dir n) = .ok made) ∧
        Disk.walk made.root (d.origin dir) (Path.parts dir) = .ok position ∧
        ∀ q, a.disk.kind? q = made.kind? q ∨
          ∃ x ∈ grammars, q = position ++ [modelFileName x.2.name t.fileExtension] := by
  refine ⟨fun grammarName => ⟨?_, suffix_modelFileName grammarName t.fileExtension⟩,
    fun _ _ _ h => child_of_assigned h, ?_⟩
  · exact .of_isName (isName_modelFileName grammarName t) (nul_notMem_modelFileName grammarName t)
  · rintro o d dir grammars a rfl hne h
    exact exists_directory_of_generateMany hne h

/-- A name that would lead out of the directory if it were taken as it stands. -/
def dots : List (String × Grammar) := [("a.json", ⟨"../x", []⟩)]

theorem modelFileName_dots : modelFileName "../x" "py" = "___x_model.py" := by decide +kernel

theorem assignOutputs_dots : assignOutputs "out" "py" dots = .ok ["out/___x_model.py"] := by
  refine assignOutputs_eq_ok.mpr ⟨?_, List.nodup_singleton _⟩
  rw [dots, List.map_singleton, outPath, modelFileName_dots]
  rfl

unseal ClassOrder.run in
theorem source_dots : ∃ text, Grammar.source twoOptions ⟨"../x", []⟩ = .ok text := ⟨_, rfl⟩

theorem generateMany_dots : ∃ a, generateMany twoOptions twoGrammars "out" dots = .ok a := by
  obtain ⟨text, htext⟩ := source_dots
  obtain ⟨e, hsave⟩ : ∃ e, save twoGrammars "out/___x_model.py" text = .ok e :=
    ⟨_, save_in_out (by decide) rfl⟩
  have heach : generateEach twoOptions twoGrammars (dots.zip ["out/___x_model.py"]) = .ok e :=
    bind_eq_ok.mpr ⟨text, mapError_eq_ok.mpr htext, bind_eq_ok.mpr ⟨e, hsave, rfl⟩⟩
  exact ⟨_, bind_eq_ok.mpr ⟨_, assignOutputs_dots, bind_eq_ok.mpr ⟨e, heach, rfl⟩⟩⟩

/-- A grammar with the name `../x` goes to a file in the directory, and to no other place. -/
theorem outputs_stay_inside_of_dots :
    (∀ out ∈ ["out/___x_model.py"], ∃ x ∈ dots,
      Path.parts out = Path.parts "out" ++ [modelFileName x.2.name "py"] ∧
        Path.isAbsolute out = Path.isAbsolute "out") ∧
    ∃ a, generateMany twoOptions twoGrammars "out" dots = .ok a ∧ ∃ made position,
      twoGrammars.Grows made ∧
      (∀ n, Path.IsName n → prepare twoGrammars (Path.join "out" n) = .ok made) ∧
      Disk.walk made.root (twoGrammars.origin "out") (Path.parts "out") = .ok position ∧
      ∀ q, a.disk.kind? q = made.kind? q ∨
        ∃ x ∈ dots, q = position ++ [modelFileName x.2.name "py"] := by
  obtain ⟨-, hchild, hbatch⟩ := outputs_stay_inside .python
  obtain ⟨a, ha⟩ := generateMany_dots
  exact ⟨hchild "out" dots _ assignOutputs_dots, a, ha,
    hbatch twoOptions twoGrammars "out" dots a rfl (List.cons_ne_nil _ _) ha⟩

end RuleClasses.CommandLine
