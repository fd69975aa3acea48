import RuleClasses.CommandLine.Run
import RuleClasses.Proofs.Answers
import RuleClasses.Proofs.Paths
import Mathlib.Data.List.Nodup

/-! Where the outputs of several grammars go. Each grammar has a file named after it, and the
outputs stand in the order of the grammars. Two grammars with one file name are refused: those of
the first clash, whatever stands behind it. -/

namespace RuleClasses.CommandLine

open Files

variable {dir fileExtension : String} {grammars : List (String × Grammar)}

/-! ## Names of outputs -/

/-- The part of a file name that comes from the grammar. -/
def modelStem (grammarName : String) : String :=
  Text.lowercase (Text.identifier (fun _ => false) grammarName)

theorem modelFileName_eq (grammarName fileExtension : String) :
    modelFileName grammarName fileExtension =
      modelStem grammarName ++ "_model." ++ fileExtension := rfl

theorem toList_modelFileName (grammarName fileExtension : String) :
    (modelFileName grammarName fileExtension).toList =
      (modelStem grammarName).toList ++ ("_model." ++ fileExtension).toList := by
  rw [modelFileName_eq, String.append_assoc, String.toList_append]

/-- Lower case brings no new character in front of the small letters, so that what an identifier
cannot hold is not there either. -/
theorem notMem_modelStem {c : Char} (hc : c < 'a') (hword : Text.isWordChar c = false)
    (grammarName : String) : c ∉ (modelStem grammarName).toList :=
  Text.notMem_lowercase hc (Text.notMem_identifier hword (fun _ => false) grammarName)

/-- The two characters that no name of a file can hold. -/
theorem isWordChar_slash_nul : Text.isWordChar '/' = false ∧ Text.isWordChar '\x00' = false := by
  decide +kernel

theorem slash_notMem_modelStem (grammarName : String) : '/' ∉ (modelStem grammarName).toList :=
  notMem_modelStem (by decide) isWordChar_slash_nul.1 grammarName

theorem nul_notMem_modelStem (grammarName : String) : '\x00' ∉ (modelStem grammarName).toList :=
  notMem_modelStem (by decide) isWordChar_slash_nul.2 grammarName

theorem isName_modelFileName (grammarName : String) (t : Target) :
    Path.IsName (modelFileName grammarName t.fileExtension) := by
  have hword := slash_notMem_modelStem grammarName
  rw [modelFileName_eq]
  cases t with
  | python =>
    refine ⟨?_, 'y', ?_, by decide⟩
    · simp [hword, Target.fileExtension]
    · simp [Target.fileExtension]
  | rust =>
    refine ⟨?_, 's', ?_, by decide⟩
    · simp [hword, Target.fileExtension]
    · simp [Target.fileExtension]

/-- No name leads to the root, whatever the extension is. -/
theorem isAbsolute_modelFileName (grammarName fileExtension : String) :
    Path.isAbsolute (modelFileName grammarName fileExtension) = false := by
  have hstem := slash_notMem_modelStem grammarName
  rw [Path.isAbsolute, toList_modelFileName]
  cases hchars : (modelStem grammarName).toList with
  | nil => simp
  | cons c rest =>
    rw [hchars] at hstem
    have hne : c ≠ '/' := fun he => hstem (he ▸ List.mem_cons_self)
    simpa using hne

/-- Outputs with different names are different paths, also when paths are compared part by part. -/
theorem modelFileName_eq_of_parts {name name' : String}
    (h : Path.parts (Path.join dir (modelFileName name fileExtension)) =
      Path.parts (Path.join dir (modelFileName name' fileExtension))) :
    modelFileName name fileExtension = modelFileName name' fileExtension := by
  rw [Path.parts_join_append (isAbsolute_modelFileName name fileExtension),
    Path.parts_join_append (isAbsolute_modelFileName name' fileExtension), toList_modelFileName,
    toList_modelFileName] at h
  have hstem := Path.partsOf_append_inj (slash_notMem_modelStem name)
    (slash_notMem_modelStem name') ⟨'_', by simp, by decide⟩ (List.append_cancel_left h)
  rw [modelFileName_eq, modelFileName_eq, String.toList_inj.mp hstem]

/-! ## One output for each grammar -/

/-- The output of a grammar, which comes with its input. -/
def outPath (dir fileExtension : String) (x : String × Grammar) : String :=
  Path.join dir (modelFileName x.2.name fileExtension)

section

variable {before : List (String × String)} {x : String × Grammar}

theorem assignOutputsFrom_taken {first : String}
    (h : Keyed.get? (outPath dir fileExtension x) before = some first) :
    assignOutputsFrom dir fileExtension before (x :: grammars) =
      .error (.sameOutput first x.1 (outPath dir fileExtension x)) := by
  rw [outPath] at h
  rw [assignOutputsFrom, h]
  rfl

theorem assignOutputsFrom_new (h : Keyed.get? (outPath dir fileExtension x) before = none) :
    assignOutputsFrom dir fileExtension before (x :: grammars) =
      (assignOutputsFrom dir fileExtension (before ++ [(outPath dir fileExtension x, x.1)])
        grammars).map (outPath dir fileExtension x :: ·) := by
  rw [outPath] at h
  rw [assignOutputsFrom, h]
  rfl

theorem assignOutputsFrom_eq_ok {outs : List String} :
    assignOutputsFrom dir fileExtension before grammars = .ok outs ↔
      outs = grammars.map (outPath dir fileExtension) ∧
        outs.Nodup ∧ ∀ out ∈ outs, out ∉ Keyed.keys before := by
  induction grammars generalizing before outs with
  | nil =>
    refine ⟨fun h => ?_, fun h => congrArg _ h.1.symm⟩
    cases h
    exact ⟨rfl, List.nodup_nil, List.forall_mem_nil _⟩
  | cons x rest ih =>
    have hkeys (k : String) : k ∈ Keyed.keys (before ++ [(outPath dir fileExtension x, x.1)]) ↔
        k ∈ Keyed.keys before ∨ k = outPath dir fileExtension x := by simp [Keyed.keys]
    cases hbefore : Keyed.get? (outPath dir fileExtension x) before with
    | some first =>
      rw [assignOutputsFrom_taken hbefore]
      constructor
      · intro h
        cases h
      · rintro ⟨houts, -, hnew⟩
        have hnone := Keyed.get?_eq_none.mpr
          (hnew (outPath dir fileExtension x) (houts ▸ List.mem_cons_self))
        rw [hbefore] at hnone
        cases hnone
    | none =>
      rw [assignOutputsFrom_new hbefore, List.map_cons]
      simp only [map_eq_ok, ih, hkeys, not_or]
      constructor
      · rintro ⟨outs, ⟨houts, hnodup, hnew⟩, rfl⟩
        refine ⟨congrArg _ houts, List.nodup_cons.mpr ⟨fun h => (hnew _ h).2 rfl, hnodup⟩, ?_⟩
        exact List.forall_mem_cons.mpr ⟨Keyed.get?_eq_none.mp hbefore, fun k hk => (hnew k hk).1⟩
      · rintro ⟨rfl, hnodup, hnew⟩
        rw [List.nodup_cons] at hnodup
        refine ⟨_, ⟨rfl, hnodup.2, fun k hk => ⟨hnew k (List.mem_cons_of_mem _ hk), ?_⟩⟩, rfl⟩
        rintro rfl
        exact hnodup.1 hk

/-- A refusal comes from the first grammar whose output is taken; those in front have outputs of
their own. -/
theorem exists_of_assignOutputsFrom_error {failure : Failure}
    (h : assignOutputsFrom dir fileExtension before grammars = .error failure) :
    ∃ front x rest first, grammars = front ++ x :: rest ∧
      (∃ outs, assignOutputsFrom dir fileExtension before front = .ok outs) ∧
      Keyed.get? (outPath dir fileExtension x)
        (before ++ front.map fun y => (outPath dir fileExtension y, y.1)) = some first ∧
      failure = .sameOutput first x.1 (outPath dir fileExtension x) := by
  induction grammars generalizing before with
  | nil => cases h
  | cons x rest ih =>
    cases hbefore : Keyed.get? (outPath dir fileExtension x) before with
    | some first =>
      rw [assignOutputsFrom_taken hbefore] at h
      refine ⟨[], x, rest, first, rfl, ⟨[], rfl⟩, ?_, (Except.error.inj h).symm⟩
      rwa [List.map_nil, List.append_nil]
    | none =>
      rw [assignOutputsFrom_new hbefore, map_eq_error] at h
      obtain ⟨front, y, behind, first, rfl, ⟨outs, houts⟩, hfound, hfailure⟩ := ih h
      refine ⟨x :: front, y, behind, first, rfl, ?_, ?_, hfailure⟩
      · rw [assignOutputsFrom_new hbefore, houts]
        exact ⟨_, rfl⟩
      · rw [← hfound, List.map_cons, List.append_assoc, List.singleton_append]

end

theorem nodup_outputs_iff {α : Type} {f : String → α}
    (hf : ∀ name name', f (modelFileName name fileExtension) =
      f (modelFileName name' fileExtension) →
        modelFileName name fileExtension = modelFileName name' fileExtension) :
    (grammars.map fun x => f (modelFileName x.2.name fileExtension)).Nodup ↔
      (grammars.map fun x => modelFileName x.2.name fileExtension).Nodup := by
  have hmap : (grammars.map fun x => f (modelFileName x.2.name fileExtension)) =
      (grammars.map fun x => modelFileName x.2.name fileExtension).map f := by
    rw [List.map_map]
    rfl
  rw [hmap]
  refine ⟨List.Nodup.of_map f, List.Nodup.map_on fun a ha b hb h => ?_⟩
  obtain ⟨x, -, rfl⟩ := List.mem_map.mp ha
  obtain ⟨y, -, rfl⟩ := List.mem_map.mp hb
  exact hf _ _ h

theorem assignOutputs_eq_ok {outs : List String} :
    assignOutputs dir fileExtension grammars = .ok outs ↔
      outs = grammars.map (outPath dir fileExtension) ∧
        (grammars.map fun x => modelFileName x.2.name fileExtension).Nodup := by
  have hnodup : (grammars.map (outPath dir fileExtension)).Nodup ↔
      (grammars.map fun x => modelFileName x.2.name fileExtension).Nodup :=
    nodup_outputs_iff (f := Path.join dir)
      fun _ _ h => modelFileName_eq_of_parts (congrArg Path.parts h)
  rw [assignOutputs, assignOutputsFrom_eq_ok]
  refine and_congr_right fun houts => ?_
  subst houts
  exact ⟨fun h => hnodup.mp h.1, fun h => ⟨hnodup.mpr h, fun _ _ => List.not_mem_nil⟩⟩

theorem nodup_parts_iff : ((grammars.map (outPath dir fileExtension)).map Path.parts).Nodup ↔
    (grammars.map fun x => modelFileName x.2.name fileExtension).Nodup := by
  simp only [List.map_map, Function.comp_def, outPath]
  exact nodup_outputs_iff (f := fun n => Path.parts (Path.join dir n))
    fun _ _ h => modelFileName_eq_of_parts h

/-! ## Clashes -/

/-- Two grammars with one file name, by their places. -/
def Clash (fileExtension : String) (grammars : List (String × Grammar)) (i j : Nat) : Prop :=
  i < j ∧ ∃ x y, grammars[i]? = some x ∧ grammars[j]? = some y ∧
    modelFileName x.2.name fileExtension = modelFileName y.2.name fileExtension

/-- The clash at which one stops who goes through the grammars from the front. -/
structure FirstClash (fileExtension : String) (grammars : List (String × Grammar)) (i j : Nat)
    (x y : String × Grammar) : Prop where
  before : i < j
  first : grammars[i]? = some x
  second : grammars[j]? = some y
  sameName : modelFileName x.2.name fileExtension = modelFileName y.2.name fileExtension
  least : ∀ k l, Clash fileExtension grammars k l → j ≤ l

section

variable {i j i' j' : Nat} {x y x' y' : String × Grammar}

theorem FirstClash.clash (h : FirstClash fileExtension grammars i j x y) :
    Clash fileExtension grammars i j := ⟨h.before, x, y, h.first, h.second, h.sameName⟩

theorem nodup_iff_no_clash :
    (grammars.map fun x => modelFileName x.2.name fileExtension).Nodup ↔
      ∀ i j, ¬ Clash fileExtension grammars i j := by
  rw [List.nodup_iff_getElem?_ne_getElem?]
  constructor
  · rintro h i j ⟨hij, x, y, hx, hy, hsame⟩
    have hj := (List.getElem?_eq_some_iff.mp hy).1
    refine h i j hij (by rwa [List.length_map]) ?_
    rw [List.getElem?_map, List.getElem?_map, hx, hy, Option.map_some, Option.map_some, hsame]
  · intro h i j hij hj hsame
    rw [List.length_map] at hj
    rw [List.getElem?_map, List.getElem?_map, List.getElem?_eq_getElem hj,
      List.getElem?_eq_getElem (Nat.lt_trans hij hj)] at hsame
    exact h i j ⟨hij, _, _, List.getElem?_eq_getElem (Nat.lt_trans hij hj),
      List.getElem?_eq_getElem hj, Option.some.inj hsame⟩

theorem FirstClash.unique (h : FirstClash fileExtension grammars i j x y)
    (h' : FirstClash fileExtension grammars i' j' x' y') : x = x' ∧ y = y' := by
  obtain rfl : j = j' := Nat.le_antisymm (h.least _ _ h'.clash) (h'.least _ _ h.clash)
  have hy : y = y' := Option.some.inj (h.second.symm.trans h'.second)
  subst hy
  -- Were there two grammars in front with that name, they would have clashed before.
  have hearlier {i i' : Nat} {x x' : String × Grammar}
      (h : FirstClash fileExtension grammars i j x y)
      (h' : FirstClash fileExtension grammars i' j x' y) : ¬ i < i' := fun hlt =>
    Nat.not_le_of_lt h'.before
      (h.least i i' ⟨hlt, x, x', h.first, h'.first, h.sameName.trans h'.sameName.symm⟩)
  obtain rfl : i = i' :=
    Nat.le_antisymm (Nat.le_of_not_lt (hearlier h' h)) (Nat.le_of_not_lt (hearlier h h'))
  exact ⟨Option.some.inj (h.first.symm.trans h'.first), rfl⟩

theorem Clash.of_append {more : List (String × Grammar)}
    (h : Clash fileExtension (grammars ++ more) i j) (hj : j < grammars.length) :
    Clash fileExtension grammars i j := by
  obtain ⟨hij, x, y, hx, hy, hsame⟩ := h
  rw [List.getElem?_append_left (Nat.lt_trans hij hj)] at hx
  rw [List.getElem?_append_left hj] at hy
  exact ⟨hij, x, y, hx, hy, hsame⟩

/-- What follows a clash makes none before it. -/
theorem FirstClash.append (h : FirstClash fileExtension grammars i j x y)
    (more : List (String × Grammar)) :
    FirstClash fileExtension (grammars ++ more) i j x y := by
  have hi := (List.getElem?_eq_some_iff.mp h.first).1
  have hj := (List.getElem?_eq_some_iff.mp h.second).1
  refine ⟨h.before, ?_, ?_, h.sameName, fun k l hkl => ?_⟩
  · rw [List.getElem?_append_left hi, h.first]
  · rw [List.getElem?_append_left hj, h.second]
  · by_cases hl : l < grammars.length
    · exact h.least k l (hkl.of_append hl)
    · omega

end

theorem exists_firstClash {failure : Failure}
    (h : assignOutputs dir fileExtension grammars = .error failure) :
    ∃ i j x y, FirstClash fileExtension grammars i j x y ∧
      failure = .sameOutput x.1 y.1 (outPath dir fileExtension y) := by
  obtain ⟨front, y, rest, source, rfl, ⟨outs, houts⟩, hfound, hfailure⟩ :=
    exists_of_assignOutputsFrom_error h
  obtain ⟨x, hx, hsource, hpath⟩ : ∃ x ∈ front, x.1 = source ∧
      outPath dir fileExtension x = outPath dir fileExtension y := by
    rw [List.nil_append, Keyed.get?, List.find?_map, Option.map_map] at hfound
    obtain ⟨x, hx, hsource⟩ := Option.map_eq_some_iff.mp hfound
    exact ⟨x, List.mem_of_find?_eq_some hx, hsource, by simpa using List.find?_some hx⟩
  subst hsource
  obtain ⟨i, hi, rfl⟩ := List.mem_iff_getElem.mp hx
  have hname := modelFileName_eq_of_parts (congrArg Path.parts hpath)
  refine ⟨i, front.length, _, y, ⟨hi, ?_, ?_, hname, fun k l hkl => ?_⟩, hfailure⟩
  · rw [List.getElem?_append_left hi, List.getElem?_eq_getElem hi]
  · rw [List.getElem?_append_right (Nat.le_refl _), Nat.sub_self, List.getElem?_cons_zero]
  · refine Nat.le_of_not_lt fun hl => ?_
    exact nodup_iff_no_clash.mp (assignOutputs_eq_ok.mp houts).2 k l (hkl.of_append hl)

theorem assignOutputs_eq_error {failure : Failure} :
    assignOutputs dir fileExtension grammars = .error failure ↔
      ∃ i j x y, FirstClash fileExtension grammars i j x y ∧
        failure = .sameOutput x.1 y.1 (outPath dir fileExtension y) := by
  refine ⟨exists_firstClash, ?_⟩
  rintro ⟨i, j, x, y, hclash, rfl⟩
  cases h : assignOutputs dir fileExtension grammars with
  | ok outs => exact absurd hclash.clash (nodup_iff_no_clash.mp (assignOutputs_eq_ok.mp h).2 i j)
  | error failure =>
    obtain ⟨i', j', x', y', hclash', rfl⟩ := exists_firstClash h
    obtain ⟨rfl, rfl⟩ := hclash.unique hclash'
    rfl

/-- Either every grammar has its output, in the order of the grammars, or two of them have the
same; then the clash that ends first is told, with both inputs and the output. -/
theorem outputs_or_clash (dir fileExtension : String) (grammars : List (String × Grammar)) :
    (∀ outs, assignOutputs dir fileExtension grammars = .ok outs ↔
      outs = (grammars.map fun x => Path.join dir (modelFileName x.2.name fileExtension)) ∧
        (outs.map Path.parts).Nodup) ∧
    ((∃ failure, assignOutputs dir fileExtension grammars = .error failure) ↔
      ∃ i j, Clash fileExtension grammars i j) ∧
    (∀ failure, assignOutputs dir fileExtension grammars = .error failure ↔
      ∃ i j x y, FirstClash fileExtension grammars i j x y ∧
        failure = .sameOutput x.1 y.1 (Path.join dir (modelFileName y.2.name fileExtension)) ∧
        failure.message = x.1 ++ " and " ++ y.1 ++ " both generate " ++
          Path.join dir (modelFileName y.2.name fileExtension)) ∧
    ∀ failure more, assignOutputs dir fileExtension grammars = .error failure →
      assignOutputs dir fileExtension (grammars ++ more) = .error failure := by
  refine ⟨fun outs => ?_, ?_, fun failure => ?_, fun failure more h => ?_⟩
  · rw [assignOutputs_eq_ok]
    refine and_congr_right fun houts => ?_
    rw [houts]
    exact nodup_parts_iff.symm
  · constructor
    · rintro ⟨failure, h⟩
      obtain ⟨i, j, x, y, hclash, -⟩ := exists_firstClash h
      exact ⟨i, j, hclash.clash⟩
    · rintro ⟨i, j, hclash⟩
      cases h : assignOutputs dir fileExtension grammars with
      | ok outs => exact absurd hclash (nodup_iff_no_clash.mp (assignOutputs_eq_ok.mp h).2 i j)
      | error failure => exact ⟨failure, rfl⟩
  · rw [assignOutputs_eq_error]
    refine exists_congr fun i => exists_congr fun j => exists_congr fun x => exists_congr fun y =>
      and_congr_right fun _ => ⟨fun h => ⟨h, ?_⟩, And.left⟩
    rw [h]
    rfl
  · obtain ⟨i, j, x, y, hclash, hfailure⟩ := assignOutputs_eq_error.mp h
    exact assignOutputs_eq_error.mpr ⟨i, j, x, y, hclash.append more, hfailure⟩

/-- Names that differ in their capitals alone go to one file. A third grammar with that name does
not change the answer. -/
theorem outputs_or_clash_of_capitals :
    assignOutputs "out" "py" [("a.json", ⟨"Calc", []⟩), ("b.json", ⟨"calc", []⟩)] =
      .error (.sameOutput "a.json" "b.json" "out/calc_model.py") ∧
    assignOutputs "out" "py" ([("a.json", ⟨"Calc", []⟩), ("b.json", ⟨"calc", []⟩)] ++
      [("c.json", ⟨"CALC", []⟩)]) =
      .error (.sameOutput "a.json" "b.json" "out/calc_model.py") := by
  have hcapital : modelFileName "Calc" "py" = "calc_model.py" := by rfl
  have hsmall : modelFileName "calc" "py" = "calc_model.py" := by rfl
  have hclash : FirstClash "py" [("a.json", ⟨"Calc", []⟩), ("b.json", ⟨"calc", []⟩)] 0 1
      ("a.json", ⟨"Calc", []⟩) ("b.json", ⟨"calc", []⟩) :=
    ⟨Nat.zero_lt_one, rfl, rfl, hcapital.trans hsmall.symm,
      fun k _ h => Nat.succ_le_of_lt (Nat.lt_of_le_of_lt (Nat.zero_le k) h.1)⟩
  obtain ⟨-, -, herror, hmore⟩ := outputs_or_clash "out" "py"
    [("a.json", ⟨"Calc", []⟩), ("b.json", ⟨"calc", []⟩)]
  have hpath : Path.join "out" (modelFileName "calc" "py") = "out/calc_model.py" := by
    rw [hsmall]
    rfl
  have h := (herror (.sameOutput "a.json" "b.json" "out/calc_model.py")).mpr
    ⟨0, 1, _, _, hclash, by rw [hpath], by rw [hpath]; rfl⟩
  exact ⟨h, hmore _ [("c.json", ⟨"CALC", []⟩)] h⟩

end RuleClasses.CommandLine
