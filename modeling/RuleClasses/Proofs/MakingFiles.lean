import RuleClasses.Proofs.FileTrees
import RuleClasses.Proofs.Paths

/-! What becomes of a tree when directories are made and files are written. Making directories
never takes anything away. A file that is written stands where its path leads, and nothing else
is different. -/

namespace RuleClasses.Files.Disk

variable {d e : Disk} {position p parts : List String} {part : String}

/-! ## Paths -/

variable {path name : String} {above : List String}

/-- A slash at the end of a path asks for a directory. -/
def slashParts (path : String) : List String := if Path.endsInSlash path then ["."] else []

theorem find_eq_ok : d.find path = .ok p ↔ checkPath path = .ok () ∧
    ∃ q, walk d.root (d.origin path) (Path.parts path) = .ok q ∧
      walk d.root q (slashParts path) = .ok p := by
  rw [find, bind_unit_eq_ok, ← walk_append_eq_ok]
  rfl

theorem isDir_iff : d.isDir path = true ↔ ∃ p, d.find path = .ok p ∧ d.kind? p = some .dir := by
  unfold isDir node? kind?
  cases d.find path with
  | error e => simp
  | ok p =>
    simp only [Except.ok.injEq, exists_eq_left']
    cases d.root.at? p with
    | none => simp
    | some t => cases t <;> simp [Node.isDir, Node.kind]

/-- A path whose last part is the name under which something can be made. -/
structure Names (path : String) (above : List String) (name : String) : Prop where
  parts : Path.parts path = above ++ [name]
  here : name ≠ "."
  up : name ≠ ".."

/-- A path leads to its last name if the directory and the name are there. -/
theorem Names.walk (h : Names path above name) {start : List String}
    (hwalk : Disk.walk d.root start above = .ok position) (hdir : d.kind? position = some .dir)
    (hname : checkName name = .ok ()) (hthere : (d.kind? (position ++ [name])).isSome) :
    Disk.walk d.root start (Path.parts path) = .ok (position ++ [name]) := by
  rw [h.parts, walk_append_eq_ok]
  refine ⟨position, hwalk, walk_cons_iff.mpr ⟨⟨hdir, fun _ _ => ⟨hname, hthere⟩⟩, ?_⟩⟩
  rw [next, if_neg h.here, if_neg h.up]
  rfl

theorem target_named (h : Names path above name) : d.target path =
    (checkPath path >>= fun _ => walk d.root (d.origin path) above >>= fun position =>
      if d.kind? position = some .dir then .ok (position, some name)
      else .error .notDirectory) := by
  rw [target, h.parts]
  dsimp only
  rw [List.getLast?_concat, List.dropLast_concat]
  refine congrArg (checkPath path >>= ·) (funext fun _ => ?_)
  split
  · rename_i hnone
    cases hnone
  · rename_i hdot
    exact absurd (Option.some.inj hdot) h.here
  · rename_i hdots
    exact absurd (Option.some.inj hdots) h.up
  · rename_i hname
    cases hname
    refine congrArg _ (funext fun position => ?_)
    unfold kind?
    cases d.root.at? position with
    | none => rfl
    | some t => cases t <;> rfl

theorem target_dots (h : ¬ ∃ above name, Names path above name) : d.target path =
    (checkPath path >>= fun _ =>
      if Path.parts path = [] then .ok ([], none)
      else (walk d.root (d.origin path) (Path.parts path)).map fun position =>
        (position, none)) := by
  have hmap (x : Except OsError (List String)) :
      (x >>= fun position => .ok (position, none)) =
        x.map fun position => (position, (none : Option String)) := by
    cases x <;> rfl
  rw [target]
  refine congrArg (checkPath path >>= ·) (funext fun _ => ?_)
  dsimp only
  cases hlast : (Path.parts path).getLast? with
  | none => rw [if_pos (List.getLast?_eq_none_iff.mp hlast)]; rfl
  | some name =>
    obtain ⟨above, hparts⟩ := List.getLast?_eq_some_iff.mp hlast
    rw [if_neg (by rw [hparts]; simp), ← hmap]
    by_cases hdot : name = "."
    · subst hdot; rfl
    · by_cases hdots : name = ".."
      · subst hdots; rfl
      · exact absurd ⟨above, name, hparts, hdot, hdots⟩ h

theorem target_eq_ok : d.target path = .ok (position, some name) ↔ checkPath path = .ok () ∧
    ∃ above, Names path above name ∧ walk d.root (d.origin path) above = .ok position ∧
      d.kind? position = some .dir := by
  constructor
  · intro h
    by_cases hnames : ∃ above name, Names path above name
    · obtain ⟨above, name', hnames⟩ := hnames
      rw [target_named hnames, bind_unit_eq_ok, bind_eq_ok] at h
      obtain ⟨hcheck, position', hwalk, h⟩ := h
      split at h
      · cases h
        exact ⟨hcheck, above, hnames, hwalk, ‹_›⟩
      · cases h
    · rw [target_dots hnames, bind_unit_eq_ok] at h
      obtain ⟨-, h⟩ := h
      split at h
      · cases h
      · obtain ⟨_, -, h⟩ := map_eq_ok.mp h
        cases h
  · rintro ⟨hcheck, above, hnames, hwalk, hdir⟩
    rw [target_named hnames, hcheck, hwalk]
    exact if_pos hdir

/-! ## Making directories -/

theorem makeDirectory_eq (d : Disk) (path : String) : d.makeDirectory path =
    (d.target path >>= fun
      | (_, none) => .error .exists
      | (position, some name) => checkName name >>= fun _ =>
        if d.kind? (position ++ [name]) = none then .ok (d.put (position ++ [name]) (.dir []))
        else .error .exists) := by
  rw [makeDirectory]
  refine congrArg (d.target path >>= ·) (funext fun (position, name) => ?_)
  cases name with
  | none => rfl
  | some name =>
    refine congrArg (checkName name >>= ·) (funext fun _ => ?_)
    unfold kind?
    cases d.root.at? (position ++ [name]) with
    | none => exact (if_pos rfl).symm
    | some _ => exact (if_neg nofun).symm

theorem makeDirectory_eq_ok : d.makeDirectory path = .ok e ↔ ∃ position name,
    d.target path = .ok (position, some name) ∧ checkName name = .ok () ∧
      d.kind? (position ++ [name]) = none ∧ e = d.put (position ++ [name]) (.dir []) := by
  rw [makeDirectory_eq, bind_eq_ok]
  constructor
  · rintro ⟨⟨position, name⟩, htarget, h⟩
    cases name with
    | none => cases h
    | some name =>
      obtain ⟨hname, h⟩ := bind_unit_eq_ok.mp h
      split at h
      · cases h
        exact ⟨position, name, htarget, hname, ‹_›, rfl⟩
      · cases h
  · rintro ⟨position, name, htarget, hname, hnone, rfl⟩
    exact ⟨_, htarget, bind_unit_eq_ok.mpr ⟨hname, if_pos hnone⟩⟩

/-- Directories may have come; nothing else is new. -/
structure Grows (d e : Disk) : Prop where
  here : e.workingDirectory = d.workingDirectory
  kinds : ∀ q, e.kind? q = d.kind? q ∨ d.kind? q = none ∧ e.kind? q = some .dir

theorem Grows.refl (d : Disk) : Grows d d := ⟨rfl, fun _ => .inl rfl⟩

theorem Grows.trans {f : Disk} (h : Grows d e) (h' : Grows e f) : Grows d f := by
  refine ⟨h'.here.trans h.here, fun q => ?_⟩
  rcases h.kinds q with hde | ⟨hd, he⟩
  · rw [← hde]; exact h'.kinds q
  · rcases h'.kinds q with hef | ⟨he', -⟩
    · exact .inr ⟨hd, hef.trans he⟩
    · rw [he] at he'; cases he'

theorem Grows.keeps (h : Grows d e) : Keeps d e where
  here := h.here
  dirs q hq := by
    rcases h.kinds q with heq | ⟨hnone, -⟩
    · rw [heq, hq]
    · rw [hnone] at hq; cases hq
  names q hq := by
    rcases h.kinds q with heq | ⟨hnone, -⟩
    · rwa [heq]
    · rw [hnone] at hq; cases hq

theorem kind?_makeDirectory (hdir : d.kind? position = some .dir)
    (hnone : d.kind? (position ++ [name]) = none) (q : List String) :
    (d.put (position ++ [name]) (.dir [])).kind? q =
      if q = position ++ [name] then some .dir else d.kind? q :=
  kind?_put Node.isLeaf_dir hdir (by rw [hnone]; nofun) q

theorem grows_put (hdir : d.kind? position = some .dir)
    (hnone : d.kind? (position ++ [name]) = none) :
    Grows d (d.put (position ++ [name]) (.dir [])) := by
  refine ⟨rfl, fun q => ?_⟩
  rw [kind?_makeDirectory hdir hnone]
  split
  · rename_i hq
    exact .inr ⟨hq ▸ hnone, rfl⟩
  · exact .inl rfl

theorem walk_slashParts (h : d.kind? p = some .dir) : walk d.root p (slashParts path) = .ok p := by
  unfold slashParts
  split
  · exact walk_cons_iff.mpr ⟨⟨h, fun hne => absurd rfl hne⟩, rfl⟩
  · rfl

theorem isDir_of_walk (hcheck : checkPath path = .ok ())
    (hwalk : walk d.root (d.origin path) (Path.parts path) = .ok p) (h : d.kind? p = some .dir) :
    d.isDir path = true :=
  isDir_iff.mpr ⟨p, find_eq_ok.mpr ⟨hcheck, p, hwalk, walk_slashParts h⟩, h⟩

theorem grows_makeDirectory (h : d.makeDirectory path = .ok e) : Grows d e ∧ e.isDir path := by
  obtain ⟨position, name, htarget, hname, hnone, rfl⟩ := makeDirectory_eq_ok.mp h
  obtain ⟨hcheck, above, hnames, hwalk, hdir⟩ := target_eq_ok.mp htarget
  have hgrows := grows_put hdir hnone
  have hnew : (d.put (position ++ [name]) (.dir [])).kind? (position ++ [name]) = some .dir := by
    rw [kind?_makeDirectory hdir hnone, if_pos rfl]
  refine ⟨hgrows, isDir_of_walk hcheck ?_ hnew⟩
  exact hnames.walk (hgrows.keeps.walk hwalk) (hgrows.keeps.dirs _ hdir) hname (by rw [hnew]; rfl)

theorem grows_ensureDirectory (h : d.ensureDirectory path = .ok e) : Grows d e ∧ e.isDir path := by
  unfold ensureDirectory at h
  cases hmake : d.makeDirectory path with
  | ok e' =>
    rw [hmake] at h
    cases h
    exact grows_makeDirectory hmake
  | error err =>
    rw [hmake] at h
    simp only at h
    split at h
    · cases h
      exact ⟨.refl d, ‹_›⟩
    · cases h

theorem makeDirectories_root (h : d.makeDirectory path = .error .notFound)
    (hparent : Path.parent? path = none) : d.makeDirectories path = .error .notFound := by
  rw [makeDirectories, h]
  dsimp only
  split
  · rfl
  · rename_i habove
    rw [hparent] at habove
    cases habove

theorem makeDirectories_above {above : String} (h : d.makeDirectory path = .error .notFound)
    (hparent : Path.parent? path = some above) : d.makeDirectories path =
      (if above = "" then .ok d else d.makeDirectories above) >>= fun d =>
        d.ensureDirectory path := by
  rw [makeDirectories, h]
  dsimp only
  split
  · rename_i hnone
    rw [hparent] at hnone
    cases hnone
  · rename_i habove
    rw [hparent] at habove
    cases habove
    split <;> rfl

theorem makeDirectories_ensure (h : d.makeDirectory path ≠ .error .notFound) :
    d.makeDirectories path = d.ensureDirectory path := by
  rw [makeDirectories]
  split
  · rename_i hmake
    exact absurd hmake h
  · rfl

theorem grows_makeDirectories (h : d.makeDirectories path = .ok e) :
    Grows d e ∧ e.isDir path := by
  fun_induction makeDirectories d path generalizing e with
  | case1 => cases h
  | case2 d path => exact grows_ensureDirectory h
  | case3 =>
    rename_i ih
    obtain ⟨d', hd', h⟩ := bind_eq_ok.mp h
    obtain ⟨hgrows, hdir⟩ := grows_ensureDirectory h
    exact ⟨(ih hd').1.trans hgrows, hdir⟩
  | case4 => exact grows_ensureDirectory h

/-- A directory that is there need not be made. -/
theorem makeDirectory_of_isDir (h : d.isDir path = true) :
    d.makeDirectory path = .error .exists := by
  obtain ⟨p, hfind, hp⟩ := isDir_iff.mp h
  obtain ⟨hcheck, q, hwalk, -⟩ := find_eq_ok.mp hfind
  rw [makeDirectory_eq]
  by_cases hnames : ∃ above name, Names path above name
  · obtain ⟨above, name, hnames⟩ := hnames
    rw [hnames.parts, walk_append_eq_ok] at hwalk
    obtain ⟨position, habove, hlast⟩ := hwalk
    obtain ⟨⟨hdir, hname⟩, -⟩ := walk_cons_iff.mp hlast
    obtain ⟨hname, hthere⟩ := hname hnames.here hnames.up
    have htarget := target_eq_ok.mpr ⟨hcheck, above, hnames, habove, hdir⟩
    have hne : d.kind? (position ++ [name]) ≠ none := Option.isSome_iff_ne_none.mp hthere
    rw [htarget]
    change (checkName name >>= fun _ => _) = _
    rw [hname]
    exact if_neg hne
  · rw [target_dots hnames, hcheck]
    by_cases hparts : Path.parts path = []
    · rw [if_pos hparts]; rfl
    · rw [if_neg hparts, hwalk]; rfl

theorem makeDirectories_of_isDir (h : d.isDir path = true) : d.makeDirectories path = .ok d := by
  have hmake := makeDirectory_of_isDir h
  rw [makeDirectories, hmake]
  simp only [ensureDirectory, hmake, h, if_true]

/-! ## Writing and reading -/

theorem write_eq (d : Disk) (path text : String) : d.write path text =
    (d.target path >>= fun
      | (_, none) => .error .isDirectory
      | (position, some name) =>
        if Path.endsInSlash path then .error .isDirectory
        else checkName name >>= fun _ =>
          if d.kind? (position ++ [name]) = some .dir then .error .isDirectory
          else .ok (d.put (position ++ [name]) (.file (.text text)))) := by
  rw [write]
  refine congrArg (d.target path >>= ·) (funext fun (position, name) => ?_)
  cases name with
  | none => rfl
  | some name =>
    dsimp only
    split
    · rfl
    · refine congrArg (checkName name >>= ·) (funext fun _ => ?_)
      unfold kind?
      cases d.root.at? (position ++ [name]) with
      | none => rfl
      | some t => cases t <;> rfl

theorem write_eq_ok {text : String} : d.write path text = .ok e ↔ ∃ position name,
    d.target path = .ok (position, some name) ∧ Path.endsInSlash path = false ∧
      checkName name = .ok () ∧ d.kind? (position ++ [name]) ≠ some .dir ∧
      e = d.put (position ++ [name]) (.file (.text text)) := by
  rw [write_eq, bind_eq_ok]
  constructor
  · rintro ⟨⟨position, name⟩, htarget, h⟩
    cases name with
    | none => cases h
    | some name =>
      dsimp only at h
      split at h
      · cases h
      · rename_i hslash
        obtain ⟨hname, h⟩ := bind_unit_eq_ok.mp h
        split at h
        · cases h
        · rename_i hold
          cases h
          exact ⟨position, name, htarget, by simpa using hslash, hname, hold, rfl⟩
  · rintro ⟨position, name, htarget, hslash, hname, hold, rfl⟩
    refine ⟨_, htarget, ?_⟩
    dsimp only
    rw [if_neg (by simp [hslash])]
    exact bind_unit_eq_ok.mpr ⟨hname, if_neg hold⟩

theorem kind?_write {text : String} (hdir : d.kind? position = some .dir)
    (hold : d.kind? (position ++ [name]) ≠ some .dir) (q : List String) :
    (d.put (position ++ [name]) (.file (.text text))).kind? q =
      if q = position ++ [name] then some (.file (.text text)) else d.kind? q :=
  kind?_put (Node.isLeaf_file _) hdir hold q

theorem keeps_write {text : String} (hdir : d.kind? position = some .dir)
    (hold : d.kind? (position ++ [name]) ≠ some .dir) :
    d.Keeps (d.put (position ++ [name]) (.file (.text text))) where
  here := rfl
  dirs q hq := by
    have hne : q ≠ position ++ [name] := by
      rintro rfl
      exact hold hq
    rw [kind?_write hdir hold, if_neg hne, hq]
  names q hq := by
    rw [kind?_write hdir hold]
    split
    · rfl
    · exact hq

theorem read_of_file {text : String} (hfind : d.find path = .ok p)
    (h : d.kind? p = some (.file (.text text))) : d.read path = .ok text := by
  have hat := kind?_eq_file.mp h
  simp only [read, hfind, Except.mapError, bind, Except.bind, hat]

/-- What was written is there to be read, wherever the path leads. -/
theorem read_write {text : String} (h : d.write path text = .ok e) : e.read path = .ok text := by
  obtain ⟨position, name, htarget, hslash, hname, hold, rfl⟩ := write_eq_ok.mp h
  obtain ⟨hcheck, above, hnames, hwalk, hdir⟩ := target_eq_ok.mp htarget
  have hkeeps : d.Keeps (d.put (position ++ [name]) (.file (.text text))) := keeps_write hdir hold
  have hnew : (d.put (position ++ [name]) (.file (.text text))).kind? (position ++ [name]) =
      some (.file (.text text)) := by rw [kind?_write hdir hold, if_pos rfl]
  refine read_of_file (find_eq_ok.mpr ⟨hcheck, position ++ [name], ?_, ?_⟩) hnew
  · exact hnames.walk (hkeeps.walk hwalk) (hkeeps.dirs _ hdir) hname (by rw [hnew]; rfl)
  · rw [slashParts, hslash]
    rfl

/-! ## What stays true in a larger tree -/

theorem Keeps.origin (h : Keeps d e) (path : String) : e.origin path = d.origin path := by
  rw [Disk.origin, Disk.origin, h.here]

theorem Keeps.isDir (h : Keeps d e) (hdir : d.isDir path = true) : e.isDir path = true := by
  obtain ⟨p, hfind, hp⟩ := isDir_iff.mp hdir
  obtain ⟨hcheck, q, hwalk, hslash⟩ := find_eq_ok.mp hfind
  refine isDir_iff.mpr ⟨p, find_eq_ok.mpr ⟨hcheck, q, ?_, h.walk hslash⟩, h.dirs p hp⟩
  rw [h.origin]
  exact h.walk hwalk

end RuleClasses.Files.Disk
