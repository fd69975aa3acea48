import RuleClasses.Proofs.MakingFiles
import RuleClasses.Proofs.Outputs

/-! Outputs that are written into one directory. The directory is made with the first of them;
every further one finds it there. -/

namespace RuleClasses.CommandLine

open Files

/-! ## The directory of outputs -/

variable {d e : Disk} {path text dir name : String} {position : List String}

theorem save_eq_ok : save d path text = .ok e ↔
    ∃ d', prepare d path = .ok d' ∧ d'.write path text = .ok e := by
  rw [save, bind_eq_ok]
  simp only [mapError_eq_ok]

/-- A directory that was made is not made again. -/
theorem prepare_eq_ok (h : prepare d path = .ok e) :
    d.Grows e ∧ ∀ f, e.Keeps f → prepare f path = .ok f := by
  unfold prepare at h ⊢
  split at h
  · cases h; exact ⟨.refl d, fun _ _ => rfl⟩
  · cases h; exact ⟨.refl d, fun _ _ => rfl⟩
  · obtain ⟨hgrows, hdir⟩ := Disk.grows_makeDirectories (mapError_eq_ok.mp h)
    exact ⟨hgrows, fun f hf => mapError_eq_ok.mpr (Disk.makeDirectories_of_isDir (hf.isDir hdir))⟩

/-- All outputs in one directory need the same directory. -/
theorem prepare_join {name' : String} (h : Path.IsName name) (h' : Path.IsName name') (d : Disk)
    (dir : String) : prepare d (Path.join dir name) = prepare d (Path.join dir name') := by
  rw [prepare, prepare, Path.parent?_join h, Path.parent?_join h']

/-- The directory of outputs is there. -/
structure Room (d : Disk) (dir : String) (position : List String) : Prop where
  walk : Disk.walk d.root (d.origin dir) (Path.parts dir) = .ok position
  isDir : d.kind? position = some .dir

theorem Room.keeps (h : Room d dir position) (hkeeps : d.Keeps e) : Room e dir position := by
  refine ⟨?_, hkeeps.dirs _ h.isDir⟩
  rw [hkeeps.origin]
  exact hkeeps.walk h.walk

/-- Nothing is in the way of a file with that name. -/
structure Free (d : Disk) (dir : String) (position : List String) (name : String) : Prop where
  checkPath : Disk.checkPath (Path.join dir name) = .ok ()
  checkName : Disk.checkName name = .ok ()
  notDir : d.kind? (position ++ [name]) ≠ some .dir

theorem names_join (h : Path.IsName name) (dir : String) :
    Disk.Names (Path.join dir name) (Path.parts dir) name :=
  ⟨Path.parts_join h dir, h.ne_here, h.ne_up⟩

theorem origin_join (h : Path.IsName name) (d : Disk) (dir : String) :
    d.origin (Path.join dir name) = d.origin dir := by
  rw [Disk.origin, Disk.origin, Path.isAbsolute_join h]

theorem write_join_eq_ok (h : Path.IsName name) : d.write (Path.join dir name) text = .ok e ↔
    ∃ position, Room d dir position ∧ Free d dir position name ∧
      e = d.put (position ++ [name]) (.file (.text text)) := by
  rw [Disk.write_eq_ok]
  constructor
  · rintro ⟨position, name', htarget, -, hcheck, hold, rfl⟩
    obtain ⟨hpath, above, hnames, hwalk, hdir⟩ := Disk.target_eq_ok.mp htarget
    obtain ⟨rfl, rfl⟩ :=
      List.append_singleton_inj.mp (hnames.parts.symm.trans (Path.parts_join h dir))
    rw [origin_join h] at hwalk
    exact ⟨position, ⟨hwalk, hdir⟩, ⟨hpath, hcheck, hold⟩, rfl⟩
  · rintro ⟨position, hroom, hfree, rfl⟩
    refine ⟨position, name, Disk.target_eq_ok.mpr ⟨hfree.checkPath, Path.parts dir,
      names_join h dir, ?_, hroom.isDir⟩, Path.endsInSlash_join h dir, hfree.checkName,
      hfree.notDir, rfl⟩
    rw [origin_join h]
    exact hroom.walk

theorem find_join (h : Path.IsName name) (hroom : Room d dir position)
    (hfree : Free d dir position name) (hthere : (d.kind? (position ++ [name])).isSome) :
    d.find (Path.join dir name) = .ok (position ++ [name]) := by
  refine Disk.find_eq_ok.mpr ⟨hfree.checkPath, position ++ [name], ?_, ?_⟩
  · rw [origin_join h]
    exact (names_join h dir).walk hroom.walk hroom.isDir hfree.checkName hthere
  · rw [Disk.slashParts, Path.endsInSlash_join h]
    rfl

/-! ## The directory as the first output finds it -/

/-- The directory of outputs is there, and no output makes it again. -/
structure Settled (d : Disk) (dir : String) (position : List String) : Prop where
  room : Room d dir position
  made : ∀ f, d.Keeps f → ∀ n, Path.IsName n → prepare f (Path.join dir n) = .ok f

/-- The directory is made with the first output, whatever the name of that is. -/
theorem exists_settled (h : Path.IsName name) (hsave : save d (Path.join dir name) text = .ok e) :
    ∃ made position, d.Grows made ∧ Settled made dir position ∧
      ∀ n, Path.IsName n → prepare d (Path.join dir n) = .ok made := by
  obtain ⟨made, hprepare, hwrite⟩ := save_eq_ok.mp hsave
  obtain ⟨hgrows, hagain⟩ := prepare_eq_ok hprepare
  obtain ⟨position, hroom, -, -⟩ := (write_join_eq_ok h).mp hwrite
  refine ⟨made, position, hgrows, ⟨hroom, fun f hf n hn => ?_⟩, fun n hn => ?_⟩
  · rw [prepare_join hn h]
    exact hagain f hf
  · rw [prepare_join hn h, hprepare]

theorem Settled.save_eq {made : Disk} (h : Settled made dir position)
    (hmade : ∀ n, Path.IsName n → prepare d (Path.join dir n) = .ok made)
    (hname : Path.IsName name) (text : String) :
    CommandLine.save d (Path.join dir name) text =
      CommandLine.save made (Path.join dir name) text := by
  rw [CommandLine.save, CommandLine.save, hmade name hname, h.made made (.refl made) name hname]

/-- One output more stands right in the directory, and nothing else is different. -/
theorem Settled.save (h : Settled d dir position) (hname : Path.IsName name)
    (hsave : save d (Path.join dir name) text = .ok e) :
    Settled e dir position ∧ ∀ q, q ≠ position ++ [name] → e.kind? q = d.kind? q := by
  obtain ⟨d', hprepare, hwrite⟩ := save_eq_ok.mp hsave
  cases hprepare.symm.trans (h.made d (.refl d) name hname)
  obtain ⟨position', hroom, hfree, rfl⟩ := (write_join_eq_ok hname).mp hwrite
  cases hroom.walk.symm.trans h.room.walk
  have hkeeps : d.Keeps (d.put (position ++ [name]) (.file (.text text))) :=
    Disk.keeps_write h.room.isDir hfree.notDir
  refine ⟨⟨h.room.keeps hkeeps, fun f hf => h.made f (hkeeps.trans hf)⟩, fun q hq => ?_⟩
  rw [Disk.kind?_write h.room.isDir hfree.notDir, if_neg hq]

end RuleClasses.CommandLine
