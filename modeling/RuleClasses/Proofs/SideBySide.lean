import RuleClasses.Proofs.Saving

/-! A program in two trees of files at once. Where the trees have the same directories, and the
way to the output is the same in both, the program does the same in both of them: it fails with
the same error, or it makes the same changes. -/

namespace RuleClasses

/-! ## Two answers -/

variable {ε ε' α β α' β' : Type} {R : α → β → Prop} {S : α' → β' → Prop}

/-- The same error, or values that belong together. -/
inductive Together (R : α → β → Prop) : Except ε α → Except ε β → Prop where
  | ok {a : α} {b : β} : R a b → Together R (.ok a) (.ok b)
  | error (e : ε) : Together R (.error e) (.error e)

namespace Together

variable {x : Except ε α} {y : Except ε β}

theorem bind {f : α → Except ε α'} {g : β → Except ε β'} (h : Together R x y)
    (hf : ∀ a b, R a b → Together S (f a) (g b)) : Together S (x >>= f) (y >>= g) := by
  cases h with
  | ok hab => exact hf _ _ hab
  | error e => exact .error e

theorem bind_same {f : α → Except ε α'} {g : α → Except ε β'}
    (hf : ∀ a, x = .ok a → Together S (f a) (g a)) : Together S (x >>= f) (x >>= g) := by
  cases x with
  | ok a => exact hf a rfl
  | error e => exact .error e

theorem imp {R' : α → β → Prop} (h : Together R x y) (hR : ∀ a b, R a b → R' a b) :
    Together R' x y := by
  cases h with
  | ok hab => exact .ok (hR _ _ hab)
  | error e => exact .error e

theorem eq_error_iff (h : Together R x y) {e : ε} : x = .error e ↔ y = .error e := by
  cases h with
  | ok _ => exact ⟨nofun, nofun⟩
  | error err => simp

theorem mapError (h : Together R x y) (f : ε → ε') : Together R (x.mapError f) (y.mapError f) := by
  cases h with
  | ok hab => exact .ok hab
  | error e => exact .error (f e)

end Together

namespace Files.Disk

variable {d e d' e' : Disk} {way : List (List String)} {position p parts rest : List String}
  {part name path text : String}

/-! ## Stops of a path -/

/-- All positions on the way along the parts of a path. -/
def stops (position : List String) : List String → List (List String)
  | [] => [position]
  | part :: rest => position :: stops (next position part) rest

theorem mem_stops (position parts : List String) : position ∈ stops position parts := by
  cases parts <;> exact List.mem_cons_self

theorem stops_prefix {parts' : List String} (h : parts' <+: parts) :
    stops position parts' ⊆ stops position parts := by
  induction parts' generalizing position parts with
  | nil => exact List.cons_subset.mpr ⟨mem_stops position parts, List.nil_subset _⟩
  | cons part parts' ih =>
    obtain ⟨rest, rfl⟩ := h
    exact List.cons_subset_cons position (ih (List.prefix_append parts' rest))

/-- A part `.` leads nowhere else. -/
theorem stops_dot : stops position (parts ++ ["."]) ⊆ stops position parts := by
  induction parts generalizing position with
  | nil => simp [stops, next]
  | cons part parts ih => exact List.cons_subset_cons position ih

theorem stops_append (h : walk d.root position parts = .ok p) :
    stops p rest ⊆ stops position (parts ++ rest) := by
  induction parts generalizing position with
  | nil => cases h; exact List.Subset.refl _
  | cons part parts ih =>
    exact List.Subset.trans (ih (walk_cons_iff.mp h).2) (List.subset_cons_self _ _)

/-- The stops of a path. -/
def stopsOf (d : Disk) (path : String) : List (List String) :=
  stops (d.origin path) (Path.parts path)

/-- The stops in front of the last part of a path, which may be the name of something new. -/
def stopsBefore (d : Disk) (path : String) : List (List String) :=
  stops (d.origin path) (Path.parts path).dropLast

theorem stopsBefore_subset (d : Disk) (path : String) : d.stopsBefore path ⊆ d.stopsOf path :=
  stops_prefix (List.dropLast_prefix _)

theorem stopsOf_parent? {above : String} (h : Path.parent? path = some above) (hne : above ≠ "")
    (d : Disk) : d.stopsOf above ⊆ d.stopsBefore path := by
  rw [stopsOf, stopsBefore, origin, origin, Path.isAbsolute_parent? h hne]
  exact stops_prefix (Path.parts_parent? h)

/-! ## Trees with the same directories -/

/-- The same directories, and at the stops of a way both trees or none of them have a file. What
the files hold, and where else there are any, does not matter. -/
structure Alike (way : List (List String)) (d e : Disk) : Prop where
  here : e.workingDirectory = d.workingDirectory
  dirs : ∀ q, d.kind? q = some .dir ↔ e.kind? q = some .dir
  there : ∀ q ∈ way, (d.kind? q).isSome = (e.kind? q).isSome

/-- Two trees became others in the same way. What stands at a position is now the same in both,
or it is what stood there before. -/
structure SameChange (d e d' e' : Disk) : Prop where
  here : d'.workingDirectory = d.workingDirectory
  here' : e'.workingDirectory = e.workingDirectory
  kinds : ∀ q, d'.kind? q = e'.kind? q ∨ d'.kind? q = d.kind? q ∧ e'.kind? q = e.kind? q

theorem SameChange.refl (d e : Disk) : SameChange d e d e := ⟨rfl, rfl, fun _ => .inr ⟨rfl, rfl⟩⟩

theorem SameChange.trans {d'' e'' : Disk} (h : SameChange d e d' e')
    (h' : SameChange d' e' d'' e'') : SameChange d e d'' e'' := by
  refine ⟨h'.here.trans h.here, h'.here'.trans h.here', fun q => ?_⟩
  rcases h'.kinds q with hsame | ⟨hd, he⟩
  · exact .inl hsame
  · rw [hd, he]
    exact h.kinds q

theorem SameChange.stopsOf (h : SameChange d e d' e') (path : String) :
    d'.stopsOf path = d.stopsOf path := by
  rw [Disk.stopsOf, Disk.stopsOf, Disk.origin, Disk.origin, h.here]

theorem SameChange.stopsBefore (h : SameChange d e d' e') (path : String) :
    d'.stopsBefore path = d.stopsBefore path := by
  rw [Disk.stopsBefore, Disk.stopsBefore, Disk.origin, Disk.origin, h.here]

theorem sameChange_bind {x y : Except ε Disk} {f g : Disk → Except ε Disk}
    (h : Together (SameChange d e) x y)
    (hf : ∀ d' e', SameChange d e d' e' → Together (SameChange d' e') (f d') (g e')) :
    Together (SameChange d e) (x >>= f) (y >>= g) :=
  h.bind fun d' e' hc => (hf d' e' hc).imp fun _ _ => hc.trans

namespace Alike

/-- Trees that become others in the same way stay alike. -/
theorem step (h : Alike way d e) (hc : SameChange d e d' e') : Alike way d' e' where
  here := by rw [hc.here, hc.here', h.here]
  dirs q := by
    rcases hc.kinds q with hsame | ⟨hd, he⟩
    · rw [hsame]
    · rw [hd, he, h.dirs q]
  there q hq := by
    rcases hc.kinds q with hsame | ⟨hd, he⟩
    · rw [hsame]
    · rw [hd, he, h.there q hq]

theorem origin (h : Alike way d e) (path : String) : e.origin path = d.origin path := by
  rw [Disk.origin, Disk.origin, h.here]

theorem put {new : Node} (h : Alike way d e) (hnew : new.IsLeaf)
    (hdir : d.kind? position = some .dir) (hold : d.kind? (position ++ [name]) ≠ some .dir) :
    SameChange d e (d.put (position ++ [name]) new) (e.put (position ++ [name]) new) := by
  refine ⟨rfl, rfl, fun q => ?_⟩
  rw [kind?_put hnew hdir hold, kind?_put hnew ((h.dirs _).mp hdir) (mt (h.dirs _).mpr hold)]
  split
  · exact .inl rfl
  · exact .inr ⟨rfl, rfl⟩

/-- One file more, or with another text, off the way or where a file was already. -/
theorem of_write {text : String} (hdir : d.kind? position = some .dir)
    (hold : d.kind? (position ++ [name]) ≠ some .dir)
    (hway : position ++ [name] ∈ way → (d.kind? (position ++ [name])).isSome) :
    Alike way d (d.put (position ++ [name]) (.file (.text text))) := by
  refine ⟨rfl, fun q => ?_, fun q hq => ?_⟩
  · rw [kind?_write hdir hold]
    split
    · rename_i heq
      simp [heq, hold]
    · rfl
  · rw [kind?_write hdir hold]
    split
    · rename_i heq
      exact heq ▸ hway (heq ▸ hq)
    · rfl

/-! ### Going along a path -/

theorem walk_cons (h : Alike way d e) (hposition : position ∈ way)
    (hname : part ≠ "." → part ≠ ".." → position ++ [part] ∈ way)
    (hrest : walk d.root (next position part) rest = walk e.root (next position part) rest) :
    walk d.root position (part :: rest) = walk e.root position (part :: rest) := by
  have hthere := h.there position hposition
  cases hd : d.kind? position with
  | none =>
    have he : e.kind? position = none := by simpa [hd] using hthere.symm
    rw [walk_cons_none hd, walk_cons_none he]
  | some k =>
    cases k with
    | file content =>
      have hdir : e.kind? position ≠ some .dir := mt (h.dirs position).mpr (by rw [hd]; nofun)
      obtain ⟨k', he⟩ := Option.isSome_iff_exists.mp (by rw [← hthere, hd]; rfl)
      cases k' with
      | dir => exact absurd he hdir
      | file content' => rw [walk_cons_file hd, walk_cons_file he]
    | dir =>
      rw [walk_cons_dir hd, walk_cons_dir ((h.dirs position).mp hd)]
      unfold next at hrest
      by_cases hhere : part = "."
      · simpa [hhere] using hrest
      · by_cases hup : part = ".."
        · simpa [hup] using hrest
        · have hnone : (d.kind? (position ++ [part])).isNone =
              (e.kind? (position ++ [part])).isNone := by
            rw [← Option.not_isSome, ← Option.not_isSome, h.there _ (hname hhere hup)]
          rw [if_neg hhere, if_neg hup] at hrest
          rw [if_neg hhere, if_neg hup, if_neg hhere, if_neg hup, hrest, hnone]

theorem walk (h : Alike way d e) (hway : stops position parts ⊆ way) :
    Disk.walk d.root position parts = Disk.walk e.root position parts := by
  induction parts generalizing position with
  | nil => rfl
  | cons part parts ih =>
    obtain ⟨hposition, hrest⟩ := List.cons_subset.mp hway
    refine h.walk_cons hposition (fun hhere hup => hrest ?_) (ih hrest)
    have hnext := mem_stops (next position part) parts
    rwa [next, if_neg hhere, if_neg hup] at hnext ⊢

theorem find (h : Alike way d e) (hway : d.stopsOf path ⊆ way) :
    d.find path = e.find path := by
  rw [Disk.find, Disk.find, h.origin]
  refine congrArg (checkPath path >>= ·) (funext fun _ => h.walk ?_)
  split
  · exact List.Subset.trans stops_dot hway
  · rwa [List.append_nil]

theorem isDir (h : Alike way d e) (hway : d.stopsOf path ⊆ way) :
    d.isDir path = e.isDir path := by
  rw [Bool.eq_iff_iff, isDir_iff, isDir_iff, h.find hway]
  simp only [h.dirs]

/-- The last part of a path may be the name of something new. -/
theorem target (h : Alike way d e) (hway : d.stopsBefore path ⊆ way) :
    d.target path = e.target path := by
  by_cases hnames : ∃ above name, Names path above name
  · obtain ⟨above, name, hnames⟩ := hnames
    rw [stopsBefore, hnames.parts, List.dropLast_concat] at hway
    rw [target_named hnames, target_named hnames, h.origin, h.walk hway]
    simp only [h.dirs]
  · rw [target_dots hnames, target_dots hnames, h.origin]
    cases hlast : (Path.parts path).getLast? with
    | none =>
      have hnil := List.getLast?_eq_none_iff.mp hlast
      rw [if_pos hnil, if_pos hnil]
    | some part =>
      obtain ⟨above, hparts⟩ := List.getLast?_eq_some_iff.mp hlast
      rw [stopsBefore, hparts, List.dropLast_concat] at hway
      have hdots : part ≠ "." → part ≠ ".." → False := fun hhere hup =>
        hnames ⟨above, part, hparts, hhere, hup⟩
      have hwalk : Disk.walk d.root (d.origin path) (Path.parts path) =
          Disk.walk e.root (d.origin path) (Path.parts path) := by
        rw [hparts, walk_append, walk_append, ← h.walk hway]
        cases hq : Disk.walk d.root (d.origin path) above with
        | error err => rfl
        | ok q =>
          refine h.walk_cons (hway ?_) (fun hhere hup => (hdots hhere hup).elim) rfl
          have hmem : q ∈ stops (d.origin path) (above ++ []) := stops_append hq (mem_stops q [])
          rwa [List.append_nil] at hmem
      rw [hwalk]

/-! ### Changing the trees -/

theorem makeDirectory (h : Alike way d e) (hway : d.stopsOf path ⊆ way) :
    Together (SameChange d e) (d.makeDirectory path) (e.makeDirectory path) := by
  rw [makeDirectory_eq, makeDirectory_eq,
    ← h.target (List.Subset.trans (stopsBefore_subset d path) hway)]
  refine .bind_same fun new htarget => ?_
  obtain ⟨position, name⟩ := new
  cases name with
  | none => exact .error _
  | some name =>
    refine .bind_same fun _ _ => ?_
    obtain ⟨-, above, hnames, hwalk, hdir⟩ := target_eq_ok.mp htarget
    have hmem : position ++ [name] ∈ way := by
      refine hway ?_
      rw [stopsOf, hnames.parts]
      refine stops_append hwalk (List.mem_cons_of_mem _ ?_)
      rw [next, if_neg hnames.here, if_neg hnames.up]
      exact mem_stops _ _
    have hnone : d.kind? (position ++ [name]) = none ↔ e.kind? (position ++ [name]) = none := by
      rw [← Option.not_isSome_iff_eq_none, ← Option.not_isSome_iff_eq_none, h.there _ hmem]
    by_cases hd : d.kind? (position ++ [name]) = none
    · simp only [if_pos hd, if_pos (hnone.mp hd)]
      exact .ok (h.put Node.isLeaf_dir hdir (by simp [hd]))
    · simp only [if_neg hd, if_neg (mt hnone.mpr hd)]
      exact .error _

theorem ensureDirectory (h : Alike way d e) (hway : d.stopsOf path ⊆ way) :
    Together (SameChange d e) (d.ensureDirectory path) (e.ensureDirectory path) := by
  have hmake := h.makeDirectory hway
  rw [Disk.ensureDirectory, Disk.ensureDirectory, ← h.isDir hway]
  generalize d.makeDirectory path = x, e.makeDirectory path = y at hmake ⊢
  cases hmake with
  | ok hc => exact .ok hc
  | error err =>
    dsimp only
    split
    · exact .ok (.refl d e)
    · exact .error err

theorem makeDirectories (h : Alike way d e) (hway : d.stopsOf path ⊆ way) :
    Together (SameChange d e) (d.makeDirectories path) (e.makeDirectories path) := by
  fun_induction Disk.makeDirectories d path with
  | case1 path hd hparent =>
    have he := (h.makeDirectory hway).eq_error_iff.mp hd
    rw [makeDirectories_root he hparent]
    exact .error _
  | case2 path hd _ hparent =>
    have he := (h.makeDirectory hway).eq_error_iff.mp hd
    rw [makeDirectories_above he hparent]
    exact h.ensureDirectory hway
  | case3 path hd above hparent _ hne ih =>
    have he := (h.makeDirectory hway).eq_error_iff.mp hd
    have habove := List.Subset.trans (stopsOf_parent? hparent hne d) (stopsBefore_subset d path)
    rw [makeDirectories_above he hparent, if_neg hne]
    refine sameChange_bind (ih (List.Subset.trans habove hway)) fun d' e' hc =>
      (h.step hc).ensureDirectory ?_
    rwa [hc.stopsOf]
  | case4 path hd =>
    have he : e.makeDirectory path ≠ .error .notFound :=
      mt (h.makeDirectory hway).eq_error_iff.mpr hd
    rw [makeDirectories_ensure he]
    exact h.ensureDirectory hway

theorem write (h : Alike way d e) (hway : d.stopsBefore path ⊆ way) (text : String) :
    Together (SameChange d e) (d.write path text) (e.write path text) := by
  rw [write_eq, write_eq, ← h.target hway]
  refine .bind_same fun new htarget => ?_
  obtain ⟨position, name⟩ := new
  cases name with
  | none => exact .error _
  | some name =>
    obtain ⟨-, above, -, -, hdir⟩ := target_eq_ok.mp htarget
    dsimp only
    split
    · exact .error _
    · refine .bind_same fun _ _ => ?_
      by_cases hold : d.kind? (position ++ [name]) = some .dir
      · rw [if_pos hold, if_pos ((h.dirs _).mp hold)]
        exact .error _
      · rw [if_neg hold, if_neg (mt (h.dirs _).mpr hold)]
        exact .ok (h.put (Node.isLeaf_file _) hdir hold)

end Alike

end Files.Disk

namespace CommandLine

open Files Disk

variable {d e d' e' : Disk} {way : List (List String)} {path text : String}

theorem prepare_alike (h : Alike way d e) (hway : d.stopsBefore path ⊆ way) :
    Together (SameChange d e) (prepare d path) (prepare e path) := by
  unfold prepare
  split
  · exact .ok (.refl d e)
  · exact .ok (.refl d e)
  · rename_i above hne hparent
    have habove := List.Subset.trans (stopsOf_parent? hparent hne d) hway
    exact (h.makeDirectories habove).mapError _

theorem save_alike (h : Alike way d e) (hway : d.stopsBefore path ⊆ way) (text : String) :
    Together (SameChange d e) (save d path text) (save e path text) := by
  refine sameChange_bind (prepare_alike h hway) fun d' e' hc => ?_
  refine ((h.step hc).write ?_ text).mapError _
  rwa [hc.stopsBefore]

end CommandLine

end RuleClasses
