import RuleClasses.Files.Disk
import RuleClasses.Proofs.Answers

/-! A tree of files as what stands at each position. Everything that can be done with paths
asks for no more than that, and every change of a tree is one at a single position. -/

namespace RuleClasses.Files

/-- What stands at a position. -/
inductive Kind where
  | dir
  | file (content : Content)
  deriving DecidableEq

namespace Node

def kind : Node → Kind
  | .dir _ => .dir
  | .file content => .file content

theorem at?_append (position rest : List String) (t : Node) :
    t.at? (position ++ rest) = (t.at? position).bind (at? rest) := by
  induction position generalizing t with
  | nil => rfl
  | cons name position ih =>
    cases t with
    | file content => rfl
    | dir entries =>
      rw [List.cons_append, at?, at?]
      cases Keyed.get? name entries with
      | none => rfl
      | some child => exact ih child

theorem at?_child {t : Node} {position : List String} {entries : List (String × Node)}
    (h : t.at? position = some (.dir entries)) (name : String) :
    t.at? (position ++ [name]) = Keyed.get? name entries := by
  rw [at?_append, h, Option.bind_some, at?]
  cases Keyed.get? name entries <;> rfl

/-- A node without nodes below it. -/
def IsLeaf (t : Node) : Prop := ∀ name rest, t.at? (name :: rest) = none

theorem isLeaf_file (content : Content) : (Node.file content).IsLeaf := fun _ _ => rfl

theorem isLeaf_dir : (Node.dir []).IsLeaf := fun _ _ => rfl

theorem at?_below {t : Node} {position : List String} (h : (t.at? position).map kind ≠ some .dir)
    (name : String) (rest : List String) : t.at? (position ++ name :: rest) = none := by
  rw [at?_append]
  match hat : t.at? position with
  | none => rfl
  | some (.file _) => rfl
  | some (.dir _) => rw [hat] at h; exact absurd rfl h

theorem at?_put_cons (new : Node) (name k : String) (position rest : List String)
    (entries : List (String × Node)) :
    (put new (name :: position) (.dir entries)).at? (k :: rest) =
      if k = name then (put new position ((Keyed.get? name entries).getD (.dir []))).at? rest
      else (Node.dir entries).at? (k :: rest) := by
  rw [put, at?, get?_putEntry, at?]
  split <;> rfl

/-- A leaf that is put into a directory, where no directory stands, changes what stands at that
one position. -/
theorem kind_at?_put {new t : Node} {position : List String} {name : String}
    (hnew : new.IsLeaf) (hdir : (t.at? position).map kind = some .dir)
    (hold : (t.at? (position ++ [name])).map kind ≠ some .dir) (q : List String) :
    ((put new (position ++ [name]) t).at? q).map kind =
      if q = position ++ [name] then some new.kind else (t.at? q).map kind := by
  induction position generalizing t q with
  | nil =>
    cases t with
    | file content => cases hdir
    | dir entries =>
      cases q with
      | nil => rfl
      | cons k rest =>
        rw [List.nil_append, at?_put_cons]
        by_cases hk : k = name
        · subst hk
          cases rest with
          | nil => simp [put, at?]
          | cons x rest =>
            have hbelow := at?_below hold x rest
            simp only [List.nil_append, List.singleton_append] at hbelow
            simp [put, hnew x rest, hbelow]
        · simp [hk]
  | cons a position ih =>
    cases t with
    | file content => cases hdir
    | dir entries =>
      cases q with
      | nil => rfl
      | cons k rest =>
        cases hchild : Keyed.get? a entries with
        | none => rw [at?, hchild] at hdir; cases hdir
        | some child =>
          rw [at?, hchild] at hdir
          rw [List.cons_append, at?, hchild] at hold
          rw [List.cons_append, at?_put_cons, hchild]
          by_cases hk : k = a
          · subst hk
            simp only [if_true, List.cons.injEq, true_and, Option.getD_some]
            rw [ih hdir hold, at?, hchild, Option.bind_some]
          · simp [hk]

end Node

namespace Disk

/-- What stands at a position, if anything does. -/
def kind? (d : Disk) (position : List String) : Option Kind :=
  (d.root.at? position).map Node.kind

theorem kind?_put {d : Disk} {position : List String} {name : String} {new : Node}
    (hnew : new.IsLeaf) (hdir : d.kind? position = some .dir)
    (hold : d.kind? (position ++ [name]) ≠ some .dir) (q : List String) :
    (d.put (position ++ [name]) new).kind? q =
      if q = position ++ [name] then some new.kind else d.kind? q :=
  Node.kind_at?_put hnew hdir hold q

/-! ## Going along a path -/

/-- The position behind one part of a path. -/
def next (position : List String) (part : String) : List String :=
  if part = "." then position else if part = ".." then position.dropLast else position ++ [part]

/-- The part leads on from a directory; a name must stand there. -/
def Leads (d : Disk) (position : List String) (part : String) : Prop :=
  d.kind? position = some .dir ∧
    (part ≠ "." → part ≠ ".." →
      checkName part = .ok () ∧ (d.kind? (position ++ [part])).isSome)

variable {d e : Disk} {position p : List String} {part : String} {parts rest : List String}

theorem kind?_eq_dir : d.kind? position = some .dir ↔
    ∃ entries, d.root.at? position = some (.dir entries) := by
  unfold kind?
  cases d.root.at? position with
  | none => simp
  | some t => cases t <;> simp [Node.kind]

theorem kind?_eq_file {content : Content} : d.kind? position = some (.file content) ↔
    d.root.at? position = some (.file content) := by
  unfold kind?
  cases d.root.at? position with
  | none => simp
  | some t => cases t <;> simp [Node.kind]

theorem walk_cons_none (h : d.kind? position = none) (part : String) (rest : List String) :
    walk d.root position (part :: rest) = .error .notFound := by
  rw [walk, Option.map_eq_none_iff.mp h]

theorem walk_cons_file {content : Content} (h : d.kind? position = some (.file content))
    (part : String) (rest : List String) :
    walk d.root position (part :: rest) = .error .notDirectory := by
  rw [walk, kind?_eq_file.mp h]

theorem walk_cons_dir (h : d.kind? position = some .dir) (part : String) (rest : List String) :
    walk d.root position (part :: rest) =
      if part = "." then walk d.root position rest
      else if part = ".." then walk d.root position.dropLast rest
      else checkName part >>= fun _ =>
        if (d.kind? (position ++ [part])).isNone then .error .notFound
        else walk d.root (position ++ [part]) rest := by
  obtain ⟨entries, hat⟩ := kind?_eq_dir.mp h
  rw [walk, hat, kind?, Node.at?_child hat, Option.isNone_map]

theorem walk_cons_iff : walk d.root position (part :: rest) = .ok p ↔
    d.Leads position part ∧ walk d.root (next position part) rest = .ok p := by
  unfold Leads next
  cases h : d.kind? position with
  | none => simp [walk_cons_none h]
  | some k =>
    cases k with
    | file content => simp [walk_cons_file h]
    | dir =>
      rw [walk_cons_dir h]
      by_cases hhere : part = "."
      · simp [hhere]
      · by_cases habove : part = ".."
        · simp [habove]
        · rw [if_neg hhere, if_neg habove, if_neg hhere, if_neg habove, bind_eq_ok]
          cases checkName part with
          | error _ => simp [hhere, habove]
          | ok _ => cases d.kind? (position ++ [part]) <;> simp [hhere, habove]

theorem walk_append (root : Node) (position parts behind : List String) :
    walk root position (parts ++ behind) =
      walk root position parts >>= fun q => walk root q behind := by
  induction parts generalizing position with
  | nil => rfl
  | cons part parts ih =>
    rw [List.cons_append, walk, walk]
    split
    · rfl
    · rfl
    · split
      · exact ih position
      · split
        · exact ih position.dropLast
        · cases checkName part with
          | error _ => rfl
          | ok _ =>
            simp only [bind, Except.bind] at ih ⊢
            split
            · rfl
            · exact ih (position ++ [part])

theorem walk_append_eq_ok {behind : List String} :
    walk d.root position (parts ++ behind) = .ok p ↔
      ∃ q, walk d.root position parts = .ok q ∧ walk d.root q behind = .ok p := by
  rw [walk_append, bind_eq_ok]

/-- Directories stay directories, and no name goes. -/
structure Keeps (d e : Disk) : Prop where
  here : e.workingDirectory = d.workingDirectory
  dirs : ∀ q, d.kind? q = some .dir → e.kind? q = some .dir
  names : ∀ q, (d.kind? q).isSome → (e.kind? q).isSome

theorem Keeps.refl (d : Disk) : Keeps d d := ⟨rfl, fun _ => id, fun _ => id⟩

theorem Keeps.trans {f : Disk} (h : Keeps d e) (h' : Keeps e f) : Keeps d f :=
  ⟨h'.here.trans h.here, fun q hq => h'.dirs q (h.dirs q hq), fun q hq => h'.names q (h.names q hq)⟩

theorem Keeps.walk (h : Keeps d e) (hwalk : Disk.walk d.root position parts = .ok p) :
    Disk.walk e.root position parts = .ok p := by
  induction parts generalizing position with
  | nil => exact hwalk
  | cons part parts ih =>
    obtain ⟨⟨hdir, hname⟩, hrest⟩ := walk_cons_iff.mp hwalk
    exact walk_cons_iff.mpr ⟨⟨h.dirs _ hdir, fun hh ha =>
      ⟨(hname hh ha).1, h.names _ (hname hh ha).2⟩⟩, ih hrest⟩

end Disk

end RuleClasses.Files
