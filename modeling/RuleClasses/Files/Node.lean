import RuleClasses.Keyed

/-! Trees of files. The entries of a directory are sorted by name. -/

namespace RuleClasses.Files

inductive Content where
  | text (text : String)
  /-- Bytes that are no text in UTF-8. -/
  | binary (bytes : List UInt8)
  deriving DecidableEq, Repr

def Content.ofBytes (bytes : List UInt8) : Content :=
  match String.fromUTF8? ⟨bytes.toArray⟩ with
  | some s => .text s
  | none => .binary bytes

inductive Node where
  | file (content : Content)
  | dir (entries : List (String × Node))
  deriving Repr

namespace Node

def isDir : Node → Bool
  | .dir _ => true
  | .file _ => false

def at? : List String → Node → Option Node
  | [], t => some t
  | name :: rest, .dir entries => (Keyed.get? name entries).bind (at? rest)
  | _ :: _, .file _ => none

/-- Change one entry, or make a new one at its place in the order. -/
def putEntry (name : String) (change : Option Node → Node) (entries : List (String × Node)) :
    List (String × Node) :=
  match Keyed.get? name entries with
  | some t => Keyed.put name (change (some t)) entries
  | none =>
    entries.takeWhile (fun e => e.1 < name) ++
      (name, change none) :: entries.dropWhile (fun e => e.1 < name)

theorem get?_putEntry (name k : String) (change : Option Node → Node)
    (entries : List (String × Node)) :
    Keyed.get? k (putEntry name change entries) =
      if k = name then some (change (Keyed.get? name entries)) else Keyed.get? k entries := by
  unfold putEntry
  cases h : Keyed.get? name entries with
  | some t => exact Keyed.get?_put name k _ entries
  | none =>
    have hsplit :=
      List.takeWhile_append_dropWhile (p := fun e => decide (e.1 < name)) (l := entries)
    generalize entries.takeWhile (fun e => e.1 < name) = before at hsplit ⊢
    generalize entries.dropWhile (fun e => e.1 < name) = behind at hsplit ⊢
    subst hsplit
    obtain ⟨hbefore, -⟩ := Option.or_eq_none_iff.mp (Keyed.get?_append name before behind ▸ h)
    rw [Keyed.get?_append, Keyed.get?_cons, Keyed.get?_append]
    by_cases hk : k = name
    · simp [hk, hbefore]
    · simp [hk, Ne.symm hk]

/-- Put a node at a position; directories on the way are made. A file on the way
stays as it is. -/
def put (new : Node) : List String → Node → Node
  | [], _ => new
  | name :: rest, .dir entries =>
    .dir (putEntry name (fun old => put new rest (old.getD (.dir []))) entries)
  | _ :: _, .file content => .file content

mutual

/-- All files with their positions below `above`. -/
def files (above : List String) : Node → List (List String × Content)
  | .file content => [(above, content)]
  | .dir entries => entryFiles above entries

def entryFiles (above : List String) : List (String × Node) → List (List String × Content)
  | [] => []
  | (name, t) :: rest => files (above ++ [name]) t ++ entryFiles above rest

end

/-- The files that are not the same in an older tree. -/
def changes (old new : Node) : List (List String × Content) :=
  (new.files []).filter fun (position, content) =>
    match old.at? position with
    | some (.file before) => before ≠ content
    | _ => true

end Node

end RuleClasses.Files
