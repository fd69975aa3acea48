import RuleClasses.Json.Issue
import RuleClasses.Json.Tree

/-! Reading the tree of a JSON text. A reader goes through the tree in text order
and stops at the first thing it cannot use: a fault of the text, or a value of
another kind than it wants. -/

namespace RuleClasses.Json

/-! ## Ends of lists and objects -/

/-- The end of a list whose values are wanted. -/
def Close.endList : Close → Except Fault Unit
  | .closed => .ok ()
  | .ended => .error .endInList
  | .endedAfterComma => .error .endInValue
  | .trailingComma => .error .trailingComma
  | _ => .error .commaOrBracketExpected

/-- The end of an object whose values are wanted, when no key without its colon
stands there. -/
def Close.endObject : Close → Except Fault Unit
  | .closed => .ok ()
  | .ended => .error .endInObject
  | .endedAfterComma => .error .endInValue
  | .trailingComma => .error .trailingComma
  | .noComma => .error .commaOrBraceExpected
  | .keyNotString => .error .keyNotString
  | .brokenKey wanted _ => .error wanted
  | .noColon _ fault => .error fault

/-- The end of a list that is passed over. -/
def Close.passList : Close → Except Fault Unit
  | .trailingComma => .error .valueExpected
  | close => close.endList

/-- The end of an object that is passed over. -/
def Close.passObject : Close → Except Fault Unit
  | .endedAfterComma => .error .endInObject
  | .trailingComma => .error .keyNotString
  | .brokenKey _ passed => .error passed
  | close => close.endObject

/-! ## Values that nobody looks at -/

mutual

def Tree.pass : Tree → Except Fault Unit
  | .list items close => do passItems items; close.passList
  | .object entries close => do passEntries entries; close.passObject
  | .absent => .error .endInValue
  | .broken _ passed | .brokenString _ passed => .error passed
  | _ => .ok ()

def passItems : List Tree → Except Fault Unit
  | [] => .ok ()
  | t :: rest => do t.pass; passItems rest

def passEntries : List (Key × Tree) → Except Fault Unit
  | [] => .ok ()
  | (_, t) :: rest => do t.pass; passEntries rest

end

/-! ## Values of any kind -/

/-- What a reader finds who wants something else: a number or a string is read
to its end first. -/
def Tree.found : Tree → Except Fault Found
  | .null => .ok .null
  | .bool value => .ok (.bool value)
  | .number value => value.map .number
  | .string value => value.map .string
  | .list _ _ => .ok .list
  | .object _ _ => .ok .object
  | .absent => .error .endInValue
  | .broken wanted _ | .brokenString wanted _ => .error wanted

/-- The problem with a value of another kind than wanted. -/
def Tree.mismatch {α : Type} (wanted : String) (tree : Tree) : Except Problem α :=
  match tree.found with
  | .ok found => .error (.invalidType found wanted)
  | .error fault => .error (.fault fault)

/-- How many lists and objects may be open at a time. -/
def depthLimit : Nat := 127

/-- A problem of an object where a key was about to be read; a key without its
colon was read already. -/
def endEntries (close : Close) : Except Issue Unit :=
  match close with
  | .noColon (.ok _) fault => .error (.here (.fault fault))
  | .noColon (.error fault) _ => .error (Issue.within .unknown (.here (.fault fault)))
  | close => within .unknown (here (faulty close.endObject))

mutual

/-- The value of a tree, if `room` more lists and objects may be open inside
those around it. Repeated keys stay. -/
def Tree.read (room : Nat) : Tree → Except Issue Json
  | .null => .ok .null
  | .bool value => .ok (.bool value)
  | .number value => here (faulty (value.map .number))
  | .string value => here (faulty (value.map .string))
  | .list items close =>
    match room with
    | 0 => .error (.here (.fault .tooDeep))
    | room + 1 => do
      let values ← readItems room 0 items
      here (faulty close.endList)
      return .list values
  | .object entries close =>
    match room with
    | 0 => .error (.here (.fault .tooDeep))
    | room + 1 => do
      let values ← readEntries room entries
      endEntries close
      return .object values
  | .absent => .error (.here (.fault .endInValue))
  | .broken wanted _ | .brokenString wanted _ => .error (.here (.fault wanted))

/-- The items of a list from the given index on. -/
def readItems (room index : Nat) : List Tree → Except Issue (List Json)
  | [] => .ok []
  | t :: rest => do
    let value ← within (.index index) (t.read room)
    let values ← readItems room (index + 1) rest
    return value :: values

def readEntries (room : Nat) : List (Key × Tree) → Except Issue (List (String × Json))
  | [] => .ok []
  | (k, t) :: rest => do
    let k ← within .unknown (here (faulty k))
    let value ← within (.key k) (t.read room)
    let values ← readEntries room rest
    return (k, value) :: values

end

/-! ## Values of a wanted kind -/

def Tree.readString (tree : Tree) : Except Issue String :=
  match tree with
  | .string value => here (faulty value)
  | other => here (other.mismatch "a string")

def Tree.readBool (tree : Tree) : Except Issue Bool :=
  match tree with
  | .bool value => .ok value
  | other => here (other.mismatch "a boolean")

/-- A string, or `null` for none. -/
def Tree.readString? (tree : Tree) : Except Issue (Option String) :=
  match tree with
  | .null => .ok none
  | other => other.readString.map some

/-- Items from the given index on, each read by `item`. -/
def readEach {α : Type} (item : Tree → Except Issue α) (index : Nat) :
    List Tree → Except Issue (List α)
  | [] => .ok []
  | t :: rest => do
    let value ← within (.index index) (item t)
    let values ← readEach item (index + 1) rest
    return value :: values

def Tree.readList {α : Type} (item : Tree → Except Issue α) (tree : Tree) :
    Except Issue (List α) :=
  match tree with
  | .list items close => do
    let values ← readEach item 0 items
    here (faulty close.endList)
    return values
  | other => here (other.mismatch "a sequence")

/-! ## Records

A record is read from an object with known keys, or from a list with the fields in
their order. While it is read, a draft `σ` holds the fields that were read
already. -/

/-- What a record makes of a key. -/
inductive KeyUse (σ : Type) where
  | read (field : Tree → Except Issue σ)
  /-- Nobody looks at the value. -/
  | pass
  | refuse (issue : Issue)

/-- Entries of an object in text order. -/
def readFields {σ : Type} (use : σ → String → KeyUse σ) (draft : σ) :
    List (Key × Tree) → Except Issue σ
  | [] => .ok draft
  | (k, t) :: rest => do
    let k ← within .unknown (here (faulty k))
    match use draft k with
    | .read field => do
      let draft ← within (.key k) (field t)
      readFields use draft rest
    | .pass => do
      within (.key k) (here (faulty t.pass))
      readFields use draft rest
    | .refuse issue => .error issue

/-- The end of the object. A key without its colon is looked at as a key first. -/
def endFields {σ : Type} (use : σ → String → KeyUse σ) (draft : σ) (close : Close) :
    Except Issue Unit :=
  match close with
  | .noColon (.ok k) _ =>
    match use draft k with
    | .refuse issue => .error issue
    | _ => endEntries close
  | close => endEntries close

/-- An object read into a draft. -/
def readObject {σ : Type} (use : σ → String → KeyUse σ) (draft : σ)
    (entries : List (Key × Tree)) (close : Close) : Except Issue σ := do
  let draft ← readFields use draft entries
  endFields use draft close
  return draft

/-- A field that may be read once only. -/
def once {α σ : Type} (name : String) (before : Option α) (read : Tree → Except Issue α)
    (put : α → σ) : KeyUse σ :=
  match before with
  | some _ => .refuse (.here (.duplicateField name))
  | none => .read fun t => (read t).map put

/-- Items of a list in text order, one for each field, from the given index on.
Items behind the last field are trailing characters; fields behind the last item
stay as they are in the draft. -/
def readPositions {σ : Type} (index : Nat) (draft : σ) :
    List (σ → Tree → Except Issue σ) → List Tree → Close → Except Issue σ
  | [], [], close =>
    match close with
    | .closed => .ok draft
    | .ended => .error (.here (.fault .endInList))
    | .trailingComma => .error (.here (.fault .trailingComma))
    | _ => .error (.here (.fault .trailingCharacters))
  | [], _ :: _, _ => .error (.here (.fault .trailingCharacters))
  | _ :: _, [], close => do
    here (faulty close.endList)
    return draft
  | field :: fields, t :: rest, close => do
    let draft ← within (.index index) (field draft t)
    readPositions (index + 1) draft fields rest close

/-- A record. `use` tells what an object does with its keys, `positions` reads
the fields of a list, and `finish` makes the record of a draft, or an issue out of
the problem of its first field when that one is missing. -/
structure RecordReader (σ α : Type) where
  wanted : String
  empty : σ
  use : σ → String → KeyUse σ
  positions : List (σ → Tree → Except Issue σ)
  firstField : String
  elements : String
  finish : Problem → σ → Except Problem α

def RecordReader.read {σ α : Type} (r : RecordReader σ α) (tree : Tree) : Except Issue α :=
  match tree with
  | .object entries close => do
    let draft ← readObject r.use r.empty entries close
    here (r.finish (.missingField r.firstField) draft)
  | .list items close => do
    let draft ← readPositions 0 r.empty r.positions items close
    here (r.finish (.invalidLength 0 r.elements) draft)
  | other => here (other.mismatch r.wanted)

/-- A value that must be there. -/
def need {α : Type} (missing : Problem) : Option α → Except Problem α
  | some a => .ok a
  | none => .error missing

end RuleClasses.Json
