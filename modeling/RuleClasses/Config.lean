import RuleClasses.Json.Reading
import RuleClasses.Plan

/-! Options of a run, and the files that hold them. -/

namespace RuleClasses

open Json (Issue Problem Tree within here faulty)

structure Config where
  /-- Names the builder semantics; the grammar's name when absent. -/
  name : Option String := none
  /-- A qualified type name; the default of the target when absent. -/
  rootPath : Option String := none
  target : Target := .python
  strict : Bool := false
  deriving DecidableEq, Repr

namespace Config

def rootType (c : Config) : Except Error RootType :=
  (RootType.ofPath c.target.separator (c.rootPath.getD c.target.defaultRootType)).mapError
    .badRootType

def options (c : Config) : Except Error Options :=
  c.rootType.map fun root =>
    { target := c.target
      rootType := root
      name := c.name
      strict := c.strict }

/-- The root type of a run was read from a path of its target. -/
theorem exists_ofPath_of_options {c : Config} {o : Options} (h : c.options = .ok o) :
    ∃ path, RootType.ofPath o.target.separator path = .ok o.rootType := by
  unfold options rootType at h
  cases hroot : RootType.ofPath c.target.separator (c.rootPath.getD c.target.defaultRootType) with
  | error text => rw [hroot] at h; cases h
  | ok root =>
    rw [hroot] at h
    cases h
    exact ⟨_, hroot⟩

/-! ## Files -/

def fieldNames : List String := ["name", "base_type", "target", "strict"]

def targetOfText (name : String) : Except Problem Target :=
  match Target.ofLanguage? name with
  | some t => .ok t
  | none => .error (.unknownVariant name (Target.all.map Target.language))

def readNull (tree : Tree) : Except Issue Unit :=
  match tree with
  | .null => .ok ()
  | other => here (other.mismatch "unit")

/-- The end of an object that holds a target. -/
def endTarget (rest : List (Json.Key × Tree)) (close : Json.Close) : Except Json.Fault Unit :=
  match rest, close with
  | [], .closed => .ok ()
  | [], .ended => .error .endInObject
  | _, _ => .error .valueExpected

/-- A target in an object: its name is the key of an entry without a value, and no
other entry follows. -/
def readTargetObject (entries : List (Json.Key × Tree)) (close : Json.Close) :
    Except Issue Target :=
  match entries, close with
  | (k, t) :: rest, close => do
    let name ← here (faulty k)
    let target ← here (targetOfText name)
    within (.key name) (readNull t)
    here (faulty (endTarget rest close))
    return target
  | [], .noColon k fault => do
    let name ← here (faulty k)
    let _ ← here (targetOfText name)
    .error (.here (.fault fault))
  | [], close => do
    here (faulty close.endObject)
    .error (.here (.fault .valueExpected))

def readTarget (tree : Tree) : Except Issue Target :=
  match tree with
  | .string name => here do
    let name ← faulty name
    targetOfText name
  | .object entries close => readTargetObject entries close
  | .brokenString wanted _ => .error (.here (.fault wanted))
  | .absent => .error (.here (.fault .endInValue))
  | _ => .error (.here (.fault .valueExpected))

/-- The fields that were read already. -/
structure Draft where
  name : Option (Option String) := none
  rootPath : Option (Option String) := none
  target : Option Target := none
  strict : Option Bool := none

def Draft.finish (d : Draft) : Config :=
  { name := d.name.getD none
    rootPath := d.rootPath.getD none
    target := d.target.getD .python
    strict := d.strict.getD false }

def unknownField (key : String) : Issue := ⟨[.key key], .unknownField key fieldNames⟩

/-- Every field may be absent, but none may be there that is not known. -/
def reader : Json.RecordReader Draft Config where
  wanted := "struct ModelGenConfig"
  empty := {}
  use d key :=
    match key with
    | "name" => Json.once key d.name Tree.readString? fun s => { d with name := some s }
    | "base_type" =>
      Json.once key d.rootPath Tree.readString? fun s => { d with rootPath := some s }
    | "target" => Json.once key d.target readTarget fun t => { d with target := some t }
    | "strict" => Json.once key d.strict Tree.readBool fun b => { d with strict := some b }
    | _ => .refuse (unknownField key)
  positions :=
    [fun d t => t.readString?.map fun s => { d with name := some s },
     fun d t => t.readString?.map fun s => { d with rootPath := some s },
     fun d t => (readTarget t).map fun k => { d with target := some k },
     fun d t => t.readBool.map fun b => { d with strict := some b }]
  firstField := "name"
  elements := "struct ModelGenConfig with 4 elements"
  finish _ d := .ok d.finish

def ofText (text : String) : Except Issue Config := reader.read (.ofChars text.toList)

def optionJson (value : Option String) : Json :=
  match value with
  | some s => .string s
  | none => .null

/-- All fields, also those that are as they would be anyway. -/
def toJson (c : Config) : Json :=
  .object [("name", optionJson c.name), ("base_type", optionJson c.rootPath),
    ("target", .string c.target.language), ("strict", .bool c.strict)]

end Config

end RuleClasses
