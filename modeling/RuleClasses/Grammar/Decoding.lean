import RuleClasses.Grammar.Basic
import RuleClasses.Grammar.Tag
import RuleClasses.Json.Reading

/-! Grammars from JSON. A rule or a grammar is read while the text is gone
through. An expression is first read as a JSON value, all but its own kind, and
only then taken apart; so a problem inside it is a problem of the whole
expression, while a fault of the text has its exact place. -/

namespace RuleClasses

open Json (Issue Problem Tree within here faulty need)

/-! ## Kinds of expressions -/

def Json.found : Json → Json.Found
  | .null => .null
  | .bool b => .bool b
  | .number n => .number n
  | .string s => .string s
  | .list _ => .list
  | .object _ => .object

def Tag.ofText (name : String) : Except Problem Tag :=
  match Tag.ofName? name with
  | some t => .ok t
  | none => .error (.unknownVariant name (Tag.all.map Tag.name))

/-- The kind of an outermost expression. -/
def Tag.read (tree : Tree) : Except Issue Tag :=
  match tree with
  | .string name => here do
    let name ← faulty name
    Tag.ofText name
  | other => here (other.mismatch "variant identifier")

/-- The kind of an expression inside another one, where it may be given by its
number too. -/
def Tag.ofJson (j : Json) : Except Problem Tag :=
  match j with
  | .string name => Tag.ofText name
  | .number (.int n) =>
    if n < 0 then .error (.invalidType j.found "variant identifier")
    else match Tag.all[n.toNat]? with
      | some t => .ok t
      | none => .error (.invalidIndex n Tag.all.length)
  | _ => .error (.invalidType j.found "variant identifier")

/-- The kind that the entries of an object give; `seen` holds it when an entry
before them gave it. -/
def Tag.ofEntries (seen : Option Tag) : List (String × Json) → Except Problem Tag
  | [] => need (.missingField "type") seen
  | (k, j) :: rest =>
    if k = "type" then
      match seen with
      | some _ => .error (.duplicateField "type")
      | none => do
        let t ← Tag.ofJson j
        Tag.ofEntries (some t) rest
    else Tag.ofEntries seen rest

/-! ## Expressions inside a value -/

/-- The fields of an expression that were read already. -/
structure Expr.Draft where
  text : Option String := none
  body : Option Expr := none
  parts : Option (List Expr) := none

namespace Expr

def Draft.has (d : Draft) : Tag.FieldKind → Bool
  | .text => d.text.isSome
  | .body => d.body.isSome
  | .parts => d.parts.isSome

/-- Put the field of one kind; the readers of the other kinds are not asked. -/
def Draft.put (d : Draft) (kind : Tag.FieldKind) (text : Unit → Except Problem String)
    (body : Unit → Except Problem Expr) (parts : Unit → Except Problem (List Expr)) :
    Except Problem Draft :=
  match kind with
  | .text => (text ()).map fun s => { d with text := some s }
  | .body => (body ()).map fun e => { d with body := some e }
  | .parts => (parts ()).map fun es => { d with parts := some es }

/-- The expression of a draft. -/
def Draft.finish (d : Draft) (tag : Tag) : Except Problem Expr :=
  let text (field : String) := need (.missingField field) d.text
  let body := need (.missingField "exp") d.body
  let parts (field : String) := need (.missingField field) d.parts
  match tag with
  | .void => .ok (.atom .void)
  | .cut => .ok (.atom .cut)
  | .token => (text "token").map fun s => .atom (.token s)
  | .pattern => (text "pattern").map fun s => .atom (.pattern s)
  | .call => (text "rule").map fun s => .atom (.call s)
  | .named => do return .bind false (← text "name") (← body)
  | .namedList => do return .bind true (← text "name") (← body)
  | .override => body.map (.wrap .override)
  | .sequence => (parts "items").map .sequence
  | .choice => (parts "options").map .choice
  | .optional => body.map (.wrap .optional)
  | .closure => body.map (.wrap .closure)
  | .positiveClosure => body.map (.wrap .positiveClosure)
  | .group => body.map (.wrap .group)
  | .lookahead => body.map (.wrap .lookahead)
  | .negativeLookahead => body.map (.wrap .negativeLookahead)

def textOf (j : Json) : Except Problem String :=
  match j with
  | .string s => .ok s
  | other => .error (.invalidType other.found "a string")

def plural (n : Nat) : String := if n = 1 then "1 element" else toString n ++ " elements"

/-- Too few values for the fields of an expression. -/
def tooShort (tag : Tag) (count : Nat) : Problem :=
  .invalidLength count
    ("struct variant Expr::" ++ tag.name ++ " with " ++ plural tag.fields.length)

/-- More values than the expression has fields. -/
def tooLong (fields count : Nat) : Problem :=
  .invalidLength count (plural fields ++ " in sequence")

def wanted : String := "internally tagged enum Expr"

mutual

def ofJson : Json → Except Problem Expr
  | .object entries => do
    let tag ← Tag.ofEntries none entries
    let d ← ofEntries tag {} entries
    d.finish tag
  | .list [] => .error (.missingField "type")
  | .list (t :: items) => do
    let tag ← Tag.ofJson t
    let d ← ofItems tag 0 {} tag.fields items
    d.finish tag
  | other => .error (.invalidType other.found wanted)

/-- The fields of an expression among the entries of an object. -/
def ofEntries (tag : Tag) (d : Draft) : List (String × Json) → Except Problem Draft
  | [] => .ok d
  | (k, j) :: rest =>
    match tag.fieldKind? k with
    | none => ofEntries tag d rest
    | some kind =>
      if d.has kind then .error (.duplicateField k)
      else do
        let d ← d.put kind (fun _ => textOf j) (fun _ => ofJson j) (fun _ => partsOf j)
        ofEntries tag d rest

/-- The fields of an expression as the items of a list; `count` fields were read
before them. -/
def ofItems (tag : Tag) (count : Nat) (d : Draft) :
    List (String × Tag.FieldKind) → List Json → Except Problem Draft
  | [], [] => .ok d
  | [], extra => .error (tooLong count (count + extra.length))
  | _ :: _, [] => .error (tooShort tag count)
  | (_, kind) :: fields, j :: rest => do
    let d ← d.put kind (fun _ => textOf j) (fun _ => ofJson j) (fun _ => partsOf j)
    ofItems tag (count + 1) d fields rest

def partsOf : Json → Except Problem (List Expr)
  | .list items => ofAll items
  | other => .error (.invalidType other.found "a sequence")

def ofAll : List Json → Except Problem (List Expr)
  | [] => .ok []
  | j :: rest => do
    let e ← ofJson j
    let es ← ofAll rest
    return e :: es

end

/-! ## Outermost expressions -/

/-- An object that is read as an expression: its kind, and all other entries. -/
structure Buffer where
  tag : Option Tag
  entries : List (String × Json)

def Buffer.use (room : Nat) (b : Buffer) (key : String) : Json.KeyUse Buffer :=
  if key = "type" then
    Json.once key b.tag Tag.read fun t => { b with tag := some t }
  else
    .read fun tree => (tree.read room).map fun j => { b with entries := b.entries ++ [(key, j)] }

/-- An expression, if `room` lists and objects may be open inside those around
it. -/
def read (room : Nat) (tree : Tree) : Except Issue Expr :=
  match tree, room with
  | .object entries close, room + 1 => do
    let b ← Json.readObject (Buffer.use room) ⟨none, []⟩ entries close
    here do
      let tag ← need (.missingField "type") b.tag
      let d ← ofEntries tag {} b.entries
      d.finish tag
  | .list (t :: items) close, room + 1 => do
    let tag ← within (.index 0) (Tag.read t)
    let values ← Json.readItems room 1 items
    here (faulty close.endList)
    here do
      let d ← ofItems tag 0 {} tag.fields values
      d.finish tag
  | .list [] close, _ + 1 => do
    here (faulty close.endList)
    .error (.here (.missingField "type"))
  | .object _ _, 0 | .list _ _, 0 => .error (.here (.fault .tooDeep))
  | other, _ => here (other.mismatch wanted)

end Expr

/-! ## Rules and grammars -/

structure Rule.Draft where
  name : Option String := none
  params : Option (List Json) := none
  body : Option Expr := none

/-- Parameters of a rule; in an object among them the last value of a key
counts. -/
def readParams (room : Nat) (tree : Tree) : Except Issue (List Json) :=
  tree.readList fun t => (t.read (room - 1)).map Json.mergeKeys

/-- Reads a rule that has room for that many lists and objects inside. -/
def Rule.reader (room : Nat) : Json.RecordReader Rule.Draft Rule where
  wanted := "struct RuleModel"
  empty := {}
  use d key :=
    match key with
    | "name" => Json.once key d.name Tree.readString fun s => { d with name := some s }
    | "params" => Json.once key d.params (readParams room) fun js => { d with params := some js }
    | "exp" => Json.once key d.body (Expr.read room) fun e => { d with body := some e }
    | _ => .pass
  positions :=
    [fun d t => t.readString.map fun s => { d with name := some s },
     fun d t => (readParams room t).map fun js => { d with params := some js },
     fun d t => (Expr.read room t).map fun e => { d with body := some e }]
  firstField := "name"
  elements := "struct RuleModel with 3 elements"
  finish missing d :=
    (need missing d.name).map fun name => ⟨name, d.params.getD [], d.body.getD .void⟩

structure Grammar.Draft where
  name : Option String := none
  rules : Option (List Rule) := none

def readRules (room : Nat) (tree : Tree) : Except Issue (List Rule) :=
  tree.readList (Rule.reader (room - 2)).read

def Grammar.reader (room : Nat) : Json.RecordReader Grammar.Draft Grammar where
  wanted := "struct GrammarModel"
  empty := {}
  use d key :=
    match key with
    | "name" => Json.once key d.name Tree.readString fun s => { d with name := some s }
    | "rules" => Json.once key d.rules (readRules room) fun rs => { d with rules := some rs }
    | _ => .pass
  positions :=
    [fun d t => t.readString.map fun s => { d with name := some s },
     fun d t => (readRules room t).map fun rs => { d with rules := some rs }]
  firstField := "name"
  elements := "struct GrammarModel with 2 elements"
  finish missing d := (need missing d.name).map fun name => ⟨name, d.rules.getD []⟩

/-! ## From texts -/

def Expr.ofText (text : String) : Except Issue Expr :=
  Expr.read Json.depthLimit (.ofChars text.toList)

def Rule.ofText (text : String) : Except Issue Rule :=
  (Rule.reader (Json.depthLimit - 1)).read (.ofChars text.toList)

def Grammar.ofText (text : String) : Except Issue Grammar :=
  (Grammar.reader (Json.depthLimit - 1)).read (.ofChars text.toList)

end RuleClasses
