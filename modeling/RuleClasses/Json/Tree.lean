import RuleClasses.Json.Token

/-! The tree of a JSON text that may be wrong somewhere. Nothing behind the first
fault is in the tree, and the fault stands in the tree where it stands in the
text, so a reader who walks the tree in text order meets it when, and only when,
it has read everything before it. Readers differ in what they make of a fault, and
some stop for reasons of their own before they come to it. -/

namespace RuleClasses.Json

/-- How a list or an object ends. -/
inductive Close where
  | closed
  /-- The text ends, or cannot be read on, where a comma or the bracket could
  stand. -/
  | ended
  | endedAfterComma
  | trailingComma
  /-- Something else than a comma or the bracket stands behind a value. -/
  | noComma
  /-- Something else than a string stands where a key is expected. -/
  | keyNotString
  | brokenKey (wanted passed : Fault)
  /-- No colon stands behind the last key. -/
  | noColon (key : Key) (fault : Fault)

inductive Tree where
  | null
  | bool (value : Bool)
  | number (value : Except Fault Number)
  | string (value : Key)
  | list (items : List Tree) (close : Close)
  | object (entries : List (Key × Tree)) (close : Close)
  /-- The text ends where a value should begin. -/
  | absent
  | broken (wanted passed : Fault)
  | brokenString (wanted passed : Fault)

/-! ## From tokens to a tree -/

/-- A list or an object around the value that is being read; what was read of it
comes with the nearest part first. -/
inductive Frame where
  | item (items : List Tree)
  | member (entries : List (Key × Tree)) (key : Key)

/-- Where the reading of the tokens stands. `first` marks the place right behind
an opening bracket. -/
inductive State where
  | done (tree : Tree)
  | value (around : List Frame)
  | item (first : Bool) (items : List Tree) (around : List Frame)
  | afterItem (items : List Tree) (around : List Frame)
  | key (first : Bool) (entries : List (Key × Tree)) (around : List Frame)
  | colon (entries : List (Key × Tree)) (key : Key) (around : List Frame)
  | afterMember (entries : List (Key × Tree)) (around : List Frame)

/-- The whole tree when the text cannot be read on behind `tree`. -/
def cutOff (tree : Tree) : List Frame → Tree
  | [] => tree
  | .item items :: around => cutOff (.list (tree :: items).reverse .ended) around
  | .member entries k :: around =>
    cutOff (.object ((k, tree) :: entries).reverse .ended) around

/-- Go on behind a value. -/
def State.give (tree : Tree) : List Frame → State
  | [] => .done tree
  | .item items :: around => .afterItem (tree :: items) around
  | .member entries k :: around => .afterMember ((k, tree) :: entries) around

/-- A token where a value is expected. -/
def State.start (token : Token) (around : List Frame) : State :=
  match token with
  | .null => .give .null around
  | .bool b => .give (.bool b) around
  | .number n => .give (.number n) around
  | .string s => .give (.string s) around
  | .openList => .item true [] around
  | .openObject => .key true [] around
  | .broken wanted passed => .done (cutOff (.broken wanted passed) around)
  | .brokenString wanted passed => .done (cutOff (.brokenString wanted passed) around)
  | .closeList | .closeObject | .comma | .colon =>
    .done (cutOff (.broken .valueExpected .valueExpected) around)

def listOf (items : List Tree) (close : Close) : Tree := .list items.reverse close

def objectOf (entries : List (Key × Tree)) (close : Close) : Tree := .object entries.reverse close

def State.step (token : Token) : State → State
  | .done tree => .done tree
  | .value around => .start token around
  | .item first items around =>
    match token with
    | .closeList =>
      if first then .give (listOf items .closed) around
      else .done (cutOff (listOf items .trailingComma) around)
    | token => .start token (.item items :: around)
  | .afterItem items around =>
    match token with
    | .comma => .item false items around
    | .closeList => .give (listOf items .closed) around
    | _ => .done (cutOff (listOf items .noComma) around)
  | .key first entries around =>
    match token with
    | .closeObject =>
      if first then .give (objectOf entries .closed) around
      else .done (cutOff (objectOf entries .trailingComma) around)
    | .string k => .colon entries k around
    | .brokenString wanted passed =>
      .done (cutOff (objectOf entries (.brokenKey wanted passed)) around)
    | _ => .done (cutOff (objectOf entries .keyNotString) around)
  | .colon entries k around =>
    match token with
    | .colon => .value (.member entries k :: around)
    | _ => .done (cutOff (objectOf entries (.noColon k .colonExpected)) around)
  | .afterMember entries around =>
    match token with
    | .comma => .key false entries around
    | .closeObject => .give (objectOf entries .closed) around
    | _ => .done (cutOff (objectOf entries .noComma) around)

/-- The tree of a text that ends here. -/
def State.finish : State → Tree
  | .done tree => tree
  | .value around => cutOff .absent around
  | .item true items around => cutOff (listOf items .ended) around
  | .item false items around => cutOff (listOf items .endedAfterComma) around
  | .afterItem items around => cutOff (listOf items .ended) around
  | .key true entries around => cutOff (objectOf entries .ended) around
  | .key false entries around => cutOff (objectOf entries .endedAfterComma) around
  | .colon entries k around => cutOff (objectOf entries (.noColon k .endInObject)) around
  | .afterMember entries around => cutOff (objectOf entries .ended) around

def State.run (state : State) (tokens : List Token) : State :=
  tokens.foldl (fun s t => s.step t) state

/-- The tree of the first value of a text. Text behind that value plays no
part. -/
def Tree.ofChars (s : List Char) : Tree := ((State.value []).run (tokens s)).finish

end RuleClasses.Json
