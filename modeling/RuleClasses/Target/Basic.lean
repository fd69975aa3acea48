import RuleClasses.Target.Reserved
import RuleClasses.Text.Identifier

/-! The languages in which classes can be written. -/

namespace RuleClasses

inductive Target where
  | python
  | rust
  deriving DecidableEq, Repr

namespace Target

def all : List Target := [python, rust]

def language : Target → String
  | python => "python"
  | rust => "rust"

def ofLanguage? (name : String) : Option Target := all.find? fun t => t.language = name

def fileExtension : Target → String
  | python => "py"
  | rust => "rs"

/-- What stands between the parts of a qualified type name. -/
def separator : Target → String
  | python => "."
  | rust => "::"

/-- The type that all classes derive from when nobody names another one. -/
def defaultRootType : Target → String
  | python => "tatsu.objectmodel.Node"
  | rust => "crate::ast::Node"

def keywords : Target → List String
  | python => Reserved.pythonKeywords
  | rust => Reserved.rustKeywords

def builtins : Target → List String
  | python => Reserved.pythonBuiltins
  | rust => Reserved.rustBuiltins

def isKeyword (t : Target) (name : String) : Bool := t.keywords.contains name

def isBuiltin (t : Target) (name : String) : Bool := t.builtins.contains name

/-- An identifier of the language for any name. -/
def identifier (t : Target) (name : String) : String := Text.identifier t.isKeyword name

end Target

end RuleClasses
