import RuleClasses.Layout
import RuleClasses.Plan

/-! Plans as source text. Every file begins with the same note, and behind it come the
imports, the builder semantics and the classes. -/

namespace RuleClasses

namespace Emit

/-! ## What files of all targets have -/

def notice : List String :=
  ["WARNING: CAVEAT UTILITOR",
   "",
   "This file was automatically generated by modelgen.",
   "",
   "Any changes you make to it will be overwritten the next time",
   "the file is generated."]

/-- A line behind a comment mark. -/
def comment (mark line : String) : Layout :=
  .line (if line = "" then mark else mark ++ " " ++ line)

def noticeComment (mark : String) : List Layout := notice.map (comment mark)

/-- The class that collects all others is named after the plan. -/
def semanticsName (name : String) : String := name ++ "ModelBuilderSemantics"

/-! ## Python dataclasses

The builder semantics finds the classes at run time among the globals of the file. -/

namespace Dataclasses

def imports (b : RootType) : List Layout :=
  [.line "from __future__ import annotations",
   .blank,
   .line "from typing import Any",
   .line "from dataclasses import dataclass",
   .blank,
   .line "from tatsu.semantics import ModelBuilderSemantics"] ++
  (if b.module = "" then [] else [.line ("from " ++ b.module ++ " import " ++ b.name)])

def semantics (name : String) (b : RootType) : List Layout :=
  [.line ("class " ++ semanticsName (Target.python.identifier name) ++ "(ModelBuilderSemantics):"),
   .nested
    [.line "def __init__(self, context=None, types=None):",
     .nested
      [.line "types = [",
       .nested
        [.line "t for t in globals().values()",
         .line ("if type(t) is type and issubclass(t, " ++ b.name ++ ")")],
       .line "] + (types or [])",
       .line "super().__init__(context=context, types=types)"]]]

def preamble (p : Plan) : List Layout :=
  [.line "#!/usr/bin/env python3", .blank] ++ noticeComment "#" ++ [.blank] ++
    imports p.rootType ++ [.blank, .blank] ++ semantics p.name p.rootType

def header (name : String) : Option String → String
  | some base => "class " ++ name ++ "(" ++ base ++ "):"
  | none => "class " ++ name ++ ":"

/-- A class without attributes still has a body. -/
def body : List String → List Layout
  | [] => [.line "pass"]
  | attributes => attributes.map fun a => .line (a ++ ": Any = None")

def dataclass (name : String) (base : Option String) (attributes : List String) : List Layout :=
  [.blank, .blank, .line "@dataclass(eq=False)", .line (header name base),
   .nested (body attributes)]

end Dataclasses

/-! ## Rust structs

A struct holds its base in a field and dereferences to it. The builder semantics starts from
a constant that lists all types. -/

namespace Structs

def braces (head : String) (body : List Layout) : List Layout :=
  [.line (head ++ " \x7b"), .nested body, .line "\x7d"]

def imports (b : RootType) : List Layout :=
  [.line "use std::ops::Deref;", .blank, .line "use serde_json::Value;"] ++
  (if b.module = "" then []
    else [.blank, .line ("use " ++ b.module ++ "::" ++ b.name ++ ";")])

def registry (names : List String) : List Layout :=
  [.line "/// Every model type declared in this file, bases first.",
   .line "pub const MODEL_TYPES: &[&str] = &[",
   .nested (names.map fun n => .line ("\"" ++ n ++ "\",")),
   .line "];"]

def derives : Layout := .line "#[derive(Debug, Clone, Default)]"

def semantics (name : String) : List Layout :=
  let name := semanticsName (Target.rust.identifier name)
  derives :: braces ("pub struct " ++ name) [.line "pub types: Vec<String>,"] ++ [.blank] ++
    braces ("impl " ++ name)
      (braces "pub fn new(types: Option<Vec<String>>) -> Self"
        [.line "let mut all: Vec<String> = MODEL_TYPES.iter().map(|t| t.to_string()).collect();",
         .line "all.extend(types.unwrap_or_default());",
         .line "Self \x7b types: all \x7d"])

def preamble (p : Plan) : List Layout :=
  noticeComment "//" ++ [.blank] ++ imports p.rootType ++ [.blank] ++
    registry p.classNames ++ [.blank] ++ semantics p.name

def fields (base : Option String) (attributes : List String) : List Layout :=
  (base.toList.map fun b => .line ("pub base: " ++ b ++ ",")) ++
    attributes.map fun a => .line ("pub " ++ a ++ ": Option<Value>,")

def dereference (name base : String) : List Layout :=
  .blank :: braces ("impl Deref for " ++ name)
    ([.line ("type Target = " ++ base ++ ";"), .blank] ++
      braces ("fn deref(&self) -> &" ++ base) [.line "&self.base"])

def struct (name : String) (base : Option String) (attributes : List String) : List Layout :=
  [.blank, derives] ++
    match base, attributes with
    | none, [] => [.line ("pub struct " ++ name ++ ";")]
    | none, attributes => braces ("pub struct " ++ name) (fields none attributes)
    | some b, attributes =>
      braces ("pub struct " ++ name) (fields (some b) attributes) ++ dereference name b

end Structs

end Emit

/-! ## Files -/

def Decl.attributes : Decl → List String
  | .rule _ _ _ attributes => attributes
  | .base _ _ => []

namespace Target

def preamble (t : Target) (p : Plan) : List Layout :=
  match t with
  | python => Emit.Dataclasses.preamble p
  | rust => Emit.Structs.preamble p

def declaration (t : Target) (d : Decl) : List Layout :=
  match t with
  | python => Emit.Dataclasses.dataclass d.name d.base? d.attributes
  | rust => Emit.Structs.struct d.name d.base? d.attributes

end Target

/-- The source file of a plan. -/
def Plan.render (p : Plan) (t : Target) : String :=
  Layout.textAll 0 (t.preamble p ++ p.decls.flatMap t.declaration)

/-- The source file of a grammar's classes. -/
def Grammar.source (o : Options) (g : Grammar) : Except Error String :=
  (Plan.ofGrammar o g).map fun p => p.render o.target

end RuleClasses
