/-! What can be wrong with a JSON text itself, before anybody asks what it
means. -/

namespace RuleClasses.Json

inductive Fault where
  | endInValue
  | endInList
  | endInObject
  | endInString
  | valueExpected
  | wordExpected
  | colonExpected
  | commaOrBracketExpected
  | commaOrBraceExpected
  | keyNotString
  | trailingComma
  | trailingCharacters
  | invalidEscape
  | invalidNumber
  | numberOutOfRange
  | controlCharacter
  | loneSurrogate
  | surrogateCutOff
  | tooDeep
  deriving DecidableEq, Repr

def Fault.message : Fault → String
  | .endInValue => "EOF while parsing a value"
  | .endInList => "EOF while parsing a list"
  | .endInObject => "EOF while parsing an object"
  | .endInString => "EOF while parsing a string"
  | .valueExpected => "expected value"
  | .wordExpected => "expected ident"
  | .colonExpected => "expected `:`"
  | .commaOrBracketExpected => "expected `,` or `]`"
  | .commaOrBraceExpected => "expected `,` or `\x7d`"
  | .keyNotString => "key must be a string"
  | .trailingComma => "trailing comma"
  | .trailingCharacters => "trailing characters"
  | .invalidEscape => "invalid escape"
  | .invalidNumber => "invalid number"
  | .numberOutOfRange => "number out of range"
  | .controlCharacter => "control character (\\u0000-\\u001F) found while parsing a string"
  | .loneSurrogate => "lone leading surrogate in hex escape"
  | .surrogateCutOff => "unexpected end of hex escape"
  | .tooDeep => "recursion limit exceeded"

end RuleClasses.Json
