/-! Names that an output language keeps for itself. A keyword can be no name at
all; a built-in can, but a class of that name would hide it. -/

namespace RuleClasses.Reserved

def pythonKeywords : List String :=
  ["False", "None", "True", "and", "as", "assert", "async", "await", "break", "class", "continue",
   "def", "del", "elif", "else", "except", "finally", "for", "from", "global", "if", "import",
   "in", "is", "lambda", "nonlocal", "not", "or", "pass", "raise", "return", "try", "while",
   "with", "yield"]

/-- The names that are in scope in every module. -/
def pythonBuiltins : List String :=
  ["ArithmeticError", "AssertionError", "AttributeError", "BaseException", "BaseExceptionGroup",
   "BlockingIOError", "BrokenPipeError", "BufferError", "BytesWarning", "ChildProcessError",
   "ConnectionAbortedError", "ConnectionError", "ConnectionRefusedError", "ConnectionResetError",
   "DeprecationWarning", "EOFError", "Ellipsis", "EncodingWarning", "EnvironmentError",
   "Exception", "ExceptionGroup", "False", "FileExistsError", "FileNotFoundError",
   "FloatingPointError", "FutureWarning", "GeneratorExit", "IOError", "ImportError",
   "ImportWarning", "IndentationError", "IndexError", "InterruptedError", "IsADirectoryError",
   "KeyError", "KeyboardInterrupt", "LookupError", "MemoryError", "ModuleNotFoundError",
   "NameError", "None", "NotADirectoryError", "NotImplemented", "NotImplementedError", "OSError",
   "OverflowError", "PendingDeprecationWarning", "PermissionError", "ProcessLookupError",
   "RecursionError", "ReferenceError", "ResourceWarning", "RuntimeError", "RuntimeWarning",
   "StopAsyncIteration", "StopIteration", "SyntaxError", "SyntaxWarning", "SystemError",
   "SystemExit", "TabError", "TimeoutError", "True", "TypeError", "UnboundLocalError",
   "UnicodeDecodeError", "UnicodeEncodeError", "UnicodeError", "UnicodeTranslateError",
   "UnicodeWarning", "UserWarning", "ValueError", "Warning", "ZeroDivisionError",
   "__build_class__", "__debug__", "__doc__", "__import__", "__loader__", "__name__",
   "__package__", "__spec__", "abs", "aiter", "all", "anext", "any", "ascii", "bin", "bool",
   "breakpoint", "bytearray", "bytes", "callable", "chr", "classmethod", "compile", "complex",
   "copyright", "credits", "delattr", "dict", "dir", "divmod", "enumerate", "eval", "exec",
   "exit", "filter", "float", "format", "frozenset", "getattr", "globals", "hasattr", "hash",
   "help", "hex", "id", "input", "int", "isinstance", "issubclass", "iter", "len", "license",
   "list", "locals", "map", "max", "memoryview", "min", "next", "object", "oct", "open", "ord",
   "pow", "print", "property", "quit", "range", "repr", "reversed", "round", "set", "setattr",
   "slice", "sorted", "staticmethod", "str", "sum", "super", "tuple", "type", "vars", "zip"]

/-- With the name of the field that holds the embedded base. -/
def rustKeywords : List String :=
  ["as", "async", "await", "break", "const", "continue", "crate", "dyn", "else", "enum", "extern",
   "false", "fn", "for", "gen", "if", "impl", "in", "let", "loop", "match", "mod", "move", "mut",
   "pub", "ref", "return", "self", "Self", "static", "struct", "super", "trait", "true", "type",
   "unsafe", "use", "where", "while", "abstract", "become", "box", "do", "final", "macro",
   "override", "priv", "try", "typeof", "unsized", "virtual", "yield", "base"]

/-- Primitive types, the prelude, and the names that generated files import. -/
def rustBuiltins : List String :=
  ["bool", "char", "str", "u8", "u16", "u32", "u64", "u128", "usize", "i8", "i16", "i32", "i64",
   "i128", "isize", "f32", "f64", "Option", "Some", "None", "Result", "Ok", "Err", "Vec",
   "String", "Box", "ToOwned", "ToString", "Clone", "Copy", "Send", "Sync", "Sized", "Unpin",
   "Drop", "Fn", "FnMut", "FnOnce", "Default", "Eq", "PartialEq", "Ord", "PartialOrd", "Iterator",
   "IntoIterator", "Extend", "DoubleEndedIterator", "ExactSizeIterator", "FromIterator", "AsRef",
   "AsMut", "Into", "From", "TryFrom", "TryInto", "Value", "Deref", "MODEL_TYPES"]

end RuleClasses.Reserved
