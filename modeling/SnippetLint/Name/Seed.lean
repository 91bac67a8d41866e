import SnippetLint.Name.Set
import SnippetLint.Settings

/-!
The names that every snippet may use without defining them.
-/

namespace SnippetLint.Seed

def baseNames : List String :=
  ["print", "def", "class", "import", "from", "return", "if", "else", "elif", "while", "for",
   "in", "True", "False", "None"]

/-- Words that are keywords in some places only, and names elsewhere. -/
def softKeywords : List String :=
  ["match", "case", "type", "_"]

def builtinFunctions : List String :=
  ["abs", "aiter", "all", "anext", "any", "ascii", "bin", "bool", "breakpoint", "bytearray",
   "bytes", "callable", "chr", "classmethod", "compile", "complex", "copyright", "credits",
   "delattr", "dict", "dir", "divmod", "enumerate", "eval", "exec", "exit", "filter",
   "float", "format", "frozenset", "getattr", "globals", "hasattr", "hash", "help", "hex",
   "id", "input", "int", "isinstance", "issubclass", "iter", "len", "license", "list",
   "locals", "map", "max", "memoryview", "min", "next", "object", "oct", "open", "ord",
   "pow", "property", "quit", "range", "repr", "reversed", "round", "set", "setattr",
   "slice", "sorted", "staticmethod", "str", "sum", "super", "tuple", "vars", "zip",
   "__import__", "Ellipsis", "NotImplemented"]

def builtinExceptions : List String :=
  ["ArithmeticError", "AssertionError", "AttributeError", "BaseException",
   "BaseExceptionGroup", "BlockingIOError", "BrokenPipeError", "BufferError", "BytesWarning",
   "ChildProcessError", "ConnectionAbortedError", "ConnectionError",
   "ConnectionRefusedError", "ConnectionResetError", "DeprecationWarning", "EOFError",
   "EncodingWarning", "EnvironmentError", "Exception", "ExceptionGroup", "FileExistsError",
   "FileNotFoundError", "FloatingPointError", "FutureWarning", "GeneratorExit", "IOError",
   "ImportError", "ImportWarning", "IndentationError", "IndexError", "InterruptedError",
   "IsADirectoryError", "KeyError", "KeyboardInterrupt", "LookupError", "MemoryError",
   "ModuleNotFoundError", "NameError", "NotADirectoryError", "NotImplementedError",
   "OSError", "OverflowError", "PendingDeprecationWarning", "PermissionError",
   "ProcessLookupError", "RecursionError", "ReferenceError", "ResourceWarning",
   "RuntimeError", "RuntimeWarning", "StopAsyncIteration", "StopIteration", "SyntaxError",
   "SyntaxWarning", "SystemError", "SystemExit", "TabError", "TimeoutError", "TypeError",
   "UnboundLocalError", "UnicodeDecodeError", "UnicodeEncodeError", "UnicodeError",
   "UnicodeTranslateError", "UnicodeWarning", "UserWarning", "ValueError", "Warning",
   "ZeroDivisionError"]

def moduleAttributes : List String :=
  ["__name__", "__file__", "__doc__", "__builtins__", "__spec__", "__loader__",
   "__package__", "__debug__", "__annotations__", "__dict__", "__path__"]

/-- All of them, with those that the settings add. -/
def names (settings : Settings) : NameSet :=
  .ofList (baseNames ++ softKeywords ++ builtinFunctions ++ builtinExceptions ++
    moduleAttributes ++ settings.extraBuiltins)

end SnippetLint.Seed
