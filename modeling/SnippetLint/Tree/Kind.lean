import SnippetLint.Text.Position

/-!
The kinds of node in a tree. Names, operators and literals belong to the kind; operands and
statements inside are the children of the node.
-/

namespace SnippetLint

/-- Whether an expression is read, bound or deleted. -/
inductive Context where
  | load | store | del
  deriving DecidableEq, Inhabited

/-- How a parameter may be passed. -/
inductive ParameterKind where
  | positionalOnly | regular | varPositional | keywordOnly | varKeyword
  deriving DecidableEq, Inhabited

/-- One entry of an import statement; the name may be dotted, or a star. -/
structure Alias where
  name : String
  asName : Option String
  span : Span
  deriving DecidableEq, Inhabited

inductive BoolOp where
  | and | or
  deriving DecidableEq, Inhabited

inductive BinaryOp where
  | add | sub | mult | matMult | div | floorDiv | mod | pow | leftShift | rightShift
  | bitOr | bitXor | bitAnd
  deriving DecidableEq, Inhabited

inductive UnaryOp where
  | invert | not | plus | minus
  deriving DecidableEq, Inhabited

inductive CompareOp where
  | eq | notEq | lt | ltE | gt | gtE | is | isNot | isIn | notIn
  deriving DecidableEq, Inhabited

/-- Literals; numbers and strings keep their text. -/
inductive Constant where
  | none | true | false | ellipsis
  | number (text : String)
  | str (text : String)
  deriving DecidableEq, Inhabited

inductive NodeKind where
  | module
  /-- The statements after a colon. -/
  | block
  | functionDef (name : String) (isAsync : Bool)
  | classDef (name : String)
  | decorator
  | parameter (name : String) (kind : ParameterKind)
  | typeParam (name : String)
  | lambda
  | returnStmt
  | deleteStmt
  | assign
  | augAssign (op : BinaryOp)
  | annAssign
  | forStmt (isAsync : Bool)
  | whileStmt
  | ifStmt
  | withStmt (isAsync : Bool)
  | withItem
  | matchStmt
  | matchCase
  /-- A pattern with the name it is bound to. -/
  | matchAs (name : String)
  | raiseStmt
  | tryStmt (isStar : Bool)
  | exceptHandler (name : Option String)
  | assertStmt
  | importStmt (names : List Alias)
  | importFrom (module : Option String) (level : Nat) (names : List Alias)
  | globalStmt (names : List String)
  | nonlocalStmt (names : List String)
  | exprStmt
  | passStmt
  | breakStmt
  | continueStmt
  | boolOp (op : BoolOp)
  | namedExpr
  | binOp (op : BinaryOp)
  | unaryOp (op : UnaryOp)
  | ifExp
  | dict
  /-- A mapping spread inside a dictionary or a mapping pattern. -/
  | dictUnpack
  | set
  | listComp
  | setComp
  | dictComp
  | generatorExp
  | comprehension (isAsync : Bool)
  | awaitExpr
  | yieldExpr
  | yieldFrom
  | compare (ops : List CompareOp)
  | call
  /-- A named argument, or a mapping spread over the arguments if it has no name. -/
  | keyword (arg : Option String)
  | constant (value : Constant)
  | attribute (attr : String) (context : Context)
  | subscript (context : Context)
  | starred (context : Context)
  | name (id : String) (context : Context)
  | list (context : Context)
  | tuple (context : Context)
  | slice
  deriving DecidableEq, Inhabited

namespace NodeKind

/-- How the kind is named where it cannot be a target. -/
def describe : NodeKind → String
  | call => "function call"
  | constant .none => "None"
  | constant .true => "True"
  | constant .false => "False"
  | constant .ellipsis => "ellipsis"
  | constant (.number _) | constant (.str _) => "literal"
  | compare _ => "comparison"
  | ifExp => "conditional expression"
  | lambda => "lambda"
  | namedExpr => "named expression"
  | awaitExpr => "await expression"
  | yieldExpr | yieldFrom => "yield expression"
  | dict => "dict literal"
  | set => "set display"
  | listComp => "list comprehension"
  | setComp => "set comprehension"
  | dictComp => "dict comprehension"
  | generatorExp => "generator expression"
  | _ => "expression"

def isStarred : NodeKind → Bool
  | starred _ => true
  | _ => false

def isName : NodeKind → Bool
  | name _ _ => true
  | _ => false

end NodeKind

end SnippetLint
