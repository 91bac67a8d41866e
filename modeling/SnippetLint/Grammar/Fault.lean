import SnippetLint.Token.Fault

/-!
Why a snippet has no tree, with the wording of each reason.
-/

namespace SnippetLint

/-- What an expression was used as a target for. -/
inductive TargetAction where
  | assign | delete
  deriving DecidableEq, Inhabited

namespace TargetAction

def text : TargetAction → String
  | assign => "assign to"
  | delete => "delete"

end TargetAction

/-- A header that wants a block. -/
inductive Construct where
  | ifStmt | elifClause | elseClause | whileStmt | forStmt | tryStmt | exceptClause
  | exceptStarClause | finallyClause | withStmt | functionDef | classDef | matchStmt | caseClause
  deriving DecidableEq, Inhabited

namespace Construct

def text : Construct → String
  | ifStmt => "'if' statement"
  | elifClause => "'elif' statement"
  | elseClause => "'else' statement"
  | whileStmt => "'while' statement"
  | forStmt => "'for' statement"
  | tryStmt => "'try' statement"
  | exceptClause => "'except' statement"
  | exceptStarClause => "'except*' statement"
  | finallyClause => "'finally' statement"
  | withStmt => "'with' statement"
  | functionDef => "function definition"
  | classDef => "class definition"
  | matchStmt => "'match' statement"
  | caseClause => "'case' statement"

end Construct

inductive GrammarFault where
  | expected (what : String)
  | invalidSyntax
  | unexpectedIndent
  | missingIndentedBlock (construct : Construct) (headerLine : Nat)
  | invalidTarget (action : TargetAction) (what : String)
  | illegalAnnotationTarget
  | illegalAugmentedTarget (what : String)
  | missingParenthesesInPrint
  | positionalAfterKeyword
  | unpackingAfterKeywordUnpacking
  | unparenthesizedGenerator
  | bareStarWithoutNames
  | mixedBytesLiterals
  | wildcardTarget
  | nonDefaultAfterDefault
  | missingExceptOrFinally
  | tooDeeplyNested
  /-- The text has no tokens from here on. -/
  | lexical (fault : LexicalFault)
  deriving DecidableEq, Inhabited

namespace GrammarFault

def message : GrammarFault → String
  | expected what => "expected " ++ what
  | invalidSyntax => "invalid syntax"
  | unexpectedIndent => "unexpected indent"
  | missingIndentedBlock construct line =>
    "expected an indented block after " ++ construct.text ++ s!" on line {line}"
  | invalidTarget action what => "cannot " ++ action.text ++ " " ++ what
  | illegalAnnotationTarget => "illegal target for annotation"
  | illegalAugmentedTarget what =>
    "'" ++ what ++ "' is an illegal expression for augmented assignment"
  | missingParenthesesInPrint =>
    "Missing parentheses in call to 'print'. Did you mean print(...)?"
  | positionalAfterKeyword => "positional argument follows keyword argument"
  | unpackingAfterKeywordUnpacking =>
    "iterable argument unpacking follows keyword argument unpacking"
  | unparenthesizedGenerator => "Generator expression must be parenthesized"
  | bareStarWithoutNames => "named arguments must follow bare *"
  | mixedBytesLiterals => "cannot mix bytes and nonbytes literals"
  | wildcardTarget => "cannot use '_' as a target"
  | nonDefaultAfterDefault => "parameter without a default follows parameter with a default"
  | missingExceptOrFinally => "expected 'except' or 'finally' block"
  | tooDeeplyNested => "too many nested expressions"
  | lexical fault => fault.message

/-- Whether the line structure is at fault. -/
def isIndentation : GrammarFault → Bool
  | unexpectedIndent | missingIndentedBlock _ _ => true
  | lexical fault => fault.isIndentation
  | _ => false

end GrammarFault

/-- A fault and the place where it is reported. -/
structure ParseError where
  fault : GrammarFault
  position : Position
  deriving DecidableEq, Inhabited

end SnippetLint
