/-!
The kinds of token: names, literals, hard keywords, operators and delimiters, and layout. Soft
keywords are names; the grammar recognises them by their text where it allows them.
-/

namespace SnippetLint

inductive Keyword where
  | falseKw | noneKw | trueKw | andKw | asKw | assertKw | asyncKw | awaitKw | breakKw
  | classKw | continueKw | defKw | delKw | elifKw | elseKw | exceptKw | finallyKw | forKw
  | fromKw | globalKw | ifKw | importKw | inKw | isKw | lambdaKw | nonlocalKw | notKw
  | orKw | passKw | raiseKw | returnKw | tryKw | whileKw | withKw | yieldKw
  deriving DecidableEq, Inhabited

inductive Operator where
  | plus | minus | star | doubleStar | slash | doubleSlash | percent | atSign | amper
  | pipe | caret | tilde | leftShift | rightShift | less | greater | lessEqual
  | greaterEqual | equalEqual | notEqual | equal | colonEqual | arrow | plusEqual
  | minusEqual | starEqual | doubleStarEqual | slashEqual | doubleSlashEqual | percentEqual
  | atEqual | amperEqual | pipeEqual | caretEqual | leftShiftEqual | rightShiftEqual
  | leftParen | rightParen | leftBracket | rightBracket | leftBrace | rightBrace | comma
  | colon | semicolon | dot | ellipsis
  deriving DecidableEq, Inhabited

namespace Keyword

/-- All hard keywords with their spelling. -/
def table : List (String × Keyword) :=
  [("False", .falseKw), ("None", .noneKw), ("True", .trueKw), ("and", .andKw),
   ("as", .asKw), ("assert", .assertKw), ("async", .asyncKw), ("await", .awaitKw),
   ("break", .breakKw), ("class", .classKw), ("continue", .continueKw), ("def", .defKw),
   ("del", .delKw), ("elif", .elifKw), ("else", .elseKw), ("except", .exceptKw),
   ("finally", .finallyKw), ("for", .forKw), ("from", .fromKw), ("global", .globalKw),
   ("if", .ifKw), ("import", .importKw), ("in", .inKw), ("is", .isKw),
   ("lambda", .lambdaKw), ("nonlocal", .nonlocalKw), ("not", .notKw), ("or", .orKw),
   ("pass", .passKw), ("raise", .raiseKw), ("return", .returnKw), ("try", .tryKw),
   ("while", .whileKw), ("with", .withKw), ("yield", .yieldKw)]

def ofWord? (word : String) : Option Keyword := table.lookup word

/-- The name under which a keyword is shown. -/
def label : Keyword → String
  | .falseKw => "False"
  | .noneKw => "None"
  | .trueKw => "True"
  | .andKw => "And"
  | .asKw => "As"
  | .assertKw => "Assert"
  | .asyncKw => "Async"
  | .awaitKw => "Await"
  | .breakKw => "Break"
  | .classKw => "Class"
  | .continueKw => "Continue"
  | .defKw => "Def"
  | .delKw => "Del"
  | .elifKw => "Elif"
  | .elseKw => "Else"
  | .exceptKw => "Except"
  | .finallyKw => "Finally"
  | .forKw => "For"
  | .fromKw => "From"
  | .globalKw => "Global"
  | .ifKw => "If"
  | .importKw => "Import"
  | .inKw => "In"
  | .isKw => "Is"
  | .lambdaKw => "Lambda"
  | .nonlocalKw => "Nonlocal"
  | .notKw => "Not"
  | .orKw => "Or"
  | .passKw => "Pass"
  | .raiseKw => "Raise"
  | .returnKw => "Return"
  | .tryKw => "Try"
  | .whileKw => "While"
  | .withKw => "With"
  | .yieldKw => "Yield"

end Keyword

namespace Operator

/-- All operators and delimiters with their spelling, longer ones first, so that the first
entry that fits a text is the longest one. -/
def table : List (String × Operator) :=
  [("**=", .doubleStarEqual), ("//=", .doubleSlashEqual), ("<<=", .leftShiftEqual),
   (">>=", .rightShiftEqual), ("...", .ellipsis), ("**", .doubleStar),
   ("//", .doubleSlash), ("<<", .leftShift), (">>", .rightShift), ("<=", .lessEqual),
   (">=", .greaterEqual), ("==", .equalEqual), ("!=", .notEqual), (":=", .colonEqual),
   ("->", .arrow), ("+=", .plusEqual), ("-=", .minusEqual), ("*=", .starEqual),
   ("/=", .slashEqual), ("%=", .percentEqual), ("@=", .atEqual), ("&=", .amperEqual),
   ("|=", .pipeEqual), ("^=", .caretEqual), ("+", .plus), ("-", .minus), ("*", .star),
   ("/", .slash), ("%", .percent), ("@", .atSign), ("&", .amper), ("|", .pipe),
   ("^", .caret), ("~", .tilde), ("<", .less), (">", .greater), ("=", .equal),
   ("(", .leftParen), (")", .rightParen), ("[", .leftBracket), ("]", .rightBracket),
   ("\x7b", .leftBrace), ("\x7d", .rightBrace), (",", .comma), (":", .colon),
   (";", .semicolon), (".", .dot)]

def label : Operator → String
  | .plus => "Plus"
  | .minus => "Minus"
  | .star => "Star"
  | .doubleStar => "DoubleStar"
  | .slash => "Slash"
  | .doubleSlash => "DoubleSlash"
  | .percent => "Percent"
  | .atSign => "At"
  | .amper => "Amper"
  | .pipe => "Pipe"
  | .caret => "Caret"
  | .tilde => "Tilde"
  | .leftShift => "LeftShift"
  | .rightShift => "RightShift"
  | .less => "Less"
  | .greater => "Greater"
  | .lessEqual => "LessEqual"
  | .greaterEqual => "GreaterEqual"
  | .equalEqual => "EqualEqual"
  | .notEqual => "NotEqual"
  | .equal => "Equal"
  | .colonEqual => "ColonEqual"
  | .arrow => "Arrow"
  | .plusEqual => "PlusEqual"
  | .minusEqual => "MinusEqual"
  | .starEqual => "StarEqual"
  | .doubleStarEqual => "DoubleStarEqual"
  | .slashEqual => "SlashEqual"
  | .doubleSlashEqual => "DoubleSlashEqual"
  | .percentEqual => "PercentEqual"
  | .atEqual => "AtEqual"
  | .amperEqual => "AmperEqual"
  | .pipeEqual => "PipeEqual"
  | .caretEqual => "CaretEqual"
  | .leftShiftEqual => "LeftShiftEqual"
  | .rightShiftEqual => "RightShiftEqual"
  | .leftParen => "LeftParen"
  | .rightParen => "RightParen"
  | .leftBracket => "LeftBracket"
  | .rightBracket => "RightBracket"
  | .leftBrace => "LeftBrace"
  | .rightBrace => "RightBrace"
  | .comma => "Comma"
  | .colon => "Colon"
  | .semicolon => "Semicolon"
  | .dot => "Dot"
  | .ellipsis => "Ellipsis"

/-- The operators that assign and compute at once. -/
def isAugmented : Operator → Bool
  | .plusEqual | .minusEqual | .starEqual | .doubleStarEqual | .slashEqual
  | .doubleSlashEqual | .percentEqual | .atEqual | .amperEqual | .pipeEqual
  | .caretEqual | .leftShiftEqual | .rightShiftEqual => true
  | _ => false

end Operator

inductive TokenKind where
  | name
  | number
  | string
  | keyword (word : Keyword)
  | op (sign : Operator)
  /-- The end of a logical line. -/
  | newline
  /-- A line break that ends no logical line. -/
  | nl
  | comment
  | indent
  | dedent
  | endMarker
  deriving DecidableEq, Inhabited

namespace TokenKind

def label : TokenKind → String
  | name => "Name"
  | number => "Number"
  | string => "String"
  | keyword word => word.label
  | op sign => sign.label
  | newline => "Newline"
  | nl => "Nl"
  | comment => "Comment"
  | indent => "Indent"
  | dedent => "Dedent"
  | endMarker => "EndMarker"

/-- How the kind reads after the word expected. -/
def describe : TokenKind → String
  | name => "name"
  | op .colon => "':'"
  | op .leftParen => "'('"
  | op .rightParen => "')'"
  | op .leftBracket => "'['"
  | op .rightBracket => "']'"
  | op .rightBrace => "'\x7d'"
  | op .equal => "'='"
  | keyword .inKw => "'in'"
  | keyword .importKw => "'import'"
  | keyword .elseKw => "'else'"
  | newline => "newline"
  | indent => "an indented block"
  | _ => "token"

def isKeyword : TokenKind → Bool
  | keyword _ => true
  | _ => false

def isAugmented : TokenKind → Bool
  | op sign => sign.isAugmented
  | _ => false

/-- Comments and line breaks that end no logical line, which the grammar never sees. -/
def isTrivia : TokenKind → Bool
  | comment | nl => true
  | _ => false

/-- Marks of the line structure. -/
def isLayout : TokenKind → Bool
  | newline | indent | dedent | endMarker => true
  | _ => false

end TokenKind

end SnippetLint
