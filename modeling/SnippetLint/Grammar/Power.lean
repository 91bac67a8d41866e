import SnippetLint.Token.Kind
import SnippetLint.Tree.Kind

/-!
Operators and how tightly they bind. A binary operator has a power to its left and one to its
right; a smaller power on the left makes it left-associative. From loosest to tightest: or, and,
not, comparisons, bitwise or, xor and and, shifts, sums, products, signs, powers.
-/

namespace SnippetLint.Power

def binaryOp? : TokenKind → Option BinaryOp
  | .op .plus => some .add
  | .op .minus => some .sub
  | .op .star => some .mult
  | .op .atSign => some .matMult
  | .op .slash => some .div
  | .op .doubleSlash => some .floorDiv
  | .op .percent => some .mod
  | .op .doubleStar => some .pow
  | .op .leftShift => some .leftShift
  | .op .rightShift => some .rightShift
  | .op .pipe => some .bitOr
  | .op .caret => some .bitXor
  | .op .amper => some .bitAnd
  | _ => none

/-- The operator that an augmented assignment applies. -/
def augmentedOp? : TokenKind → Option BinaryOp
  | .op .plusEqual => some .add
  | .op .minusEqual => some .sub
  | .op .starEqual => some .mult
  | .op .atEqual => some .matMult
  | .op .slashEqual => some .div
  | .op .doubleSlashEqual => some .floorDiv
  | .op .percentEqual => some .mod
  | .op .doubleStarEqual => some .pow
  | .op .leftShiftEqual => some .leftShift
  | .op .rightShiftEqual => some .rightShift
  | .op .pipeEqual => some .bitOr
  | .op .caretEqual => some .bitXor
  | .op .amperEqual => some .bitAnd
  | _ => none

/-- The powers of a binary operator to its left and to its right. -/
def ofBinary : BinaryOp → Nat × Nat
  | .bitOr => (9, 10)
  | .bitXor => (11, 12)
  | .bitAnd => (13, 14)
  | .leftShift | .rightShift => (15, 16)
  | .add | .sub => (17, 18)
  | .mult | .matMult | .div | .floorDiv | .mod => (19, 20)
  | .pow => (24, 21)

def boolOp? : TokenKind → Option BoolOp
  | .keyword .orKw => some .or
  | .keyword .andKw => some .and
  | _ => none

def ofBool : BoolOp → Nat × Nat
  | .or => (1, 2)
  | .and => (3, 4)

/-- The power of a comparison to its left and to its right. -/
def ofCompare : Nat × Nat := (7, 8)

/-- The comparison that two tokens start with, and how many of them it takes. -/
def compareOp? : TokenKind → TokenKind → Option (CompareOp × Nat)
  | .op .less, _ => some (.lt, 1)
  | .op .greater, _ => some (.gt, 1)
  | .op .lessEqual, _ => some (.ltE, 1)
  | .op .greaterEqual, _ => some (.gtE, 1)
  | .op .equalEqual, _ => some (.eq, 1)
  | .op .notEqual, _ => some (.notEq, 1)
  | .keyword .inKw, _ => some (.isIn, 1)
  | .keyword .notKw, .keyword .inKw => some (.notIn, 2)
  | .keyword .isKw, .keyword .notKw => some (.isNot, 2)
  | .keyword .isKw, _ => some (.is, 1)
  | _, _ => none

/-- The operator before an operand, with the least power of what it applies to. -/
def unaryOp? : TokenKind → Option (UnaryOp × Nat)
  | .keyword .notKw => some (.not, 5)
  | .op .minus => some (.minus, 21)
  | .op .plus => some (.plus, 21)
  | .op .tilde => some (.invert, 21)
  | _ => none

/-- The least power of an operand that leaves out comparisons. -/
def bitwiseOr : Nat := 9

/-- The kinds of token with which an expression can start. -/
def startsExpression : TokenKind → Bool
  | .name | .number | .string => true
  | .keyword .noneKw | .keyword .trueKw | .keyword .falseKw => true
  | .keyword .notKw | .keyword .lambdaKw | .keyword .awaitKw => true
  | .op .ellipsis | .op .leftParen | .op .leftBracket | .op .leftBrace => true
  | .op .minus | .op .plus | .op .tilde | .op .star => true
  | _ => false

end SnippetLint.Power
