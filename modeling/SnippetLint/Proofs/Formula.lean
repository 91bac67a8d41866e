import SnippetLint.Token.Stream
import SnippetLint.Tree.Basic

/-!
Formulas, how they are written and the trees they stand for. A formula is made of names and numbers
with the operators of the language. It has a level, which says how tightly it holds together, and
each place for an operand asks for one; an operand of a looser level than its place asks for stands
in parentheses, and no other one does.

From loosest to tightest the levels are: 0 conditionals, 1 or, 2 and, 3 not, 4 comparisons,
5 bitwise or, 6 xor, 7 bitwise and, 8 shifts, 9 sums, 10 products, 11 signs, 12 powers, 13 names and
numbers.
-/

namespace SnippetLint

/-! ## Operators -/

namespace BoolOp

def level : BoolOp → Nat
  | .or => 1
  | .and => 2

def sign : BoolOp → Lexeme
  | .or => ⟨.keyword .orKw, ['o', 'r']⟩
  | .and => ⟨.keyword .andKw, ['a', 'n', 'd']⟩

end BoolOp

namespace UnaryOp

def level : UnaryOp → Nat
  | .not => 3
  | .invert | .plus | .minus => 11

def sign : UnaryOp → Lexeme
  | .not => ⟨.keyword .notKw, ['n', 'o', 't']⟩
  | .invert => ⟨.op .tilde, ['~']⟩
  | .plus => ⟨.op .plus, ['+']⟩
  | .minus => ⟨.op .minus, ['-']⟩

end UnaryOp

namespace BinaryOp

def level : BinaryOp → Nat
  | .bitOr => 5
  | .bitXor => 6
  | .bitAnd => 7
  | .leftShift | .rightShift => 8
  | .add | .sub => 9
  | .mult | .matMult | .div | .floorDiv | .mod => 10
  | .pow => 12

/-- The level of the operand before the operator: all but powers group to the left. -/
def leftLevel : BinaryOp → Nat
  | .pow => 13
  | op => op.level

def rightLevel : BinaryOp → Nat
  | .pow => 11
  | op => op.level + 1

def sign : BinaryOp → Lexeme
  | .bitOr => ⟨.op .pipe, ['|']⟩
  | .bitXor => ⟨.op .caret, ['^']⟩
  | .bitAnd => ⟨.op .amper, ['&']⟩
  | .leftShift => ⟨.op .leftShift, ['<', '<']⟩
  | .rightShift => ⟨.op .rightShift, ['>', '>']⟩
  | .add => ⟨.op .plus, ['+']⟩
  | .sub => ⟨.op .minus, ['-']⟩
  | .mult => ⟨.op .star, ['*']⟩
  | .matMult => ⟨.op .atSign, ['@']⟩
  | .div => ⟨.op .slash, ['/']⟩
  | .floorDiv => ⟨.op .doubleSlash, ['/', '/']⟩
  | .mod => ⟨.op .percent, ['%']⟩
  | .pow => ⟨.op .doubleStar, ['*', '*']⟩

end BinaryOp

/-- The words and signs of a comparison, of which there may be two. -/
def CompareOp.signs : CompareOp → List Lexeme
  | .eq => [⟨.op .equalEqual, ['=', '=']⟩]
  | .notEq => [⟨.op .notEqual, ['!', '=']⟩]
  | .lt => [⟨.op .less, ['<']⟩]
  | .ltE => [⟨.op .lessEqual, ['<', '=']⟩]
  | .gt => [⟨.op .greater, ['>']⟩]
  | .gtE => [⟨.op .greaterEqual, ['>', '=']⟩]
  | .is => [⟨.keyword .isKw, ['i', 's']⟩]
  | .isNot => [⟨.keyword .isKw, ['i', 's']⟩, ⟨.keyword .notKw, ['n', 'o', 't']⟩]
  | .isIn => [⟨.keyword .inKw, ['i', 'n']⟩]
  | .notIn => [⟨.keyword .notKw, ['n', 'o', 't']⟩, ⟨.keyword .inKw, ['i', 'n']⟩]

namespace Lexeme

def leftParen : Lexeme := ⟨.op .leftParen, ['(']⟩

def rightParen : Lexeme := ⟨.op .rightParen, [')']⟩

def ifWord : Lexeme := ⟨.keyword .ifKw, ['i', 'f']⟩

def elseWord : Lexeme := ⟨.keyword .elseKw, ['e', 'l', 's', 'e']⟩

end Lexeme

/-! ## Formulas -/

/-- A word that is no keyword. -/
structure Identifier where
  first : Char
  more : List Char
  isStart_first : Word.isStart first = true
  isPart_more : ∀ c ∈ more, Word.isPart c = true
  kind_eq : Word.kind (first :: more) = .name

namespace Identifier

def lexeme (id : Identifier) : Lexeme := ⟨.name, id.first :: id.more⟩

def text (id : Identifier) : String := String.ofList (id.first :: id.more)

end Identifier

/-- A text that is a number from its start to its end. -/
structure NumberLiteral where
  chars : List Char
  starts_eq : Number.starts chars = true
  munch_eq : Number.munch chars = .ok chars

namespace NumberLiteral

def lexeme (literal : NumberLiteral) : Lexeme := ⟨.number, literal.chars⟩

def text (literal : NumberLiteral) : String := String.ofList literal.chars

end NumberLiteral

inductive Formula where
  | name (id : Identifier)
  | number (literal : NumberLiteral)
  | unary (op : UnaryOp) (operand : Formula)
  | binary (op : BinaryOp) (left right : Formula)
  /-- Two operands or more. -/
  | bool (op : BoolOp) (first second : Formula) (more : List Formula)
  /-- One comparison or more. -/
  | compare (first : Formula) (op : CompareOp) (second : Formula)
      (more : List (CompareOp × Formula))
  | conditional (body test orElse : Formula)

namespace Formula

def level : Formula → Nat
  | name _ | number _ => 13
  | unary op _ => op.level
  | binary op _ _ => op.level
  | bool op _ _ _ => op.level
  | compare _ _ _ _ => 4
  | conditional _ _ _ => 0

/-- What is written for a formula where this level is asked for. -/
def enclose (least : Nat) (f : Formula) (written : List Lexeme) : List Lexeme :=
  if f.level < least then .leftParen :: written ++ [.rightParen] else written

mutual

/-- The formula without parentheses around it. -/
def bare : Formula → List Lexeme
  | name id => [id.lexeme]
  | number literal => [literal.lexeme]
  | unary op f => op.sign :: f.enclose op.level (bare f)
  | binary op left right =>
    left.enclose op.leftLevel (bare left) ++ op.sign :: right.enclose op.rightLevel (bare right)
  | bool op first second more =>
    first.enclose (op.level + 1) (bare first) ++
      (op.sign :: second.enclose (op.level + 1) (bare second) ++ bareAll op more)
  | compare first op second more =>
    first.enclose 5 (bare first) ++ (op.signs ++ second.enclose 5 (bare second) ++ bareLinks more)
  | conditional body test orElse =>
    body.enclose 1 (bare body) ++
      .ifWord :: (test.enclose 1 (bare test) ++ .elseWord :: orElse.enclose 0 (bare orElse))

/-- More operands, each with the operator before it. -/
def bareAll (op : BoolOp) : List Formula → List Lexeme
  | [] => []
  | f :: fs => op.sign :: f.enclose (op.level + 1) (bare f) ++ bareAll op fs

/-- More comparisons. -/
def bareLinks : List (CompareOp × Formula) → List Lexeme
  | [] => []
  | (op, f) :: links => op.signs ++ f.enclose 5 (bare f) ++ bareLinks links

end

/-- A formula as it is written where a level is asked for. -/
def lexemes (least : Nat) (f : Formula) : List Lexeme := f.enclose least f.bare

/-- The text of a formula: its lexemes with a space between them. -/
def text (f : Formula) : String :=
  String.ofList ([' '].intercalate ((f.lexemes 0).map Lexeme.chars))

mutual

/-- The tree that a formula stands for, without places. -/
def tree : Formula → Tree
  | name id => .node (.name id.text .load) .zero []
  | number literal => .node (.constant (.number literal.text)) .zero []
  | unary op f => .node (.unaryOp op) .zero [tree f]
  | binary op left right => .node (.binOp op) .zero [tree left, tree right]
  | bool op first second more => .node (.boolOp op) .zero (tree first :: tree second :: trees more)
  | compare first op second more =>
    .node (.compare (op :: more.map (·.1))) .zero (tree first :: tree second :: linkTrees more)
  | conditional body test orElse => .node .ifExp .zero [tree body, tree test, tree orElse]

def trees : List Formula → List Tree
  | [] => []
  | f :: fs => tree f :: trees fs

def linkTrees : List (CompareOp × Formula) → List Tree
  | [] => []
  | (_, f) :: links => tree f :: linkTrees links

end

/-! ## Induction -/

/-- Induction on formulas, with the operands of a chain as members of a list. -/
@[elab_as_elim]
theorem induction {P : Formula → Prop} (name : ∀ id, P (.name id))
    (number : ∀ literal, P (.number literal)) (unary : ∀ op f, P f → P (.unary op f))
    (binary : ∀ op left right, P left → P right → P (.binary op left right))
    (bool : ∀ op first second more, P first → (∀ f ∈ second :: more, P f) →
      P (.bool op first second more))
    (compare : ∀ first op second more, P first → (∀ link ∈ (op, second) :: more, P link.2) →
      P (.compare first op second more))
    (conditional : ∀ body test orElse, P body → P test → P orElse →
      P (.conditional body test orElse)) (f : Formula) : P f := by
  refine @Formula.rec P (fun fs => ∀ f ∈ fs, P f) (fun links => ∀ link ∈ links, P link.2)
    (fun link => P link.2) name number unary binary ?_ ?_ conditional ?_ ?_ ?_ ?_ ?_ f
  · intro op first second more hfirst hsecond hmore
    exact bool op first second more hfirst (List.forall_mem_cons.2 ⟨hsecond, hmore⟩)
  · intro first op second more hfirst hsecond hmore
    exact compare first op second more hfirst (List.forall_mem_cons.2 ⟨hsecond, hmore⟩)
  · exact fun f hf => nomatch hf
  · exact fun f fs hf hfs => List.forall_mem_cons.2 ⟨hf, hfs⟩
  · exact fun link hlink => nomatch hlink
  · exact fun link links hlink hlinks => List.forall_mem_cons.2 ⟨hlink, hlinks⟩
  · exact fun op f hf => hf

/-! ## What is written -/

theorem lexemes_of_lt {least : Nat} {f : Formula} (h : f.level < least) :
    f.lexemes least = .leftParen :: (f.bare ++ [.rightParen]) := if_pos h

theorem lexemes_of_le {least : Nat} {f : Formula} (h : least ≤ f.level) :
    f.lexemes least = f.bare := if_neg (Nat.not_lt.2 h)

theorem bare_unary (op : UnaryOp) (f : Formula) :
    (unary op f).bare = op.sign :: f.lexemes op.level := rfl

theorem bare_binary (op : BinaryOp) (left right : Formula) :
    (binary op left right).bare =
      left.lexemes op.leftLevel ++ op.sign :: right.lexemes op.rightLevel := rfl

theorem bare_bool (op : BoolOp) (first second : Formula) (more : List Formula) :
    (bool op first second more).bare =
      first.lexemes (op.level + 1) ++ bareAll op (second :: more) := rfl

theorem bareAll_cons (op : BoolOp) (f : Formula) (fs : List Formula) :
    bareAll op (f :: fs) = op.sign :: (f.lexemes (op.level + 1) ++ bareAll op fs) := rfl

theorem bareAll_eq_flatMap (op : BoolOp) (fs : List Formula) :
    bareAll op fs = fs.flatMap fun f => op.sign :: f.lexemes (op.level + 1) := by
  induction fs with
  | nil => rfl
  | cons f fs ih => rw [bareAll_cons, ih, List.flatMap_cons, List.cons_append]

theorem bare_compare (first : Formula) (op : CompareOp) (second : Formula)
    (more : List (CompareOp × Formula)) :
    (compare first op second more).bare =
      first.lexemes 5 ++ bareLinks ((op, second) :: more) := rfl

theorem bareLinks_cons (op : CompareOp) (f : Formula) (links : List (CompareOp × Formula)) :
    bareLinks ((op, f) :: links) = op.signs ++ f.lexemes 5 ++ bareLinks links := rfl

theorem bareLinks_eq_flatMap (links : List (CompareOp × Formula)) :
    bareLinks links = links.flatMap fun link => link.1.signs ++ link.2.lexemes 5 := by
  induction links with
  | nil => rfl
  | cons link links ih => rw [bareLinks_cons, ih, List.flatMap_cons]

theorem bare_conditional (body test orElse : Formula) :
    (conditional body test orElse).bare =
      body.lexemes 1 ++ .ifWord :: (test.lexemes 1 ++ .elseWord :: orElse.lexemes 0) := rfl

/-- The kinds of token with which a formula can start where a level is asked for. -/
def canStart (least : Nat) : TokenKind → Bool
  | .name | .number | .op .leftParen | .op .plus | .op .minus | .op .tilde => true
  | .keyword .notKw => least ≤ 3
  | _ => false

theorem canStart_of_le {least more : Nat} {kind : TokenKind} (hle : least ≤ more)
    (h : canStart more kind = true) : canStart least kind = true := by
  unfold canStart at *
  split
  all_goals first | rfl | skip
  · simp only [decide_eq_true_eq] at *
    omega
  · simp_all

theorem canStart_sign (op : UnaryOp) : canStart op.level op.sign.kind = true := by
  cases op <;> rfl

/-- Lexemes that start as a formula may where a level is asked for. -/
def Starts (least : Nat) (ls : List Lexeme) : Prop :=
  ∃ l rest, ls = l :: rest ∧ canStart least l.kind = true

theorem Starts.append {least level : Nat} {ls : List Lexeme} (h : Starts level ls)
    (hle : least ≤ level) (rest : List Lexeme) : Starts least (ls ++ rest) := by
  obtain ⟨l, ls, rfl, hstart⟩ := h
  exact ⟨l, ls ++ rest, rfl, canStart_of_le hle hstart⟩

theorem starts_lexemes_of_bare {least : Nat} {f : Formula}
    (h : least ≤ f.level → Starts least f.bare) : Starts least (f.lexemes least) := by
  by_cases hlt : f.level < least
  · exact ⟨_, _, lexemes_of_lt hlt, rfl⟩
  · rw [lexemes_of_le (Nat.not_lt.1 hlt)]
    exact h (Nat.not_lt.1 hlt)

/-- A formula is never written as nothing, and starts with `not` only where that may stand. -/
theorem starts_lexemes (f : Formula) (least : Nat) : Starts least (f.lexemes least) := by
  induction f using Formula.induction generalizing least with
  | name id => exact starts_lexemes_of_bare fun _ => ⟨_, _, rfl, rfl⟩
  | number literal => exact starts_lexemes_of_bare fun _ => ⟨_, _, rfl, rfl⟩
  | unary op f _ =>
    exact starts_lexemes_of_bare fun h => ⟨_, _, rfl, canStart_of_le h (canStart_sign op)⟩
  | binary op left right ih _ =>
    have hle : op.level ≤ op.leftLevel := by cases op <;> decide
    exact starts_lexemes_of_bare fun h => (ih _).append (Nat.le_trans h hle) _
  | bool op first second more ih _ =>
    exact starts_lexemes_of_bare fun h => (ih _).append (Nat.le_succ_of_le h) _
  | compare first op second more ih _ =>
    exact starts_lexemes_of_bare fun h => (ih _).append (Nat.le_succ_of_le h) _
  | conditional body test orElse ih _ _ =>
    exact starts_lexemes_of_bare fun h => (ih _).append (Nat.le_succ_of_le h) _

/-- The lexemes of formulas, other than parentheses. -/
inductive Writes : Lexeme → Prop
  | name (id : Identifier) : Writes id.lexeme
  | number (literal : NumberLiteral) : Writes literal.lexeme
  | unary (op : UnaryOp) : Writes op.sign
  | binary (op : BinaryOp) : Writes op.sign
  | bool (op : BoolOp) : Writes op.sign
  | compare (op : CompareOp) (l : Lexeme) (mem : l ∈ op.signs) : Writes l
  | ifWord : Writes .ifWord
  | elseWord : Writes .elseWord

/-- Lexemes of formulas whose parentheses match, when some are open before them. -/
inductive Balanced : Nat → List Lexeme → Prop
  | nil : Balanced 0 []
  | lexeme {depth : Nat} {l : Lexeme} {ls : List Lexeme} (writes : Writes l)
      (rest : Balanced depth ls) : Balanced depth (l :: ls)
  | leftParen {depth : Nat} {ls : List Lexeme} (rest : Balanced (depth + 1) ls) :
      Balanced depth (.leftParen :: ls)
  | rightParen {depth : Nat} {ls : List Lexeme} (rest : Balanced depth ls) :
      Balanced (depth + 1) (.rightParen :: ls)

/-- Lexemes in which every parenthesis has its partner. -/
def Closed (ls : List Lexeme) : Prop :=
  ∀ ⦃depth : Nat⦄ ⦃rest : List Lexeme⦄, Balanced depth rest → Balanced depth (ls ++ rest)

namespace Closed

theorem nil : Closed [] := fun _ _ h => h

theorem cons {l : Lexeme} {ls : List Lexeme} (writes : Writes l) (h : Closed ls) :
    Closed (l :: ls) := fun _ _ hrest => .lexeme writes (h hrest)

theorem append {front back : List Lexeme} (hfront : Closed front) (hback : Closed back) :
    Closed (front ++ back) := by
  intro depth rest hrest
  rw [List.append_assoc]
  exact hfront (hback hrest)

theorem of_writes {ls : List Lexeme} (h : ∀ l ∈ ls, Writes l) : Closed ls := by
  induction ls with
  | nil => exact nil
  | cons l ls ih =>
    obtain ⟨hl, hls⟩ := List.forall_mem_cons.1 h
    exact cons hl (ih hls)

theorem lexemes {f : Formula} (h : Closed f.bare) (least : Nat) : Closed (f.lexemes least) := by
  by_cases hlt : f.level < least
  · intro depth rest hrest
    rw [lexemes_of_lt hlt, List.cons_append, List.append_assoc]
    exact .leftParen (h (.rightParen hrest))
  · rw [lexemes_of_le (Nat.not_lt.1 hlt)]
    exact h

end Closed

theorem closed_bareAll {op : BoolOp} {fs : List Formula} (h : ∀ f ∈ fs, Closed f.bare) :
    Closed (bareAll op fs) := by
  induction fs with
  | nil => exact .nil
  | cons f fs ih =>
    obtain ⟨hf, hfs⟩ := List.forall_mem_cons.1 h
    rw [bareAll_cons]
    exact .cons (.bool op) ((hf.lexemes _).append (ih hfs))

theorem closed_bareLinks {links : List (CompareOp × Formula)}
    (h : ∀ link ∈ links, Closed link.2.bare) : Closed (bareLinks links) := by
  induction links with
  | nil => exact .nil
  | cons link links ih =>
    obtain ⟨op, f⟩ := link
    obtain ⟨hf, hlinks⟩ := List.forall_mem_cons.1 h
    rw [bareLinks_cons]
    exact ((Closed.of_writes fun l hl => .compare op l hl).append (hf.lexemes _)).append (ih hlinks)

theorem closed_bare (f : Formula) : Closed f.bare := by
  induction f using Formula.induction with
  | name id => exact .cons (.name id) .nil
  | number literal => exact .cons (.number literal) .nil
  | unary op f ih =>
    rw [bare_unary]
    exact .cons (.unary op) (ih.lexemes _)
  | binary op left right hleft hright =>
    rw [bare_binary]
    exact (hleft.lexemes _).append (.cons (.binary op) (hright.lexemes _))
  | bool op first second more hfirst hmore =>
    rw [bare_bool]
    exact (hfirst.lexemes _).append (closed_bareAll hmore)
  | compare first op second more hfirst hmore =>
    rw [bare_compare]
    exact (hfirst.lexemes _).append (closed_bareLinks hmore)
  | conditional body test orElse hbody htest horElse =>
    rw [bare_conditional]
    exact (hbody.lexemes _).append
      (.cons .ifWord ((htest.lexemes _).append (.cons .elseWord (horElse.lexemes _))))

/-- The parentheses of a formula match. -/
theorem balanced_lexemes (f : Formula) (least : Nat) : Balanced 0 (f.lexemes least) := by
  have h := (closed_bare f).lexemes least Balanced.nil
  rwa [List.append_nil] at h

/-! ## Trees -/

theorem trees_eq_map (fs : List Formula) : trees fs = fs.map tree := by
  induction fs with
  | nil => rfl
  | cons f fs ih => rw [trees, ih, List.map_cons]

theorem linkTrees_eq_map (links : List (CompareOp × Formula)) :
    linkTrees links = links.map fun link => link.2.tree := by
  induction links with
  | nil => rfl
  | cons link links ih => rw [linkTrees, ih, List.map_cons]

theorem isStarred_tree (f : Formula) : f.tree.kind.isStarred = false := by
  cases f <;> rfl

end Formula

namespace Tree

mutual

/-- The kinds and the children of a tree, without places. -/
def skeleton : Tree → Tree
  | node kind _ children => .node kind .zero (skeletons children)

def skeletons : List Tree → List Tree
  | [] => []
  | t :: ts => skeleton t :: skeletons ts

end

theorem kind_skeleton (t : Tree) : t.skeleton.kind = t.kind := by
  cases t
  rfl

theorem skeletons_eq_map (ts : List Tree) : skeletons ts = ts.map skeleton := by
  induction ts with
  | nil => rfl
  | cons t ts ih => rw [skeletons, ih, List.map_cons]

theorem skeleton_node (kind : NodeKind) (span : Span) (children : List Tree) :
    (node kind span children).skeleton = .node kind .zero (children.map skeleton) := by
  rw [skeleton, skeletons_eq_map]

end Tree

end SnippetLint
