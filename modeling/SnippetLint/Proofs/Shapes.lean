import Mathlib.Computability.RegularExpressions
import SnippetLint.Proofs.EmptyBlocks
import SnippetLint.Proofs.Spans

/-!
The shapes of trees. What a node has for children is a regular expression over phrases, one for
every kind and for what the node stands for; a tree is `Shaped` if all of its nodes keep to theirs.
Productions do (`shape_of_production`), and so do the items that become targets and the expressions
that become patterns. Main statements: `parsed_tree_is_shaped` and `only_first_child_is_starred`.
-/

namespace SnippetLint

mutual

/-- What holds of a node as soon as it holds of its children holds of every tree. -/
theorem Tree.forall_of_children {P : Tree → Prop}
    (node : ∀ kind span children, (∀ child ∈ children, P child) → P (.node kind span children)) :
    ∀ t : Tree, P t
  | .node kind span children => node kind span children (Tree.forall_mem_of_children node children)

theorem Tree.forall_mem_of_children {P : Tree → Prop}
    (node : ∀ kind span children, (∀ child ∈ children, P child) → P (.node kind span children)) :
    ∀ ts : List Tree, ∀ t ∈ ts, P t
  | [] => List.forall_mem_nil P
  | t :: ts =>
    List.forall_mem_cons.2
      ⟨Tree.forall_of_children node t, Tree.forall_mem_of_children node ts⟩

end

namespace Shapes
open SnippetLint.Derivation RegularExpression

/-! ## Shapes -/

abbrev Shape := RegularExpression Phrase

/-- A child that stands for a phrase. -/
abbrev child (phrase : Phrase) : Shape := char phrase

/-- One, or none. -/
def optional (shape : Shape) : Shape := 1 + shape

/-- One after another, and one at least. -/
def repeated (shape : Shape) : Shape := shape * shape.star

/-- The entries of a dictionary: keys with their values, and mappings that are spread. -/
def entries : Shape := (child .value * child .value + child .spread).star

/-- What an expression has for children. Captures stand among expressions only as long as a pattern
is being read. -/
def ofValue (captures : Bool) : NodeKind → Shape
  | .name _ .load | .constant _ => 1
  | .tuple .load | .list .load => (child .item).star
  | .set => repeated (child .item)
  -- only the colon after an item says that it is the first key
  | .dict => entries + child .item * (child .value * entries)
  | .listComp | .setComp | .generatorExp => child .item * repeated (child .clause)
  | .dictComp => child .item * (child .value * repeated (child .clause))
  | .lambda => (child .parameter).star * child .value
  | .ifExp => child .value * child .value * child .value
  | .boolOp _ => child .value * repeated (child .value)
  | .compare ops => if ops = [] then 0 else child .value * child .value ^ ops.length
  | .binOp _ => child .value * child .value
  | .unaryOp _ | .awaitExpr | .yieldFrom | .attribute _ .load => child .value
  | .yieldExpr => optional (child .item)
  | .namedExpr => child .binding * child .value
  | .call => child .value * (child .argument).star
  | .subscript .load => child .value * child .index
  | .matchAs _ => if captures then child .item else 0
  | _ => 0

/-- A value, or one that a star spreads. -/
def ofItem (captures : Bool) : NodeKind → Shape
  | .starred .load => child .value
  | kind => ofValue captures kind

/-- What stands between the brackets of a subscript. -/
def ofIndex (captures : Bool) : NodeKind → Shape
  | .slice => optional (child .item) * (optional (child .value) * optional (child .value))
  | .tuple .load => (child .index).star
  | kind => ofItem captures kind

def ofArgument (captures : Bool) : NodeKind → Shape
  | .keyword _ => child .value
  | kind => ofItem captures kind

/-- What is bound, or deleted; a star binds but does not delete. -/
def ofTarget (action : TargetAction) (kind : NodeKind) : Shape :=
  if kind = inContext (Target.contextOf action) kind then
    match kind with
    | .name _ _ => 1
    | .attribute _ _ => child .value
    | .subscript _ => child .value * child .index
    | .tuple _ | .list _ => (child (.target action)).star
    | .starred _ => if action = .delete then 0 else child (.target action)
    | _ => 0
  else 0

/-- Numbers with a sign, and sums of a real and an imaginary one. -/
def ofLiteral : NodeKind → Shape
  | .constant value => if value = .ellipsis then 0 else 1
  | .unaryOp .minus => child .value
  | .binOp .add | .binOp .sub => child .value * child .value
  | _ => 0

def ofPattern : NodeKind → Shape
  | .name _ .store => 1
  | .attribute _ .load => child (.pattern .dotted)
  | .tuple .load | .list .load => (child (.pattern .sequenceItem)).star
  | .dict =>
    (child (.pattern .mappingKey) * child (.pattern .pattern)).star * optional (child .remainder)
  | .call => child (.pattern .dotted) * (child .patternArgument).star
  | .binOp .bitOr => child (.pattern .pattern) * child (.pattern .pattern)
  | .matchAs _ => child (.pattern .pattern)
  | kind => ofLiteral kind

/-- The parts of a pattern: see `Pattern.bind`. -/
def ofSlot : Pattern.Slot → NodeKind → Shape
  | .sequenceItem, .starred .load => child .binding
  | .pattern, kind | .sequenceItem, kind => ofPattern kind
  | .mappingKey, .attribute _ .load | .dotted, .attribute _ .load => child (.pattern .dotted)
  | .mappingKey, kind => ofLiteral kind
  | .dotted, .name _ .load => 1
  | .dotted, _ => 0

def ofStatement : NodeKind → Shape
  | .exprStmt => child .item
  | .assign => repeated (child (.target .assign)) * child .item
  | .augAssign _ => child (.target .assign) * child .item
  | .annAssign => child (.target .assign) * child .value * optional (child .item)
  | .returnStmt => optional (child .item)
  | .raiseStmt => optional (child .value * optional (child .value))
  | .deleteStmt => child (.target .delete)
  | .assertStmt => child .value * optional (child .value)
  | .passStmt | .breakStmt | .continueStmt | .importStmt _ | .importFrom _ _ _ | .globalStmt _
  | .nonlocalStmt _ => 1
  | .ifStmt => repeated (child .value * child .block) * optional (child .block)
  | .whileStmt => child .value * child .block * optional (child .block)
  | .forStmt _ =>
    child (.target .assign) * child .item * child .block * optional (child .block)
  | .tryStmt _ =>
    child .block *
      (repeated (child .handler) * optional (child .block) * optional (child .block) + child .block)
  | .withStmt _ => repeated (child .withItem) * child .block
  | .functionDef _ _ =>
    (child .decorator).star * (child .typeParam).star * (child .parameter).star *
      optional (child .value) * child .block
  | .classDef _ =>
    (child .decorator).star * (child .typeParam).star * (child .argument).star * child .block
  | .matchStmt => child .item * (child .case).star
  | _ => 0

/-- What a node has for children that is of this kind and stands for this phrase; it may not stand
for it at all. -/
def shapeOf (captures : Bool) : Phrase → NodeKind → Shape
  | .value, kind => ofValue captures kind
  | .item, kind => ofItem captures kind
  | .index, kind => ofIndex captures kind
  | .argument, kind => ofArgument captures kind
  | .spread, .dictUnpack => child .value
  | .clause, .comprehension _ => child (.target .assign) * child .value * (child .value).star
  | .binding, .name _ .store => 1
  | .target action, kind => ofTarget action kind
  | .pattern slot, kind => ofSlot slot kind
  | .patternArgument, .keyword (some _) => child (.pattern .pattern)
  | .patternArgument, kind => ofPattern kind
  | .remainder, .dictUnpack => child .binding
  | .parameter, .parameter _ _ => optional (child .item) * optional (child .value)
  | .typeParam, .typeParam _ => optional (child .value) * optional (child .value)
  | .decorator, .decorator => child .value
  | .withItem, .withItem => child .value * optional (child (.target .assign))
  | .handler, .exceptHandler _ => optional (child .value) * child .block
  | .case, .matchCase => child (.pattern .pattern) * optional (child .value) * child .block
  | .block, .block => (child .statement).star
  | .statement, kind => ofStatement kind
  | .module, .module => (child .statement).star
  | _, _ => 0

example : [.value, .block, .value, .block, .block] ∈ (ofStatement .ifStmt).matches' ∧
    [.value, .block, .value] ∉ (ofStatement .ifStmt).matches' := by decide

/-- A tree that may stand for a phrase: its children stand for the phrases that its kind has, and so
on down to the leaves. -/
inductive Shaped (captures : Bool) : Phrase → Tree → Prop
  | node {phrase : Phrase} {kind : NodeKind} {span : Span} {xs : List (Phrase × Tree)}
      (shape : xs.map Prod.fst ∈ (shapeOf captures phrase kind).matches')
      (inside : ∀ x ∈ xs, Shaped captures x.1 x.2) :
      Shaped captures phrase (.node kind span (xs.map Prod.snd))

/-! ## Words of a shape -/

section Words

variable {p : Phrase} {phrases more : List Phrase} {language : Language Phrase} {n : Nat}

theorem mem_child (p : Phrase) : [p] ∈ (child p).matches' := rfl

theorem cons_mem (h : phrases ∈ language) : p :: phrases ∈ (child p).matches' * language :=
  Language.mem_mul.2 ⟨[p], mem_child p, phrases, h, rfl⟩

theorem pair_mem (p q : Phrase) : [p, q] ∈ (child p).matches' * (child q).matches' :=
  cons_mem (mem_child q)

theorem replicate_mem_star (p : Phrase) (n : Nat) :
    .replicate n p ∈ (child p).star.matches' := by
  rw [matches'_star, Language.mem_kstar]
  refine ⟨.replicate n [p], by simp, fun word hword => ?_⟩
  rw [List.eq_of_mem_replicate hword]
  exact mem_child p

theorem replicate_mem_repeated (p : Phrase) (n : Nat) :
    .replicate (n + 1) p ∈ (repeated (child p)).matches' := cons_mem (replicate_mem_star p n)

theorem replicate_mem_optional (p : Phrase) (h : n ≤ 1) :
    .replicate n p ∈ (optional (child p)).matches' := by
  rcases Nat.le_one_iff_eq_zero_or_eq_one.1 h with rfl | rfl
  · exact .inl rfl
  · exact .inr rfl

theorem replicate_mem_pow (p : Phrase) (n : Nat) : .replicate n p ∈ (child p ^ n).matches' := by
  rw [matches'_pow]
  induction n with
  | zero => exact rfl
  | succ n ih =>
    rw [pow_succ']
    exact cons_mem ih

theorem append_mem_star {shape : Shape} (h : phrases ∈ shape.matches')
    (hmore : more ∈ shape.star.matches') : phrases ++ more ∈ shape.star.matches' := by
  obtain ⟨words, rfl, hwords⟩ := Language.mem_kstar.1 hmore
  exact Language.mem_kstar.2 ⟨phrases :: words, rfl, List.forall_mem_cons.2 ⟨h, hwords⟩⟩

theorem mem_add_left {shape other : Shape} (h : phrases ∈ shape.matches') :
    phrases ∈ (shape + other).matches' := Or.inl h

theorem mem_add_right {shape other : Shape} (h : phrases ∈ other.matches') :
    phrases ∈ (shape + other).matches' := Or.inr h

theorem entries_mem (h : Entries phrases) : phrases ∈ entries.matches' := by
  induction h with
  | nil => exact Language.nil_mem_kstar _
  | pair _ ih => exact append_mem_star (mem_add_left (pair_mem .value .value)) ih
  | spread _ ih => exact append_mem_star (mem_add_right (mem_child .spread)) ih

theorem guards_mem (h : Guards phrases) :
    phrases ∈ (child .value * child .block).star.matches' := by
  induction h with
  | nil => exact Language.nil_mem_kstar _
  | cons _ ih => exact append_mem_star (pair_mem .value .block) ih

end Words

/-! ## Productions -/

section Productions

variable {captures : Bool} {kind : NodeKind} {phrases : List Phrase}

theorem value_of_production (h : Production captures .value kind phrases) :
    phrases ∈ (ofValue captures kind).matches' := by
  cases h with
  | name | constant => exact Language.nil_mem_one
  | tuple n | list n => exact replicate_mem_star .item n
  | set n => exact replicate_mem_repeated .item n
  | dict ordered => exact mem_add_left (entries_mem ordered)
  | dictFrom ordered => exact mem_add_right (cons_mem (cons_mem (entries_mem ordered)))
  | listComp n | setComp n | generatorExp n => exact cons_mem (replicate_mem_repeated .clause n)
  | dictComp n => exact cons_mem (cons_mem (replicate_mem_repeated .clause n))
  | lambda n => exact Language.append_mem_mul (replicate_mem_star .parameter n) (mem_child .value)
  | ifExp =>
    rw [ofValue, matches'_mul, matches'_mul, mul_assoc]
    exact cons_mem (pair_mem .value .value)
  | boolOp op n => exact cons_mem (replicate_mem_repeated .value n)
  | @compare ops h =>
    rw [ofValue, if_neg h]
    exact cons_mem (replicate_mem_pow .value ops.length)
  | binOp => exact pair_mem .value .value
  | yieldNothing => exact replicate_mem_optional .item (Nat.zero_le 1)
  | yieldValue => exact replicate_mem_optional .item (Nat.le_refl 1)
  | namedExpr => exact pair_mem .binding .value
  | call n => exact cons_mem (replicate_mem_star .argument n)
  | subscript => exact pair_mem .value .index
  | matchAs allowed =>
    rw [ofValue, if_pos allowed]
    exact mem_child .item
  -- what is left has one operand
  | _ => exact mem_child .value

theorem statement_of_production (h : Production captures .statement kind phrases) :
    phrases ∈ (ofStatement kind).matches' := by
  cases h with
  | exprStmt => exact mem_child .item
  | assign n =>
    exact Language.append_mem_mul (replicate_mem_repeated (.target .assign) n) (mem_child .item)
  | augAssign => exact pair_mem (.target .assign) .item
  | declaration =>
    exact Language.append_mem_mul (pair_mem (.target .assign) .value)
      (replicate_mem_optional .item (Nat.zero_le 1))
  | annAssign =>
    exact Language.append_mem_mul (pair_mem (.target .assign) .value)
      (replicate_mem_optional .item (Nat.le_refl 1))
  | returnStmt h => exact replicate_mem_optional .item h
  | @raiseStmt n h =>
    match n, h with
    | 0, _ => exact mem_add_left Language.nil_mem_one
    | m + 1, h =>
      exact mem_add_right (cons_mem (replicate_mem_optional .value (Nat.le_of_succ_le_succ h)))
  | deleteStmt => exact mem_child (.target .delete)
  | assertStmt n h => exact cons_mem (replicate_mem_optional .value h)
  | passStmt | breakStmt | continueStmt | importStmt | importFrom | globalStmt | nonlocalStmt =>
    exact Language.nil_mem_one
  | ifStmt hguards h =>
    refine Language.append_mem_mul ?_ (replicate_mem_optional .block h)
    exact Language.append_mem_mul (pair_mem .value .block) (guards_mem hguards)
  | whileStmt h =>
    exact Language.append_mem_mul (pair_mem .value .block) (replicate_mem_optional .block h)
  | forStmt isAsync h =>
    rw [ofStatement, matches'_mul, matches'_mul, matches'_mul, mul_assoc, mul_assoc]
    exact cons_mem (cons_mem (cons_mem (replicate_mem_optional .block h)))
  | tryStmt isStar handlers helse hfinal =>
    rw [List.cons_append, List.cons_append]
    refine cons_mem (mem_add_left ?_)
    exact Language.append_mem_mul (Language.append_mem_mul
      (replicate_mem_repeated .handler handlers) (replicate_mem_optional .block helse))
      (replicate_mem_optional .block hfinal)
  | tryFinally => exact cons_mem (mem_add_right (mem_child .block))
  | withStmt isAsync n =>
    exact Language.append_mem_mul (replicate_mem_repeated .withItem n) (mem_child .block)
  | functionDef name isAsync decorators types parameters h =>
    refine Language.append_mem_mul ?_ (mem_child .block)
    refine Language.append_mem_mul ?_ (replicate_mem_optional .value h)
    refine Language.append_mem_mul ?_ (replicate_mem_star .parameter parameters)
    exact Language.append_mem_mul (replicate_mem_star .decorator decorators)
      (replicate_mem_star .typeParam types)
  | classDef name decorators types arguments =>
    refine Language.append_mem_mul ?_ (mem_child .block)
    refine Language.append_mem_mul ?_ (replicate_mem_star .argument arguments)
    exact Language.append_mem_mul (replicate_mem_star .decorator decorators)
      (replicate_mem_star .typeParam types)
  | matchStmt n => exact cons_mem (replicate_mem_star .case n)

/-- What a production makes a node of is what its shape has. -/
theorem shape_of_production {phrase : Phrase} (h : Production captures phrase kind phrases) :
    phrases ∈ (shapeOf captures phrase kind).matches' := by
  cases phrase with
  | value => exact value_of_production h
  | statement => exact statement_of_production h
  | item | argument | spread | decorator =>
    cases h
    exact mem_child .value
  | index =>
    cases h with
    | slice hlower hupper hstep =>
      rw [List.append_assoc]
      exact Language.append_mem_mul (replicate_mem_optional .item hlower)
        (Language.append_mem_mul (replicate_mem_optional .value hupper)
          (replicate_mem_optional .value hstep))
    | indexTuple n => exact replicate_mem_star .index n
  | clause =>
    cases h with
    | comprehension isAsync n =>
      exact Language.append_mem_mul (pair_mem (.target .assign) .value)
        (replicate_mem_star .value n)
  | binding =>
    cases h
    exact Language.nil_mem_one
  | target action => cases h
  | pattern slot => cases h
  | patternArgument => cases h
  | remainder => cases h
  | module => cases h
  | parameter =>
    cases h with
    | parameter name kind htypes hdefault =>
      exact Language.append_mem_mul (replicate_mem_optional .item htypes)
        (replicate_mem_optional .value hdefault)
  | typeParam =>
    cases h with
    | typeParam name hbound hdefault =>
      exact Language.append_mem_mul (replicate_mem_optional .value hbound)
        (replicate_mem_optional .value hdefault)
  | withItem =>
    cases h with
    | context => exact cons_mem (replicate_mem_optional (.target .assign) (Nat.zero_le 1))
    | boundContext => exact cons_mem (replicate_mem_optional (.target .assign) (Nat.le_refl 1))
  | handler =>
    cases h with
    | handler name h =>
      exact Language.append_mem_mul (replicate_mem_optional .value h) (mem_child .block)
  | case =>
    cases h with
    | matchCase h =>
      refine Language.append_mem_mul ?_ (mem_child .block)
      exact Language.append_mem_mul (mem_child (.pattern .pattern))
        (replicate_mem_optional .value h)
  | block =>
    cases h with
    | block n => exact replicate_mem_star .statement n

end Productions

/-! ## Children -/

/-- Trees that stand, one after another, for the phrases of a word of the shape. -/
def Fits (captures : Bool) (shape : Shape) (ts : List Tree) : Prop :=
  ∃ xs : List (Phrase × Tree), xs.map Prod.snd = ts ∧ xs.map Prod.fst ∈ shape.matches' ∧
    ∀ x ∈ xs, Shaped captures x.1 x.2

section Children

variable {captures : Bool} {phrase p : Phrase} {kind : NodeKind} {span : Span} {shape other : Shape}
  {ts : List Tree} {t : Tree}

theorem shaped_iff : Shaped captures phrase (.node kind span ts) ↔
    Fits captures (shapeOf captures phrase kind) ts := by
  constructor
  · intro h
    cases h with
    | node hshape inside => exact ⟨_, rfl, hshape, inside⟩
  · rintro ⟨xs, rfl, hshape, inside⟩
    exact .node hshape inside

/-! What a tree has for children if it stands for one of the phrases that many kinds stand for. -/

theorem shaped_value :
    Shaped captures .value (.node kind span ts) ↔ Fits captures (ofValue captures kind) ts :=
  shaped_iff

theorem shaped_item :
    Shaped captures .item (.node kind span ts) ↔ Fits captures (ofItem captures kind) ts :=
  shaped_iff

theorem shaped_index :
    Shaped captures .index (.node kind span ts) ↔ Fits captures (ofIndex captures kind) ts :=
  shaped_iff

theorem shaped_argument :
    Shaped captures .argument (.node kind span ts) ↔ Fits captures (ofArgument captures kind) ts :=
  shaped_iff

theorem shaped_target {action : TargetAction} :
    Shaped captures (.target action) (.node kind span ts) ↔
      Fits captures (ofTarget action kind) ts :=
  shaped_iff

theorem shaped_pattern {slot : Pattern.Slot} :
    Shaped captures (.pattern slot) (.node kind span ts) ↔ Fits captures (ofSlot slot kind) ts :=
  shaped_iff

@[simp] theorem not_fits_zero : ¬ Fits captures 0 ts := by
  rintro ⟨xs, _, hshape, _⟩
  exact Language.notMem_zero _ hshape

@[simp] theorem fits_one : Fits captures 1 ts ↔ ts = [] := by
  constructor
  · rintro ⟨xs, rfl, hshape, _⟩
    rw [List.map_eq_nil_iff.1 hshape, List.map_nil]
  · rintro rfl
    exact ⟨[], rfl, Language.nil_mem_one, List.forall_mem_nil _⟩

@[simp] theorem fits_child :
    Fits captures (child p) ts ↔ ∃ t, ts = [t] ∧ Shaped captures p t := by
  constructor
  · rintro ⟨xs, rfl, hshape, inside⟩
    obtain ⟨x, rfl, rfl⟩ := List.map_eq_singleton_iff.1 hshape
    exact ⟨x.2, rfl, inside x (List.mem_singleton_self x)⟩
  · rintro ⟨t, rfl, ht⟩
    exact ⟨[(p, t)], rfl, mem_child p, by simpa using ht⟩

theorem fits_add :
    Fits captures (shape + other) ts ↔ Fits captures shape ts ∨ Fits captures other ts := by
  constructor
  · rintro ⟨xs, hts, hshape | hother, inside⟩
    · exact .inl ⟨xs, hts, hshape, inside⟩
    · exact .inr ⟨xs, hts, hother, inside⟩
  · rintro (⟨xs, hts, hshape, inside⟩ | ⟨xs, hts, hother, inside⟩)
    · exact ⟨xs, hts, mem_add_left hshape, inside⟩
    · exact ⟨xs, hts, mem_add_right hother, inside⟩

theorem fits_mul : Fits captures (shape * other) ts ↔
    ∃ front back, ts = front ++ back ∧ Fits captures shape front ∧ Fits captures other back := by
  constructor
  · rintro ⟨xs, rfl, hphrases, inside⟩
    obtain ⟨left, hleft, right, hright, happend⟩ := Language.mem_mul.1 hphrases
    obtain ⟨front, back, rfl, rfl, rfl⟩ := List.map_eq_append_iff.1 happend.symm
    obtain ⟨hfront, hback⟩ := List.forall_mem_append.1 inside
    exact ⟨_, _, List.map_append, ⟨front, rfl, hleft, hfront⟩, ⟨back, rfl, hright, hback⟩⟩
  · rintro ⟨_, _, rfl, ⟨front, rfl, hleft, hfront⟩, ⟨back, rfl, hright, hback⟩⟩
    refine ⟨front ++ back, List.map_append, ?_, List.forall_mem_append.2 ⟨hfront, hback⟩⟩
    rw [List.map_append]
    exact Language.append_mem_mul hleft hright

theorem fits_child_mul : Fits captures (child p * shape) ts ↔
    ∃ t rest, ts = t :: rest ∧ Shaped captures p t ∧ Fits captures shape rest := by
  rw [fits_mul]
  constructor
  · rintro ⟨front, rest, rfl, hfront, hrest⟩
    obtain ⟨t, rfl, ht⟩ := fits_child.1 hfront
    exact ⟨t, rest, rfl, ht, hrest⟩
  · rintro ⟨t, rest, rfl, ht, hrest⟩
    exact ⟨[t], rest, rfl, fits_child.2 ⟨t, rfl, ht⟩, hrest⟩

theorem fits_pair {q : Phrase} : Fits captures (child p * child q) ts ↔
    ∃ t u, ts = [t, u] ∧ Shaped captures p t ∧ Shaped captures q u := by
  rw [fits_child_mul]
  constructor
  · rintro ⟨t, _, rfl, ht, hrest⟩
    obtain ⟨u, rfl, hu⟩ := fits_child.1 hrest
    exact ⟨t, u, rfl, ht, hu⟩
  · rintro ⟨t, u, rfl, ht, hu⟩
    exact ⟨t, [u], rfl, ht, fits_child.2 ⟨u, rfl, hu⟩⟩

@[simp] theorem fits_optional :
    Fits captures (optional shape) ts ↔ ts = [] ∨ Fits captures shape ts := by
  rw [optional, fits_add, fits_one]

theorem fits_star_append {us : List Tree} (h : Fits captures shape ts)
    (hstar : Fits captures shape.star us) : Fits captures shape.star (ts ++ us) := by
  obtain ⟨xs, rfl, hshape, inside⟩ := h
  obtain ⟨ys, rfl, hmore, later⟩ := hstar
  refine ⟨xs ++ ys, List.map_append, ?_, List.forall_mem_append.2 ⟨inside, later⟩⟩
  rw [List.map_append]
  exact append_mem_star hshape hmore

theorem fits_star_nil : Fits captures shape.star [] :=
  ⟨[], rfl, Language.nil_mem_kstar _, List.forall_mem_nil _⟩

/-- The first child belongs to the first word that is not empty. -/
theorem fits_star_cons (h : Fits captures shape.star (t :: ts)) :
    ∃ front back, ts = front ++ back ∧ Fits captures shape (t :: front) ∧
      Fits captures shape.star back := by
  obtain ⟨xs, hts, hstar, inside⟩ := h
  obtain ⟨words, hflatten, hwords⟩ := Language.mem_kstar_iff_exists_nonempty.1 hstar
  cases words with
  | nil =>
    rw [List.map_eq_nil_iff.1 hflatten] at hts
    cases hts
  | cons word words =>
    obtain ⟨hword, hmore⟩ := List.forall_mem_cons.1 hwords
    rw [List.flatten_cons] at hflatten
    obtain ⟨front, back, rfl, rfl, hback⟩ := List.map_eq_append_iff.1 hflatten
    obtain ⟨hfront, hlater⟩ := List.forall_mem_append.1 inside
    cases front with
    | nil => exact absurd rfl hword.2
    | cons x front =>
      obtain ⟨rfl, rfl⟩ := List.cons.inj hts
      exact ⟨_, _, List.map_append, ⟨x :: front, rfl, hword.1, hfront⟩, back, rfl,
        Language.mem_kstar.2 ⟨words, hback, fun later hin => (hmore later hin).1⟩, hlater⟩

@[simp] theorem fits_star_child :
    Fits captures (child p).star ts ↔ ∀ t ∈ ts, Shaped captures p t := by
  constructor
  · intro h
    induction ts with
    | nil => exact List.forall_mem_nil _
    | cons t ts ih =>
      obtain ⟨front, back, rfl, hfront, hback⟩ := fits_star_cons h
      obtain ⟨u, hu, ht⟩ := fits_child.1 hfront
      cases hu
      exact List.forall_mem_cons.2 ⟨ht, ih hback⟩
  · intro h
    induction ts with
    | nil => exact fits_star_nil
    | cons t ts ih =>
      obtain ⟨ht, hts⟩ := List.forall_mem_cons.1 h
      exact fits_star_append (fits_child.2 ⟨t, rfl, ht⟩) (ih hts)

end Children

/-! ## Wider phrases -/

section Widening

variable {captures : Bool} {t : Tree}

theorem Shaped.item (h : Shaped captures .value t) : Shaped captures .item t := by
  obtain ⟨kind, span, children⟩ := t
  rw [shaped_value] at h
  rw [shaped_item]
  unfold ofItem
  split
  · exact absurd h not_fits_zero
  · exact h

theorem Shaped.index (h : Shaped captures .item t) : Shaped captures .index t := by
  induction t using Tree.forall_of_children with
  | node kind span children ih =>
    rw [shaped_item] at h
    rw [shaped_index]
    unfold ofIndex
    split
    · exact absurd h not_fits_zero
    · have hitems := fits_star_child.1 h
      exact fits_star_child.2 fun child hchild => ih child hchild (hitems child hchild)
    · exact h

theorem Shaped.argument (h : Shaped captures .item t) : Shaped captures .argument t := by
  obtain ⟨kind, span, children⟩ := t
  rw [shaped_item] at h
  rw [shaped_argument]
  unfold ofArgument
  split
  · exact absurd h not_fits_zero
  · exact h

theorem Shaped.widen {narrow wide : Phrase} (within : narrow.Within wide)
    (h : Shaped captures narrow t) : Shaped captures wide t := by
  cases within with
  | item => exact h.item
  | index => exact h.index
  | argument => exact h.argument

end Widening

/-! ## Targets -/

section Targets

variable {captures : Bool} {action : TargetAction} {t u : Tree} {ts us : List Tree}

theorem forall_mem_markAll {P Q : Tree → Prop} (h : Target.markAll action ts = .ok us)
    (hmark : ∀ t ∈ ts, P t → ∀ u, Target.mark action t = .ok u → Q u) (hts : ∀ t ∈ ts, P t) :
    ∀ u ∈ us, Q u := by
  induction ts generalizing us with
  | nil =>
    cases h
    exact List.forall_mem_nil Q
  | cons t ts ih =>
    obtain ⟨u, rest, hfirst, hrest, rfl⟩ := markAll_cons h
    obtain ⟨hm, hmark⟩ := List.forall_mem_cons.1 hmark
    obtain ⟨ht, hts⟩ := List.forall_mem_cons.1 hts
    exact List.forall_mem_cons.2 ⟨hm ht u hfirst, ih hrest hmark hts⟩

@[simp] theorem inContext_inContext (first second : Context) (kind : NodeKind) :
    inContext second (inContext first kind) = inContext second kind := by
  cases kind <;> rfl

theorem ofTarget_inContext (kind : NodeKind) :
    ofTarget action (inContext (Target.contextOf action) kind) =
      match kind with
      | .name _ _ => 1
      | .attribute _ _ => child .value
      | .subscript _ => child .value * child .index
      | .tuple _ | .list _ => (child (.target action)).star
      | .starred _ => if action = .delete then 0 else child (.target action)
      | _ => 0 := by
  unfold ofTarget
  rw [if_pos (inContext_inContext _ _ kind).symm]
  cases kind <;> rfl

/-- Only what has a context is a target. -/
theorem ofTarget_eq_zero {kind : NodeKind} (h : Contexts.context? kind = none) :
    ofTarget action kind = 0 := by
  unfold ofTarget
  split
  · split <;> first | rfl | cases h
  · rfl

/-- What has a context among items is read. -/
theorem fits_of_load {kind : NodeKind} (h : Fits captures (ofItem captures kind) ts)
    (hkind : Target.isSingle kind = true ∨ isGroup kind = true) :
    kind = inContext .load kind := by
  rcases hkind with hsingle | hgroup
  · unfold Target.isSingle at hsingle
    split at hsingle
    · next context => cases context <;> first | rfl | exact absurd h not_fits_zero
    · next context => cases context <;> first | rfl | exact absurd h not_fits_zero
    · next context => cases context <;> first | rfl | exact absurd h not_fits_zero
    · cases hsingle
  · unfold isGroup at hgroup
    split at hgroup
    · next context => cases context <;> first | rfl | exact absurd h not_fits_zero
    · next context => cases context <;> first | rfl | exact absurd h not_fits_zero
    · next context => cases context <;> first | rfl | exact absurd h not_fits_zero
    · cases hgroup

/-- An item that is marked is a target of the same shape. -/
theorem Shaped.mark (h : Shaped captures .item t) (hmark : Target.mark action t = .ok u) :
    Shaped captures (.target action) u := by
  induction t using Tree.forall_of_children generalizing u with
  | node kind span children ih =>
    obtain ⟨_, _, _, marked, heq, rfl, hcases⟩ := mark_cases hmark
    cases heq
    rw [shaped_item] at h
    rw [shaped_target, ofTarget_inContext]
    rcases hcases with ⟨hsingle, rfl⟩ | ⟨hgroup, hstarred, hmarked⟩
    · have hload := fits_of_load h (.inl hsingle)
      rw [hload] at h ⊢
      unfold Target.isSingle at hsingle
      split at hsingle
      · exact h
      · exact h
      · exact h
      · cases hsingle
    · have hitems : (∀ t ∈ children, Shaped captures .item t) →
          ∀ u ∈ marked, Shaped captures (.target action) u :=
        forall_mem_markAll hmarked fun t ht hitem _ hmark => ih t ht hitem hmark
      have hload := fits_of_load h (.inr hgroup)
      rw [hload] at h ⊢
      unfold isGroup at hgroup
      split at hgroup
      · obtain ⟨t, rfl, ht⟩ := fits_child.1 h
        obtain ⟨u, rest, _, hrest, rfl⟩ := markAll_cons hmarked
        cases hrest
        have hu := hitems (by simpa using ht.item) u (List.mem_singleton_self u)
        have hassign : action ≠ .delete := fun hdelete => Bool.noConfusion (hstarred hdelete)
        rw [show inContext .load (.starred _) = .starred .load from rfl]
        dsimp only
        rw [if_neg hassign]
        exact fits_child.2 ⟨u, rfl, hu⟩
      · exact fits_star_child.2 (hitems (fits_star_child.1 h))
      · exact fits_star_child.2 (hitems (fits_star_child.1 h))
      · cases hgroup

end Targets

/-! ## Patterns -/

section Patterns

variable {captures : Bool} {slot : Pattern.Slot} {kind : NodeKind} {span : Span} {t : Tree}
  {children : List Tree}

theorem shaped_number {text : String} (h : Shaped true .value t)
    (hnumber : Pattern.number? t = some text) : Shaped captures .value t := by
  obtain ⟨kind, span, children⟩ := t
  rw [shaped_iff] at h ⊢
  unfold Pattern.number? at hnumber
  split at hnumber
  · next heq =>
    cases heq
    exact fits_one.2 (fits_one.1 h)
  · cases hnumber

theorem shaped_signed {text : String} (h : Shaped true .value t)
    (hnumber : Pattern.signedNumber? t = some text) : Shaped captures .value t := by
  obtain ⟨kind, span, children⟩ := t
  unfold Pattern.signedNumber? at hnumber
  split at hnumber
  · next operand hkind hchildren =>
    cases hkind
    cases hchildren
    obtain ⟨_, heq, hoperand⟩ := fits_child.1 (shaped_iff.1 h)
    cases heq
    exact shaped_iff.2 (fits_child.2 ⟨operand, rfl, shaped_number hoperand hnumber⟩)
  · exact shaped_number h hnumber

theorem ofSlot_literal (hliteral : Pattern.isLiteral (.node kind span children) = true)
    (hslot : slot ≠ .dotted) : ofSlot slot kind = ofLiteral kind := by
  unfold Pattern.isLiteral at hliteral
  split at hliteral
  · next heq =>
    cases heq
    cases slot <;> first | rfl | exact absurd rfl hslot
  · next heq =>
    cases heq
    cases slot <;> first | rfl | exact absurd rfl hslot
  · next heq _ =>
    cases heq
    cases slot <;> first | rfl | exact absurd rfl hslot
  · next heq _ =>
    cases heq
    cases slot <;> first | rfl | exact absurd rfl hslot
  · cases hliteral

theorem fits_literal (h : Fits true (ofItem true kind) children)
    (hliteral : Pattern.isLiteral (.node kind span children) = true) :
    Fits captures (ofLiteral kind) children := by
  have hsum : ∀ {real imaginary}, Fits true (child .value * child .value) [real, imaginary] →
      ((Pattern.signedNumber? real).any (!Pattern.isImaginary ·) &&
        (Pattern.number? imaginary).any Pattern.isImaginary) = true →
      Fits captures (child .value * child .value) [real, imaginary] := by
    intro real imaginary h hparts
    obtain ⟨hreal, himaginary⟩ := Bool.and_eq_true_iff.1 hparts
    obtain ⟨_, hreal, _⟩ := (Option.any_eq_true _ _).1 hreal
    obtain ⟨_, himaginary, _⟩ := (Option.any_eq_true _ _).1 himaginary
    obtain ⟨_, _, heq, hfirst, hsecond⟩ := fits_pair.1 h
    cases heq
    exact fits_pair.2 ⟨_, _, rfl, shaped_signed hfirst hreal, shaped_number hsecond himaginary⟩
  unfold Pattern.isLiteral at hliteral
  split at hliteral
  · next heq =>
    cases heq
    rw [ofLiteral, if_neg (by simpa using hliteral)]
    exact fits_one.2 (fits_one.1 h)
  · next heq =>
    cases heq
    obtain ⟨text, hnumber⟩ := Option.isSome_iff_exists.1 hliteral
    have hsigned : Shaped captures .value (.node (.unaryOp .minus) span children) :=
      shaped_signed (shaped_iff.2 h) hnumber
    exact shaped_iff.1 hsigned
  · next heq hchildren =>
    cases heq
    cases hchildren
    exact hsum h hliteral
  · next heq hchildren =>
    cases heq
    cases hchildren
    exact hsum h hliteral
  · cases hliteral

/-- The one name that a star or a mapping binds. -/
theorem fits_captureFirst (h : Fits true (child .value) children)
    (hname : Pattern.startsWithName children = true) :
    Fits captures (child .binding) (Pattern.captureFirst children) := by
  obtain ⟨⟨kind, span, inner⟩, rfl, ht⟩ := fits_child.1 h
  have hname : kind.isName = true := hname
  unfold NodeKind.isName at hname
  split at hname
  · next context _ =>
    cases context with
    | load => exact fits_child.2 ⟨_, rfl, shaped_iff.2 (fits_one.2 (fits_one.1 (shaped_iff.1 ht)))⟩
    | store | del => exact absurd (shaped_iff.1 ht) not_fits_zero
  · cases hname

/-- The entries of a dictionary if any key may be an item. -/
def wideEntries : Shape := (child .item * child .value + child .spread).star

theorem cases_of_spread (h : Shaped captures .spread t) :
    ∃ span children, t = .node .dictUnpack span children ∧
      Fits captures (child .value) children := by
  obtain ⟨kind, span, children⟩ := t
  rw [shaped_iff] at h
  cases kind with
  | dictUnpack => exact ⟨span, children, rfl, h⟩
  | _ => exact absurd h not_fits_zero

theorem fits_wideEntries_cons {rest : List Tree} (h : Fits true wideEntries (t :: rest)) :
    (∃ value later, rest = value :: later ∧ Shaped true .item t ∧ Shaped true .value value ∧
        Fits true wideEntries later) ∨
      ∃ span children, t = .node .dictUnpack span children ∧ Fits true (child .value) children := by
  obtain ⟨front, back, rfl, hfront, hback⟩ := fits_star_cons h
  rcases fits_add.1 hfront with hpair | hspread
  · obtain ⟨_, value, heq, hkey, hvalue⟩ := fits_pair.1 hpair
    cases heq
    exact .inl ⟨value, back, rfl, hkey, hvalue, hback⟩
  · obtain ⟨_, heq, ht⟩ := fits_child.1 hspread
    cases heq
    exact .inr (cases_of_spread ht)

theorem fits_wide_pair {key value : Tree} {rest : List Tree} (hkey : Shaped true .item key)
    (hvalue : Shaped true .value value) (hrest : Fits true wideEntries rest) :
    Fits true wideEntries (key :: value :: rest) := by
  have hpair : Fits true (child .item * child .value + child .spread) [key, value] :=
    fits_add.2 (.inl (fits_pair.2 ⟨key, value, rfl, hkey, hvalue⟩))
  exact fits_star_append hpair hrest

theorem fits_wideEntries (h : Fits true entries children) : Fits true wideEntries children := by
  induction hn : children.length using Nat.strong_induction_on generalizing children with
  | _ n ih =>
    subst hn
    cases children with
    | nil => exact fits_star_nil
    | cons t rest =>
      obtain ⟨front, back, rfl, hfront, hback⟩ := fits_star_cons h
      have hshorter : back.length < (t :: (front ++ back)).length := by
        rw [List.length_cons, List.length_append]
        omega
      have hlater := ih back.length hshorter hback rfl
      rcases fits_add.1 hfront with hpair | hspread
      · obtain ⟨_, value, heq, hkey, hvalue⟩ := fits_pair.1 hpair
        cases heq
        exact fits_wide_pair hkey.item hvalue hlater
      · exact fits_star_append (fits_add.2 (.inr hspread)) hlater

/-- Whichever way its first entry was read, a dictionary is made of entries. -/
theorem wideEntries_of_dict (h : Fits true (ofItem true .dict) children) :
    Fits true wideEntries children := by
  rcases fits_add.1 h with hentries | hfrom
  · exact fits_wideEntries hentries
  · obtain ⟨key, _, rfl, hkey, hvalue⟩ := fits_child_mul.1 hfrom
    obtain ⟨value, rest, rfl, hvalue, hrest⟩ := fits_child_mul.1 hvalue
    exact fits_wide_pair hkey hvalue (fits_wideEntries hrest)

theorem length_bindAll {ts us : List Tree} (h : Pattern.bindAll slot ts = .ok us) :
    us.length = ts.length := by
  induction ts generalizing us with
  | nil =>
    cases h
    rfl
  | cons t ts ih =>
    unfold Pattern.bindAll at h
    obtain ⟨rest, hrest, h⟩ := except_bind_eq_ok h
    obtain ⟨u, _, h⟩ := except_bind_eq_ok h
    cases h
    exact congrArg (· + 1) (ih hrest)

theorem Shaped.patternArgument (h : Shaped captures (.pattern .pattern) t) :
    Shaped captures .patternArgument t := by
  obtain ⟨kind, span, children⟩ := t
  rw [shaped_pattern] at h
  rw [shaped_iff]
  cases kind with
  | keyword arg => exact absurd h not_fits_zero
  | _ => exact h

theorem checkArguments_cons {ts : List Tree} (h : Pattern.checkArguments (t :: ts) = .ok ()) :
    t.kind ≠ .keyword none ∧ Pattern.checkArguments ts = .ok () := by
  unfold Pattern.checkArguments at h
  split at h
  · cases h
  · cases h
  · cases h
  · next hkeyword _ _ => exact ⟨hkeyword, h⟩

theorem Shaped.item_of_argument (h : Shaped captures .argument t)
    (hkeyword : ∀ arg, t.kind ≠ .keyword arg) : Shaped captures .item t := by
  obtain ⟨kind, span, children⟩ := t
  rw [shaped_argument] at h
  rw [shaped_item]
  unfold ofArgument at h
  split at h
  · exact absurd rfl (hkeyword _)
  · exact h

mutual

/-- What is bound as a part of a pattern has the shape of one. -/
theorem shaped_bind {slot : Pattern.Slot} : ∀ {t u : Tree}, Pattern.bind slot t = .ok u →
    Shaped true .item t → Shaped captures (.pattern slot) u
  | .node kind span children, u, h, hitem => by
    rw [shaped_item] at hitem
    unfold Pattern.bind at h
    split at h
    · rw [if_pos rfl] at h
      obtain ⟨marked, hmarked, h⟩ := except_bind_eq_ok h
      cases h
      have hall := shaped_bindAll hmarked
      cases fits_of_load hitem (.inl rfl)
      obtain ⟨object, rfl, hobject⟩ := fits_child.1 hitem
      obtain ⟨bound, rfl⟩ := List.length_eq_one_iff.1 (length_bindAll hmarked)
      have hbound := hall (by simpa using hobject.item) bound (List.mem_singleton_self bound)
      rw [shaped_pattern]
      cases slot <;> exact fits_child.2 ⟨bound, rfl, hbound⟩
    rw [if_neg Bool.false_ne_true] at h
    split at h
    · next hslot =>
      split at h
      · next hname =>
        cases h
        subst hslot
        unfold NodeKind.isName at hname
        split at hname
        · cases fits_of_load hitem (.inl rfl)
          exact shaped_iff.2 (fits_one.2 (fits_one.1 hitem))
        · cases hname
      · cases h
    next hdotted =>
    split at h
    · next hliteral =>
      cases h
      rw [shaped_pattern, ofSlot_literal hliteral hdotted]
      exact fits_literal hitem hliteral
    split at h
    · cases h
    next hkey =>
    -- what is no starred item is a pattern wherever it stands
    have hpattern : ∀ {kind children}, kind.isStarred = false →
        Fits captures (ofPattern kind) children →
          Shaped captures (.pattern slot) (.node kind span children) := by
      intro kind children hstar hfits
      rw [shaped_pattern]
      cases slot with
      | pattern => exact hfits
      | sequenceItem =>
        unfold ofSlot
        split <;> first | exact hfits | contradiction
      | mappingKey => exact absurd rfl hkey
      | dotted => exact absurd rfl hdotted
    split at h
    · split at h
      · next hstar =>
        cases h
        obtain ⟨hslot, hname⟩ := Bool.and_eq_true_iff.1 hstar
        rw [of_decide_eq_true hslot]
        cases fits_of_load hitem (.inr rfl)
        exact shaped_iff.2 (fits_captureFirst hitem hname)
      · cases h
    · cases h
      cases fits_of_load hitem (.inl rfl)
      exact hpattern rfl (fits_one.2 (fits_one.1 hitem))
    · obtain ⟨marked, hmarked, h⟩ := except_bind_eq_ok h
      cases h
      have hall := shaped_bindAll hmarked
      obtain ⟨first, second, rfl, hfirst, hsecond⟩ := fits_pair.1 hitem
      obtain ⟨left, right, rfl⟩ := List.length_eq_two.1 (length_bindAll hmarked)
      have hbound := hall (by simpa using ⟨hfirst.item, hsecond.item⟩)
      exact hpattern rfl (fits_pair.2 ⟨left, right, rfl, by simpa using hbound⟩)
    · split at h
      · cases h
      · obtain ⟨marked, hmarked, h⟩ := except_bind_eq_ok h
        cases h
        have hall := shaped_bindAll hmarked
        obtain ⟨inner, rfl, hinner⟩ := fits_child.1 hitem
        obtain ⟨bound, rfl⟩ := List.length_eq_one_iff.1 (length_bindAll hmarked)
        have hbound := hall (by simpa using hinner) bound (List.mem_singleton_self bound)
        exact hpattern rfl (fits_child.2 ⟨bound, rfl, hbound⟩)
    · obtain ⟨_, _, h⟩ := except_bind_eq_ok h
      obtain ⟨marked, hmarked, h⟩ := except_bind_eq_ok h
      cases h
      cases fits_of_load hitem (.inr rfl)
      exact hpattern rfl (fits_star_child.2 (shaped_bindAll hmarked (fits_star_child.1 hitem)))
    · obtain ⟨_, _, h⟩ := except_bind_eq_ok h
      obtain ⟨marked, hmarked, h⟩ := except_bind_eq_ok h
      cases h
      cases fits_of_load hitem (.inr rfl)
      exact hpattern rfl (fits_star_child.2 (shaped_bindAll hmarked (fits_star_child.1 hitem)))
    · obtain ⟨_, hcheck, h⟩ := except_bind_eq_ok h
      obtain ⟨marked, hmarked, h⟩ := except_bind_eq_ok h
      cases h
      exact hpattern rfl (fits_bindClass hmarked hcheck hitem)
    · obtain ⟨_, hcheck, h⟩ := except_bind_eq_ok h
      obtain ⟨marked, hmarked, h⟩ := except_bind_eq_ok h
      cases h
      exact hpattern rfl (fits_bindEntries hmarked hcheck (wideEntries_of_dict hitem))
    · cases h
termination_by structural t => t

theorem shaped_bindAll {slot : Pattern.Slot} : ∀ {ts us : List Tree},
    Pattern.bindAll slot ts = .ok us → (∀ t ∈ ts, Shaped true .item t) →
    ∀ u ∈ us, Shaped captures (.pattern slot) u
  | [], us, h, _ => by
    cases h
    exact List.forall_mem_nil _
  | t :: ts, us, h, hitems => by
    unfold Pattern.bindAll at h
    obtain ⟨rest, hrest, h⟩ := except_bind_eq_ok h
    obtain ⟨u, hfirst, h⟩ := except_bind_eq_ok h
    cases h
    obtain ⟨ht, hts⟩ := List.forall_mem_cons.1 hitems
    exact List.forall_mem_cons.2 ⟨shaped_bind hfirst ht, shaped_bindAll hrest hts⟩
termination_by structural ts => ts

theorem fits_bindClass : ∀ {ts us : List Tree}, Pattern.bindClass ts = .ok us →
    Pattern.checkArguments (ts.drop 1) = .ok () →
    Fits true (child .value * (child .argument).star) ts →
    Fits captures (child (.pattern .dotted) * (child .patternArgument).star) us
  | [], us, h, _, hts => by
    obtain ⟨_, _, heq, _⟩ := fits_child_mul.1 hts
    cases heq
  | t :: ts, us, h, hcheck, hts => by
    obtain ⟨_, _, heq, ht, harguments⟩ := fits_child_mul.1 hts
    cases heq
    unfold Pattern.bindClass at h
    obtain ⟨rest, hrest, h⟩ := except_bind_eq_ok h
    obtain ⟨u, hfirst, h⟩ := except_bind_eq_ok h
    cases h
    exact fits_child_mul.2 ⟨u, rest, rfl, shaped_bind hfirst ht.item, fits_star_child.2
      (shaped_bindArguments hrest hcheck (fits_star_child.1 harguments))⟩
termination_by structural ts => ts

theorem shaped_bindArguments : ∀ {ts us : List Tree}, Pattern.bindArguments ts = .ok us →
    Pattern.checkArguments ts = .ok () → (∀ t ∈ ts, Shaped true .argument t) →
    ∀ u ∈ us, Shaped captures .patternArgument u
  | [], us, h, _, _ => by
    unfold Pattern.bindArguments at h
    cases h
    exact List.forall_mem_nil _
  | .node kind span children :: ts, us, h, hcheck, harguments => by
    obtain ⟨hargument, hlater⟩ := List.forall_mem_cons.1 harguments
    obtain ⟨hkeyword, hchecked⟩ := checkArguments_cons hcheck
    unfold Pattern.bindArguments at h
    split at h <;> rename_i heq <;> cases heq
    · next arg =>
      obtain ⟨rest, hrest, h⟩ := except_bind_eq_ok h
      obtain ⟨marked, hmarked, h⟩ := except_bind_eq_ok h
      cases h
      have hall := shaped_bindAll hmarked
      obtain ⟨value, rfl, hvalue⟩ := fits_child.1 (shaped_iff.1 hargument)
      obtain ⟨bound, rfl⟩ := List.length_eq_one_iff.1 (length_bindAll hmarked)
      have hbound := hall (by simpa using hvalue.item) bound (List.mem_singleton_self bound)
      refine List.forall_mem_cons.2 ⟨?_, shaped_bindArguments hrest hchecked hlater⟩
      match arg, hkeyword with
      | some name, _ => exact shaped_iff.2 (fits_child.2 ⟨bound, rfl, hbound⟩)
      | none, hkeyword => exact absurd rfl hkeyword
    · next hnamed =>
      obtain ⟨rest, hrest, h⟩ := except_bind_eq_ok h
      obtain ⟨u, hfirst, h⟩ := except_bind_eq_ok h
      cases h
      have hitem := hargument.item_of_argument fun arg harg => by
        cases harg
        exact hnamed arg span children rfl
      exact List.forall_mem_cons.2 ⟨(shaped_bind hfirst hitem).patternArgument,
        shaped_bindArguments hrest hchecked hlater⟩
termination_by structural ts => ts

theorem fits_bindEntries : ∀ {ts us : List Tree}, Pattern.bindEntries ts = .ok us →
    Pattern.checkEntries ts = .ok () → Fits true wideEntries ts →
    Fits captures ((child (.pattern .mappingKey) * child (.pattern .pattern)).star *
      optional (child .remainder)) us
  | [], us, h, _, _ => by
    unfold Pattern.bindEntries at h
    cases h
    exact fits_mul.2 ⟨[], [], rfl, fits_star_nil, fits_optional.2 (.inl rfl)⟩
  | [key], us, h, hcheck, hts => by
    unfold Pattern.bindEntries at h
    split at h <;> rename_i heq <;> cases heq
    · obtain ⟨rest, hrest, h⟩ := except_bind_eq_ok h
      cases h
      cases hrest
      unfold Pattern.checkEntries at hcheck
      split at hcheck
      · next hname =>
        rcases fits_wideEntries_cons hts with ⟨_, _, heq, _⟩ | ⟨_, _, heq, hmapping⟩
        · cases heq
        cases heq
        simp only [Bool.and_eq_true] at hname
        have hbound : Fits captures (child .binding) _ := fits_captureFirst hmapping hname.1.2
        exact fits_mul.2 ⟨[], _, rfl, fits_star_nil, fits_optional.2 (.inr
          (fits_child.2 ⟨_, rfl, shaped_iff.2 hbound⟩))⟩
      · cases hcheck
    · next hkey =>
      rcases fits_wideEntries_cons hts with ⟨_, _, heq, _⟩ | ⟨span, inner, hspread, _⟩
      · cases heq
      · exact (hkey span inner hspread).elim
  | key :: value :: rest, us, h, hcheck, hts => by
    unfold Pattern.bindEntries at h
    split at h <;> rename_i heq <;> cases heq
    · cases hcheck
    · next hspread =>
      obtain ⟨more, hmore, h⟩ := except_bind_eq_ok h
      obtain ⟨u, hvalued, h⟩ := except_bind_eq_ok h
      obtain ⟨w, hkeyed, h⟩ := except_bind_eq_ok h
      cases h
      have hchecked : Pattern.checkEntries rest = .ok () := by
        unfold Pattern.checkEntries at hcheck
        split at hcheck <;> rename_i heq <;> cases heq
        · contradiction
        · exact hcheck
      have hlater := fits_bindEntries hmore hchecked
      have hbound := shaped_bind hkeyed
      have hbound' := shaped_bind hvalued
      rcases fits_wideEntries_cons hts with
        ⟨_, _, heq, hkey, hvalue, hrest⟩ | ⟨span, inner, heq, _⟩
      · cases heq
        obtain ⟨front, back, rfl, hfront, hback⟩ := fits_mul.1 (hlater hrest)
        have hpair : Fits captures _ [w, u] :=
          fits_pair.2 ⟨w, u, rfl, hbound hkey, hbound' hvalue.item⟩
        exact fits_mul.2 ⟨w :: u :: front, back, rfl, fits_star_append hpair hfront, hback⟩
      · exact (hspread span inner heq).elim
termination_by structural ts => ts

end

end Patterns

/-! ## Along a derivation -/

theorem Shaped.positionalOnly {captures : Bool} {t : Tree} (h : Shaped captures .parameter t) :
    Shaped captures .parameter (Expression.positionalOnly t) := by
  unfold Expression.positionalOnly
  split
  · rw [shaped_iff] at h ⊢
    exact h
  · exact h

/-- What is read has the shape of its phrase. -/
theorem shaped_of_reads {a b : ParserState} {xs : List (Phrase × Tree)} (h : Reads a xs b) :
    ∀ x ∈ xs, Shaped a.inPattern x.1 x.2 := by
  induction h with
  | skip _ => exact List.forall_mem_nil _
  | append first _ ihfirst ihsecond =>
    rw [first.moves.inPattern] at ihsecond
    exact List.forall_mem_append.2 ⟨ihfirst, ihsecond⟩
  | node _ production _ _ ih =>
    exact List.forall_mem_singleton.2 (.node (shape_of_production production) ih)
  | widen within _ ih =>
    exact List.forall_mem_singleton.2 ((List.forall_mem_singleton.1 ih).widen within)
  | @mark a b before after ts us action _ marked ih =>
    simp only [List.forall_mem_append] at ih ⊢
    obtain ⟨⟨hbefore, hitems⟩, hafter⟩ := ih
    refine ⟨⟨hbefore, ?_⟩, hafter⟩
    have htargets := forall_mem_markAll (P := Shaped a.inPattern .item)
      (Q := Shaped a.inPattern (.target action)) marked (fun t _ ht u hu => ht.mark hu)
      (by simpa [all] using hitems)
    simpa [all] using htargets
  | positional _ ih =>
    simp only [all, List.forall_mem_map] at ih ⊢
    exact fun t ht => (ih t ht).positionalOnly
  | pattern _ bound ih =>
    exact List.forall_mem_singleton.2 (shaped_bind bound (ih _ (List.mem_singleton_self _)))

theorem shaped_of_parse {source : String} {t : Tree} (h : Module.parse source = .ok t) :
    Shaped false .module t := by
  obtain ⟨statements, last, hreads, rfl⟩ := reads_of_ofStream h
  rw [shaped_iff]
  refine fits_star_child.2 fun t ht => ?_
  exact shaped_of_reads hreads (.statement, t) (List.mem_map_of_mem ht)

/-- **Parsed trees are well-shaped.** In the tree of a snippet every node has the number and the
sorts of children that its kind promises. -/
theorem parsed_tree_is_shaped {source : String} {t : Tree} (h : Module.parse source = .ok t) :
    Shaped false .module t := shaped_of_parse h

/-- A comprehension with a condition that is a chain of comparisons and binds a name. -/
theorem comprehension_is_shaped :
    ∃ t, Module.parse "x = [i for i in y if 1 < (n := i) <= 3]\n" = .ok t ∧
      Shaped false .module t := by
  have hparses : (Module.parse "x = [i for i in y if 1 < (n := i) <= 3]\n").toBool = true := by
    decide +kernel
  cases hparse : Module.parse "x = [i for i in y if 1 < (n := i) <= 3]\n" with
  | error error =>
    rw [hparse] at hparses
    cases hparses
  | ok t => exact ⟨t, rfl, parsed_tree_is_shaped hparse⟩

/-! ## Starred items -/

section Starred

variable {captures : Bool} {phrase : Phrase} {kind : NodeKind} {span : Span} {shape other : Shape}
  {ts : List Tree} {t : Tree}

theorem Shaped.part {part : Tree} (h : Shaped captures phrase t) (hpart : Spans.Part t part) :
    ∃ phrase, Shaped captures phrase part := by
  induction hpart generalizing phrase with
  | self => exact ⟨phrase, h⟩
  | child isChild _ ih =>
    cases h with
    | node _ inside =>
      obtain ⟨x, hx, rfl⟩ := List.mem_map.1 isChild
      exact ih (inside x hx)

/-- The phrases that occur in a shape. -/
def letters : Shape → List Phrase
  | .zero | .epsilon => []
  | .char p => [p]
  | .plus first second | .comp first second => letters first ++ letters second
  | .star shape => letters shape

theorem mem_letters {phrases : List Phrase} (h : phrases ∈ shape.matches') :
    ∀ p ∈ phrases, p ∈ letters shape := by
  induction shape generalizing phrases with
  | zero => exact absurd h (Language.notMem_zero _)
  | epsilon =>
    obtain rfl := (Language.mem_one _).1 h
    exact List.forall_mem_nil _
  | char p =>
    obtain rfl : phrases = [p] := h
    exact fun q hq => hq
  | plus first second ihfirst ihsecond =>
    rcases h with h | h
    · exact fun p hp => List.mem_append_left _ (ihfirst h p hp)
    · exact fun p hp => List.mem_append_right _ (ihsecond h p hp)
  | comp first second ihfirst ihsecond =>
    obtain ⟨left, hleft, right, hright, rfl⟩ := Language.mem_mul.1 h
    refine List.forall_mem_append.2 ⟨fun p hp => ?_, fun p hp => ?_⟩
    · exact List.mem_append_left _ (ihfirst hleft p hp)
    · exact List.mem_append_right _ (ihsecond hright p hp)
  | star shape ih =>
    obtain ⟨words, rfl, hwords⟩ := Language.mem_kstar.1 h
    intro p hp
    obtain ⟨word, hword, hp⟩ := List.mem_flatten.1 hp
    exact ih (hwords word hword) p hp

/-- Phrases that a starred item cannot stand for. -/
def isPlain : Phrase → Bool
  | .item | .index | .argument | .target _ | .pattern .sequenceItem => false
  | _ => true

theorem Shaped.not_starred (h : Shaped captures phrase t) (hplain : isPlain phrase = true) :
    t.kind.isStarred = false := by
  obtain ⟨kind, span, children⟩ := t
  rw [shaped_iff] at h
  cases hstar : kind.isStarred with
  | false => exact hstar
  | true =>
    unfold NodeKind.isStarred at hstar
    split at hstar
    · cases phrase with
      | pattern slot => cases slot <;> first | exact absurd h not_fits_zero | cases hplain
      | item | index | argument | target => cases hplain
      | _ => exact absurd h not_fits_zero
    · cases hstar

theorem Fits.not_starred (h : Fits captures shape ts)
    (hplain : (letters shape).all isPlain = true) : ∀ t ∈ ts, t.kind.isStarred = false := by
  obtain ⟨xs, rfl, hshape, inside⟩ := h
  refine List.forall_mem_map.2 fun x hx => (inside x hx).not_starred ?_
  exact List.all_eq_true.1 hplain _ (mem_letters hshape _ (List.mem_map_of_mem hx))

/-- Only the first child stands for a phrase that may be starred. -/
theorem Fits.tail_not_starred {p : Phrase}
    (h : Fits captures (child p * shape) ts ∨ Fits captures (optional (child p) * shape) ts)
    (hplain : (letters shape).all isPlain = true) : ∀ t ∈ ts.tail, t.kind.isStarred = false := by
  rcases h with h | h
  · obtain ⟨first, rest, rfl, _, hrest⟩ := fits_child_mul.1 h
    exact hrest.not_starred hplain
  · obtain ⟨front, rest, rfl, hfront, hrest⟩ := fits_mul.1 h
    rcases fits_optional.1 hfront with rfl | hfront
    · exact fun t ht => hrest.not_starred hplain t (List.mem_of_mem_tail ht)
    · obtain ⟨first, rfl, _⟩ := fits_child.1 hfront
      exact hrest.not_starred hplain

/-- Dictionaries, comprehensions and slices. -/
def isKeyed : NodeKind → Bool
  | .dict | .listComp | .setComp | .dictComp | .generatorExp | .slice => true
  | _ => false

/-- They stand only where a value or a slice may, or a mapping among patterns. -/
theorem keyed_cases (h : Fits captures (shapeOf captures phrase kind) ts)
    (hkind : isKeyed kind = true) :
    Fits captures (ofIndex captures kind) ts ∨ Fits captures (ofPattern kind) ts := by
  unfold isKeyed at hkind
  split at hkind
  all_goals first
    | exact absurd hkind Bool.false_ne_true
    | cases phrase with
      | index => exact .inl h
      -- a slice is only an index
      | value | item | argument => first | exact .inl h | exact absurd h not_fits_zero
      | patternArgument => exact .inr h
      | pattern slot =>
        cases slot with
        | pattern | sequenceItem => exact .inr h
        | mappingKey | dotted => exact absurd h not_fits_zero
      | _ => exact absurd h not_fits_zero

theorem Shaped.tail_not_starred (h : Shaped captures phrase t) (hkind : isKeyed t.kind = true) :
    ∀ child ∈ t.children.tail, child.kind.isStarred = false := by
  obtain ⟨kind, span, children⟩ := t
  have hkind : isKeyed kind = true := hkind
  have hcases := keyed_cases (shaped_iff.1 h) hkind
  unfold isKeyed at hkind
  split at hkind
  · -- a dictionary: only its first key may have been read as an item
    rcases hcases with h | h
    · rcases fits_add.1 h with hentries | hfrom
      · exact fun t ht => hentries.not_starred rfl t (List.mem_of_mem_tail ht)
      · exact Fits.tail_not_starred (.inl hfrom) rfl
    · exact fun t ht => h.not_starred rfl t (List.mem_of_mem_tail ht)
  · exact Fits.tail_not_starred (.inl (hcases.resolve_right not_fits_zero)) rfl
  · exact Fits.tail_not_starred (.inl (hcases.resolve_right not_fits_zero)) rfl
  · exact Fits.tail_not_starred (.inl (hcases.resolve_right not_fits_zero)) rfl
  · exact Fits.tail_not_starred (.inl (hcases.resolve_right not_fits_zero)) rfl
  · exact Fits.tail_not_starred (.inr (hcases.resolve_right not_fits_zero)) rfl
  · cases hkind

/-- **Only the first child may be starred.** In the tree of a snippet the values of a dictionary,
its keys after the first one, the value of a dictionary comprehension and the bounds of a slice
after the first one are not starred, nor is any clause of a comprehension. A starred bound of a
slice starts where the slice does; so it is the lower one, since the upper one follows a colon. -/
theorem only_first_child_is_starred {source : String} {t part : Tree}
    (h : Module.parse source = .ok t) (hpart : Spans.Part t part)
    (hkind : isKeyed part.kind = true) :
    (∀ child ∈ part.children.tail, child.kind.isStarred = false) ∧
      (part.kind = .slice → ∀ child ∈ part.children, child.kind.isStarred = true →
        child.span.start = part.span.start) := by
  obtain ⟨_, hshaped⟩ := (shaped_of_parse h).part hpart
  have hnode := Provenance.made_of_ofStream h part hpart
  exact ⟨hshaped.tail_not_starred hkind, hnode.slice⟩

/-- A starred key is the first child of its dictionary. -/
theorem starred_key_comes_first : ∃ t part, Module.parse "{*a: b, c: d}\n" = .ok t ∧
    Spans.Part t part ∧ part.kind = .dict ∧ part.children.length = 4 ∧
      ∀ child ∈ part.children.tail, child.kind.isStarred = false := by
  have hview : ((Module.parse "{*a: b, c: d}\n").toOption.bind (Contexts.at? · [0, 0])).map
      (fun part => (part.kind, part.children.length)) = some (.dict, 4) := by decide +kernel
  obtain ⟨t, part, hparse, hpart, hkind, hlength⟩ := EmptyBlocks.exists_part hview
  exact ⟨t, part, hparse, hpart, hkind, hlength,
    (only_first_child_is_starred hparse hpart (by rw [hkind]; rfl)).1⟩

/-- The kinds of a tree and of its first child. -/
def leading (t : Tree) : NodeKind × Option NodeKind := (t.kind, t.children.head?.map Tree.kind)

/-- A star is accepted before the element of a comprehension, the first key of a dictionary and the
lower bound of a slice, although it is refused before an expression in brackets. -/
theorem leading_star_is_accepted :
    (∃ t part, Module.parse "[*a for a in b]\n" = .ok t ∧ Spans.Part t part ∧
      leading part = (.listComp, some (.starred .load))) ∧
    (∃ t part, Module.parse "{*a: b}\n" = .ok t ∧ Spans.Part t part ∧
      leading part = (.dict, some (.starred .load))) ∧
    (∃ t part, Module.parse "x[*a:b]\n" = .ok t ∧ Spans.Part t part ∧
      leading part = (.slice, some (.starred .load))) ∧
    (Module.parse "(*a)\n").toOption.isNone := by
  refine ⟨EmptyBlocks.exists_viewed [0, 0] ?_, EmptyBlocks.exists_viewed [0, 0] ?_,
    EmptyBlocks.exists_viewed [0, 0, 1] ?_, ?_⟩
  all_goals decide +kernel

end Starred

end Shapes

end SnippetLint
