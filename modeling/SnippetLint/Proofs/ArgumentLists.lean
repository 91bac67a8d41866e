import SnippetLint.Proofs.CommaLists

/-!
Which argument lists are accepted, in calls and in headers of classes. As for parameters, the order
is said of each item by those before it and after it (`WellOrdered`), and `HasRead` says what the
two flags and the arguments have to do with the items so far. A generator without brackets has to be
the only argument: it is known by what comes after its value, and turned down by what comes before
it or after it. Main statement: `call_and_class_parse_iff`.
-/

namespace SnippetLint.ArgumentList
open SnippetLint.Parser SnippetLint.Expression
open Precedence (newline)

/-- What stands between the commas of an argument list. All values are names. -/
inductive Item where
  | positional (value : Identifier)
  | starred (value : Identifier)
  | doubleStarred (value : Identifier)
  | keyword (name value : Identifier)
  /-- A generator without brackets around it. -/
  | generator (value target source : Identifier)

/-- Where an argument list stands. -/
inductive Place where
  | call
  | classHeader

/-- Whether a generator may stand there without brackets. -/
def Place.allowsGenerator : Place → Bool
  | call => true
  | classHeader => false

namespace Item

def isDoubleStarred : Item → Bool
  | doubleStarred _ => true
  | _ => false

/-- An argument by name, or a mapping that is spread. -/
def isKeyword : Item → Bool
  | doubleStarred _ | keyword _ _ => true
  | _ => false

def isGenerator : Item → Bool
  | generator _ _ _ => true
  | _ => false

/-- What has to hold of the items before an item. -/
def MayFollow (front : List Item) : Item → Prop
  | positional _ => ∀ item ∈ front, item.isKeyword = false
  | starred _ => ∀ item ∈ front, item.isDoubleStarred = false
  | doubleStarred _ | keyword _ _ => True
  | generator _ _ _ => front = []

/-- What has to hold of the place of an item and of what comes after it. -/
def MayLead (place : Place) (trailing : Bool) (back : List Item) : Item → Prop
  | generator _ _ _ => place.allowsGenerator = true ∧ back = [] ∧ trailing = false
  | _ => True

/-! ## How items are written, and what they stand for -/

def lexemes : Item → List Lexeme
  | positional value => [value.lexeme]
  | starred value => [.star, value.lexeme]
  | doubleStarred value => [.doubleStar, value.lexeme]
  | keyword name value => [name.lexeme, .equal, value.lexeme]
  | generator value target source =>
    [value.lexeme, .forWord, target.lexeme, .inWord, source.lexeme]

/-- The text of an item: a generator has blanks around its words. -/
def chars : Item → List Char
  | positional value => value.lexeme.chars
  | starred value => Lexeme.star.chars ++ value.lexeme.chars
  | doubleStarred value => Lexeme.doubleStar.chars ++ value.lexeme.chars
  | keyword name value => name.lexeme.chars ++ (Lexeme.equal.chars ++ value.lexeme.chars)
  | generator value target source =>
    value.lexeme.chars ++ ' ' :: (Lexeme.forWord.chars ++ ' ' :: (target.lexeme.chars ++
      ' ' :: (Lexeme.inWord.chars ++ ' ' :: source.lexeme.chars)))

/-- The tree of a name that is read. -/
def nameTree (id : Identifier) : Tree := .node (.name id.text .load) .zero []

/-- The argument that an item stands for, without places. -/
def tree : Item → Tree
  | positional value => nameTree value
  | starred value => .node (.starred .load) .zero [nameTree value]
  | doubleStarred value => .node (.keyword none) .zero [nameTree value]
  | keyword name value => .node (.keyword (some name.text)) .zero [nameTree value]
  | generator value target source =>
    .node .generatorExp .zero [nameTree value,
      .node (.comprehension false) .zero
        [.node (.name target.text .store) .zero [], nameTree source]]

end Item

/-- The order that an argument list has to keep. -/
def WellOrdered (place : Place) (trailing : Bool) : List Item → Prop :=
  EachPlaced fun front item back => item.MayFollow front ∧ item.MayLead place trailing back

/-- A call with these arguments; so many blanks stand after a comma. -/
def call (space : Nat) (trailing : Bool) (items : List Item) : String :=
  String.ofList ("f(".toList ++
    (commaSeparated (',' :: blanks space) trailing (items.map Item.chars) ++ ")".toList))

/-- A class with these arguments in its header. -/
def classDefinition (space : Nat) (trailing : Bool) (items : List Item) : String :=
  String.ofList ("class C(".toList ++
    (commaSeparated (',' :: blanks space) trailing (items.map Item.chars) ++ "): pass".toList))

/-- A call, without places. -/
def callNode (items : List Item) : Tree :=
  .node .call .zero (Item.nameTree .f :: items.map Item.tree)

/-- The snippet with the call, without places. -/
def callTree (items : List Item) : Tree :=
  .node .module .zero [.node .exprStmt .zero [callNode items]]

/-- The snippet with the class, without places. -/
def classTree (items : List Item) : Tree :=
  .node .module .zero [.node (.classDef "C") .zero (items.map Item.tree ++ [passBlock])]

/-! ## The order of items -/

variable {items front back : List Item} {item : Item} {place : Place} {trailing : Bool}

/-- What has to hold of an item and of those before it, once it is known. -/
structure Admits (place : Place) (trailing : Bool) (front : List Item) (item : Item) : Prop where
  generator : front.any Item.isGenerator = false
  mayFollow : item.MayFollow front
  mayLead : item.MayLead place trailing []

theorem WellOrdered.admits (h : WellOrdered place trailing (front ++ item :: back)) :
    Admits place trailing front item := by
  refine ⟨List.any_eq_false.2 fun other hother hgenerator => ?_, (h _ _ _ rfl).1, ?_⟩
  · obtain ⟨before, after, rfl⟩ := List.append_of_mem hother
    rw [List.append_assoc, List.cons_append] at h
    have hlead := (h _ _ _ rfl).2
    cases other with
    | generator => simp [Item.MayLead] at hlead
    | _ => cases hgenerator
  · have hlead := (h _ _ _ rfl).2
    cases item with
    | generator => exact ⟨hlead.1, rfl, hlead.2.2⟩
    | _ => trivial

/-- A list is in order when each item may stand after those before it. -/
theorem wellOrdered_iff : WellOrdered place trailing items ↔
    EachPlaced (fun front item _ => Admits place trailing front item) items := by
  constructor
  · rintro h front item back rfl
    exact h.admits
  · rintro hadmits front item back rfl
    refine ⟨(hadmits _ _ _ rfl).mayFollow, ?_⟩
    cases back with
    | nil => exact (hadmits _ _ _ rfl).mayLead
    | cons next more =>
      have hnext : Admits place trailing (front ++ [item]) next :=
        hadmits _ _ more (by rw [List.append_assoc, List.singleton_append])
      cases item with
      | generator =>
        have hgenerator := hnext.generator
        simp [Item.isGenerator] at hgenerator
      | _ => trivial

/-! ## Generators -/

variable {ending : Ending} {state : ParserState} {depth room : Nat} {tail : List Lexeme}
  {l : Lexeme} {inner : Level} {fail : Prop}

/-- What comes after an argument. -/
theorem closes_of_afterItem (h : AfterItem trailing back l) (least : Nat) :
    Closes least l.kind ∧ l.kind ≠ .keyword .ifKw := by
  cases h with
  | comma | closed => exact ⟨⟨.inl rfl, nofun, nofun, nofun⟩, nofun⟩

theorem settles_startsComprehension {ok : Bool → ParserState → Prop}
    (hb : Before state depth (l :: tail)) (hfor : l.kind ≠ .keyword .forKw)
    (hasync : l.kind ≠ .keyword .asyncKw) (h : ok false state) :
    Settles ending state startsComprehension ok fail := by
  refine Settles.bind (settles_check hb ?_)
  rw [beq_false_of_ne hfor, if_neg Bool.false_ne_true]
  refine Settles.bind (settles_check hb ?_)
  refine Settles.bind (settles_of_ok rfl ?_)
  rw [beq_false_of_ne hasync]
  exact settles_pure h

/-- A name that is assigned to. -/
theorem settles_mark {id : Identifier} {t : Tree} (ht : t.skeleton = Item.nameTree id)
    (hb : Before state depth tail) :
    Settles ending state (ofExcept (Target.mark .assign t))
      (ReadUpTo (.node (.name id.text .store) .zero []) depth tail) fail := by
  obtain ⟨kind, span, children⟩ := t
  rw [Tree.skeleton_node] at ht
  obtain ⟨rfl, -, hchildren⟩ := Tree.node.inj ht
  rw [List.map_eq_nil_iff] at hchildren
  subst hchildren
  exact settles_of_ok rfl ⟨rfl, hb⟩

/-- The one clause of a generator. -/
theorem settles_comprehensionClause {target source : Identifier} (hdepth : depth + 1 < maxNesting)
    (hafter : AfterItem trailing back l)
    (hb : Before state depth
      (.forWord :: target.lexeme :: .inWord :: source.lexeme :: l :: tail)) :
    Settles ending state (comprehensionClause (.within (room + 2)))
      (ReadUpTo (.node (.comprehension false) .zero
        [.node (.name target.text .store) .zero [], Item.nameTree source]) depth (l :: tail))
      fail := by
  have hin : Closes Power.bitwiseOr Lexeme.inWord.kind :=
    ⟨.inr (by decide), nofun, nofun, nofun⟩
  obtain ⟨hcloses, hif⟩ := closes_of_afterItem hafter 0
  refine Settles.bind (settles_here fun start => ?_)
  refine Settles.bind (settles_eat_of_ne hb nofun ?_)
  refine Settles.bind (settles_advance hb fun next hnext => ?_)
  have htarget : Settles ending next (targetList (.within (room + 2)))
      (ReadUpTo (Item.nameTree target) depth (.inWord :: source.lexeme :: l :: tail)) fail := by
    refine Settles.bind (settles_here fun start => ?_)
    refine Settles.bind (Settles.bind (settles_check hnext ?_))
    have hname : Before next depth ((Operand.name target).lexeme :: _) := hnext
    refine (settles_operand hname hin (by omega)).mono ?_ id
    intro t next hread
    exact Settles.bind (settles_check hread.2 hread)
  refine Settles.bind (htarget.mono ?_ id)
  rintro t next ⟨ht, hnext⟩
  refine Settles.bind ((settles_mark ht hnext).mono ?_ id)
  rintro target next ⟨htarget, hnext⟩
  refine Settles.bind (settles_expect hnext rfl fun next hnext => ?_)
  have hname : Before next depth ((Operand.name source).lexeme :: _) := hnext
  refine Settles.bind ((settles_operand hname hcloses (by omega)).mono ?_ id)
  rintro value next ⟨hvalue, hnext⟩
  refine Settles.bind (settles_many_nil ?_ ?_)
  · exact Settles.bind (settles_eat_of_ne hnext hif ⟨rfl, rfl⟩)
  · refine settles_node fun span => ⟨?_, hnext⟩
    rw [Tree.skeleton_node, List.map_cons, List.map_singleton, htarget, hvalue]
    rfl

theorem settles_comprehensionClauses {target source : Identifier}
    (hdepth : depth + 1 < maxNesting) (hafter : AfterItem trailing back l)
    (hb : Before state depth
      (.forWord :: target.lexeme :: .inWord :: source.lexeme :: l :: tail)) :
    Settles ending state (comprehensionClauses (.within (room + 2)))
      (fun ts next => ts.map Tree.skeleton = [.node (.comprehension false) .zero
        [.node (.name target.text .store) .zero [], Item.nameTree source]] ∧
          Before next depth (l :: tail)) fail := by
  have hl : l.kind ≠ .keyword .forKw ∧ l.kind ≠ .keyword .asyncKw := by
    cases hafter <;> exact ⟨nofun, nofun⟩
  obtain ⟨n, hn⟩ : ∃ n, state.left = n + 1 := ⟨_, hb.left_eq_length⟩
  refine settles_many (settles_manyWithin ?_)
  refine Settles.bind (Settles.bind (settles_check hb ?_))
  refine Settles.bind ((settles_comprehensionClause hdepth hafter hb).mono ?_ id)
  rintro t next ⟨ht, hnext⟩
  rw [hn]
  refine settles_manyWithin ?_
  refine Settles.bind (settles_startsComprehension hnext hl.1 hl.2 ?_)
  exact settles_pure ⟨by rw [List.map_singleton, ht], hnext⟩

/-! ## Reading one item -/

/-- What the flags and the arguments say after some of the items of a list. -/
structure HasRead (place : Place) (trailing : Bool) (items front : List Item)
    (arguments : Arguments) : Prop where
  list_eq : arguments.list.map Tree.skeleton = front.map Item.tree
  seenKeyword_eq : arguments.seenKeyword = front.any Item.isKeyword
  seenUnpacking_eq : arguments.seenKeywordUnpacking = front.any Item.isDoubleStarred
  /-- There are no items after a generator. -/
  alone : front.any Item.isGenerator = true → front = items
  admits : EachPlaced (fun front item _ => Admits place trailing front item) front

theorem hasRead_none : HasRead place trailing items [] Arguments.none :=
  ⟨rfl, rfl, rfl, nofun, eachPlaced_nil _⟩

namespace HasRead

variable {arguments : Arguments}

/-- Where there is one more item, no generator has been read. -/
theorem generator_eq_false
    (h : HasRead place trailing (front ++ item :: back) front arguments) :
    front.any Item.isGenerator = false := by
  refine Bool.eq_false_iff.2 fun hgenerator => ?_
  have halone := h.alone hgenerator
  simp at halone

theorem concat {read : Arguments}
    (h : HasRead place trailing (front ++ item :: back) front arguments)
    (hadmits : Admits place trailing front item)
    (halone : item.isGenerator = true → back = [])
    (hlist : read.list.map Tree.skeleton = arguments.list.map Tree.skeleton ++ [item.tree])
    (hkeyword : read.seenKeyword = (arguments.seenKeyword || item.isKeyword))
    (hunpacking : read.seenKeywordUnpacking =
      (arguments.seenKeywordUnpacking || item.isDoubleStarred)) :
    HasRead place trailing (front ++ item :: back) (front ++ [item]) read where
  list_eq := by rw [hlist, h.list_eq, List.map_append, List.map_singleton]
  seenKeyword_eq := by rw [hkeyword, h.seenKeyword_eq, any_concat]
  seenUnpacking_eq := by rw [hunpacking, h.seenUnpacking_eq, any_concat]
  alone := by
    intro hgenerator
    rw [any_concat, h.generator_eq_false, Bool.false_or] at hgenerator
    rw [halone hgenerator]
  admits := eachPlaced_concat h.admits hadmits

end HasRead

/-- After these items this item has been read, or it may not stand there. -/
def ReadsItem (ending : Ending) (state : ParserState) (place : Place) (trailing : Bool)
    (front : List Item) (item : Item) (back : List Item) (depth : Nat) (rest : List Lexeme)
    (p : Parser Arguments) : Prop :=
  Settles ending state p
    (fun read next => HasRead place trailing (front ++ item :: back) (front ++ [item]) read ∧
      Before next depth rest)
    ¬WellOrdered place trailing (front ++ item :: back)

section Item

variable {arguments : Arguments} {value name : Identifier}

/-- The value of an argument. -/
theorem settles_value (hdepth : depth + 1 < maxNesting) (hafter : AfterItem trailing back l)
    (hb : Before state depth (value.lexeme :: l :: tail)) :
    Settles ending state (Level.within (room + 2)).expression
      (ReadUpTo (Item.nameTree value) depth (l :: tail)) fail := by
  obtain ⟨hcloses, hif⟩ := closes_of_afterItem hafter 0
  have hname : Before state depth ((Operand.name value).lexeme :: _) := hb
  exact settles_expression hname hcloses hif hdepth

/-- Outside of patterns nothing is captured. -/
theorem settles_captured {t : Tree} {start : Position} {ok : Tree → ParserState → Prop}
    (hb : Before state depth tail) (h : ok t state) :
    Settles ending state (captured t start) ok fail := by
  refine Settles.bind (settles_of_ok rfl ?_)
  rw [hb.inPattern_eq, if_neg Bool.false_ne_true]
  exact settles_pure h

theorem readsItem_starred
    (hp : HasRead place trailing (front ++ .starred value :: back) front arguments)
    (hdepth : depth + 1 < maxNesting) (hafter : AfterItem trailing back l)
    (hb : Before state depth (.star :: value.lexeme :: l :: tail)) :
    ReadsItem ending state place trailing front (.starred value) back depth (l :: tail)
      (starArgument (.within (room + 2)) arguments) := by
  refine Settles.bind (settles_here fun start => ?_)
  split
  · next hfault =>
    refine settles_failHere fun hordered => ?_
    rw [hp.seenUnpacking_eq, any_eq_false_iff.2 hordered.admits.mayFollow] at hfault
    cases hfault
  · next hfault =>
    rw [Bool.not_eq_true, hp.seenUnpacking_eq, any_eq_false_iff] at hfault
    refine Settles.bind (settles_advance hb fun next hnext => ?_)
    refine Settles.bind ((settles_value hdepth hafter hnext).mono ?_ id)
    rintro t next ⟨ht, hnext⟩
    refine Settles.bind (settles_node fun span => ?_)
    refine settles_pure ⟨hp.concat ⟨hp.generator_eq_false, hfault, trivial⟩ nofun ?_
      (Bool.or_false _).symm (Bool.or_false _).symm, hnext⟩
    rw [Arguments.push, List.map_append, List.map_singleton, Tree.skeleton_node,
      List.map_singleton, ht]
    rfl

theorem readsItem_doubleStarred
    (hp : HasRead place trailing (front ++ .doubleStarred value :: back) front arguments)
    (hdepth : depth + 1 < maxNesting) (hafter : AfterItem trailing back l)
    (hb : Before state depth (.doubleStar :: value.lexeme :: l :: tail)) :
    ReadsItem ending state place trailing front (.doubleStarred value) back depth (l :: tail)
      (doubleStarArgument (.within (room + 2)) arguments) := by
  refine Settles.bind (settles_here fun start => ?_)
  refine Settles.bind (settles_advance hb fun next hnext => ?_)
  refine Settles.bind ((settles_value hdepth hafter hnext).mono ?_ id)
  rintro t next ⟨ht, hnext⟩
  refine Settles.bind (settles_node fun span => ?_)
  refine settles_pure ⟨hp.concat ⟨hp.generator_eq_false, trivial, trivial⟩ nofun ?_
    (Bool.or_true _).symm (Bool.or_true _).symm, hnext⟩
  rw [Arguments.push, List.map_append, List.map_singleton, Tree.skeleton_node,
    List.map_singleton, ht]
  rfl

theorem readsItem_keyword
    (hp : HasRead place trailing (front ++ .keyword name value :: back) front arguments)
    (hdepth : depth + 1 < maxNesting) (hafter : AfterItem trailing back l)
    (hb : Before state depth (name.lexeme :: .equal :: value.lexeme :: l :: tail)) :
    ReadsItem ending state place trailing front (.keyword name value) back depth (l :: tail)
      (keywordArgument (.within (room + 2)) arguments) := by
  refine Settles.bind (settles_here fun start => ?_)
  refine Settles.bind (settles_word hb fun next hnext => ?_)
  refine Settles.bind (settles_advance hnext fun next hnext => ?_)
  refine Settles.bind (Settles.bind (settles_here fun start => ?_))
  refine Settles.bind ((settles_value hdepth hafter hnext).mono ?_ id)
  rintro t next ⟨ht, hnext⟩
  refine settles_captured hnext ?_
  refine Settles.bind (settles_node fun span => ?_)
  refine settles_pure ⟨hp.concat ⟨hp.generator_eq_false, trivial, trivial⟩ nofun ?_
    (Bool.or_true _).symm (Bool.or_false _).symm, hnext⟩
  rw [Arguments.push, List.map_append, List.map_singleton, Tree.skeleton_node,
    List.map_singleton, ht]
  rfl

/-- The value of an argument by position is no assignment to a name. -/
theorem settles_named (hdepth : depth + 1 < maxNesting)
    (hl : Closes 0 l.kind) (hif : l.kind ≠ .keyword .ifKw) (hcolon : l.kind ≠ .op .colonEqual)
    (hb : Before state depth (value.lexeme :: l :: tail)) :
    Settles ending state (named (.within (room + 2)))
      (ReadUpTo (Item.nameTree value) depth (l :: tail)) fail := by
  refine Settles.bind (settles_here fun start => ?_)
  refine Settles.bind (settles_check hb ?_)
  refine Settles.bind (settles_peekAt hb ?_)
  rw [beq_false_of_ne hcolon, Bool.and_false, if_neg Bool.false_ne_true]
  have hname : Before state depth ((Operand.name value).lexeme :: _) := hb
  refine Settles.bind ((settles_expression hname hl hif hdepth).mono ?_ id)
  rintro t next ⟨ht, hnext⟩
  refine Settles.bind (settles_check hnext ?_)
  rw [beq_false_of_ne hcolon, if_neg Bool.false_ne_true]
  exact settles_pure ⟨ht, hnext⟩

theorem readsItem_positional {allowGenerator : Bool}
    (hp : HasRead place trailing (front ++ .positional value :: back) front arguments)
    (hdepth : depth + 1 < maxNesting) (hafter : AfterItem trailing back l)
    (hb : Before state depth (value.lexeme :: l :: tail)) :
    ReadsItem ending state place trailing front (.positional value) back depth (l :: tail)
      (positionalArgument (.within (room + 2)) allowGenerator arguments) := by
  obtain ⟨hcloses, hif⟩ := closes_of_afterItem hafter 0
  have hl : l.kind ≠ .op .colonEqual ∧ l.kind ≠ .keyword .forKw ∧ l.kind ≠ .keyword .asyncKw ∧
      l.kind ≠ .op .equal := by
    cases hafter <;> exact ⟨nofun, nofun, nofun, nofun⟩
  refine Settles.bind (settles_here fun start => ?_)
  refine Settles.bind ((settles_named hdepth hcloses hif hl.1 hb).mono ?_ id)
  rintro t next ⟨ht, hnext⟩
  refine Settles.bind (settles_startsComprehension hnext hl.2.1 hl.2.2.1 ?_)
  rw [if_neg Bool.false_ne_true]
  refine Settles.bind (settles_check hnext ?_)
  rw [beq_false_of_ne hl.2.2.2, if_neg Bool.false_ne_true]
  split
  · next hfault =>
    refine settles_failAt fun hordered => ?_
    rw [hp.seenKeyword_eq, any_eq_false_iff.2 hordered.admits.mayFollow] at hfault
    cases hfault
  · next hfault =>
    rw [Bool.not_eq_true, hp.seenKeyword_eq, any_eq_false_iff] at hfault
    refine Settles.bind (settles_captured hnext ?_)
    refine settles_pure ⟨hp.concat ⟨hp.generator_eq_false, hfault, trivial⟩ nofun ?_
      (Bool.or_false _).symm (Bool.or_false _).symm, hnext⟩
    rw [Arguments.push, List.map_append, List.map_singleton, ht]
    rfl

theorem readsItem_generator {target source : Identifier}
    (hp : HasRead place trailing (front ++ .generator value target source :: back) front arguments)
    (hdepth : depth + 1 < maxNesting) (hafter : AfterItem trailing back l)
    (hb : Before state depth
      (value.lexeme :: .forWord :: target.lexeme :: .inWord :: source.lexeme :: l :: tail)) :
    ReadsItem ending state place trailing front (.generator value target source) back depth
      (l :: tail) (positionalArgument (.within (room + 2)) place.allowsGenerator arguments) := by
  have hfor : Closes 0 Lexeme.forWord.kind := ⟨.inl rfl, nofun, nofun, nofun⟩
  have hempty : arguments.list = [] ↔ front = [] := by
    rw [← List.map_eq_nil_iff (f := Tree.skeleton), hp.list_eq, List.map_eq_nil_iff]
  refine Settles.bind (settles_here fun start => ?_)
  refine Settles.bind ((settles_named hdepth hfor nofun nofun hb).mono ?_ id)
  rintro t next ⟨ht, hnext⟩
  refine Settles.bind (Settles.bind (settles_check hnext ?_))
  refine Settles.bind ((settles_comprehensionClauses hdepth hafter hnext).mono ?_ id)
  rintro clauses next ⟨hclauses, hnext⟩
  cases hplace : place.allowsGenerator with
  | false =>
    refine settles_failAt fun hordered => ?_
    rw [(hordered _ _ _ rfl).2.1] at hplace
    cases hplace
  | true =>
    refine Settles.bind (settles_check hnext ?_)
    cases hafter with
    | comma more =>
      have hmore : (!(Lexeme.comma.kind == .op .rightParen)) = true := rfl
      rw [hmore, if_pos (Bool.or_true _)]
      refine settles_failAt fun hordered => ?_
      obtain ⟨-, hback, htrailing⟩ := (hordered _ _ _ rfl).2
      rw [hback, htrailing] at more
      simp at more
    | closed last bare =>
      have hclosed : (!(Lexeme.rightParen.kind == .op .rightParen)) = false := rfl
      rw [hclosed, Bool.or_false]
      split
      · next hfault =>
        refine settles_failAt fun hordered => ?_
        rw [hempty.2 hordered.admits.mayFollow] at hfault
        cases hfault
      · next hfault =>
        have hlist : arguments.list = [] := by simpa using hfault
        refine Settles.bind (settles_node fun span => ?_)
        refine settles_pure ⟨hp.concat
          ⟨hp.generator_eq_false, hempty.1 hlist, hplace, rfl, bare⟩ (fun _ => last) ?_
          (Bool.or_false _).symm (Bool.or_false _).symm, hnext⟩
        rw [Arguments.push, List.map_append, List.map_singleton, Tree.skeleton_node,
          List.map_cons, ht, hclauses]
        rfl

/-- An item of a list is read after those before it just where it may stand there. -/
theorem readsItem
    (hp : HasRead place trailing (front ++ item :: back) front arguments)
    (hdepth : depth + 1 < maxNesting) (hafter : AfterItem trailing back l)
    (hb : Before state depth (item.lexemes ++ l :: tail)) :
    ReadsItem ending state place trailing front item back depth (l :: tail)
      (argument (.within (room + 2)) place.allowsGenerator arguments) := by
  have hequal : l.kind ≠ .op .equal := by cases hafter <;> exact nofun
  cases item with
  | positional value =>
    refine Settles.bind (settles_peek hb (Settles.bind (settles_peekAt hb ?_)))
    rw [beq_false_of_ne hequal, if_neg Bool.false_ne_true]
    exact readsItem_positional hp hdepth hafter hb
  | starred value => exact Settles.bind (settles_peek hb (readsItem_starred hp hdepth hafter hb))
  | doubleStarred value =>
    exact Settles.bind (settles_peek hb (readsItem_doubleStarred hp hdepth hafter hb))
  | keyword name value =>
    refine Settles.bind (settles_peek hb (Settles.bind (settles_peekAt hb ?_)))
    exact readsItem_keyword hp hdepth hafter hb
  | generator value target source =>
    refine Settles.bind (settles_peek hb (Settles.bind (settles_peekAt hb ?_)))
    exact readsItem_generator hp hdepth hafter hb

end Item

/-! ## Whole lists -/

theorem exists_lexemes_cons (item : Item) :
    ∃ l ls, item.lexemes = l :: ls ∧ l.kind ≠ .op .rightParen := by
  cases item <;> exact ⟨_, _, rfl, nofun⟩

/-- The arguments of a list are read just when it is in order. -/
theorem settles_arguments (place : Place) (hdepth : depth + 1 < maxNesting)
    (hb : Before state depth
      (commaSeparated [.comma] trailing (items.map Item.lexemes) ++ .rightParen :: tail)) :
    Settles ending state (arguments (.within (room + 2)) place.allowsGenerator)
      (fun ts next => (WellOrdered place trailing items ∧
        ts.map Tree.skeleton = items.map Item.tree) ∧ Before next depth (.rightParen :: tail))
      ¬WellOrdered place trailing items := by
  have hloop : Settles ending state (iterate (fun arguments => do
      if ← check (.op .rightParen) then return (arguments, false)
      else
        let arguments ← argument (.within (room + 2)) place.allowsGenerator arguments
        return (arguments, ← eat (.op .comma))) Arguments.none)
      (fun read next => HasRead place trailing items items read ∧
        Before next depth (.rightParen :: tail))
      ¬WellOrdered place trailing items := by
    refine settles_commaLoop exists_lexemes_cons ?_ hasRead_none hb
    rintro front item back read state l tail rfl hread hafter hb
    exact readsItem hread hdepth hafter hb
  refine Settles.bind (hloop.mono ?_ id)
  rintro read next ⟨hread, hnext⟩
  exact settles_pure ⟨⟨wellOrdered_iff.2 hread.admits, hread.list_eq⟩, hnext⟩

/-! ## Headers of classes -/

/-- The name of the class. -/
def className : Identifier := .letter 'C' rfl rfl

/-- A class is read just when the list in its header is in order. -/
theorem settles_classDef {statement : Parser (List Tree)} {start : Position}
    (hb : Before state 0 (Lexeme.classWord :: className.lexeme :: .leftParen ::
      (commaSeparated [.comma] trailing (items.map Item.lexemes) ++
        .rightParen :: .colon :: .passWord :: newline :: tail))) :
    Settles ending state (Compound.classDef (Compound.blockOf statement) [] start)
      (fun t next => WellOrdered .classHeader trailing items ∧
        ReadUpTo (.node (.classDef "C") .zero (items.map Item.tree ++ [passBlock])) 0 tail t next)
      ¬WellOrdered .classHeader trailing items := by
  refine Settles.bind (Settles.bind (settles_here fun _ => ?_))
  refine Settles.bind (settles_advance hb fun next hnext => ?_)
  refine Settles.bind (settles_expectName hnext rfl fun next hnext => ?_)
  refine Settles.bind (Settles.bind (settles_eat_of_ne hnext nofun ?_))
  refine Settles.bind (Settles.bind (settles_eat_of_eq hnext rfl fun next hnext => ?_))
  refine Settles.bind ((settles_arguments .classHeader (by decide) hnext).mono ?_ id)
  rintro arguments next ⟨⟨hordered, harguments⟩, hnext⟩
  refine Settles.bind (settles_require hnext rfl fun next hnext => ?_)
  refine Settles.bind (settles_expect hnext rfl fun next hnext => ?_)
  refine Settles.bind ((Snippet.settles_passBlock hnext).mono ?_ id)
  rintro block next ⟨hblock, hnext⟩
  refine settles_node fun span => ⟨hordered, ?_, hnext⟩
  rw [Tree.skeleton_node, List.map_append, List.map_singleton, hblock]
  simp only [List.nil_append, harguments]
  rfl

/-! ## Calls -/

/-- A call is read just when its argument list is in order. -/
theorem settles_call (hdepth : depth + 1 < maxNesting) (hl : Closes 0 l.kind)
    (hb : Before state depth (Identifier.f.lexeme :: .leftParen ::
      (commaSeparated [.comma] trailing (items.map Item.lexemes) ++ .rightParen :: l :: tail))) :
    Settles ending state (unary (.within (room + 2)) 0)
      (fun t next => (WellOrdered .call trailing items ∧ t.skeleton = callNode items) ∧
        Before next depth (l :: tail)) ¬WellOrdered .call trailing items := by
  refine Settles.bind (settles_here fun start => ?_)
  refine Settles.bind (settles_peek hb ?_)
  refine Settles.bind (settles_here fun start => ?_)
  have hname : Before state depth ((Operand.name .f).lexeme :: _) := hb
  refine Settles.bind ((settles_atom hname).mono ?_ id)
  rintro t next ⟨ht, hnext⟩
  obtain ⟨n, hn⟩ : ∃ n, next.left = n + 1 := ⟨_, hnext.left_eq_length⟩
  refine settles_iterate (settles_iterateWithin ?_)
  rw [hn]
  refine Settles.bind (settles_peek hnext ?_)
  refine Settles.bind (settles_advance hnext fun next hnext => ?_)
  refine Settles.bind ((settles_arguments .call hdepth hnext).mono ?_ id)
  rintro arguments next ⟨⟨hordered, harguments⟩, hnext⟩
  refine Settles.bind (settles_require hnext rfl fun next hnext => ?_)
  refine Settles.bind (settles_node fun span => settles_pure ?_)
  refine settles_iterateWithin (settles_trailer_stop hnext hl.not_trailer ?_)
  refine ⟨⟨hordered, ?_⟩, hnext⟩
  rw [Tree.skeleton_node, List.map_cons, ht, harguments]
  rfl

/-- A call is a statement by itself. -/
theorem settles_callStmt
    (hb : Before state 0 (Identifier.f.lexeme :: .leftParen ::
      (commaSeparated [.comma] trailing (items.map Item.lexemes) ++
        .rightParen :: newline :: tail))) :
    Settles ending state Simple.expressionStmt
      (fun t next => (WellOrdered .call trailing items ∧
        t.skeleton = .node .exprStmt .zero [callNode items]) ∧ Before next 0 (newline :: tail))
      ¬WellOrdered .call trailing items := by
  have hl : Closes 0 newline.kind := ⟨.inl rfl, nofun, nofun, nofun⟩
  have hexpression : ∀ {state}, Before state 0 (Identifier.f.lexeme :: .leftParen ::
      (commaSeparated [.comma] trailing (items.map Item.lexemes) ++
        .rightParen :: newline :: tail)) →
      Settles ending state Level.top.expression
        (fun t next => (WellOrdered .call trailing items ∧ t.skeleton = callNode items) ∧
          Before next 0 (newline :: tail)) ¬WellOrdered .call trailing items := fun hb =>
    settles_expression_of_operand hb nofun nofun (by decide) fun _ hb =>
      settles_operand_of_unary hb hl.stops (by decide) fun _ hb => settles_call (by decide) hl hb
  refine Settles.bind (settles_here fun start => ?_)
  have hassigned : Settles ending state (assigned .top)
      (fun t next => (WellOrdered .call trailing items ∧ t.skeleton = callNode items) ∧
        Before next 0 (newline :: tail)) ¬WellOrdered .call trailing items := by
    refine Settles.bind (settles_check hb ?_)
    refine Settles.bind (settles_here fun start => ?_)
    refine Settles.bind (Settles.bind (settles_check hb ?_))
    refine (hexpression hb).mono ?_ id
    intro t next hread
    exact Settles.bind (settles_check hread.2 hread)
  refine Settles.bind (hassigned.mono ?_ id)
  rintro t next ⟨⟨hordered, ht⟩, hnext⟩
  refine Settles.bind (settles_peek hnext ?_)
  have hprint : (Simple.isPrint t && Simple.followsPrint newline.kind) = false :=
    Bool.and_false _
  show Settles ending next (if _ then _ else _) _ _
  rw [hprint]
  exact settles_node fun span => ⟨⟨hordered, by rw [Tree.skeleton_node, List.map_singleton, ht]⟩,
    hnext⟩

/-! ## Texts -/

theorem rendered_item {ls : List Lexeme} {rest : List Char} (hrest : EndsItem rest)
    (more : Rendered depth ls rest) :
    Rendered depth (item.lexemes ++ ls) (item.chars ++ rest) := by
  have hname : ∀ (name : Identifier) (n : Nat) {ls rest},
      Lexeme.EndsOperand (blanks n ++ rest) → Rendered depth ls rest →
      Rendered depth (name.lexeme :: ls) (name.lexeme.chars ++ (blanks n ++ rest)) :=
    fun name n _ _ hrest more => rendered_operand (.name name) n hrest more
  cases item with
  | positional value => exact hname value 0 hrest.endsOperand more
  | starred value =>
    exact rendered_sign (by decide) 0 (endsSign_operand (.name value) _)
      (hname value 0 hrest.endsOperand more)
  | doubleStarred value =>
    exact rendered_sign (by decide) 0 (endsSign_operand (.name value) _)
      (hname value 0 hrest.endsOperand more)
  | keyword name value =>
    have hvalue : Rendered depth (.equal :: value.lexeme :: ls)
        ('=' :: (value.lexeme.chars ++ rest)) :=
      rendered_sign (by decide) 0 (endsSign_operand (.name value) _)
        (hname value 0 hrest.endsOperand more)
    simp only [Item.chars, List.append_assoc]
    exact hname name 0 (Lexeme.endsOperand_cons (by decide)) hvalue
  | generator value target source =>
    have hblank : ∀ rest, Lexeme.EndsOperand (blanks 1 ++ rest) := fun rest =>
      Lexeme.endsOperand_cons (by decide)
    have hin : Word.kind ['i', 'n'] = .keyword .inKw := by decide
    have hfor : Word.kind ['f', 'o', 'r'] = .keyword .forKw := by decide
    have hsource := hname source 0 hrest.endsOperand more
    have htarget := hname target 1 (hblank _)
      (rendered_word (by decide) (by decide) hin 1 (hblank _) hsource)
    have hvalue := hname value 1 (hblank _)
      (rendered_word (by decide) (by decide) hfor 1 (hblank _) htarget)
    simp only [Item.chars, List.append_assoc, List.cons_append]
    exact hvalue

theorem rendered_call (space : Nat) (trailing : Bool) (items : List Item) :
    Rendered 0 (Identifier.f.lexeme :: .leftParen ::
      (commaSeparated [.comma] trailing (items.map Item.lexemes) ++ [.rightParen]))
      (call space trailing items).toList := by
  have htext : (call space trailing items).toList = ['f', '('] ++
      (commaSeparated (',' :: blanks space) trailing (items.map Item.chars) ++ [')']) :=
    String.toList_ofList
  rw [htext]
  exact rendered_bracketed space .f (fun _ _ => rendered_item) .nil

theorem rendered_classDefinition (space : Nat) (trailing : Bool) (items : List Item) :
    Rendered 0 (Lexeme.classWord :: className.lexeme :: .leftParen ::
      (commaSeparated [.comma] trailing (items.map Item.lexemes) ++
        [.rightParen, .colon, .passWord])) (classDefinition space trailing items).toList := by
  have htext : (classDefinition space trailing items).toList =
      ['c', 'l', 'a', 's', 's', ' ', 'C', '('] ++
        (commaSeparated (',' :: blanks space) trailing (items.map Item.chars) ++
          [')', ':', ' ', 'p', 'a', 's', 's']) := String.toList_ofList
  have hclass : Word.kind ['c', 'l', 'a', 's', 's'] = .keyword .classKw := by decide
  rw [htext]
  exact rendered_word (by decide) (by decide) hclass 1 (Lexeme.endsOperand_cons (by decide))
    (rendered_bracketed space className (fun _ _ => rendered_item) rendered_pass)

theorem kind_ne_leftParen (item : Item) : ∀ l ∈ item.lexemes, l.kind ≠ .op .leftParen := by
  intro l hl
  cases item <;> simp only [Item.lexemes, List.mem_cons, List.not_mem_nil, or_false] at hl
  case positional => exact hl ▸ nofun
  case starred | doubleStarred => rcases hl with rfl | rfl <;> exact nofun
  case keyword => rcases hl with rfl | rfl | rfl <;> exact nofun
  case generator => rcases hl with rfl | rfl | rfl | rfl | rfl <;> exact nofun

/-! ## Calls and classes -/

/-- A call parses exactly if its argument list is in order, and so does the header of a class, where
no generator may stand. Then the arguments are the items in their order. -/
theorem call_and_class_parse_iff (space : Nat) (trailing : Bool) (items : List Item) :
    (((∃ t, Module.parse (call space trailing items) = .ok t) ↔
        WellOrdered .call trailing items) ∧
      (WellOrdered .call trailing items ↔
        ∃ t, Module.parse (call space trailing items) = .ok t ∧ t.skeleton = callTree items)) ∧
    ((∃ t, Module.parse (classDefinition space trailing items) = .ok t) ↔
        WellOrdered .classHeader trailing items) ∧
      (WellOrdered .classHeader trailing items ↔
        ∃ t, Module.parse (classDefinition space trailing items) = .ok t ∧
          t.skeleton = classTree items) := by
  have hnone : (commaSeparated [.comma] trailing (items.map Item.lexemes)).count .leftParen = 0 :=
    count_leftParen_commaSeparated kind_ne_leftParen
  constructor
  · refine Snippet.parse_iff_of_settles (rendered_call space trailing items) ?_ ?_
    · simp only [List.count_cons, List.count_append, hnone]
      decide
    · intro ending state room hb
      simp only [List.cons_append, List.append_assoc, List.nil_append] at hb
      refine Settles.bind (settles_here fun start => ?_)
      refine Settles.bind (settles_peek hb ?_)
      refine Settles.bind (settles_checkWord hb ?_)
      have hstatement : Settles ending state Simple.statement _ _ :=
        Settles.bind (settles_peek hb (settles_callStmt hb))
      refine (Snippet.settles_line hstatement).mono ?_ id
      rintro _ next ⟨⟨t, rfl, hordered, ht⟩, hnext⟩
      exact ⟨hordered, by rw [List.map_singleton, ht], hnext⟩
  · refine Snippet.parse_iff_of_settles (rendered_classDefinition space trailing items) ?_ ?_
    · simp only [List.count_cons, List.count_append, hnone]
      decide
    · intro ending state room hb
      simp only [List.cons_append, List.append_assoc, List.nil_append] at hb
      refine Settles.bind (settles_here fun start => ?_)
      refine Settles.bind (settles_peek hb ?_)
      refine Settles.bind ((settles_classDef hb).mono ?_ id)
      rintro t next ⟨hordered, ht, hnext⟩
      exact settles_pure ⟨hordered, by rw [List.map_singleton, ht], hnext⟩

/-- A comma after it is enough to turn a generator down. -/
example :
    let x : Identifier := .letter 'x' rfl rfl
    call 0 false [.generator x x x] = "f(x for x in x)" ∧
      (Module.parse "f(x for x in x)").toOption.isSome = true ∧
      (Module.parse "f(x for x in x,)").toOption.isSome = false := by
  decide +kernel

end SnippetLint.ArgumentList
