import SnippetLint.Proofs.CommaLists

/-!
Which parameter lists are accepted. What a list has to do with the order of its items is said of
each item by what stands before it and after it (`WellOrdered`). The loop over the items keeps five
flags and, at a slash, marks parameters that it has read already; `HasRead` says what flags and
parameters have to do with the items so far. From one step that keeps this, or stops at an item that
may not stand there, the whole list follows. Main statement: `definition_parses_iff`.
-/

namespace SnippetLint.ParameterList
open SnippetLint.Parser SnippetLint.Expression
open Precedence (newline)

/-- What stands between the commas of a parameter list. -/
inductive Item where
  | plain (name : Identifier) (type default : Option Operand)
  | slash
  | star
  | starred (name : Identifier) (type : Option Operand)
  | doubleStarred (name : Identifier) (type : Option Operand)

namespace Item

def isPlain : Item → Bool
  | plain _ _ _ => true
  | _ => false

def isSlash : Item → Bool
  | slash => true
  | _ => false

/-- A star, with a name or without. -/
def isStar : Item → Bool
  | star | starred _ _ => true
  | _ => false

def isBareStar : Item → Bool
  | star => true
  | _ => false

def isDoubleStarred : Item → Bool
  | doubleStarred _ _ => true
  | _ => false

def hasDefault : Item → Bool
  | plain _ _ (some _) => true
  | _ => false

/-- What has to hold of the items before an item. -/
def MayFollow (front : List Item) : Item → Prop
  | plain _ _ none =>
    (∀ item ∈ front, item.isStar = false) → ∀ item ∈ front, item.hasDefault = false
  | plain _ _ (some _) => True
  | slash => front ≠ [] ∧ ∀ item ∈ front, item.isSlash = false ∧ item.isStar = false
  | star | starred _ _ => ∀ item ∈ front, item.isStar = false
  | doubleStarred _ _ => True

/-- What has to hold of the items after an item. -/
def MayLead (back : List Item) : Item → Prop
  | star => ∃ next more, back = next :: more ∧ next.isPlain = true
  | doubleStarred _ _ => back = []
  | _ => True

/-! ## How items are written, and what they stand for -/

/-- A sign and an operand, or nothing. -/
def signed (sign : Lexeme) : Option Operand → List Lexeme
  | none => []
  | some operand => [sign, operand.lexeme]

def lexemes : Item → List Lexeme
  | plain name type default =>
    name.lexeme :: (signed .colon type ++ signed .equal default)
  | slash => [.slash]
  | star => [.star]
  | starred name type => .star :: name.lexeme :: signed .colon type
  | doubleStarred name type => .doubleStar :: name.lexeme :: signed .colon type

def chars (item : Item) : List Char := item.lexemes.flatMap Lexeme.chars

/-- The kind of a plain item. -/
def plainKind (afterStar beforeSlash : Bool) : ParameterKind :=
  if beforeSlash then .positionalOnly else if afterStar then .keywordOnly else .regular

/-- The parameter that an item stands for, without places. -/
def tree? (afterStar beforeSlash : Bool) : Item → Option Tree
  | plain name type default =>
    some (.node (.parameter name.text (plainKind afterStar beforeSlash)) .zero
      ((type.toList ++ default.toList).map Operand.tree))
  | slash | star => none
  | starred name type =>
    some (.node (.parameter name.text .varPositional) .zero (type.toList.map Operand.tree))
  | doubleStarred name type =>
    some (.node (.parameter name.text .varKeyword) .zero (type.toList.map Operand.tree))

end Item

/-- The order that a parameter list has to keep. -/
def WellOrdered : List Item → Prop :=
  EachPlaced fun front item back => item.MayFollow front ∧ item.MayLead back

/-- The definition of a function with these parameters; so many blanks stand after a comma. -/
def definition (space : Nat) (trailing : Bool) (items : List Item) : String :=
  String.ofList ("def f(".toList ++
    (commaSeparated (',' :: blanks space) trailing (items.map Item.chars) ++ "): pass".toList))

/-- The parameters that items stand for, with or without a star before them. -/
def trees : Bool → List Item → List Tree
  | _, [] => []
  | afterStar, item :: items =>
    (item.tree? afterStar (items.any Item.isSlash)).toList ++
      trees (afterStar || item.isStar) items

/-- The snippet with the definition, without places. -/
def definitionTree (items : List Item) : Tree :=
  .node .module .zero [.node (.functionDef "f" false) .zero (trees false items ++ [passBlock])]

/-! ## The order of items -/

variable {items front back : List Item} {item : Item}

/-- What has to hold of an item and of those before it, once it is known. -/
structure Admits (front : List Item) (item : Item) : Prop where
  varKeyword : front.any Item.isDoubleStarred = false
  bareStar : front.getLast?.any Item.isBareStar = true → item.isPlain = true
  mayFollow : item.MayFollow front

theorem WellOrdered.admits (h : WellOrdered (front ++ item :: back)) : Admits front item := by
  refine ⟨List.any_eq_false.2 fun other hother hvar => ?_, fun hlast => ?_, (h _ _ _ rfl).1⟩
  · obtain ⟨before, after, rfl⟩ := List.append_of_mem hother
    rw [List.append_assoc, List.cons_append] at h
    have hlead := (h _ _ _ rfl).2
    cases other with
    | doubleStarred => simp [Item.MayLead] at hlead
    | _ => cases hvar
  · rcases List.eq_nil_or_concat front with rfl | ⟨before, last, rfl⟩
    · cases hlast
    · rw [List.concat_eq_append] at h hlast
      rw [List.append_assoc, List.singleton_append] at h
      rw [List.getLast?_concat, Option.any_some] at hlast
      have hlead := (h _ _ _ rfl).2
      cases last with
      | star =>
        obtain ⟨next, more, heq, hplain⟩ := hlead
        cases heq
        exact hplain
      | _ => cases hlast

/-- A list is in order when each item may stand after those before it, and no star is left without
a parameter. -/
theorem wellOrdered_iff : WellOrdered items ↔
    EachPlaced (fun front item _ => Admits front item) items ∧
      items.getLast?.any Item.isBareStar = false := by
  constructor
  · intro h
    refine ⟨fun front item back hcut => ?_, ?_⟩
    · subst hcut
      exact h.admits
    · rcases List.eq_nil_or_concat items with rfl | ⟨before, last, rfl⟩
      · rfl
      · rw [List.concat_eq_append] at h ⊢
        rw [List.getLast?_concat, Option.any_some]
        have hlead := (h _ _ _ rfl).2
        cases last with
        | star =>
          obtain ⟨next, more, heq, -⟩ := hlead
          cases heq
        | _ => rfl
  · rintro ⟨hadmits, hlast⟩ front item back rfl
    refine ⟨(hadmits _ _ _ rfl).mayFollow, ?_⟩
    cases back with
    | nil =>
      cases item with
      | star => simp [Item.isBareStar] at hlast
      | doubleStarred => rfl
      | _ => trivial
    | cons next more =>
      have hnext : Admits (front ++ [item]) next :=
        hadmits _ _ more (by rw [List.append_assoc, List.singleton_append])
      cases item with
      | star =>
        refine ⟨next, more, rfl, hnext.bareStar ?_⟩
        rw [List.getLast?_concat]
        rfl
      | doubleStarred =>
        have hvar := hnext.varKeyword
        simp [Item.isDoubleStarred] at hvar
      | _ => trivial

/-! ## The trees of items -/

theorem map_positionalOnly_tree? (hstar : item.isStar = false)
    (hvar : item.isDoubleStarred = false) (afterStar beforeSlash : Bool) :
    (item.tree? afterStar beforeSlash).map positionalOnly = item.tree? afterStar true := by
  cases item with
  | plain | slash => rfl
  | star | starred => cases hstar
  | doubleStarred => cases hvar

theorem trees_concat (hitem : item.isSlash = false) (afterStar : Bool) :
    trees afterStar (front ++ [item]) = trees afterStar front ++
      (item.tree? (afterStar || front.any Item.isStar) false).toList := by
  induction front generalizing afterStar with
  | nil => simp [trees]
  | cons first front ih =>
    rw [List.cons_append, trees, trees, ih, List.any_append, List.any_cons, Bool.or_assoc,
      List.append_assoc]
    simp [hitem]

/-- A slash marks all parameters before it. -/
theorem trees_concat_slash (hfront : ∀ item ∈ front, item.isStar = false ∧
    item.isDoubleStarred = false) (afterStar : Bool) :
    trees afterStar (front ++ [.slash]) = (trees afterStar front).map positionalOnly := by
  induction front generalizing afterStar with
  | nil => rfl
  | cons first front ih =>
    obtain ⟨⟨hstar, hvar⟩, hfront⟩ := List.forall_mem_cons.1 hfront
    have hany : (front ++ [Item.slash]).any Item.isSlash = true := by simp [Item.isSlash]
    rw [List.cons_append, trees, trees, ih hfront, List.map_append, hany,
      ← map_positionalOnly_tree? hstar hvar afterStar (front.any Item.isSlash), Option.toList_map]

theorem skeleton_positionalOnly (t : Tree) :
    (positionalOnly t).skeleton = positionalOnly t.skeleton := by
  obtain ⟨kind, span, children⟩ := t
  cases kind <;> simp only [positionalOnly, Tree.skeleton_node]

/-! ## Reading one item -/

/-- What the flags and the parameters say after these items. -/
structure HasRead (front : List Item) (p : Parameters) : Prop where
  list_eq : p.list.map Tree.skeleton = trees false front
  seenSlash_eq : p.seenSlash = front.any Item.isSlash
  keywordOnly_eq : p.keywordOnly = front.any Item.isStar
  seenDefault_eq : p.keywordOnly = false → p.seenDefault = front.any Item.hasDefault
  bareStar_eq : p.bareStar = front.getLast?.any Item.isBareStar
  seenVarKeyword_eq : p.seenVarKeyword = front.any Item.isDoubleStarred
  admits : EachPlaced (fun front item _ => Admits front item) front

theorem hasRead_none : HasRead [] Parameters.none :=
  ⟨rfl, rfl, rfl, fun _ => rfl, rfl, rfl, eachPlaced_nil _⟩

variable {ending : Ending} {state : ParserState} {depth room : Nat} {tail : List Lexeme}
  {l : Lexeme} {p : Parameters} {trailing : Bool} {operand : Option Operand} {fail : Prop}

/-- What may stand after a name, its type or its default. -/
def IsEnd (l : Lexeme) : Prop := l = .comma ∨ l = .rightParen

theorem closes_of_isEnd (h : IsEnd l ∨ l = .equal) :
    Closes 0 l.kind ∧ l.kind ≠ .keyword .ifKw ∧ l.kind ≠ .op .colon := by
  rcases h with (rfl | rfl) | rfl
  all_goals exact ⟨⟨.inl rfl, nofun, nofun, nofun⟩, nofun, nofun⟩

theorem settles_type (hdepth : depth + 1 < maxNesting) (hl : IsEnd l ∨ l = .equal)
    (hb : Before state depth (Item.signed .colon operand ++ l :: tail)) :
    Settles ending state ( annotation (.within (room + 2)) true)
      (fun ts next => ts.map Tree.skeleton = operand.toList.map Operand.tree ∧
        Before next depth (l :: tail)) fail := by
  obtain ⟨hcloses, hif, hcolon⟩ := closes_of_isEnd hl
  unfold annotation
  rw [if_pos rfl]
  cases operand with
  | none => exact Settles.bind (settles_eat_of_ne hb hcolon ⟨rfl, hb⟩)
  | some operand =>
    refine Settles.bind (settles_eat_of_eq hb rfl fun next hnext => ?_)
    rw [if_pos rfl]
    have hstar : operand.lexeme.kind ≠ .op .star := by cases operand <;> exact nofun
    refine Settles.bind (Settles.bind (settles_check hnext ?_))
    rw [beq_false_of_ne hstar, if_neg Bool.false_ne_true]
    refine (settles_expression hnext hcloses hif hdepth).mono ?_ id
    rintro t next ⟨ht, hnext⟩
    exact ⟨by rw [List.map_singleton, ht]; rfl, hnext⟩

namespace HasRead

/-- No star waits for a parameter where there has been none. -/
theorem bareStar_eq_false (hp : HasRead front p) (h : p.keywordOnly = false) :
    p.bareStar = false := by
  rw [hp.keywordOnly_eq, any_eq_false_iff] at h
  rw [hp.bareStar_eq]
  cases hlast : front.getLast? with
  | none => rfl
  | some last =>
    have hstar := h last (List.mem_of_getLast? hlast)
    cases last with
    | star => cases hstar
    | _ => rfl

/-- What is known of the items read so far, and what the next one changes. -/
theorem concat {q : Parameters} (hp : HasRead front p) (hadmits : Admits front item)
    (hlist : q.list.map Tree.skeleton = trees false (front ++ [item]))
    (hslash : q.seenSlash = (p.seenSlash || item.isSlash))
    (hstar : q.keywordOnly = (p.keywordOnly || item.isStar))
    (hdefault : q.keywordOnly = false → q.seenDefault = (p.seenDefault || item.hasDefault))
    (hbare : q.bareStar = item.isBareStar)
    (hvar : q.seenVarKeyword = (p.seenVarKeyword || item.isDoubleStarred)) :
    HasRead (front ++ [item]) q where
  list_eq := hlist
  seenSlash_eq := by rw [hslash, hp.seenSlash_eq, any_concat]
  keywordOnly_eq := by rw [hstar, hp.keywordOnly_eq, any_concat]
  seenDefault_eq := by
    intro h
    have hkeyword := (Bool.or_eq_false_iff.1 (hstar ▸ h)).1
    rw [hdefault h, hp.seenDefault_eq hkeyword, any_concat]
  bareStar_eq := by rw [hbare, List.getLast?_concat, Option.any_some]
  seenVarKeyword_eq := by rw [hvar, hp.seenVarKeyword_eq, any_concat]
  admits := eachPlaced_concat hp.admits hadmits

end HasRead

/-- After these items this item has been read, or it may not stand there. -/
def ReadsItem (ending : Ending) (state : ParserState) (front : List Item) (item : Item)
    (back : List Item) (depth : Nat) (rest : List Lexeme) (p : Parser Parameters) : Prop :=
  Settles ending state p (fun q next => HasRead (front ++ [item]) q ∧ Before next depth rest)
    ¬WellOrdered (front ++ item :: back)

theorem trees_ne_nil (hne : front ≠ [])
    (h : ∀ item ∈ front, item.isSlash = false ∧ item.isStar = false) (afterStar : Bool) :
    trees afterStar front ≠ [] := by
  obtain ⟨first, front, rfl⟩ := List.exists_cons_of_ne_nil hne
  obtain ⟨⟨hslash, hstar⟩, -⟩ := List.forall_mem_cons.1 h
  cases first with
  | slash => cases hslash
  | star => cases hstar
  | _ => exact List.cons_ne_nil _ _

theorem readsItem_slash (hp : HasRead front p) (hvar : p.seenVarKeyword = false)
    (hb : Before state depth (.slash :: l :: tail)) :
    ReadsItem ending state front .slash back depth (l :: tail) (slashParameter p) := by
  have hempty : p.list = [] ↔ trees false front = [] := by
    rw [← hp.list_eq, List.map_eq_nil_iff]
  unfold ReadsItem slashParameter
  split
  · next hfault =>
    refine settles_failHere fun hordered => ?_
    obtain ⟨hne, hfront⟩ := hordered.admits.mayFollow
    simp only [Bool.or_eq_true, hp.seenSlash_eq, hp.keywordOnly_eq, List.isEmpty_iff,
      hempty] at hfault
    rcases hfault with (hslash | hstar) | hlist
    · rw [any_eq_false_iff.2 fun item hitem => (hfront item hitem).1] at hslash
      cases hslash
    · rw [any_eq_false_iff.2 fun item hitem => (hfront item hitem).2] at hstar
      cases hstar
    · exact trees_ne_nil hne hfront false hlist
  · next hfault =>
    simp only [Bool.or_eq_true, not_or, Bool.not_eq_true, List.isEmpty_iff, hempty] at hfault
    obtain ⟨⟨hslash, hstar⟩, hlist⟩ := hfault
    have hslashes := any_eq_false_iff.1 (hp.seenSlash_eq ▸ hslash)
    have hstars := any_eq_false_iff.1 (hp.keywordOnly_eq ▸ hstar)
    have hvars := hp.seenVarKeyword_eq ▸ hvar
    have hadmits : Admits front .slash := by
      refine ⟨hvars, fun hbare => ?_, ?_, fun item hitem =>
        ⟨hslashes item hitem, hstars item hitem⟩⟩
      · rw [← hp.bareStar_eq, hp.bareStar_eq_false hstar] at hbare
        cases hbare
      · rintro rfl
        exact hlist rfl
    refine Settles.bind (settles_advance hb fun next hnext => ?_)
    refine settles_pure ⟨hp.concat hadmits ?_ (Bool.or_true _).symm (Bool.or_false _).symm
      (fun h => ?_) (hp.bareStar_eq_false hstar) (Bool.or_false _).symm, hnext⟩
    · rw [trees_concat_slash (fun item hitem =>
        ⟨hstars item hitem, any_eq_false_iff.1 hvars item hitem⟩), ← hp.list_eq,
        List.map_map, List.map_map]
      exact List.map_congr_left fun t _ => skeleton_positionalOnly t
    · exact (Bool.or_false _).symm

/-- A star may follow where there has been none. -/
theorem HasRead.admits_star (hp : HasRead front p) (hvar : p.seenVarKeyword = false)
    (hkeyword : p.keywordOnly = false) (hitem : item.isStar = true) : Admits front item := by
  refine ⟨hp.seenVarKeyword_eq ▸ hvar, fun hbare => ?_, ?_⟩
  · rw [← hp.bareStar_eq, hp.bareStar_eq_false hkeyword] at hbare
    cases hbare
  · have hstars := any_eq_false_iff.1 (hp.keywordOnly_eq ▸ hkeyword)
    cases item with
    | star | starred => exact hstars
    | _ => cases hitem

theorem HasRead.not_wellOrdered_star (hp : HasRead front p) (hkeyword : p.keywordOnly = true)
    (hitem : item.isStar = true) : ¬WellOrdered (front ++ item :: back) := by
  intro hordered
  have hfollow := hordered.admits.mayFollow
  have hstars : ∀ item ∈ front, item.isStar = false := by
    cases item with
    | star | starred => exact hfollow
    | _ => cases hitem
  rw [hp.keywordOnly_eq, any_eq_false_iff.2 hstars] at hkeyword
  cases hkeyword

theorem readsItem_star {inner : Level} (hp : HasRead front p) (hvar : p.seenVarKeyword = false)
    (hafter : AfterItem trailing back l) (hb : Before state depth (.star :: l :: tail)) :
    ReadsItem ending state front .star back depth (l :: tail) (starParameter inner true p) := by
  refine Settles.bind (settles_here fun start => ?_)
  split
  · next hkeyword => exact settles_failHere (hp.not_wellOrdered_star hkeyword rfl)
  · next hkeyword =>
    rw [Bool.not_eq_true] at hkeyword
    refine Settles.bind (settles_advance hb fun next hnext => ?_)
    refine Settles.bind (settles_check hnext ?_)
    cases hafter with
    | comma =>
      refine Settles.bind (settles_check hnext ?_)
      refine settles_pure ⟨hp.concat (hp.admits_star hvar hkeyword rfl) ?_ (Bool.or_false _).symm
        (Bool.or_true _).symm nofun rfl (Bool.or_false _).symm, hnext⟩
      rw [trees_concat rfl, ← hp.list_eq]
      exact (List.append_nil _).symm
    | closed last =>
      refine Settles.bind (settles_check hnext ?_)
      refine settles_failHere fun hordered => ?_
      obtain ⟨next, more, heq, -⟩ := (hordered _ _ _ rfl).2
      rw [last] at heq
      cases heq

theorem isEnd_of_afterItem (h : AfterItem trailing back l) : IsEnd l := by
  cases h with
  | comma => exact .inl rfl
  | closed => exact .inr rfl

variable {name : Identifier}

theorem readsItem_starred (hp : HasRead front p) (hvar : p.seenVarKeyword = false)
    (hdepth : depth + 1 < maxNesting) (hl : IsEnd l)
    (hb : Before state depth
      (.star :: name.lexeme :: (Item.signed .colon operand ++ l :: tail))) :
    ReadsItem ending state front (.starred name operand) back depth (l :: tail)
      (starParameter (.within (room + 2)) true p) := by
  refine Settles.bind (settles_here fun start => ?_)
  split
  · next hkeyword => exact settles_failHere (hp.not_wellOrdered_star hkeyword rfl)
  · next hkeyword =>
    rw [Bool.not_eq_true] at hkeyword
    refine Settles.bind (settles_advance hb fun next hnext => ?_)
    refine Settles.bind (settles_check hnext ?_)
    refine Settles.bind (settles_word hnext fun next hnext => ?_)
    refine Settles.bind ((settles_type hdepth (.inl hl) hnext).mono ?_ id)
    rintro children next ⟨hchildren, hnext⟩
    refine Settles.bind (settles_node fun span => ?_)
    refine settles_pure ⟨hp.concat (hp.admits_star hvar hkeyword rfl) ?_ (Bool.or_false _).symm
      (Bool.or_true _).symm nofun (hp.bareStar_eq_false hkeyword) (Bool.or_false _).symm, hnext⟩
    rw [trees_concat rfl, ← hp.list_eq, Parameters.push, List.map_append, List.map_singleton,
      Tree.skeleton_node, hchildren]
    rfl

theorem readsItem_doubleStarred (hp : HasRead front p) (hvar : p.seenVarKeyword = false)
    (hdepth : depth + 1 < maxNesting) (hl : IsEnd l)
    (hb : Before state depth
      (.doubleStar :: name.lexeme :: (Item.signed .colon operand ++ l :: tail))) :
    ReadsItem ending state front (.doubleStarred name operand) back depth (l :: tail)
      (doubleStarParameter (.within (room + 2)) true p) := by
  refine Settles.bind (settles_here fun start => ?_)
  split
  · next hbare =>
    refine settles_failAt fun hordered => ?_
    have hplain := hordered.admits.bareStar (hp.bareStar_eq ▸ hbare)
    cases hplain
  · next hbare =>
    rw [Bool.not_eq_true] at hbare
    have hadmits : Admits front (.doubleStarred name operand) := by
      refine ⟨hp.seenVarKeyword_eq ▸ hvar, fun hlast => ?_, trivial⟩
      rw [← hp.bareStar_eq, hbare] at hlast
      cases hlast
    refine Settles.bind (settles_advance hb fun next hnext => ?_)
    refine Settles.bind (settles_expectName hnext rfl fun next hnext => ?_)
    refine Settles.bind ((settles_type hdepth (.inl hl) hnext).mono ?_ id)
    rintro children next ⟨hchildren, hnext⟩
    refine Settles.bind (settles_node fun span => ?_)
    refine settles_pure ⟨hp.concat hadmits ?_ (Bool.or_false _).symm
      (Bool.or_false _).symm (fun _ => (Bool.or_false _).symm) hbare (Bool.or_true _).symm, hnext⟩
    rw [trees_concat rfl, ← hp.list_eq, Parameters.push, List.map_append, List.map_singleton,
      Tree.skeleton_node, hchildren]
    rfl

/-- A name without a default is turned down just where it may not stand. -/
theorem HasRead.mayFollow_iff (hp : HasRead front p) {type : Option Operand} :
    (Item.plain name type none).MayFollow front ↔ (p.seenDefault && !p.keywordOnly) = false := by
  rw [Item.MayFollow, ← any_eq_false_iff, ← any_eq_false_iff, ← hp.keywordOnly_eq]
  cases hkeyword : p.keywordOnly with
  | true => simp
  | false => simp [hp.seenDefault_eq hkeyword]

theorem HasRead.list_push (hp : HasRead front p) {t : Tree} {type default : Option Operand}
    {children : List Tree} {span : Span}
    (ht : t = .node (.parameter name.text
      (if p.keywordOnly then ParameterKind.keywordOnly else .regular)) span children)
    (hchildren : children.map Tree.skeleton = (type.toList ++ default.toList).map Operand.tree) :
    (p.push t).list.map Tree.skeleton = trees false (front ++ [.plain name type default]) := by
  rw [trees_concat rfl, ← hp.list_eq, Parameters.push, List.map_append, List.map_singleton, ht,
    Tree.skeleton_node, hchildren, hp.keywordOnly_eq]
  rfl

theorem readsItem_plain {type default : Option Operand} (hp : HasRead front p)
    (hvar : p.seenVarKeyword = false) (hdepth : depth + 1 < maxNesting) (hl : IsEnd l)
    (hb : Before state depth
      (name.lexeme :: (Item.signed .colon type ++ (Item.signed .equal default ++ l :: tail)))) :
    ReadsItem ending state front (.plain name type default) back depth (l :: tail)
      (plainParameter (.within (room + 2)) true p) := by
  have hadmits : (Item.plain name type default).MayFollow front →
      Admits front (.plain name type default) := fun hfollow =>
    ⟨hp.seenVarKeyword_eq ▸ hvar, fun _ => rfl, hfollow⟩
  refine Settles.bind (settles_here fun start => ?_)
  refine Settles.bind (settles_expectName hb rfl fun next hnext => ?_)
  cases default with
  | none =>
    refine Settles.bind ((settles_type hdepth (.inl hl) hnext).mono ?_ id)
    rintro children next ⟨hchildren, hnext⟩
    have hequal : l.kind ≠ .op .equal := by rcases hl with rfl | rfl <;> exact nofun
    refine Settles.bind (settles_eat_of_ne hnext hequal ?_)
    rw [if_neg Bool.false_ne_true]
    split
    · next hfault =>
      refine settles_failAt fun hordered => ?_
      rw [hp.mayFollow_iff.1 hordered.admits.mayFollow] at hfault
      cases hfault
    · next hfault =>
      refine Settles.bind (settles_node fun span => ?_)
      refine settles_pure ⟨hp.concat (hadmits (hp.mayFollow_iff.2 (Bool.eq_false_iff.2 hfault)))
        (hp.list_push rfl ?_) (Bool.or_false _).symm (Bool.or_false _).symm
        (fun _ => (Bool.or_false _).symm) rfl (Bool.or_false _).symm, hnext⟩
      rw [hchildren, Option.toList_none, List.append_nil]
  | some value =>
    refine Settles.bind ((settles_type hdepth (.inr rfl) hnext).mono ?_ id)
    rintro children next ⟨hchildren, hnext⟩
    refine Settles.bind (settles_eat_of_eq hnext rfl fun next hnext => ?_)
    rw [if_pos rfl]
    obtain ⟨hcloses, hif, -⟩ := closes_of_isEnd (.inl hl)
    refine Settles.bind ((settles_expression hnext hcloses hif hdepth).mono ?_ id)
    rintro t next ⟨ht, hnext⟩
    refine Settles.bind (settles_node fun span => ?_)
    refine settles_pure ⟨hp.concat (hadmits trivial) (hp.list_push rfl ?_) (Bool.or_false _).symm
      (Bool.or_false _).symm (fun hkeyword => ?_) rfl (Bool.or_false _).symm, hnext⟩
    · rw [List.map_append, hchildren, List.map_singleton, ht, List.map_append]
      rfl
    · have hkeyword : p.keywordOnly = false := hkeyword
      show (p.seenDefault || !p.keywordOnly) = (p.seenDefault || true)
      rw [hkeyword]
      rfl

/-- An item of a list is read after those before it just where it may stand there. -/
theorem readsItem (hp : HasRead front p) (hdepth : depth + 1 < maxNesting)
    (hafter : AfterItem trailing back l) (hb : Before state depth (item.lexemes ++ l :: tail)) :
    ReadsItem ending state front item back depth (l :: tail)
      (parameter (.within (room + 2)) true p) := by
  have hl := isEnd_of_afterItem hafter
  unfold ReadsItem parameter
  split
  · next hvar =>
    refine settles_failHere fun hordered => ?_
    rw [hp.seenVarKeyword_eq, hordered.admits.varKeyword] at hvar
    cases hvar
  · next hvar =>
    rw [Bool.not_eq_true] at hvar
    cases item with
    | plain name type default =>
      rw [Item.lexemes, List.cons_append, List.append_assoc] at hb
      exact Settles.bind (settles_peek hb (readsItem_plain hp hvar hdepth hl hb))
    | slash => exact Settles.bind (settles_peek hb (readsItem_slash hp hvar hb))
    | star => exact Settles.bind (settles_peek hb (readsItem_star hp hvar hafter hb))
    | starred name type =>
      exact Settles.bind (settles_peek hb (readsItem_starred hp hvar hdepth hl hb))
    | doubleStarred name type =>
      exact Settles.bind (settles_peek hb (readsItem_doubleStarred hp hvar hdepth hl hb))

/-! ## Whole lists -/

theorem exists_lexemes_cons (item : Item) :
    ∃ l ls, item.lexemes = l :: ls ∧ l.kind ≠ .op .rightParen := by
  cases item <;> exact ⟨_, _, rfl, nofun⟩

/-- The parameters of a list are read just when it is in order. -/
theorem settles_parameters (hdepth : depth + 1 < maxNesting)
    (hb : Before state depth
      (commaSeparated [.comma] trailing (items.map Item.lexemes) ++ .rightParen :: tail)) :
    Settles ending state (parameters (.within (room + 2)) (.op .rightParen) true)
      (fun ts next => (WellOrdered items ∧ ts.map Tree.skeleton = trees false items) ∧
        Before next depth (.rightParen :: tail)) ¬WellOrdered items := by
  have hloop : Settles ending state (iterate (fun parameters => do
      if ← check (.op .rightParen) then return (parameters, false)
      else
        let parameters ← parameter (.within (room + 2)) true parameters
        return (parameters, ← eat (.op .comma))) Parameters.none)
      (fun p next => HasRead items p ∧ Before next depth (.rightParen :: tail))
      ¬WellOrdered items := by
    refine settles_commaLoop exists_lexemes_cons ?_ hasRead_none hb
    intro front item back p state l tail hcut hp hafter hb
    rw [hcut]
    exact readsItem hp hdepth hafter hb
  refine Settles.bind (hloop.mono ?_ id)
  rintro p next ⟨hp, hnext⟩
  split
  · next hbare =>
    refine settles_failHere fun hordered => ?_
    rw [hp.bareStar_eq, (wellOrdered_iff.1 hordered).2] at hbare
    cases hbare
  · next hbare =>
    rw [Bool.not_eq_true, hp.bareStar_eq] at hbare
    exact settles_pure ⟨⟨wellOrdered_iff.2 ⟨hp.admits, hbare⟩, hp.list_eq⟩, hnext⟩

/-! ## Definitions -/

/-- A definition of a function is read just when its parameter list is in order. -/
theorem settles_functionDef {statement : Parser (List Tree)} {start : Position}
    (hb : Before state 0 (Lexeme.defWord :: Identifier.f.lexeme :: .leftParen ::
      (commaSeparated [.comma] trailing (items.map Item.lexemes) ++
        .rightParen :: .colon :: .passWord :: newline :: tail))) :
    Settles ending state (Compound.functionDef (Compound.blockOf statement) [] start false)
      (fun t next => WellOrdered items ∧
        ReadUpTo (.node (.functionDef "f" false) .zero (trees false items ++ [passBlock])) 0 tail
          t next) ¬WellOrdered items := by
  refine Settles.bind (Settles.bind (settles_here fun _ => ?_))
  refine Settles.bind (settles_advance hb fun next hnext => ?_)
  refine Settles.bind (settles_expectName hnext rfl fun next hnext => ?_)
  refine Settles.bind (Settles.bind (settles_eat_of_ne hnext nofun ?_))
  refine Settles.bind (settles_expect hnext rfl fun next hnext => ?_)
  refine Settles.bind ((settles_parameters (by decide) hnext).mono ?_ id)
  rintro parameters next ⟨⟨hordered, hparameters⟩, hnext⟩
  refine Settles.bind (settles_require hnext rfl fun next hnext => ?_)
  refine Settles.bind (settles_eat_of_ne hnext nofun ?_)
  refine Settles.bind (settles_pure ?_)
  refine Settles.bind (settles_expect hnext rfl fun next hnext => ?_)
  refine Settles.bind ((Snippet.settles_passBlock hnext).mono ?_ id)
  rintro block next ⟨hblock, hnext⟩
  refine settles_node fun span => ⟨hordered, ?_, hnext⟩
  rw [Tree.skeleton_node, List.map_append, List.map_singleton, hblock]
  simp only [List.nil_append, List.append_nil, hparameters]
  rfl

theorem rendered_signed {sign : Lexeme} (hsign : sign = .colon ∨ sign = .equal)
    (operand : Option Operand) {ls : List Lexeme} {rest : List Char}
    (hrest : Lexeme.EndsOperand rest) (more : Rendered depth ls rest) :
    Rendered depth (Item.signed sign operand ++ ls)
        ((Item.signed sign operand).flatMap Lexeme.chars ++ rest) ∧
      Lexeme.EndsOperand ((Item.signed sign operand).flatMap Lexeme.chars ++ rest) := by
  cases operand with
  | none => exact ⟨more, hrest⟩
  | some operand =>
    have hoperand := rendered_operand operand 0 hrest more
    have hends := endsSign_operand operand rest
    simp only [Item.signed, List.flatMap_cons, List.flatMap_nil, List.append_nil,
      List.append_assoc, List.cons_append, List.nil_append]
    rcases hsign with rfl | rfl
    · exact ⟨rendered_sign (by decide) 0 hends hoperand, Lexeme.endsOperand_cons (by decide)⟩
    · exact ⟨rendered_sign (by decide) 0 hends hoperand, Lexeme.endsOperand_cons (by decide)⟩

theorem rendered_item {ls : List Lexeme} {rest : List Char} (hrest : EndsItem rest)
    (more : Rendered depth ls rest) :
    Rendered depth (item.lexemes ++ ls) (item.chars ++ rest) := by
  have hnamed : ∀ (name : Identifier) (type : Option Operand) {ls rest},
      Lexeme.EndsOperand rest → Rendered depth ls rest →
      Rendered depth (name.lexeme :: (Item.signed .colon type ++ ls))
        (name.lexeme.chars ++ ((Item.signed .colon type).flatMap Lexeme.chars ++ rest)) := by
    intro name type ls rest hrest more
    obtain ⟨htype, hends⟩ := rendered_signed (.inl rfl) type hrest more
    exact rendered_operand (.name name) 0 hends htype
  unfold Item.chars
  cases item with
  | plain name type default =>
    obtain ⟨hdefault, hends⟩ := rendered_signed (.inr rfl) default hrest.endsOperand more
    have hplain := hnamed name type hends hdefault
    simpa only [Item.lexemes, List.flatMap_cons, List.flatMap_append, List.append_assoc,
      List.cons_append] using hplain
  | slash => exact rendered_sign (by decide) 0 hrest.endsSign more
  | star => exact rendered_sign (by decide) 0 hrest.endsSign more
  | starred name type =>
    have hname := hnamed name type hrest.endsOperand more
    simp only [Item.lexemes, List.flatMap_cons, List.append_assoc, List.cons_append]
    exact rendered_sign (by decide) 0 (endsSign_operand (.name name) _) hname
  | doubleStarred name type =>
    have hname := hnamed name type hrest.endsOperand more
    simp only [Item.lexemes, List.flatMap_cons, List.append_assoc, List.cons_append]
    exact rendered_sign (by decide) 0 (endsSign_operand (.name name) _) hname

theorem rendered_definition (space : Nat) (trailing : Bool) (items : List Item) :
    Rendered 0 (Lexeme.defWord :: Identifier.f.lexeme :: .leftParen ::
      (commaSeparated [.comma] trailing (items.map Item.lexemes) ++
        [.rightParen, .colon, .passWord])) (definition space trailing items).toList := by
  have htext : (definition space trailing items).toList = ['d', 'e', 'f', ' ', 'f', '('] ++
      (commaSeparated (',' :: blanks space) trailing (items.map Item.chars) ++
        [')', ':', ' ', 'p', 'a', 's', 's']) := String.toList_ofList
  have hdef : Word.kind ['d', 'e', 'f'] = .keyword .defKw := by decide
  rw [htext]
  exact rendered_word (by decide) (by decide) hdef 1 (Lexeme.endsOperand_cons (by decide))
    (rendered_bracketed space .f (fun _ _ => rendered_item) rendered_pass)

theorem kind_ne_leftParen (item : Item) : ∀ l ∈ item.lexemes, l.kind ≠ .op .leftParen := by
  have hsigned : ∀ {sign : Lexeme} (operand : Option Operand), sign.kind ≠ .op .leftParen →
      ∀ l ∈ Item.signed sign operand, l.kind ≠ .op .leftParen := by
    intro sign operand hsign
    cases operand with
    | none => exact fun l hl => nomatch hl
    | some operand =>
      have hoperand : operand.lexeme.kind ≠ .op .leftParen := by cases operand <;> exact nofun
      simpa [Item.signed] using ⟨hsign, hoperand⟩
  cases item with
  | slash | star => exact List.forall_mem_singleton.2 nofun
  | plain name type default =>
    exact List.forall_mem_cons.2 ⟨nofun, List.forall_mem_append.2
      ⟨hsigned type nofun, hsigned default nofun⟩⟩
  | starred name type | doubleStarred name type =>
    exact List.forall_mem_cons.2 ⟨nofun, List.forall_mem_cons.2 ⟨nofun, hsigned type nofun⟩⟩

/-- A definition with a parameter list parses exactly if the list is in order, and then it has the
named items in their order as its parameters, each of the kind that its place gives it. -/
theorem definition_parses_iff (space : Nat) (trailing : Bool) (items : List Item) :
    ((∃ t, Module.parse (definition space trailing items) = .ok t) ↔ WellOrdered items) ∧
      (WellOrdered items ↔ ∃ t, Module.parse (definition space trailing items) = .ok t ∧
        t.skeleton = definitionTree items) := by
  refine Snippet.parse_iff_of_settles (rendered_definition space trailing items) ?_ ?_
  · have hnone : (commaSeparated [.comma] trailing (items.map Item.lexemes)).count .leftParen = 0 :=
      count_leftParen_commaSeparated kind_ne_leftParen
    simp only [List.count_cons, List.count_append, hnone]
    decide
  · intro ending state room hb
    simp only [List.cons_append, List.append_assoc, List.nil_append] at hb
    refine Settles.bind (settles_here fun start => ?_)
    refine Settles.bind (settles_peek hb ?_)
    refine Settles.bind ((settles_functionDef hb).mono ?_ id)
    rintro t next ⟨hordered, ht, hnext⟩
    exact settles_pure ⟨hordered, by rw [List.map_singleton, ht], hnext⟩

/-- After a star a parameter without a default may follow one that has one. -/
example :
    let x : Identifier := .letter 'x' rfl rfl
    definition 1 true [.plain x none (some (.name x)), .slash, .star, .plain x none none] =
        "def f(x=x, /, *, x, ): pass" ∧
      (Module.parse "def f(x=x, /, *, x, ): pass").toOption.isSome = true ∧
      (Module.parse "def f(x=x, /, x, *, x): pass").toOption.isSome = false := by
  decide +kernel

end SnippetLint.ParameterList
