import SnippetLint.Proofs.GrammarLaw

/-!
How trees come about. A `Production` says of which phrases a node is made, and `Reads` what has been
read between two states of a parser: phrases in source order, with tokens between them that leave no
trace in the tree. It is the one account of what the grammar builds: that every rule keeps to it is
shown in `DerivationExpression` and `DerivationStatement`, and a fact about all trees is an
induction on it.
-/

namespace SnippetLint.Derivation
open SnippetLint.Parser

/-! ## Productions -/

/-- What a tree is read as. -/
inductive Phrase where
  /-- An expression that is read, not bound. -/
  | value
  /-- A value, or one that a star spreads. -/
  | item
  /-- An item, or a slice. -/
  | index
  /-- An item, or an argument by keyword. -/
  | argument
  /-- A mapping that is spread. -/
  | spread
  /-- A clause of a comprehension. -/
  | clause
  /-- A name that is bound. -/
  | binding
  | target (action : TargetAction)
  /-- A part of a case pattern, once its names are bound. -/
  | pattern (slot : Pattern.Slot)
  /-- A pattern, or one by keyword. -/
  | patternArgument
  /-- The name that takes the remaining entries of a mapping. -/
  | remainder
  | parameter | typeParam | decorator | withItem | handler | case | block | statement | module
  deriving DecidableEq

/-- What may stand for a wider phrase. -/
inductive Phrase.Within : Phrase → Phrase → Prop
  | item : Within .value .item
  | index : Within .item .index
  | argument : Within .item .argument

/-- The entries of a dictionary: keys with their values, and mappings that are spread. -/
inductive Entries : List Phrase → Prop
  | nil : Entries []
  | pair {rest : List Phrase} (later : Entries rest) : Entries (.value :: .value :: rest)
  | spread {rest : List Phrase} (later : Entries rest) : Entries (.spread :: rest)

/-- The conditions of a statement, each with its block. -/
inductive Guards : List Phrase → Prop
  | nil : Guards []
  | cons {rest : List Phrase} (later : Guards rest) : Guards (.value :: .block :: rest)

/-- The phrases of which a node is made. Names are captured only inside a pattern. -/
inductive Production (captures : Bool) : Phrase → NodeKind → List Phrase → Prop
  -- values
  | name (id : String) : Production captures .value (.name id .load) []
  | constant (value : Constant) : Production captures .value (.constant value) []
  | tuple (n : Nat) : Production captures .value (.tuple .load) (.replicate n .item)
  | list (n : Nat) : Production captures .value (.list .load) (.replicate n .item)
  | set (n : Nat) : Production captures .value .set (.replicate (n + 1) .item)
  | dict {entries : List Phrase} (ordered : Entries entries) :
      Production captures .value .dict entries
  /-- The first key is read as an item: only the colon after it says that it is one. -/
  | dictFrom {entries : List Phrase} (ordered : Entries entries) :
      Production captures .value .dict (.item :: .value :: entries)
  | listComp (n : Nat) : Production captures .value .listComp (.item :: .replicate (n + 1) .clause)
  | setComp (n : Nat) : Production captures .value .setComp (.item :: .replicate (n + 1) .clause)
  | dictComp (n : Nat) :
      Production captures .value .dictComp (.item :: .value :: .replicate (n + 1) .clause)
  | generatorExp (n : Nat) :
      Production captures .value .generatorExp (.item :: .replicate (n + 1) .clause)
  | lambda (n : Nat) : Production captures .value .lambda (.replicate n .parameter ++ [.value])
  | ifExp : Production captures .value .ifExp [.value, .value, .value]
  | boolOp (op : BoolOp) (n : Nat) :
      Production captures .value (.boolOp op) (.value :: .replicate (n + 1) .value)
  | compare {ops : List CompareOp} (h : ops ≠ []) :
      Production captures .value (.compare ops) (.value :: .replicate ops.length .value)
  | binOp (op : BinaryOp) : Production captures .value (.binOp op) [.value, .value]
  | unaryOp (op : UnaryOp) : Production captures .value (.unaryOp op) [.value]
  | awaitExpr : Production captures .value .awaitExpr [.value]
  | yieldNothing : Production captures .value .yieldExpr []
  | yieldValue : Production captures .value .yieldExpr [.item]
  | yieldFrom : Production captures .value .yieldFrom [.value]
  | namedExpr : Production captures .value .namedExpr [.binding, .value]
  | boundName (id : String) : Production captures .binding (.name id .store) []
  | call (n : Nat) : Production captures .value .call (.value :: .replicate n .argument)
  | attribute (attr : String) : Production captures .value (.attribute attr .load) [.value]
  | subscript : Production captures .value (.subscript .load) [.value, .index]
  | matchAs (allowed : captures = true) (name : String) :
      Production captures .value (.matchAs name) [.item]
  -- what is wider than a value
  | starred : Production captures .item (.starred .load) [.value]
  | slice {lower upper step : Nat} (hlower : lower ≤ 1) (hupper : upper ≤ 1) (hstep : step ≤ 1) :
      Production captures .index .slice
        (.replicate lower .item ++ .replicate upper .value ++ .replicate step .value)
  | indexTuple (n : Nat) : Production captures .index (.tuple .load) (.replicate n .index)
  | keyword (arg : Option String) : Production captures .argument (.keyword arg) [.value]
  -- parts of expressions
  | dictUnpack : Production captures .spread .dictUnpack [.value]
  | comprehension (isAsync : Bool) (n : Nat) :
      Production captures .clause (.comprehension isAsync)
        (.target .assign :: .value :: .replicate n .value)
  | parameter (name : String) (kind : ParameterKind) {types default : Nat}
      (htypes : types ≤ 1) (hdefault : default ≤ 1) :
      Production captures .parameter (.parameter name kind)
        (.replicate types .item ++ .replicate default .value)
  -- simple statements
  | exprStmt : Production captures .statement .exprStmt [.item]
  | assign (n : Nat) :
      Production captures .statement .assign (.replicate (n + 1) (.target .assign) ++ [.item])
  | augAssign (op : BinaryOp) :
      Production captures .statement (.augAssign op) [.target .assign, .item]
  | declaration : Production captures .statement .annAssign [.target .assign, .value]
  | annAssign : Production captures .statement .annAssign [.target .assign, .value, .item]
  | returnStmt {n : Nat} (h : n ≤ 1) :
      Production captures .statement .returnStmt (.replicate n .item)
  | raiseStmt {n : Nat} (h : n ≤ 2) :
      Production captures .statement .raiseStmt (.replicate n .value)
  | deleteStmt : Production captures .statement .deleteStmt [.target .delete]
  | assertStmt (n : Nat) (h : n ≤ 1) :
      Production captures .statement .assertStmt (.value :: .replicate n .value)
  | passStmt : Production captures .statement .passStmt []
  | breakStmt : Production captures .statement .breakStmt []
  | continueStmt : Production captures .statement .continueStmt []
  | importStmt (names : List Alias) : Production captures .statement (.importStmt names) []
  | importFrom (module : Option String) (level : Nat) (names : List Alias) :
      Production captures .statement (.importFrom module level names) []
  | globalStmt (names : List String) : Production captures .statement (.globalStmt names) []
  | nonlocalStmt (names : List String) : Production captures .statement (.nonlocalStmt names) []
  -- statements with blocks, and their parts
  | block (n : Nat) : Production captures .block .block (.replicate n .statement)
  | ifStmt {guards : List Phrase} (hguards : Guards guards) {orElse : Nat} (h : orElse ≤ 1) :
      Production captures .statement .ifStmt
        (.value :: .block :: guards ++ .replicate orElse .block)
  | whileStmt {orElse : Nat} (h : orElse ≤ 1) :
      Production captures .statement .whileStmt (.value :: .block :: .replicate orElse .block)
  | forStmt (isAsync : Bool) {orElse : Nat} (h : orElse ≤ 1) :
      Production captures .statement (.forStmt isAsync)
        (.target .assign :: .item :: .block :: .replicate orElse .block)
  | handler (name : Option String) {caught : Nat} (h : caught ≤ 1) :
      Production captures .handler (.exceptHandler name) (.replicate caught .value ++ [.block])
  | tryStmt (isStar : Bool) (handlers : Nat) {orElse final : Nat} (helse : orElse ≤ 1)
      (hfinal : final ≤ 1) :
      Production captures .statement (.tryStmt isStar)
        (.block :: .replicate (handlers + 1) .handler ++ .replicate orElse .block ++
          .replicate final .block)
  | tryFinally (isStar : Bool) :
      Production captures .statement (.tryStmt isStar) [.block, .block]
  | context : Production captures .withItem .withItem [.value]
  | boundContext : Production captures .withItem .withItem [.value, .target .assign]
  | withStmt (isAsync : Bool) (n : Nat) :
      Production captures .statement (.withStmt isAsync) (.replicate (n + 1) .withItem ++ [.block])
  | decorator : Production captures .decorator .decorator [.value]
  | typeParam (name : String) {bound default : Nat} (hbound : bound ≤ 1) (hdefault : default ≤ 1) :
      Production captures .typeParam (.typeParam name)
        (.replicate bound .value ++ .replicate default .value)
  | functionDef (name : String) (isAsync : Bool) (decorators types parameters : Nat)
      {result : Nat} (h : result ≤ 1) :
      Production captures .statement (.functionDef name isAsync)
        (.replicate decorators .decorator ++ .replicate types .typeParam ++
          .replicate parameters .parameter ++ .replicate result .value ++ [.block])
  | classDef (name : String) (decorators types arguments : Nat) :
      Production captures .statement (.classDef name)
        (.replicate decorators .decorator ++ .replicate types .typeParam ++
          .replicate arguments .argument ++ [.block])
  | matchCase {guard : Nat} (h : guard ≤ 1) :
      Production captures .case .matchCase
        ([.pattern .pattern] ++ .replicate guard .value ++ [.block])
  | matchStmt (n : Nat) :
      Production captures .statement .matchStmt (.item :: .replicate n .case)

/-- Of what is no value, only starred phrases are items. -/
theorem Production.isStarred {captures : Bool} {kind : NodeKind} {phrases : List Phrase}
    (h : Production captures .item kind phrases) : kind.isStarred = true := by
  cases h
  rfl

theorem Production.not_starred {captures : Bool} {kind : NodeKind} {phrases : List Phrase}
    (h : Production captures .value kind phrases) : kind.isStarred = false := by
  cases h <;> rfl

/-! ## Targets -/

theorem except_bind_eq_ok {result : Except ε α} {f : α → Except ε β} {b : β}
    (h : (result >>= f) = .ok b) : ∃ a, result = .ok a ∧ f a = .ok b := by
  cases result with
  | ok a => exact ⟨a, rfl, h⟩
  | error error => cases h

/-- The kind with another context, if it has one. -/
def inContext (context : Context) : NodeKind → NodeKind
  | .name id _ => .name id context
  | .attribute attr _ => .attribute attr context
  | .subscript _ => .subscript context
  | .starred _ => .starred context
  | .tuple _ => .tuple context
  | .list _ => .list context
  | kind => kind

/-- Kinds whose children become targets with them. -/
def isGroup : NodeKind → Bool
  | .starred _ | .tuple _ | .list _ => true
  | _ => false

/-- What is marked is a single target, or a group whose children are marked too. -/
theorem mark_cases {action : TargetAction} {t u : Tree} (h : Target.mark action t = .ok u) :
    ∃ kind span children marked, t = .node kind span children ∧
      u = .node (inContext (Target.contextOf action) kind) span marked ∧
      (Target.isSingle kind = true ∧ marked = children ∨
        isGroup kind = true ∧ (action = .delete → kind.isStarred = false) ∧
          Target.markAll action children = .ok marked) := by
  obtain ⟨kind, span, children⟩ := t
  refine ⟨kind, span, children, ?_⟩
  rw [Target.mark.eq_def] at h
  split at h <;> rename_i heq <;> cases heq
  · cases h
    exact ⟨children, rfl, rfl, .inl ⟨rfl, rfl⟩⟩
  · cases h
    exact ⟨children, rfl, rfl, .inl ⟨rfl, rfl⟩⟩
  · cases h
    exact ⟨children, rfl, rfl, .inl ⟨rfl, rfl⟩⟩
  · split at h
    · cases h
    · next haction =>
      obtain ⟨marked, hmarked, h⟩ := except_bind_eq_ok h
      cases h
      exact ⟨marked, rfl, rfl, .inr ⟨rfl, fun hdelete => absurd hdelete haction, hmarked⟩⟩
  · obtain ⟨marked, hmarked, h⟩ := except_bind_eq_ok h
    cases h
    exact ⟨marked, rfl, rfl, .inr ⟨rfl, fun _ => rfl, hmarked⟩⟩
  · obtain ⟨marked, hmarked, h⟩ := except_bind_eq_ok h
    cases h
    exact ⟨marked, rfl, rfl, .inr ⟨rfl, fun _ => rfl, hmarked⟩⟩
  · cases h

theorem markAll_cons {action : TargetAction} {t : Tree} {ts us : List Tree}
    (h : Target.markAll action (t :: ts) = .ok us) :
    ∃ u rest, Target.mark action t = .ok u ∧ Target.markAll action ts = .ok rest ∧
      us = u :: rest := by
  rw [Target.markAll] at h
  obtain ⟨u, hfirst, h⟩ := except_bind_eq_ok h
  obtain ⟨rest, hrest, h⟩ := except_bind_eq_ok h
  cases h
  exact ⟨u, rest, hfirst, hrest, rfl⟩

/-! ## Moves -/

/-- Where the last of some tokens ends, or `stop` if there are none. -/
def stopAfter (stop : Position) : List Token → Position
  | [] => stop
  | token :: tokens => stopAfter token.span.stop tokens

theorem stopAfter_append (stop : Position) (a b : List Token) :
    stopAfter stop (a ++ b) = stopAfter (stopAfter stop a) b := by
  induction a generalizing stop with
  | nil => rfl
  | cons token a ih => exact ih _

/-- Tokens have been taken, and else nothing has changed. -/
structure Moves (before after : ParserState) : Prop where
  taken : ∃ tokens, before.rest = tokens ++ after.rest ∧
    after.lastStop = stopAfter before.lastStop tokens
  depth : after.depth = before.depth
  inPattern : after.inPattern = before.inPattern

theorem Moves.refl (state : ParserState) : Moves state state := ⟨⟨[], rfl, rfl⟩, rfl, rfl⟩

theorem Moves.trans {a b c : ParserState} (hab : Moves a b) (hbc : Moves b c) : Moves a c := by
  obtain ⟨first, hfirst, hstop⟩ := hab.taken
  obtain ⟨second, hsecond, hlast⟩ := hbc.taken
  refine ⟨⟨first ++ second, ?_, ?_⟩, hbc.depth.trans hab.depth, hbc.inPattern.trans hab.inPattern⟩
  · rw [hfirst, hsecond, List.append_assoc]
  · rw [hlast, hstop, stopAfter_append]

theorem Moves.left_le {a b : ParserState} (h : Moves a b) : b.left ≤ a.left := by
  obtain ⟨tokens, htokens, _⟩ := h.taken
  rw [a.left_eq, b.left_eq, htokens, List.length_append]
  omega

theorem moves_of_advance {ending : Ending} {state next : ParserState}
    (h : advance ending state = .ok () next) : Moves state next := by
  unfold advance at h
  split at h
  · next token rest hrest =>
    cases h
    exact ⟨⟨[token], hrest, rfl⟩, rfl, rfl⟩
  · cases h
    exact .refl state

/-- Whatever a parser does, it only takes tokens. -/
def moves : ParserLaw where
  Run _ before after := Moves before after
  Stop _ _ _ _ := True
  refl _ state := .refl state
  trans := Moves.trans
  stop_after _ _ := trivial
  take := moves_of_advance
  fail _ _ _ := trivial
  fail_lexical _ _ := trivial
  deepen := by
    intro ending state next _ h
    obtain ⟨htaken, hdepth, hpattern⟩ := h
    refine ⟨htaken, ?_, hpattern⟩
    show next.depth - 1 = state.depth
    rw [hdepth]
    exact Nat.add_sub_cancel _ _
  deepen_stop _ _ := trivial
  capture h := ⟨h.taken, h.depth, rfl⟩
  capture_stop _ := trivial

/-! ## Derivations -/

/-- Trees that are all read as the same phrase. -/
def all (phrase : Phrase) (ts : List Tree) : List (Phrase × Tree) := ts.map (phrase, ·)

/-- One tree, read as a phrase. -/
def one (phrase : Phrase) (t : Tree) : List (Phrase × Tree) := [(phrase, t)]

@[simp] theorem all_nil (phrase : Phrase) : all phrase [] = [] := rfl

@[simp] theorem all_cons (phrase : Phrase) (t : Tree) (ts : List Tree) :
    all phrase (t :: ts) = (phrase, t) :: all phrase ts := rfl

@[simp] theorem all_append (phrase : Phrase) (ts us : List Tree) :
    all phrase (ts ++ us) = all phrase ts ++ all phrase us := List.map_append

@[simp] theorem map_fst_all (phrase : Phrase) (ts : List Tree) :
    (all phrase ts).map Prod.fst = .replicate ts.length phrase := by
  rw [all, List.map_map]
  exact List.map_const'

@[simp] theorem map_snd_all (phrase : Phrase) (ts : List Tree) :
    (all phrase ts).map Prod.snd = ts := by
  simp [all, Function.comp_def]

theorem flatMap_one (phrase : Phrase) (ts : List Tree) :
    ts.flatMap (one phrase) = all phrase ts := List.map_eq_flatMap.symm

theorem flatMap_all (phrase : Phrase) (lists : List (List Tree)) :
    lists.flatMap (all phrase) = all phrase lists.flatten := by
  rw [all, List.map_flatten, List.flatMap_def]
  rfl

/-- Between two states these phrases have been read. -/
inductive Reads : ParserState → List (Phrase × Tree) → ParserState → Prop
  | skip {a b : ParserState} (moves : Moves a b) : Reads a [] b
  | append {a b c : ParserState} {xs ys : List (Phrase × Tree)} (first : Reads a xs b)
      (second : Reads b ys c) : Reads a (xs ++ ys) c
  /-- A node starts at the first token since it was begun and stops with the last one taken. -/
  | node {a b : ParserState} {token : Token} {phrase : Phrase} {kind : NodeKind}
      {xs : List (Phrase × Tree)} (next : a.rest.head? = some token)
      (production : Production a.inPattern phrase kind (xs.map Prod.fst)) (inside : Reads a xs b)
      (progress : b.left < a.left) :
      Reads a [(phrase, .node kind ⟨token.span.start, b.lastStop⟩ (xs.map Prod.snd))] b
  | widen {a b : ParserState} {narrow wide : Phrase} {t : Tree} (within : narrow.Within wide)
      (read : Reads a [(narrow, t)] b) : Reads a [(wide, t)] b
  /-- Items become targets once the sign after them has been seen. -/
  | mark {a b : ParserState} {before after : List (Phrase × Tree)} {ts us : List Tree}
      {action : TargetAction} (read : Reads a (before ++ all .item ts ++ after) b)
      (marked : Target.markAll action ts = .ok us) :
      Reads a (before ++ all (.target action) us ++ after) b
  /-- Parameters become positional once the slash after them has been seen. -/
  | positional {a b : ParserState} {ts : List Tree} (read : Reads a (all .parameter ts) b) :
      Reads a (all .parameter (ts.map Expression.positionalOnly)) b
  | pattern {a b : ParserState} {t u : Tree}
      (read : Reads { a with inPattern := true } [(.item, t)] b)
      (bound : Pattern.bind .pattern t = .ok u) :
      Reads a [(.pattern .pattern, u)] { b with inPattern := a.inPattern }

namespace Reads

variable {a b : ParserState} {xs : List (Phrase × Tree)}

theorem moves (h : Reads a xs b) : Moves a b := by
  induction h with
  | skip moves => exact moves
  | append _ _ ihfirst ihsecond => exact ihfirst.trans ihsecond
  | node _ _ _ _ ih => exact ih
  | widen _ _ ih => exact ih
  | mark _ _ ih => exact ih
  | positional _ ih => exact ih
  | pattern _ _ ih => exact ⟨ih.taken, ih.depth, rfl⟩

/-- What leaves a tree takes a token. -/
theorem left_lt (h : Reads a xs b) (hxs : xs ≠ []) : b.left < a.left := by
  induction h with
  | skip _ => exact absurd rfl hxs
  | @append a b c xs ys first second ihfirst ihsecond =>
    by_cases hfirst : xs = []
    · have hle := first.moves.left_le
      have hlt := ihsecond (by simpa [hfirst] using hxs)
      omega
    · have hle := second.moves.left_le
      have hlt := ihfirst hfirst
      omega
  | node _ _ _ progress _ => exact progress
  | widen _ _ ih => exact ih (List.cons_ne_nil _ _)
  | @mark a b before after ts us action _ marked ih =>
    refine ih fun hnil => hxs ?_
    obtain ⟨rfl, hts, rfl⟩ : before = [] ∧ all .item ts = [] ∧ after = [] := by
      simpa using hnil
    obtain rfl : ts = [] := List.map_eq_nil_iff.1 hts
    cases marked
    rfl
  | @positional a b ts _ ih =>
    refine ih fun hnil => hxs ?_
    rw [List.map_eq_nil_iff.1 hnil]
    rfl
  | pattern _ _ ih => exact ih (List.cons_ne_nil _ _)

/-- How deep an expression nests does not matter to what is read. -/
theorem withDepth (h : Reads a xs b) (depth : Nat) :
    Reads { a with depth := depth } xs { b with depth := depth } := by
  induction h with
  | skip moves => exact .skip ⟨moves.taken, rfl, moves.inPattern⟩
  | append _ _ ihfirst ihsecond => exact .append ihfirst ihsecond
  | @node a b token phrase kind xs next production _ progress ih =>
    exact .node (a := { a with depth := depth }) next production ih progress
  | widen within _ ih => exact .widen within ih
  | mark _ marked ih => exact .mark ih marked
  | positional _ ih => exact .positional ih
  | @pattern a b t u _ bound ih => exact .pattern (a := { a with depth := depth }) ih bound

/-- Values are not starred. -/
theorem not_starred (h : Reads a xs b) {t : Tree} (ht : (.value, t) ∈ xs) :
    t.kind.isStarred = false := by
  induction h with
  | skip _ => cases ht
  | append _ _ ihfirst ihsecond => exact (List.mem_append.1 ht).elim ihfirst ihsecond
  | node _ production _ _ _ =>
    cases List.mem_singleton.1 ht
    exact production.not_starred
  | widen within _ _ =>
    cases List.mem_singleton.1 ht
    cases within
  | mark _ _ ih =>
    refine ih ?_
    simp only [List.mem_append] at ht ⊢
    obtain (hbefore | htarget) | hafter := ht
    · exact .inl (.inl hbefore)
    · obtain ⟨_, _, heq⟩ := List.mem_map.1 htarget
      cases heq
    · exact .inr hafter
  | positional _ _ =>
    obtain ⟨_, _, heq⟩ := List.mem_map.1 ht
    cases heq
  | pattern _ _ _ => cases List.mem_singleton.1 ht

/-- An item without a star is a value. -/
theorem value_of_item (h : Reads a xs b) {t : Tree} (hxs : xs = [(.item, t)])
    (hstar : t.kind.isStarred = false) : Reads a [(.value, t)] b := by
  induction h with
  | skip _ => cases hxs
  | append first second ihfirst ihsecond =>
    rcases List.append_eq_singleton_iff.1 hxs with ⟨rfl, hsecond⟩ | ⟨hfirst, rfl⟩
    · exact first.append (ihsecond hsecond)
    · exact (ihfirst hfirst).append second
  | node _ production _ _ _ =>
    cases hxs
    exact absurd (hstar.symm.trans production.isStarred) Bool.false_ne_true
  | widen within read _ =>
    cases hxs
    cases within
    exact read
  | @mark a b before after ts us action _ marked ih =>
    cases ts with
    | nil =>
      cases marked
      exact ih hxs
    | cons s ts =>
      obtain ⟨u, rest, _, _, rfl⟩ := markAll_cons marked
      have htarget : (Phrase.target action, u) ∈ [(Phrase.item, t)] := by
        rw [← hxs]
        simp
      cases List.mem_singleton.1 htarget
  | @positional a b ts _ _ =>
    cases ts with
    | nil => cases hxs
    | cons s ts => cases hxs
  | pattern _ _ _ => cases hxs

end Reads

/-! ## Parsers -/

/-- A parser gives what it has read. -/
def Yields (p : Parser α) (view : α → List (Phrase × Tree)) : Prop :=
  ∀ ⦃ending before a after⦄, p ending before = .ok a after → Reads before (view a) after

/-- A parser of one phrase that may be missing. -/
def YieldsOptional (p : Parser (List Tree)) (phrase : Phrase) : Prop :=
  ∀ ⦃ending before ts after⦄, p ending before = .ok ts after →
    Reads before (all phrase ts) after ∧ ts.length ≤ 1

/-- What has been read since a state, and where a node that was begun there starts. -/
structure Trail (start : Position) (first : ParserState) (xs : List (Phrase × Tree))
    (state : ParserState) : Prop where
  start_eq : ∀ token, first.rest.head? = some token → start = token.span.start
  reads : Reads first xs state

/-- A parser that goes on from what has been read gives all of it. -/
def Continues (start : Position) (xs : List (Phrase × Tree)) (p : Parser α)
    (view : α → List (Phrase × Tree)) : Prop :=
  ∀ ⦃ending first state a after⦄, Trail start first xs state → p ending state = .ok a after →
    Reads first (view a) after

section Steps

variable {ending : Ending} {first state after : ParserState} {start : Position} {b : β}
  {xs : List (Phrase × Tree)}

theorem Trail.begin {f : Position → Parser β} (h : (here >>= f) ending state = .ok b after) :
    ∃ start, Trail start state [] state ∧ f start ending state = .ok b after := by
  refine ⟨_, ⟨?_, .skip (.refl state)⟩, h⟩
  intro token htoken
  obtain ⟨rest, hrest⟩ := List.head?_eq_some_iff.1 htoken
  rw [hrest]

theorem Trail.exists_start (state : ParserState) : ∃ start, Trail start state [] state := by
  have hbegin : (here >>= pure) default state = .ok _ state := rfl
  obtain ⟨start, trail, _⟩ := Trail.begin hbegin
  exact ⟨start, trail⟩

theorem Trail.append (trail : Trail start first xs state) {ys : List (Phrase × Tree)}
    (h : Reads state ys after) : Trail start first (xs ++ ys) after :=
  ⟨trail.start_eq, trail.reads.append h⟩

/-- A step that builds no tree. -/
theorem Trail.skip (trail : Trail start first xs state) {p : Parser α} {f : α → Parser β}
    [hp : moves.Follows p] (h : (p >>= f) ending state = .ok b after) :
    ∃ a next, p ending state = .ok a next ∧ Trail start first xs next ∧
      f a ending next = .ok b after := by
  obtain ⟨a, next, hfirst, h⟩ := ParserLaw.bind_eq_ok h
  refine ⟨a, next, hfirst, ⟨trail.start_eq, ?_⟩, h⟩
  have hreads := trail.reads.append (.skip (hp.run hfirst))
  rwa [List.append_nil] at hreads

/-- A step whose trees come after those read so far. -/
theorem Trail.read (trail : Trail start first xs state) {p : Parser α} {f : α → Parser β}
    {view : α → List (Phrase × Tree)} (hp : Yields p view)
    (h : (p >>= f) ending state = .ok b after) :
    ∃ a next, Trail start first (xs ++ view a) next ∧ f a ending next = .ok b after := by
  obtain ⟨a, next, hfirst, h⟩ := ParserLaw.bind_eq_ok h
  exact ⟨a, next, trail.append (hp hfirst), h⟩

/-- A step whose phrase may be missing. -/
theorem Trail.optional (trail : Trail start first xs state) {p : Parser (List Tree)}
    {f : List Tree → Parser β} {phrase : Phrase} (hp : YieldsOptional p phrase)
    (h : (p >>= f) ending state = .ok b after) :
    ∃ ts next, ts.length ≤ 1 ∧ next.left ≤ state.left ∧
      Trail start first (xs ++ all phrase ts) next ∧ f ts ending next = .ok b after := by
  obtain ⟨ts, next, hfirst, h⟩ := ParserLaw.bind_eq_ok h
  obtain ⟨hreads, hlength⟩ := hp hfirst
  exact ⟨ts, next, hlength, hreads.moves.left_le, trail.append hreads, h⟩

/-- A step whose phrase is left out unless a condition holds. -/
theorem Trail.optionalIf (trail : Trail start first xs state) {p : Parser (List Tree)}
    {f : List Tree → Parser β} {phrase : Phrase} (hp : YieldsOptional p phrase) {c : Prop}
    [Decidable c] (h : (if c then p >>= f else pure [] >>= f) ending state = .ok b after) :
    ∃ ts next, ts.length ≤ 1 ∧ next.left ≤ state.left ∧
      Trail start first (xs ++ all phrase ts) next ∧ f ts ending next = .ok b after := by
  split at h
  · exact trail.optional hp h
  · refine ⟨[], state, Nat.zero_le 1, Nat.le_refl _, ?_, h⟩
    rwa [all_nil, List.append_nil]

/-- A phrase that is left out unless a condition holds. -/
theorem Trail.readIf (trail : Trail start first xs state) {p : Parser Tree}
    {f : List Tree → Parser β} {phrase : Phrase} (hp : Yields p (one phrase)) {c : Prop}
    [Decidable c]
    (h : (if c then p >>= fun t => pure [t] >>= f else pure [] >>= f) ending state = .ok b after) :
    ∃ ts next, ts.length ≤ 1 ∧ next.left ≤ state.left ∧
      Trail start first (xs ++ all phrase ts) next ∧ f ts ending next = .ok b after := by
  have hp : YieldsOptional (p >>= fun t => pure [t]) phrase := by
    intro ending before ts after h
    obtain ⟨t, _, hfirst, h⟩ := ParserLaw.bind_eq_ok h
    cases h
    exact ⟨hp hfirst, Nat.le_refl 1⟩
  refine trail.optionalIf (c := c) hp ?_
  rw [← h]
  split
  · exact ParserLaw.bind_assoc _ _ _ _ _
  · rfl

/-- A step that takes all trees read so far into its own. -/
theorem Trail.continue (trail : Trail start first xs state) {p : Parser α} {f : α → Parser β}
    {view : α → List (Phrase × Tree)} (hp : Continues start xs p view)
    (h : (p >>= f) ending state = .ok b after) :
    ∃ a next, Trail start first (view a) next ∧ f a ending next = .ok b after := by
  obtain ⟨a, next, hfirst, h⟩ := ParserLaw.bind_eq_ok h
  exact ⟨a, next, ⟨trail.start_eq, hp trail hfirst⟩, h⟩

variable {phrase : Phrase} {kind : NodeKind} {children : List Tree} {t : Tree}

theorem Trail.leaf (trail : Trail start first xs state) (progress : state.left < first.left)
    (h : node kind start children ending state = .ok t after)
    (production : Production first.inPattern phrase kind (xs.map Prod.fst))
    (hchildren : xs.map Prod.snd = children) : Reads first [(phrase, t)] after := by
  cases h
  cases hfirst : first.rest with
  | nil =>
    rw [first.left_eq, hfirst] at progress
    cases progress
  | cons token rest =>
    have hnext : first.rest.head? = some token := by rw [hfirst, List.head?_cons]
    rw [trail.start_eq token hnext, ← hchildren]
    exact .node hnext production trail.reads progress

/-- A node with children has taken a token with them. -/
theorem Trail.node (trail : Trail start first xs state)
    (h : Parser.node kind start children ending state = .ok t after)
    (production : Production first.inPattern phrase kind (xs.map Prod.fst))
    (hchildren : xs.map Prod.snd = children) (hxs : xs ≠ []) : Reads first [(phrase, t)] after :=
  trail.leaf (trail.reads.left_lt hxs) h production hchildren

end Steps

/-! ## Progress of the parts that take a token -/

section Progress

variable {ending : Ending} {state next : ParserState} {kind : TokenKind}

theorem rest_ne_nil_of_peek (h : peek ending state = .ok kind next) (hkind : kind ≠ .endMarker) :
    state.rest ≠ [] := by
  rintro hrest
  have hpeek : peek ending state = .ok .endMarker state := by
    unfold peek peekAt
    rw [hrest]
    rfl
  rw [hpeek] at h
  cases h
  exact hkind rfl

theorem eq_of_peekAt {n : Nat} (h : peekAt n ending state = .ok kind next) : state = next := by
  cases h
  rfl

theorem eq_of_peek (h : peek ending state = .ok kind next) : state = next := eq_of_peekAt h

theorem eq_of_check {found : Bool} (h : check kind ending state = .ok found next) :
    state = next := by
  cases h
  rfl

theorem rest_ne_nil_of_check (h : check kind ending state = .ok true next)
    (hkind : kind ≠ .endMarker) : state.rest ≠ [] := by
  obtain ⟨found, _, hpeek, h⟩ := ParserLaw.bind_eq_ok h
  have hfound : (found == kind) = true := by
    cases hb : found == kind with
    | true => rfl
    | false =>
      rw [hb] at h
      cases h
  rw [eq_of_beq hfound] at hpeek
  exact rest_ne_nil_of_peek hpeek hkind

/-- What has been seen is eaten. -/
theorem eat_ne_false (hkind : peek ending state = .ok kind state) :
    eat kind ending state ≠ .ok false next := by
  intro h
  obtain ⟨sign, _, hcheck, h⟩ := ParserLaw.bind_eq_ok h
  obtain ⟨found, _, hfound, hcheck⟩ := ParserLaw.bind_eq_ok hcheck
  rw [hkind] at hfound
  cases hfound
  obtain ⟨rfl, rfl⟩ := Outcome.ok.inj hcheck
  rw [if_pos (beq_self_eq_true kind)] at h
  obtain ⟨_, _, _, h⟩ := ParserLaw.bind_eq_ok h
  cases h

theorem peek_of_check (h : check kind ending state = .ok true next) :
    peek ending state = .ok kind state := by
  obtain ⟨found, _, hpeek, h⟩ := ParserLaw.bind_eq_ok h
  obtain rfl := eq_of_peek hpeek
  obtain ⟨hfound, rfl⟩ := Outcome.ok.inj h
  rwa [eq_of_beq hfound] at hpeek

theorem left_le_of {p : Parser α} [hp : moves.Follows p] {a : α}
    (h : p ending state = .ok a next) : next.left ≤ state.left := (hp.run h).left_le

theorem left_lt_of_advance (h : advance ending state = .ok () next) (hrest : state.rest ≠ []) :
    next.left < state.left := by
  unfold advance at h
  split at h
  · next token rest hcons =>
    cases h
    show state.left - 1 < state.left
    rw [state.left_eq, hcons, List.length_cons]
    omega
  · next hnil => exact absurd hnil hrest

theorem left_lt_of_word {text : String} (h : word ending state = .ok text next)
    (hrest : state.rest ≠ []) : next.left < state.left := by
  obtain ⟨found, _, hlexeme, h⟩ := ParserLaw.bind_eq_ok h
  cases hlexeme
  obtain ⟨_, _, hadvance, h⟩ := ParserLaw.bind_eq_ok h
  cases h
  exact left_lt_of_advance hadvance hrest

theorem left_lt_of_eat (h : eat kind ending state = .ok true next) (hkind : kind ≠ .endMarker) :
    next.left < state.left := by
  obtain ⟨found, _, hcheck, h⟩ := ParserLaw.bind_eq_ok h
  obtain rfl := eq_of_check hcheck
  split at h
  · next hfound =>
    rw [hfound] at hcheck
    obtain ⟨_, _, hadvance, h⟩ := ParserLaw.bind_eq_ok h
    cases h
    exact left_lt_of_advance hadvance (rest_ne_nil_of_check hcheck hkind)
  · cases h

theorem left_lt_of_require (h : require kind ending state = .ok () next)
    (hkind : kind ≠ .endMarker) : next.left < state.left := by
  obtain ⟨found, _, heat, h⟩ := ParserLaw.bind_eq_ok h
  cases found with
  | false => exact absurd h failHere_ne_ok
  | true =>
    cases h
    exact left_lt_of_eat heat hkind

theorem left_lt_of_expectName {name : String} (h : expectName ending state = .ok name next) :
    next.left < state.left := by
  obtain ⟨found, _, hcheck, h⟩ := ParserLaw.bind_eq_ok h
  obtain rfl := eq_of_check hcheck
  split at h
  · next hfound =>
    rw [hfound] at hcheck
    exact left_lt_of_word h (rest_ne_nil_of_check hcheck nofun)
  · exact absurd h failHere_ne_ok

end Progress

/-! ## Results, levels and loops -/

theorem ofExcept_eq_ok {result : Except ParseError α} {ending : Ending} {state next : ParserState}
    {a : α} (h : Parser.ofExcept result ending state = .ok a next) :
    result = .ok a ∧ state = next := by
  cases result with
  | ok b => cases h; exact ⟨rfl, rfl⟩
  | error error => exact absurd h failAt_ne_ok

theorem markAll_singleton {action : TargetAction} {t u : Tree}
    (h : Target.mark action t = .ok u) : Target.markAll action [t] = .ok [u] := by
  rw [Target.markAll, h]
  rfl

/-- The last item read becomes a target. -/
theorem Trail.mark {start : Position} {first state after : ParserState} {ending : Ending}
    {xs : List (Phrase × Tree)} {t : Tree} {action : TargetAction} {f : Tree → Parser β} {b : β}
    (trail : Trail start first (xs ++ one .item t) state)
    {marked : Except ParseError Tree} (hmarked : ∀ u, marked = .ok u → Target.mark action t = .ok u)
    (h : (Parser.ofExcept marked >>= f) ending state = .ok b after) :
    ∃ u, Trail start first (xs ++ one (.target action) u) state ∧
      f u ending state = .ok b after := by
  obtain ⟨u, next, hresult, h⟩ := ParserLaw.bind_eq_ok h
  obtain ⟨hok, rfl⟩ := ofExcept_eq_ok hresult
  have hreads : Reads first (xs ++ all .item [t] ++ []) state := by
    rw [List.append_nil]
    exact trail.reads
  have hmark := hreads.mark (markAll_singleton (hmarked u hok))
  rw [List.append_nil] at hmark
  exact ⟨u, ⟨trail.start_eq, hmark⟩, h⟩

theorem Yields.widen {p : Parser Tree} {narrow wide : Phrase} (h : Yields p (one narrow))
    (within : narrow.Within wide) : Yields p (one wide) :=
  fun _ _ _ _ hok => .widen within (h hok)

theorem yields_nested {p : Parser α} {view : α → List (Phrase × Tree)} (hp : Yields p view) :
    Yields (nested p) view := by
  intro ending before a after h
  unfold nested at h
  split at h
  · exact absurd h failHere_ne_ok
  · split at h
    · next hrun =>
      cases h
      have hreads := hp hrun
      have hdepth := hreads.moves.depth
      have hback := hreads.withDepth before.depth
      rw [hdepth, Nat.add_sub_cancel]
      exact hback
    · cases h

theorem yields_manyWithin {item : Parser (Option α)} {view : α → List (Phrase × Tree)}
    (hitem : Yields item fun found => found.toList.flatMap view) (fuel : Nat) :
    Yields (manyWithin item fuel) fun found => found.flatMap view := by
  induction fuel with
  | zero =>
    intro ending before found after h
    cases h
    exact .skip (.refl _)
  | succ fuel ih =>
    intro ending before found after h
    obtain ⟨result, next, hfirst, h⟩ := ParserLaw.bind_eq_ok h
    have hreads := hitem hfirst
    cases result with
    | none =>
      cases h
      exact hreads
    | some a =>
      obtain ⟨more, last, hmore, h⟩ := ParserLaw.bind_eq_ok h
      cases h
      have hall := hreads.append (ih hmore)
      simpa using hall

/-- A loop whose first round gives a value gives one at least. -/
theorem many_ne_nil {item : Parser (Option α)} {ending : Ending} {before after : ParserState}
    {as : List α} (hfirst : ∀ next, item ending before ≠ .ok none next)
    (h : many item ending before = .ok as after) : as ≠ [] := by
  obtain ⟨found, mid, hitem, h⟩ := ParserLaw.bind_eq_ok h
  cases found with
  | none => exact absurd hitem (hfirst mid)
  | some a =>
    obtain ⟨more, last, _, h⟩ := ParserLaw.bind_eq_ok h
    cases h
    exact List.cons_ne_nil a more

theorem yields_many {item : Parser (Option α)} {view : α → List (Phrase × Tree)}
    (hitem : Yields item fun found => found.toList.flatMap view) :
    Yields (many item) fun found => found.flatMap view :=
  fun _ _ _ _ h => yields_manyWithin hitem _ h

theorem yields_manyTrees {item : Parser (Option Tree)} {phrase : Phrase}
    (hitem : Yields item fun found => all phrase found.toList) :
    Yields (many item) (all phrase) := by
  intro ending before found after h
  rw [← flatMap_one]
  refine yields_many (fun {_ _ found _} hok => ?_) h
  show Reads _ (found.toList.flatMap (one phrase)) _
  rw [flatMap_one]
  exact hitem hok

theorem yields_manyLists {item : Parser (Option (List Tree))} {phrase : Phrase}
    (hitem : Yields item fun found => all phrase (found.getD [])) :
    Yields (many item) fun lists => all phrase lists.flatten := by
  intro ending before lists after h
  show Reads before (all phrase lists.flatten) after
  rw [← flatMap_all]
  refine yields_many (fun ending before found after h => ?_) h
  have hfound : found.toList.flatMap (all phrase) = all phrase (found.getD []) := by
    cases found <;> simp
  show Reads before (found.toList.flatMap (all phrase)) after
  rw [hfound]
  exact hitem h

/-- What holds of each value holds of all of them. -/
theorem forall_of_manyWithin {item : Parser (Option α)} {P : α → Prop}
    (hitem : ∀ {ending before a after}, item ending before = .ok (some a) after → P a) {fuel : Nat}
    {ending : Ending} {before after : ParserState} {found : List α}
    (h : manyWithin item fuel ending before = .ok found after) : ∀ a ∈ found, P a := by
  induction fuel generalizing before found with
  | zero =>
    cases h
    exact List.forall_mem_nil P
  | succ fuel ih =>
    obtain ⟨result, next, hfirst, h⟩ := ParserLaw.bind_eq_ok h
    cases result with
    | none =>
      cases h
      exact List.forall_mem_nil P
    | some a =>
      obtain ⟨more, last, hmore, h⟩ := ParserLaw.bind_eq_ok h
      cases h
      exact List.forall_mem_cons.2 ⟨hitem hfirst, ih hmore⟩

theorem eq_of_speculate {p : Parser (Option α)} {ending : Ending} {before after : ParserState}
    {a : α} (h : speculate p ending before = .ok (some a) after) :
    p ending before = .ok (some a) after := by
  unfold speculate at h
  split at h
  · next hrun =>
    cases h
    exact hrun
  · cases h

/-- What was tried in vain leaves no trace. -/
theorem yields_speculate {p : Parser (Option α)} {view : α → List (Phrase × Tree)}
    (hp : ∀ {ending before a after}, p ending before = .ok (some a) after →
      Reads before (view a) after) :
    Yields (speculate p) fun found => found.toList.flatMap view := by
  intro ending before found after h
  unfold speculate at h
  split at h
  · next hrun =>
    cases h
    simpa using hp hrun
  · cases h
    exact .skip (.refl _)

/-- A round that goes on where its sign is found. -/
theorem after_ne_none {p : Parser α} {sign : Parser Bool} {ending : Ending}
    {state next : ParserState} (hsign : ∀ next, sign ending state ≠ .ok false next) :
    (do if ← sign then return some (← p) else return none : Parser (Option α)) ending state ≠
      .ok none next := by
  intro h
  obtain ⟨found, _, hfound, h⟩ := ParserLaw.bind_eq_ok h
  cases found with
  | false => exact hsign _ hfound
  | true =>
    obtain ⟨_, _, _, h⟩ := ParserLaw.bind_eq_ok h
    cases h

/-- A phrase, if a sign before it says that there is one. -/
theorem yields_after {p : Parser Tree} {phrase : Phrase} (hp : Yields p (one phrase))
    {sign : Parser Bool} [moves.Follows sign] :
    Yields (do if ← sign then return some (← p) else return none)
      fun found => all phrase found.toList := by
  intro ending before found after h
  obtain ⟨start, trail⟩ := Trail.exists_start before
  obtain ⟨isThere, _, _, trail, h⟩ := trail.skip h
  split at h
  · obtain ⟨t, _, trail, h⟩ := trail.read hp h
    cases h
    exact trail.reads
  · cases h
    exact trail.reads

theorem yields_commaTail {stop : Parser Bool} [moves.Follows stop] {item : Parser α}
    {view : α → List (Phrase × Tree)} (hitem : Yields item view) :
    Yields (commaTail stop item) fun found => found.flatMap view := by
  refine yields_many fun {_ before found after} h => ?_
  obtain ⟨start, trail⟩ := Trail.exists_start before
  obtain ⟨comma, _, _, trail, h⟩ := trail.skip h
  split at h
  · obtain ⟨stops, _, _, trail, h⟩ := trail.skip h
    split at h
    · cases h
      exact trail.reads
    · obtain ⟨a, _, trail, h⟩ := trail.read hitem h
      cases h
      simpa using trail.reads
  · cases h
    exact trail.reads

theorem yields_commaTrees {stop : Parser Bool} [moves.Follows stop] {item : Parser Tree}
    {phrase : Phrase} (hitem : Yields item (one phrase)) :
    Yields (commaTail stop item) (all phrase) := by
  intro ending before found after h
  rw [← flatMap_one]
  exact yields_commaTail hitem h

/-- One phrase, or several as a tuple, which stands for a phrase of the same kind. -/
theorem yields_tupleOf {stop : Parser Bool} [moves.Follows stop] {item : Parser Tree}
    {phrase narrow : Phrase} (hitem : Yields item (one phrase))
    (htuple : ∀ captures n, Production captures narrow (.tuple .load) (.replicate n phrase))
    (hwiden : ∀ {a b : ParserState} {t : Tree}, Reads a [(narrow, t)] b → Reads a [(phrase, t)] b) :
    Yields (tupleOf stop item) (one phrase) := by
  intro ending before t after h
  obtain ⟨start, trail, h⟩ := Trail.begin h
  obtain ⟨first, _, trail, h⟩ := trail.read hitem h
  obtain ⟨comma, _, _, trail, h⟩ := trail.skip h
  split at h
  · obtain ⟨items, _, trail, h⟩ := trail.read (yields_commaTrees hitem) h
    refine hwiden (trail.node h ?_ (by simp [one]) (by simp [one]))
    rw [List.map_append, map_fst_all]
    exact htuple _ (items.length + 1)
  · cases h
    exact trail.reads

theorem continues_iterateWithin {step : σ → Parser (σ × Bool)} {start : Position}
    (view : σ → List (Phrase × Tree))
    (hstep : ∀ s, Continues start (view s) (step s) fun result => view result.1) (fuel : Nat)
    (s : σ) : Continues start (view s) (iterateWithin step fuel s) view := by
  induction fuel generalizing s with
  | zero =>
    intro ending first state found after trail h
    cases h
    exact trail.reads
  | succ fuel ih =>
    intro ending first state found after trail h
    obtain ⟨⟨s', again⟩, _, trail, h⟩ := trail.continue (hstep s) h
    dsimp only at h
    split at h
    · exact ih s' trail h
    · cases h
      exact trail.reads

theorem continues_iterate {step : σ → Parser (σ × Bool)} {start : Position}
    (view : σ → List (Phrase × Tree))
    (hstep : ∀ s, Continues start (view s) (step s) fun result => view result.1) (s : σ) :
    Continues start (view s) (iterate step s) view :=
  fun _ _ _ _ _ trail h => continues_iterateWithin view hstep _ s trail h

end SnippetLint.Derivation
