import SnippetLint.Proofs.Precedence

/-!
What a parser does on lexemes that are all there. `Settles` follows a parser through both of its
exits: where it succeeds its value and the state after it are as said, and where it fails that is
accounted for. So one pass over a rule of the grammar says when the rule accepts and what it gives.
The first rules to be followed so are names and numbers in the place of an expression, and the
layers around the one statement of a snippet.
-/

namespace SnippetLint

namespace Parser

/-- The lexemes before which a state stands, outside of patterns and so many levels deep. -/
structure Before (state : ParserState) (depth : Nat) (ls : List Lexeme) : Prop where
  tokens_eq : state.rest.map Token.toLexeme = ls
  depth_eq : state.depth = depth
  inPattern_eq : state.inPattern = false

/-- A parser succeeds as said or fails where that is accounted for. -/
def Settles (ending : Ending) (state : ParserState) (p : Parser α)
    (ok : α → ParserState → Prop) (fail : Prop) : Prop :=
  match p ending state with
  | .ok a next => ok a next
  | .fail _ _ => fail

variable {ending : Ending} {state next : ParserState} {depth : Nat} {ls tail : List Lexeme}
  {l m : Lexeme} {kind : TokenKind} {fail : Prop}

theorem settles_of_ok {p : Parser α} {a : α} {ok : α → ParserState → Prop}
    (hp : p ending state = .ok a next) (h : ok a next) : Settles ending state p ok fail := by
  unfold Settles
  rw [hp]
  exact h

theorem Settles.bind {p : Parser α} {f : α → Parser β} {ok : β → ParserState → Prop}
    (h : Settles ending state p (fun a next => Settles ending next (f a) ok fail) fail) :
    Settles ending state (p >>= f) ok fail := by
  unfold Settles at *
  rw [ParserLaw.bind_eq]
  cases hp : p ending state with
  | ok a next => rwa [hp] at h
  | fail error next => rwa [hp] at h

theorem Settles.mono {p : Parser α} {ok ok' : α → ParserState → Prop} {fail' : Prop}
    (h : Settles ending state p ok fail) (hok : ∀ a next, ok a next → ok' a next)
    (hfail : fail → fail') : Settles ending state p ok' fail' := by
  unfold Settles at *
  split at h
  · exact hok _ _ h
  · exact hfail h

theorem settles_pure {a : α} {ok : α → ParserState → Prop} (h : ok a state) :
    Settles ending state (pure a) ok fail := h

theorem settles_failAt {fault : GrammarFault} {position : Position} {ok : α → ParserState → Prop}
    (h : fail) : Settles ending state (failAt fault position) ok fail := by
  unfold Settles failAt
  split
  · next heq => split at heq <;> cases heq
  · exact h

theorem settles_here {ok : Position → ParserState → Prop} (h : ∀ position, ok position state) :
    Settles ending state here ok fail := settles_of_ok rfl (h _)

theorem settles_failHere {fault : GrammarFault} {ok : α → ParserState → Prop} (h : fail) :
    Settles ending state (failHere fault) ok fail :=
  Settles.bind (settles_here fun _ => settles_failAt h)

theorem settles_node {nodeKind : NodeKind} {start : Position} {children : List Tree}
    {ok : Tree → ParserState → Prop} (h : ∀ span, ok (.node nodeKind span children) state) :
    Settles ending state (node nodeKind start children) ok fail := settles_of_ok rfl (h _)

/-! ## Looking and taking -/

namespace Before

theorem exists_token (h : Before state depth (l :: ls)) : ∃ token rest,
    state.rest = token :: rest ∧ token.toLexeme = l ∧ rest.map Token.toLexeme = ls :=
  List.map_eq_cons_iff.1 h.tokens_eq

theorem left_eq_length (h : Before state depth ls) : state.left = ls.length := by
  rw [state.left_eq, ← h.tokens_eq, List.length_map]

theorem peek_eq (h : Before state depth (l :: ls)) : peek ending state = .ok l.kind state := by
  obtain ⟨token, rest, hrest, rfl, -⟩ := h.exists_token
  simp [peek, peekAt, hrest, Token.toLexeme]

theorem peekAt_eq (h : Before state depth (l :: m :: ls)) :
    peekAt 1 ending state = .ok m.kind state := by
  obtain ⟨token, rest, hrest, -, htail⟩ := h.exists_token
  obtain ⟨second, rest, rfl, rfl, -⟩ := List.map_eq_cons_iff.1 htail
  simp [peekAt, hrest, Token.toLexeme]

theorem lexeme_eq (h : Before state depth (l :: ls)) :
    lexeme ending state = .ok (String.ofList l.chars) state := by
  obtain ⟨token, rest, hrest, rfl, -⟩ := h.exists_token
  simp [lexeme, hrest, Token.toLexeme]

theorem exists_advance_eq (h : Before state depth (l :: ls)) :
    ∃ next, advance ending state = .ok () next ∧ Before next depth ls := by
  obtain ⟨token, rest, hrest, -, htail⟩ := h.exists_token
  unfold advance
  split
  · next token' rest' hrest' =>
    rw [hrest] at hrest'
    cases hrest'
    exact ⟨_, rfl, htail, h.depth_eq, h.inPattern_eq⟩
  · next hnil =>
    rw [hrest] at hnil
    cases hnil

end Before

theorem settles_peek {ok : TokenKind → ParserState → Prop} (hb : Before state depth (l :: ls))
    (h : ok l.kind state) : Settles ending state peek ok fail := settles_of_ok hb.peek_eq h

theorem settles_peekAt {ok : TokenKind → ParserState → Prop}
    (hb : Before state depth (l :: m :: ls)) (h : ok m.kind state) :
    Settles ending state (peekAt 1) ok fail := settles_of_ok hb.peekAt_eq h

theorem settles_check {ok : Bool → ParserState → Prop} (hb : Before state depth (l :: ls))
    (h : ok (l.kind == kind) state) : Settles ending state (check kind) ok fail :=
  Settles.bind (settles_peek hb h)

theorem settles_checkWord {word : String} {ok : Bool → ParserState → Prop}
    (hb : Before state depth (l :: ls))
    (h : ok (l.kind == .name && String.ofList l.chars == word) state) :
    Settles ending state (checkWord word) ok fail := by
  obtain ⟨token, rest, hrest, rfl, -⟩ := hb.exists_token
  refine settles_of_ok rfl ?_
  rw [Token.toLexeme, String.ofList_toList] at h
  rwa [hrest]

theorem settles_advance {ok : Unit → ParserState → Prop} (hb : Before state depth (l :: ls))
    (h : ∀ next, Before next depth ls → ok () next) : Settles ending state advance ok fail := by
  obtain ⟨next, hadvance, hnext⟩ := hb.exists_advance_eq
  exact settles_of_ok hadvance (h next hnext)

theorem settles_atEnd {ok : Bool → ParserState → Prop} (hb : Before state depth ls)
    (h : ok ls.isEmpty state) : Settles ending state atEnd ok fail := by
  refine settles_of_ok rfl ?_
  have hempty : state.rest.isEmpty = ls.isEmpty := by
    rw [← hb.tokens_eq, List.isEmpty_map]
  rwa [hempty]

theorem settles_word {ok : String → ParserState → Prop} (hb : Before state depth (l :: ls))
    (h : ∀ next, Before next depth ls → ok (String.ofList l.chars) next) :
    Settles ending state word ok fail :=
  Settles.bind (settles_of_ok hb.lexeme_eq (Settles.bind (settles_advance hb h)))

theorem settles_eat_of_eq {ok : Bool → ParserState → Prop} (hb : Before state depth (l :: ls))
    (hkind : l.kind = kind) (h : ∀ next, Before next depth ls → ok true next) :
    Settles ending state (eat kind) ok fail := by
  refine Settles.bind (settles_check hb ?_)
  rw [hkind, beq_self_eq_true]
  exact Settles.bind (settles_advance hb h)

theorem settles_eat_of_ne {ok : Bool → ParserState → Prop} (hb : Before state depth (l :: ls))
    (hkind : l.kind ≠ kind) (h : ok false state) : Settles ending state (eat kind) ok fail := by
  refine Settles.bind (settles_check hb ?_)
  rw [beq_false_of_ne hkind]
  exact h

theorem settles_require {ok : Unit → ParserState → Prop} (hb : Before state depth (l :: ls))
    (hkind : l.kind = kind) (h : ∀ next, Before next depth ls → ok () next) :
    Settles ending state (require kind) ok fail :=
  Settles.bind (settles_eat_of_eq hb hkind h)

theorem settles_expect {ok : Unit → ParserState → Prop} (hb : Before state depth (l :: ls))
    (hkind : l.kind = kind) (h : ∀ next, Before next depth ls → ok () next) :
    Settles ending state (expect kind) ok fail :=
  Settles.bind (settles_eat_of_eq hb hkind h)

theorem settles_expectName {ok : String → ParserState → Prop} (hb : Before state depth (l :: ls))
    (hkind : l.kind = .name) (h : ∀ next, Before next depth ls → ok (String.ofList l.chars) next) :
    Settles ending state expectName ok fail := by
  refine Settles.bind (settles_check hb ?_)
  rw [hkind, beq_self_eq_true]
  exact settles_word hb h

/-! ## Levels and loops -/

/-- One level deeper a parser does the same, as long as levels are left. -/
theorem settles_nested {p : Parser α} {a : α → Prop} (hb : Before state depth ls)
    (hdepth : depth < maxNesting)
    (h : ∀ inside, Before inside (depth + 1) ls →
      Settles ending inside p (fun t next => a t ∧ Before next (depth + 1) tail) fail) :
    Settles ending state (nested p) (fun t next => a t ∧ Before next depth tail) fail := by
  have hinside := h { state with depth := state.depth + 1 }
    ⟨hb.tokens_eq, congrArg (· + 1) hb.depth_eq, hb.inPattern_eq⟩
  unfold Settles nested at *
  rw [if_neg (by rw [hb.depth_eq]; omega)]
  cases hp : p ending { state with depth := state.depth + 1 } with
  | ok t next =>
    rw [hp] at hinside
    exact ⟨hinside.1, hinside.2.tokens_eq, congrArg (· - 1) hinside.2.depth_eq,
      hinside.2.inPattern_eq⟩
  | fail error next => rwa [hp] at hinside

theorem settles_iterateWithin {step : σ → Parser (σ × Bool)} {fuel : Nat} {s : σ}
    {ok : σ → ParserState → Prop}
    (h : Settles ending state (step s) (fun result next =>
      if result.2 then Settles ending next (iterateWithin step fuel result.1) ok fail
      else ok result.1 next) fail) :
    Settles ending state (iterateWithin step (fuel + 1) s) ok fail := by
  refine Settles.bind (h.mono ?_ id)
  rintro ⟨s, again⟩ next hnext
  cases again <;> exact hnext

theorem settles_iterate {step : σ → Parser (σ × Bool)} {s : σ} {ok : σ → ParserState → Prop}
    (h : Settles ending state (iterateWithin step (state.left + 1) s) ok fail) :
    Settles ending state (iterate step s) ok fail := h

theorem settles_manyWithin {item : Parser (Option α)} {fuel : Nat}
    {ok : List α → ParserState → Prop}
    (h : Settles ending state item (fun result next =>
      match result with
      | some a => Settles ending next (manyWithin item fuel) (fun as => ok (a :: as)) fail
      | none => ok [] next) fail) :
    Settles ending state (manyWithin item (fuel + 1)) ok fail := by
  refine Settles.bind (h.mono ?_ id)
  intro result next hnext
  cases result with
  | none => exact hnext
  | some a => exact Settles.bind hnext

theorem settles_many {item : Parser (Option α)} {ok : List α → ParserState → Prop}
    (h : Settles ending state (manyWithin item (state.left + 1)) ok fail) :
    Settles ending state (many item) ok fail := h

/-- A loop that finds nothing at first. -/
theorem settles_many_nil {item : Parser (Option α)} {ok : List α → ParserState → Prop}
    (hitem : Settles ending state item (fun result next => result = none ∧ next = state) fail)
    (h : ok [] state) : Settles ending state (many item) ok fail := by
  refine settles_many (settles_manyWithin (hitem.mono ?_ id))
  rintro _ _ ⟨rfl, rfl⟩
  exact h

end Parser

/-! ## Names and numbers in the place of an expression -/

/-- A name or a number. -/
inductive Operand where
  | name (id : Identifier)
  | number (literal : NumberLiteral)

namespace Operand

def lexeme : Operand → Lexeme
  | name id => id.lexeme
  | number literal => literal.lexeme

/-- The tree that an operand stands for, without places. -/
def tree : Operand → Tree
  | name id => .node (.name id.text .load) .zero []
  | number literal => .node (.constant (.number literal.text)) .zero []

end Operand

namespace Expression
open SnippetLint.Parser

/-- A token that ends an operand whose operators bind at least so tightly. -/
structure Closes (least : Nat) (kind : TokenKind) : Prop where
  stops : Precedence.Stops least kind
  not_trailer : kind ≠ .op .dot ∧ kind ≠ .op .leftParen ∧ kind ≠ .op .leftBracket

/-- A tree has been read as said, up to these lexemes. -/
def ReadUpTo (tree : Tree) (depth : Nat) (ls : List Lexeme) (t : Tree) (next : ParserState) :
    Prop := t.skeleton = tree ∧ Before next depth ls

variable {ending : Ending} {state : ParserState} {depth room least : Nat} {tail : List Lexeme}
  {l : Lexeme} {inner : Level} {start : Position} {t : Tree} {operand : Operand} {fail : Prop}

theorem settles_trailer_stop {ok : Tree × Bool → ParserState → Prop}
    (hb : Before state depth (l :: tail))
    (hl : l.kind ≠ .op .dot ∧ l.kind ≠ .op .leftParen ∧ l.kind ≠ .op .leftBracket)
    (h : ok (t, false) state) : Settles ending state (trailer inner start t) ok fail := by
  refine Settles.bind (settles_peek hb ?_)
  split
  · next hkind => exact absurd hkind hl.1
  · next hkind => exact absurd hkind hl.2.1
  · next hkind => exact absurd hkind hl.2.2
  · exact h

theorem settles_extend_stop {ok : Tree × Bool → ParserState → Prop}
    (hb : Before state depth (l :: tail)) (hl : Precedence.Stops least l.kind)
    (h : ok (t, false) state) : Settles ending state (extend inner least start t) ok fail := by
  have hnot : ∀ {power : Nat}, Precedence.leftPower l.kind = power → 0 < power →
      ¬least ≤ power := by
    unfold Precedence.Stops at hl
    omega
  refine Settles.bind (settles_peek hb ?_)
  refine Settles.bind (settles_of_ok rfl ?_)
  split
  · next op hop =>
    rw [if_neg (hnot (Precedence.leftPower_of_boolOp? hop) (by cases op <;> decide))]
    exact h
  · next hop =>
    rw [if_neg (hnot (Precedence.leftPower_of_compareOp? hop) (by decide))]
    exact h
  · next op hbool _ hop =>
    rw [if_neg (hnot (Precedence.leftPower_of_binaryOp? hbool hop) (by cases op <;> decide))]
    exact h
  · exact h

theorem settles_atom (hb : Before state depth (operand.lexeme :: tail)) :
    Settles ending state (atom inner) (ReadUpTo operand.tree depth tail) fail := by
  refine Settles.bind (settles_peek hb ?_)
  cases operand with
  | name id =>
    refine Settles.bind (settles_here fun start => ?_)
    refine Settles.bind (settles_word hb fun next hnext => ?_)
    exact settles_node fun span => ⟨rfl, hnext⟩
  | number literal =>
    refine Settles.bind (settles_of_ok hb.lexeme_eq ?_)
    refine Settles.bind (settles_here fun start => ?_)
    refine Settles.bind (settles_advance hb fun next hnext => ?_)
    exact settles_node fun span => ⟨rfl, hnext⟩

theorem settles_unary (hb : Before state depth (operand.lexeme :: l :: tail))
    (hl : Closes least l.kind) :
    Settles ending state (unary inner least) (ReadUpTo operand.tree depth (l :: tail)) fail := by
  have hawait : operand.lexeme.kind ≠ .keyword .awaitKw := by cases operand <;> exact nofun
  have hunary : Power.unaryOp? operand.lexeme.kind = none := by cases operand <;> rfl
  refine Settles.bind (settles_here fun start => ?_)
  refine Settles.bind (settles_peek hb ?_)
  rw [if_neg (by simpa using hawait), hunary]
  refine Settles.bind (settles_here fun start => ?_)
  refine Settles.bind ((settles_atom hb).mono ?_ id)
  intro t next hread
  exact settles_iterate
    (settles_iterateWithin (settles_trailer_stop hread.2 hl.not_trailer hread))

/-- What comes after the operators before an operand ends the operand. -/
theorem settles_operand_of_unary {a : Tree → Prop} {ls : List Lexeme} (hb : Before state depth ls)
    (hl : Precedence.Stops least l.kind) (hdepth : depth < maxNesting)
    (h : ∀ inside, Before inside (depth + 1) ls →
      Settles ending inside (unary (.within room) least)
        (fun t next => a t ∧ Before next (depth + 1) (l :: tail)) fail) :
    Settles ending state ((Level.within (room + 1)).operand least)
      (fun t next => a t ∧ Before next depth (l :: tail)) fail := by
  refine settles_nested hb hdepth fun state hb => ?_
  refine Settles.bind (settles_here fun start => ?_)
  refine Settles.bind ((h state hb).mono ?_ id)
  intro t next hread
  exact settles_iterate (settles_iterateWithin (settles_extend_stop hread.2 hl hread))

theorem settles_operand (hb : Before state depth (operand.lexeme :: l :: tail))
    (hl : Closes least l.kind) (hdepth : depth < maxNesting) :
    Settles ending state ((Level.within (room + 1)).operand least)
      (ReadUpTo operand.tree depth (l :: tail)) fail :=
  settles_operand_of_unary hb hl.stops hdepth fun _ hb => settles_unary hb hl

/-- An expression that is no function and no conditional is one operand. -/
theorem settles_expression_of_operand {a : Tree → Prop} {m : Lexeme} {ls : List Lexeme}
    (hb : Before state depth (m :: ls)) (hm : m.kind ≠ .keyword .lambdaKw)
    (hif : l.kind ≠ .keyword .ifKw) (hdepth : depth < maxNesting)
    (h : ∀ inside, Before inside (depth + 1) (m :: ls) →
      Settles ending inside (disjunction (.within room))
        (fun t next => a t ∧ Before next (depth + 1) (l :: tail)) fail) :
    Settles ending state (Level.within (room + 1)).expression
      (fun t next => a t ∧ Before next depth (l :: tail)) fail := by
  refine settles_nested hb hdepth fun state hb => ?_
  refine Settles.bind (settles_check hb ?_)
  rw [beq_false_of_ne hm, if_neg Bool.false_ne_true]
  refine Settles.bind (settles_here fun start => ?_)
  refine Settles.bind ((h state hb).mono ?_ id)
  intro t next hread
  exact Settles.bind (settles_eat_of_ne hread.2 hif hread)

/-- A name or a number before what ends it is read as an expression. -/
theorem settles_expression (hb : Before state depth (operand.lexeme :: l :: tail))
    (hl : Closes 0 l.kind) (hif : l.kind ≠ .keyword .ifKw) (hdepth : depth + 1 < maxNesting) :
    Settles ending state (Level.within (room + 2)).expression
      (ReadUpTo operand.tree depth (l :: tail)) fail := by
  have hlambda : operand.lexeme.kind ≠ .keyword .lambdaKw := by cases operand <;> exact nofun
  exact settles_expression_of_operand hb hlambda hif (by omega)
    fun _ hb => settles_operand hb hl hdepth

end Expression

/-! ## Snippets of one statement -/

def Lexeme.passWord : Lexeme := ⟨.keyword .passKw, ['p', 'a', 's', 's']⟩

/-- The block that does nothing, without places. -/
def passBlock : Tree := .node .block .zero [.node .passStmt .zero []]

namespace Snippet
open Precedence (newline)
open SnippetLint.Parser

variable {ending : Ending} {state : ParserState} {depth room : Nat} {tail : List Lexeme}
  {tree : Tree} {fail : Prop}

/-- A statement on a line of its own. -/
theorem settles_line {a : Tree → Prop}
    (h : Settles ending state Simple.statement
      (fun t next => a t ∧ Before next depth (newline :: tail)) fail) :
    Settles ending state Simple.line
      (fun ts next => (∃ t, ts = [t] ∧ a t) ∧ Before next depth tail) fail := by
  refine Settles.bind (h.mono ?_ id)
  rintro t next ⟨ht, hnext⟩
  refine Settles.bind (settles_many_nil ?_ ?_)
  · exact Settles.bind (settles_eat_of_ne hnext nofun ⟨rfl, rfl⟩)
  · refine Settles.bind (settles_require hnext rfl fun last hlast => ?_)
    exact ⟨⟨t, rfl, ht⟩, hlast⟩

theorem settles_passBlock {statement : Parser (List Tree)} {construct : Construct} {line : Nat}
    (hb : Before state depth (.passWord :: newline :: tail)) :
    Settles ending state (Compound.blockOf statement construct line)
      (Expression.ReadUpTo passBlock depth tail) fail := by
  refine Settles.bind (settles_here fun start => ?_)
  refine Settles.bind (settles_eat_of_ne hb nofun ?_)
  rw [if_neg Bool.false_ne_true]
  have hpass : Settles ending state Simple.statement
      (Expression.ReadUpTo (.node .passStmt .zero []) depth (newline :: tail)) fail := by
    refine Settles.bind (settles_peek hb ?_)
    refine Settles.bind (settles_here fun start => ?_)
    refine Settles.bind (settles_advance hb fun next hnext => ?_)
    exact settles_node fun span => ⟨rfl, hnext⟩
  refine Settles.bind ((settles_line hpass).mono ?_ id)
  rintro _ next ⟨⟨t, rfl, ht⟩, hnext⟩
  exact settles_node fun span => ⟨by rw [Tree.skeleton_node, List.map_singleton, ht]; rfl, hnext⟩

theorem settles_module {ls : List Lexeme} {accepted : Prop} (hb : Before state 0 ls) (hne : ls ≠ [])
    (hending : ending.fault = none)
    (h : Settles ending state (Compound.statement (room + 1))
      (fun ts next => accepted ∧ ts.map Tree.skeleton = [tree] ∧ Before next 0 []) fail) :
    Settles ending state (Module.module (room + 1))
      (fun t _ => accepted ∧ t.skeleton = .node .module .zero [tree]) fail := by
  have hstatements : Settles ending state (Module.statements (room + 1))
      (fun ts _ => accepted ∧ ts.map Tree.skeleton = [tree]) fail := by
    obtain ⟨n, hn⟩ : ∃ n, state.left = n + 1 := by
      rw [hb.left_eq_length]
      exact Nat.exists_eq_add_one_of_ne_zero (List.length_eq_zero_iff.not.2 hne)
    refine Settles.bind (settles_many (settles_manyWithin ?_))
    refine Settles.bind (settles_atEnd hb ?_)
    rw [List.isEmpty_eq_false_iff.2 hne, if_neg Bool.false_ne_true]
    refine Settles.bind (h.mono ?_ id)
    rintro ts next ⟨haccepted, hts, hnext⟩
    rw [hn]
    refine settles_manyWithin (Settles.bind (settles_atEnd hnext ?_))
    exact settles_pure ⟨haccepted, by rwa [List.flatten_singleton]⟩
  unfold Module.module
  refine Settles.bind (settles_here fun start => ?_)
  refine Settles.bind (hstatements.mono ?_ id)
  rintro ts next ⟨haccepted, hts⟩
  rw [hending]
  exact settles_pure ⟨haccepted, by rw [Tree.skeleton_node, hts]⟩

/-- The grammar sees the lexemes of a text that has been read to its end, and the end of its
line. -/
theorem before_initial {stream : TokenStream} {ls : List Lexeme} (hlexed : Lexed stream ls)
    (herror : stream.error = none) (hls : ∀ l ∈ ls, l.IsContent) :
    Before (Module.initial stream) 0 (ls ++ [newline]) := by
  have hseen : ∀ l ∈ ls, Precedence.IsSeen l := by
    intro l hl
    refine ⟨(hls l hl).not_trivia, fun hend => ?_⟩
    have hlayout := (hls l hl).not_layout
    rw [hend] at hlayout
    cases hlayout
  cases hlexed with
  | cut => cases herror
  | whole tokens_eq =>
    refine ⟨?_, rfl, rfl⟩
    show (Module.significant _).map _ = _
    rw [Precedence.map_toLexeme_significant, tokens_eq, List.filter_append,
      Precedence.filter_eq_self hseen]
    rfl

/-- A rendered text that is one line parses just when the statement on it does. -/
theorem parse_iff_of_settles {s : String} {l : Lexeme} {ls : List Lexeme} {accepted : Prop}
    (hs : Rendered 0 (l :: ls) s.toList)
    (hshallow : (l :: ls).count .leftParen ≤ Bracket.maxDepth)
    (h : ∀ ending state room, Before state 0 (l :: ls ++ [newline]) →
      Settles ending state (Compound.statement (room + 1))
        (fun ts next => accepted ∧ ts.map Tree.skeleton = [tree] ∧ Before next 0 [])
        ¬accepted) :
    ((∃ t, Module.parse s = .ok t) ↔ accepted) ∧
      (accepted ↔ ∃ t, Module.parse s = .ok t ∧ t.skeleton = .node .module .zero [tree]) := by
  have hread := readBack_ofText hs
  have herror := hread.whole (by omega)
  have hb := before_initial hread.lexed herror hs.isContent
  have hending : (Module.endingOf (.ofText s)).fault = none := by
    rw [Agreement.fault_endingOf, herror]
    rfl
  have hmodule := settles_module hb (by simp) hending
    (h _ _ (Module.initial (.ofText s)).left hb)
  unfold Settles at hmodule
  unfold Module.parse Module.ofStream
  dsimp only
  split at hmodule
  · next t next hok =>
    obtain ⟨haccepted, ht⟩ := hmodule
    rw [hok]
    exact ⟨⟨fun _ => haccepted, fun _ => ⟨t, rfl⟩⟩, fun _ => ⟨t, rfl, ht⟩, fun _ => haccepted⟩
  · next hfail =>
    rw [hfail]
    refine ⟨⟨?_, fun haccepted => absurd haccepted hmodule⟩,
      fun haccepted => absurd haccepted hmodule, ?_⟩
    · rintro ⟨t, ht⟩
      cases ht
    · rintro ⟨t, ht, -⟩
      cases ht

end Snippet

end SnippetLint
