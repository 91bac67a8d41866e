import Mathlib.Order.Monotone.Basic
import SnippetLint.Proofs.Agreement
import SnippetLint.Proofs.Cutoff
import SnippetLint.Proofs.Derivation

/-!
Operators bind as formulas are written. The loop over operators is followed along the left edge of a
formula: `Climbs` says that it comes to where the whole formula has been taken, from any least power
that fits the level at which the formula is written. A right operand is read by a loop of its own,
which has to end at what follows the formula; that this binds loosely enough is `CanFollow`. One
lemma for each kind of formula, and by induction every formula can be read wherever it may stand
(`parses`). Main statement: `formula_text_parses_back`.
-/

namespace SnippetLint.Precedence
open SnippetLint.Parser SnippetLint.Expression

/-! ## Levels and powers -/

/-- How tightly an operator that starts with a token binds to its left; other tokens do not bind. -/
def leftPower (kind : TokenKind) : Nat :=
  match Power.boolOp? kind, Power.binaryOp? kind with
  | some op, _ => (Power.ofBool op).1
  | none, some op => (Power.ofBinary op).1
  | none, none =>
    if (Power.compareOp? kind (.keyword .inKw)).isSome then Power.ofCompare.1 else 0

/-- What follows a formula of a level binds less tightly than this. -/
def bound : Nat → Nat
  | 0 | 1 => 1
  | 2 => 2
  | 3 => 4
  | 4 => 7
  | 5 => 10
  | 6 => 12
  | 7 => 14
  | 8 => 16
  | 9 => 18
  | 10 => 20
  | 11 | 12 => 21
  | _ => 25

theorem bound_mono : Monotone bound := by
  refine monotone_nat_of_le_succ fun n => ?_
  match n with
  | 0 | 1 | 2 | 3 | 4 | 5 | 6 | 7 | 8 | 9 | 10 | 11 | 12 => decide
  | n + 13 => exact Nat.le_refl 25

/-- The tokens that may stand after a formula where a level is asked for. -/
structure CanFollow (level : Nat) (kind : TokenKind) : Prop where
  power : leftPower kind < bound level
  not_trailer : kind ≠ .op .dot ∧ kind ≠ .op .leftParen ∧ kind ≠ .op .leftBracket
  not_if : level = 0 → kind ≠ .keyword .ifKw

theorem CanFollow.mono {level more : Nat} {kind : TokenKind} (h : CanFollow level kind)
    (hle : bound level ≤ bound more) (hpos : 0 < more) : CanFollow more kind :=
  ⟨Nat.lt_of_lt_of_le h.power hle, h.not_trailer, fun hzero => absurd hzero (Nat.ne_of_gt hpos)⟩

theorem leftPower_of_compareOp? {kind second : TokenKind} {result : CompareOp × Nat}
    (h : Power.compareOp? kind second = some result) : leftPower kind = Power.ofCompare.1 := by
  unfold Power.compareOp? at h
  split at h
  all_goals first | rfl | cases h

theorem leftPower_of_boolOp? {kind : TokenKind} {op : BoolOp} (h : Power.boolOp? kind = some op) :
    leftPower kind = (Power.ofBool op).1 := by
  unfold leftPower
  rw [h]

theorem leftPower_of_binaryOp? {kind : TokenKind} {op : BinaryOp}
    (hbool : Power.boolOp? kind = none) (h : Power.binaryOp? kind = some op) :
    leftPower kind = (Power.ofBinary op).1 := by
  unfold leftPower
  rw [hbool, h]

/-- A token before which a loop over operators ends. -/
def Stops (least : Nat) (kind : TokenKind) : Prop := leftPower kind = 0 ∨ leftPower kind < least

/-! ## Where operators stop -/

variable {ending : Ending} {lost tail : List Lexeme} {state : ParserState} {l : Lexeme}
  {inner : Level} {start : Position} {t : Tree}

theorem gives_trailer_stop [spent.OfLevel inner] (hs : Shows ending lost state (l :: tail))
    (hl : l.kind ≠ .op .dot ∧ l.kind ≠ .op .leftParen ∧ l.kind ≠ .op .leftBracket) :
    Gives ending state (trailer inner start t) fun result next =>
      result = (t, false) ∧ next = state := by
  refine hs.gives fun hne => ?_
  refine gives_bind_of_ok (hs.peek_eq hne) ?_
  split
  · next h => exact absurd h hl.1
  · next h => exact absurd h hl.2.1
  · next h => exact absurd h hl.2.2
  · exact gives_pure ⟨rfl, rfl⟩

/-- An operator that binds less tightly than asked for is left. -/
theorem gives_extend_stop [spent.OfLevel inner] {least : Nat}
    (hs : Shows ending lost state (l :: tail)) (hl : Stops least l.kind) :
    Gives ending state (extend inner least start t) fun result next =>
      result = (t, false) ∧ next = state := by
  have hnot : ∀ {power : Nat}, leftPower l.kind = power → 0 < power → ¬least ≤ power := by
    unfold Stops at hl
    omega
  refine hs.gives fun hne => ?_
  refine gives_bind_of_ok (hs.peek_eq hne) ?_
  refine gives_bind_of_ok rfl ?_
  split
  · next op hop =>
    rw [if_neg (hnot (leftPower_of_boolOp? hop) (by cases op <;> decide))]
    exact gives_pure ⟨rfl, rfl⟩
  · next result _ hop =>
    rw [if_neg (hnot (leftPower_of_compareOp? hop) (by decide))]
    exact gives_pure ⟨rfl, rfl⟩
  · next op hbool _ hop =>
    rw [if_neg (hnot (leftPower_of_binaryOp? hbool hop) (by cases op <;> decide))]
    exact gives_pure ⟨rfl, rfl⟩
  · exact gives_pure ⟨rfl, rfl⟩

/-! ## Operands and expressions -/

/-- A tree of the formula has been read, up to the rest. -/
def ReadUpTo (ending : Ending) (lost : List Lexeme) (f : Formula) (rest : List Lexeme) (t : Tree)
    (next : ParserState) : Prop := t.skeleton = f.tree ∧ Shows ending lost next rest

/-- What is written for a formula at a level can be read where operators must bind tightly enough
for that level: the loop over operators comes to where all of it has been taken. -/
def Climbs (ending : Ending) (lost : List Lexeme) (f : Formula) (level : Nat)
    (written : List Lexeme) : Prop :=
  ∀ ⦃room least start state l tail post⦄, least < 2 * level → CanFollow level l.kind →
    Shows ending lost state (written ++ l :: tail) →
    (∀ t next fuel, next.left < fuel → ReadUpTo ending lost f (l :: tail) t next →
      Gives ending next (iterateWithin (extend (.within room) least start) fuel t) post) →
    Gives ending state (unary (.within room) least >>= iterate (extend (.within room) least start))
      post

/-- An operand of the formula can be read where a level is asked for. -/
def IsOperand (ending : Ending) (lost : List Lexeme) (f : Formula) (level : Nat)
    (written : List Lexeme) : Prop :=
  ∀ ⦃room least state l tail⦄, least < 2 * level → CanFollow level l.kind → Stops least l.kind →
    Shows ending lost state (written ++ l :: tail) →
    Gives ending state ((Level.within room).operand least) (ReadUpTo ending lost f (l :: tail))

variable {f : Formula} {level : Nat} {written : List Lexeme}

theorem ReadUpTo.deepen {rest : List Lexeme} {next : ParserState}
    (h : ReadUpTo ending lost f rest t next) (depth : Nat) :
    ReadUpTo ending lost f rest t { next with depth } := ⟨h.1, h.2.deepen depth⟩

/-- The loop over operators ends before one that binds too loosely. -/
theorem Climbs.isOperand (h : Climbs ending lost f level written) :
    IsOperand ending lost f level written := by
  intro room least state l tail hleast hfollow hstop hs
  cases room with
  | zero => exact gives_tooDeeplyNested hs
  | succ room =>
    refine gives_nested hs (fun state hs => ?_) fun depth hread => hread.deepen depth
    refine Gives.bind (gives_here fun start => ?_)
    refine h hleast hfollow hs fun t next fuel hfuel hread => ?_
    obtain ⟨fuel, rfl⟩ : ∃ n, fuel = n + 1 := ⟨fuel - 1, by omega⟩
    refine gives_iterateWithin ((gives_extend_stop hread.2 hstop).mono ?_)
    rintro _ _ ⟨rfl, rfl⟩
    exact hread

/-- What the operators before an operand take is read at once. -/
theorem climbs_of_unary
    (h : ∀ {room least state l tail}, least < 2 * level → CanFollow level l.kind →
      Shows ending lost state (written ++ l :: tail) →
      Gives ending state (unary (.within room) least) (ReadUpTo ending lost f (l :: tail))) :
    Climbs ending lost f level written := by
  intro room least start state l tail post hleast hfollow hs hloop
  refine Gives.bind ((h hleast hfollow hs).mono fun t next hread => ?_)
  exact gives_iterate (hloop t next _ (Nat.lt_succ_self _) hread)

/-! ## Names, numbers and parentheses -/

theorem gives_primary [spent.OfLevel inner] (hfollow : CanFollow level l.kind)
    (h : Gives ending state (atom inner) (ReadUpTo ending lost f (l :: tail))) :
    Gives ending state (primary inner) (ReadUpTo ending lost f (l :: tail)) := by
  refine Gives.bind (gives_here fun start => Gives.bind (h.mono fun t next hread => ?_))
  refine gives_iterate (gives_iterateWithin ?_)
  refine (gives_trailer_stop hread.2 hfollow.not_trailer).mono ?_
  rintro _ _ ⟨rfl, rfl⟩
  exact hread

/-- What starts with no operator is an atom. -/
theorem climbs_of_atom {m : Lexeme} {ms : List Lexeme} (hawait : m.kind ≠ .keyword .awaitKw)
    (hop : Power.unaryOp? m.kind = none)
    (h : ∀ {room state l tail}, CanFollow level l.kind →
      Shows ending lost state (m :: (ms ++ l :: tail)) →
      Gives ending state (atom (.within room)) (ReadUpTo ending lost f (l :: tail))) :
    Climbs ending lost f level (m :: ms) := by
  refine climbs_of_unary fun _ hfollow hs => ?_
  refine hs.gives fun hne => ?_
  refine gives_bind_of_ok rfl ?_
  refine gives_bind_of_ok (hs.peek_eq hne) ?_
  rw [if_neg (by simpa using hawait), hop]
  exact gives_primary hfollow (h hfollow hs)

theorem climbs_name (id : Identifier) (level : Nat) :
    Climbs ending lost (.name id) level [id.lexeme] := by
  refine climbs_of_atom nofun rfl fun _ hs => ?_
  refine hs.gives fun hne => gives_bind_of_ok (hs.peek_eq hne) ?_
  refine Gives.bind (gives_here fun start => ?_)
  refine Gives.bind (gives_word hs fun next hnext => ?_)
  exact gives_node fun span => ⟨rfl, hnext⟩

theorem climbs_number (literal : NumberLiteral) (level : Nat) :
    Climbs ending lost (.number literal) level [literal.lexeme] := by
  refine climbs_of_atom nofun rfl fun _ hs => ?_
  refine hs.gives fun hne => gives_bind_of_ok (hs.peek_eq hne) ?_
  refine gives_bind_of_ok (hs.lexeme_eq hne) ?_
  refine Gives.bind (gives_here fun start => ?_)
  refine Gives.bind (gives_advance hs fun next hnext => ?_)
  exact gives_node fun span => ⟨rfl, hnext⟩

/-- The formula can be read as a whole expression. -/
def IsExpression (ending : Ending) (lost : List Lexeme) (f : Formula) : Prop :=
  ∀ ⦃room state l tail⦄, CanFollow 0 l.kind → Shows ending lost state (f.bare ++ l :: tail) →
    Gives ending state (Level.within room).expression (ReadUpTo ending lost f (l :: tail))

theorem ne_of_canStart {least : Nat} {kind other : TokenKind}
    (h : Formula.canStart least kind = true) (hother : Formula.canStart least other = false) :
    kind ≠ other := by
  rintro rfl
  rw [h] at hother
  cases hother

theorem starts_bare (f : Formula) : Formula.Starts 0 f.bare := by
  rw [← Formula.lexemes_of_le (Nat.zero_le _)]
  exact f.starts_lexemes 0

/-- Before a formula the next lexeme is one with which it can start. -/
theorem exists_shows_cons {least : Nat} {ls rest : List Lexeme} (h : Formula.Starts least ls)
    (hs : Shows ending lost state (ls ++ rest)) :
    ∃ m ms, Formula.canStart least m.kind = true ∧ Shows ending lost state (m :: ms) := by
  obtain ⟨m, ms, rfl, hstart⟩ := h
  exact ⟨m, ms ++ rest, hstart, hs⟩

/-- A formula is no assignment to a name. -/
theorem gives_named (h : IsExpression ending lost f) (hfollow : CanFollow 0 l.kind) {room : Nat}
    (hs : Shows ending lost state (f.bare ++ l :: tail)) :
    Gives ending state (named (.within room)) (ReadUpTo ending lost f (l :: tail)) := by
  obtain ⟨m, ms, hstart, hhead⟩ := exists_shows_cons (starts_bare f) hs
  refine hhead.gives fun hne => ?_
  obtain ⟨second, hsecond, hnot⟩ := hhead.exists_peekAt_ne 1
  refine gives_bind_of_ok rfl ?_
  refine gives_bind_of_ok (hhead.check_eq hne .name) ?_
  refine gives_bind_of_ok hsecond ?_
  rw [if_neg (by simp [hnot])]
  refine Gives.bind ((h hfollow hs).mono fun t next hread => ?_)
  have hl := (hread.2.plain l List.mem_cons_self).2
  refine Gives.bind (gives_check_of_ne hread.2 hl ?_)
  exact gives_pure hread

theorem gives_displayItem (h : IsExpression ending lost f) (hfollow : CanFollow 0 l.kind)
    {room : Nat} (hs : Shows ending lost state (f.bare ++ l :: tail)) :
    Gives ending state (displayItem (.within room)) (ReadUpTo ending lost f (l :: tail)) := by
  obtain ⟨m, ms, hstart, hhead⟩ := exists_shows_cons (starts_bare f) hs
  have hitem : Gives ending state (starNamed (.within room))
      (ReadUpTo ending lost f (l :: tail)) := by
    refine Gives.bind (gives_check_of_ne hhead (ne_of_canStart hstart rfl) ?_)
    rw [if_neg Bool.false_ne_true]
    exact gives_named h hfollow hs
  refine Gives.bind (gives_here fun start => Gives.bind (hitem.mono fun t next hread => ?_))
  refine gives_bind_of_ok rfl ?_
  rw [if_neg (by simp [hread.2.inPattern_eq])]
  exact gives_pure hread

theorem gives_startsComprehension (hs : Shows ending lost state (l :: tail))
    (hfor : l.kind ≠ .keyword .forKw) (hasync : l.kind ≠ .keyword .asyncKw) :
    Gives ending state startsComprehension fun found next => found = false ∧ next = state := by
  refine Gives.bind (gives_check_of_ne hs hfor ?_)
  rw [if_neg Bool.false_ne_true]
  refine Gives.bind (gives_check_of_ne hs hasync ?_)
  exact Gives.bind (gives_peekAt fun kind => gives_pure ⟨Bool.false_and _, rfl⟩)

/-- A formula in parentheses is no tuple and no generator. -/
theorem gives_parenthesized (h : IsExpression ending lost f) {room : Nat}
    (hs : Shows ending lost state (.leftParen :: (f.bare ++ .rightParen :: tail))) :
    Gives ending state (parenthesized (.within room)) (ReadUpTo ending lost f tail) := by
  have hclose : CanFollow 0 Lexeme.rightParen.kind := ⟨by decide, by decide, by decide⟩
  refine Gives.bind (gives_here fun start => ?_)
  refine Gives.bind (gives_advance hs fun next hnext => ?_)
  obtain ⟨m, ms, hstart, hhead⟩ := exists_shows_cons (starts_bare f) hnext
  refine Gives.bind (gives_eat_of_ne hhead (ne_of_canStart hstart rfl) ?_)
  rw [if_neg Bool.false_ne_true]
  refine Gives.bind (gives_check_of_ne hhead (ne_of_canStart hstart rfl) ?_)
  rw [if_neg Bool.false_ne_true]
  refine Gives.bind ((gives_displayItem h hclose hnext).mono fun t next hread => ?_)
  refine Gives.bind ((gives_startsComprehension hread.2 nofun nofun).mono ?_)
  rintro _ _ ⟨rfl, rfl⟩
  rw [if_neg Bool.false_ne_true]
  refine Gives.bind (gives_check_of_ne hread.2 nofun ?_)
  rw [if_neg Bool.false_ne_true]
  have hkind : t.kind.isStarred = false := by
    rw [← t.kind_skeleton, hread.1]
    exact f.isStarred_tree
  rw [if_neg (by simp [hkind])]
  refine Gives.bind (gives_require hread.2 rfl fun last hlast => ?_)
  exact gives_pure ⟨hread.1, hlast⟩

theorem climbs_enclosed (h : IsExpression ending lost f) (level : Nat) :
    Climbs ending lost f level (.leftParen :: (f.bare ++ [.rightParen])) := by
  refine climbs_of_atom nofun rfl fun _ hs => ?_
  refine hs.gives fun hne => gives_bind_of_ok (hs.peek_eq hne) ?_
  rw [List.append_assoc] at hs
  exact gives_parenthesized h hs

/-! ## Operators -/

/-- The power of an operator before its operand fits its level. -/
theorem exists_unaryOp?_eq (op : UnaryOp) :
    ∃ power, Power.unaryOp? op.sign.kind = some (op, power) ∧ power < 2 * op.level ∧
      bound op.level ≤ power ∧ (op = .not → power + 1 = 2 * op.level) := by
  cases op <;> exact ⟨_, rfl, by decide, by decide, by decide⟩

theorem climbs_unary {op : UnaryOp} (h : IsOperand ending lost f op.level (f.lexemes op.level))
    (hle : level ≤ op.level) :
    Climbs ending lost (.unary op f) level (Formula.unary op f).bare := by
  obtain ⟨power, hop, hpower, hbound, hnot⟩ := exists_unaryOp?_eq op
  refine climbs_of_unary ?_
  intro room least state l tail hleast hfollow hs
  have hbound := Nat.le_trans (bound_mono hle) hbound
  have hpos : 0 < op.level := by cases op <;> decide
  refine hs.gives fun hne => ?_
  refine gives_bind_of_ok rfl ?_
  refine gives_bind_of_ok (hs.peek_eq hne) ?_
  rw [if_neg (by cases op <;> decide), hop]
  dsimp only
  have hallowed : ¬(op = .not && power < least) = true := by
    simp only [Bool.and_eq_true, decide_eq_true_eq, not_and]
    intro heq
    have := hnot heq
    omega
  rw [if_neg hallowed]
  refine Gives.bind (gives_advance hs fun next hnext => ?_)
  refine Gives.bind ((h hpower (hfollow.mono (bound_mono hle) hpos)
    (.inr (Nat.lt_of_lt_of_le hfollow.power hbound)) hnext).mono fun t last hread => ?_)
  refine gives_node fun span => ⟨?_, hread.2⟩
  rw [Tree.skeleton_node, List.map_singleton, hread.1]
  rfl

/-- A formula whose first operand is read first, and the rest in one more round of the loop. -/
theorem climbs_of_extend {first : Formula} {inside : Nat} {sign : Lexeme} {more : List Lexeme}
    (hfirst : Climbs ending lost first inside (first.lexemes inside)) (hle : level ≤ inside)
    (hsign : CanFollow inside sign.kind)
    (hextend : ∀ {room least start state t l tail}, least < 2 * level → CanFollow level l.kind →
      ReadUpTo ending lost first (sign :: (more ++ l :: tail)) t state →
      Gives ending state (extend (.within room) least start t) fun result next =>
        result.2 = true ∧ ReadUpTo ending lost f (l :: tail) result.1 next) :
    Climbs ending lost f level (first.lexemes inside ++ sign :: more) := by
  intro room least start state l tail post hleast hfollow hs hloop
  rw [List.append_assoc, List.cons_append] at hs
  refine hfirst (by omega) hsign hs fun t next fuel hfuel hread => ?_
  obtain ⟨fuel, rfl⟩ : ∃ n, fuel = n + 1 := ⟨fuel - 1, by omega⟩
  refine gives_iterateWithin ((hextend hleast hfollow hread).mono ?_)
  rintro ⟨t, _⟩ last ⟨rfl, hlast⟩
  have hlt : last.left < next.left := by
    have hbefore := hread.2.left_add
    have hafter := hlast.2.left_add
    rw [List.length_cons, List.length_append] at hbefore
    omega
  exact hloop t last fuel (by omega) hlast

theorem gives_extend_binary [spent.OfLevel inner] {op : BinaryOp} {least : Nat}
    {post : Tree → ParserState → Prop} (hs : Shows ending lost state (op.sign :: tail))
    (hleast : least ≤ (Power.ofBinary op).1)
    (h : Gives ending state (binary inner op start t) post) :
    Gives ending state (extend inner least start t) fun result next =>
      result.2 = true ∧ post result.1 next := by
  have hbool : Power.boolOp? op.sign.kind = none := by cases op <;> rfl
  have hcompare : ∀ second, Power.compareOp? op.sign.kind second = none := by
    cases op <;> exact fun _ => rfl
  have hop : Power.binaryOp? op.sign.kind = some op := by cases op <;> rfl
  refine hs.gives fun hne => ?_
  refine gives_bind_of_ok (hs.peek_eq hne) ?_
  refine gives_bind_of_ok rfl ?_
  rw [hbool, hcompare, hop]
  dsimp only
  rw [if_pos hleast]
  exact Gives.bind (h.mono fun t next hpost => gives_pure ⟨rfl, hpost⟩)

theorem climbs_binary {op : BinaryOp} {left right : Formula}
    (hleft : Climbs ending lost left op.leftLevel (left.lexemes op.leftLevel))
    (hright : IsOperand ending lost right op.rightLevel (right.lexemes op.rightLevel))
    (hle : level ≤ op.level) :
    Climbs ending lost (.binary op left right) level (Formula.binary op left right).bare := by
  have hleftLevel : op.level ≤ op.leftLevel := by cases op <;> decide
  have hsign : CanFollow op.leftLevel op.sign.kind := by
    cases op <;> exact ⟨by decide, by decide, by decide⟩
  have hleftPower : 2 * op.level ≤ (Power.ofBinary op).1 + 1 := by cases op <;> decide
  have hrightPower : (Power.ofBinary op).2 < 2 * op.rightLevel := by cases op <;> decide
  have hbound : bound op.level ≤ bound op.rightLevel ∧ bound op.level ≤ (Power.ofBinary op).2 := by
    cases op <;> decide
  have hpos : 0 < op.rightLevel := by omega
  have hbounds := bound_mono hle
  refine climbs_of_extend hleft (Nat.le_trans hle hleftLevel) hsign fun hleast hfollow hread => ?_
  refine gives_extend_binary hread.2 (by omega) ?_
  refine Gives.bind (gives_advance hread.2 fun next hnext => ?_)
  refine Gives.bind ((hright hrightPower (hfollow.mono (Nat.le_trans hbounds hbound.1) hpos)
    (.inr (Nat.lt_of_lt_of_le hfollow.power (Nat.le_trans hbounds hbound.2))) hnext).mono ?_)
  intro second last hsecond
  refine gives_node fun span => ⟨?_, hsecond.2⟩
  rw [Tree.skeleton_node, List.map_cons, List.map_cons, hread.1, hsecond.1]
  rfl

theorem gives_extend_bool [spent.OfLevel inner] {op : BoolOp} {least : Nat}
    {post : Tree → ParserState → Prop} (hs : Shows ending lost state (op.sign :: tail))
    (hleast : least ≤ (Power.ofBool op).1)
    (h : Gives ending state (boolChain inner op start t) post) :
    Gives ending state (extend inner least start t) fun result next =>
      result.2 = true ∧ post result.1 next := by
  have hop : Power.boolOp? op.sign.kind = some op := by cases op <;> rfl
  refine hs.gives fun hne => ?_
  refine gives_bind_of_ok (hs.peek_eq hne) ?_
  refine gives_bind_of_ok rfl ?_
  rw [hop]
  dsimp only
  rw [if_pos hleast]
  exact Gives.bind (h.mono fun t next hpost => gives_pure ⟨rfl, hpost⟩)

theorem canFollow_boolSign (op : BoolOp) : CanFollow (op.level + 1) op.sign.kind := by
  cases op <;> exact ⟨by decide, by decide, by decide⟩

/-- What may stand after an operand: a token that can follow it and does not take it. -/
def Precedes (level power : Nat) (rest : List Lexeme) : Prop :=
  ∃ l ls, rest = l :: ls ∧ CanFollow level l.kind ∧ leftPower l.kind < power

/-- The operands of a chain, each after the operator. -/
theorem gives_boolChain {op : BoolOp} {first second : Formula} {more : List Formula} {room : Nat}
    (hmore : ∀ f ∈ second :: more,
      IsOperand ending lost f (op.level + 1) (f.lexemes (op.level + 1)))
    (hfollow : CanFollow op.level l.kind)
    (hread : ReadUpTo ending lost first (Formula.bareAll op (second :: more) ++ l :: tail)
      t state) :
    Gives ending state (boolChain (.within room) op start t)
      (ReadUpTo ending lost (.bool op first second more) (l :: tail)) := by
  obtain ⟨ht, hs⟩ := hread
  have hhead := hs
  rw [Formula.bareAll_eq_flatMap] at hs
  rw [Formula.bareAll_cons, List.cons_append] at hhead
  have hpower : (Power.ofBool op).2 < 2 * (op.level + 1) := by cases op <;> decide
  have hleft : leftPower op.sign.kind < (Power.ofBool op).2 := by cases op <;> decide
  have hbound : bound op.level ≤ leftPower op.sign.kind := by cases op <;> decide
  have hl := hfollow.power
  refine hhead.gives fun hne => ?_
  refine gives_bind_of_ok (hhead.peek_eq hne) ?_
  refine Gives.bind (Gives.mono (gives_many (gives_manyWithin
    (Precedes (op.level + 1) (Power.ofBool op).2) Tree.skeleton Formula.tree inferInstance
    ?_ ?_ ?_ ?_ hs (Nat.lt_succ_self _))) ?_)
  · rintro f hf _ state ⟨m, ms, rfl, hm, hmpower⟩ hs
    refine Gives.bind (gives_eat_of_eq hs rfl fun next hnext => ?_)
    refine Gives.bind ((hmore f hf hpower hm (.inr hmpower) hnext).mono fun t last hread => ?_)
    exact gives_pure ⟨t, rfl, hread.1, hread.2⟩
  · exact fun f _ rest => ⟨nofun, _, _, rfl, canFollow_boolSign op, hleft⟩
  · exact ⟨l, tail, rfl, hfollow.mono (bound_mono (Nat.le_succ _)) (Nat.succ_pos _), by omega⟩
  · intro state hs
    have hother : l.kind ≠ op.sign.kind := by
      intro heq
      rw [heq] at hl
      omega
    exact Gives.bind (gives_eat_of_ne hs hother (gives_pure ⟨rfl, hs⟩))
  · rintro operands last ⟨hoperands, hlast⟩
    refine gives_node fun span => ⟨?_, hlast⟩
    rw [Tree.skeleton_node, List.map_cons, ht, hoperands, Formula.tree, Formula.trees_eq_map,
      List.map_cons]

theorem climbs_bool {op : BoolOp} {first second : Formula} {more : List Formula}
    (hfirst : Climbs ending lost first (op.level + 1) (first.lexemes (op.level + 1)))
    (hmore : ∀ f ∈ second :: more,
      IsOperand ending lost f (op.level + 1) (f.lexemes (op.level + 1)))
    (hle : level ≤ op.level) :
    Climbs ending lost (.bool op first second more) level
      (Formula.bool op first second more).bare := by
  have hleftPower : 2 * op.level ≤ (Power.ofBool op).1 + 1 := by cases op <;> decide
  have hpos : 0 < op.level := by cases op <;> decide
  refine climbs_of_extend hfirst (Nat.le_succ_of_le hle) (canFollow_boolSign op) ?_
  intro room least start state t l tail hleast hfollow hread
  refine gives_extend_bool hread.2 (by omega) ?_
  exact gives_boolChain hmore (hfollow.mono (bound_mono hle) hpos) hread

theorem compareOp?_is {second : TokenKind} (h : second ≠ .keyword .notKw) :
    Power.compareOp? (.keyword .isKw) second = some (.is, 1) := by
  unfold Power.compareOp?
  split <;> first | rfl | simp_all

theorem exists_signs_eq_cons (op : CompareOp) :
    ∃ sign more, op.signs = sign :: more ∧ CanFollow 5 sign.kind ∧
      leftPower sign.kind < Power.ofCompare.2 := by
  cases op <;> exact ⟨_, _, rfl, ⟨by decide, by decide, by decide⟩, by decide⟩

/-- A comparison is known by its next two tokens; what follows it never starts with `not`. -/
theorem exists_compareOp?_eq {op : CompareOp} {m : Lexeme} (hm : m.kind ≠ .keyword .notKw)
    (hs : Shows ending lost state (op.signs ++ m :: tail)) (hne : state.rest ≠ []) :
    ∃ first second, peek ending state = .ok first state ∧ peekAt 1 ending state = .ok second state ∧
      Power.boolOp? first = none ∧ Power.compareOp? first second = some (op, op.signs.length) := by
  cases op with
  | isNot | notIn =>
    obtain ⟨second, hsecond, hkind⟩ := hs.exists_peekAt_eq hne
    obtain rfl := hkind.resolve_right fun ⟨_, hparen⟩ => nomatch hparen
    exact ⟨_, _, hs.peek_eq hne, hsecond, rfl, rfl⟩
  | is =>
    obtain ⟨second, hsecond, hkind⟩ := hs.exists_peekAt_eq hne
    have hnot : second ≠ .keyword .notKw := by
      rcases hkind with rfl | ⟨rfl, -⟩
      · exact hm
      · exact nofun
    exact ⟨_, second, hs.peek_eq hne, hsecond, rfl, compareOp?_is hnot⟩
  | _ => exact ⟨_, _, hs.peek_eq hne, rfl, rfl, rfl⟩

theorem gives_extend_compare [spent.OfLevel inner] {op : CompareOp} {m : Lexeme} {least : Nat}
    {post : Tree → ParserState → Prop} (hm : m.kind ≠ .keyword .notKw)
    (hs : Shows ending lost state (op.signs ++ m :: tail)) (hleast : least ≤ Power.ofCompare.1)
    (h : Gives ending state (compareChain inner start t) post) :
    Gives ending state (extend inner least start t) fun result next =>
      result.2 = true ∧ post result.1 next := by
  obtain ⟨sign, more, hsigns, -⟩ := exists_signs_eq_cons op
  have hhead := hs
  rw [hsigns, List.cons_append] at hhead
  refine hhead.gives fun hne => ?_
  obtain ⟨first, second, hfirst, hsecond, hbool, hop⟩ := exists_compareOp?_eq hm hs hne
  refine gives_bind_of_ok hfirst ?_
  refine gives_bind_of_ok hsecond ?_
  rw [hbool, hop]
  dsimp only
  rw [if_pos hleast]
  exact Gives.bind (h.mono fun t next hpost => gives_pure ⟨rfl, hpost⟩)

theorem gives_eatCompare {op : CompareOp} {m : Lexeme} (hm : m.kind ≠ .keyword .notKw)
    (hs : Shows ending lost state (op.signs ++ m :: tail)) :
    Gives ending state eatCompare fun result next =>
      result = some op ∧ Shows ending lost next (m :: tail) := by
  obtain ⟨sign, more, hsigns, -⟩ := exists_signs_eq_cons op
  have hhead := hs
  rw [hsigns, List.cons_append] at hhead
  refine hhead.gives fun hne => ?_
  obtain ⟨first, second, hfirst, hsecond, -, hop⟩ := exists_compareOp?_eq hm hs hne
  refine gives_bind_of_ok hfirst ?_
  refine gives_bind_of_ok hsecond ?_
  rw [hop]
  dsimp only
  refine Gives.bind (gives_advance hhead fun next hnext => ?_)
  cases more with
  | nil =>
    rw [hsigns]
    exact gives_pure ⟨rfl, hnext⟩
  | cons second more =>
    have hmore : more = [] := by cases op <;> cases hsigns <;> rfl
    subst hmore
    rw [hsigns]
    exact Gives.bind (gives_advance hnext fun last hlast => gives_pure ⟨rfl, hlast⟩)

theorem gives_eatCompare_none (hs : Shows ending lost state (l :: tail))
    (hl : leftPower l.kind < Power.ofCompare.1) :
    Gives ending state eatCompare fun result next => result = none ∧ next = state := by
  refine hs.gives fun hne => ?_
  refine gives_bind_of_ok (hs.peek_eq hne) ?_
  refine gives_bind_of_ok rfl ?_
  split
  · next hop =>
    rw [leftPower_of_compareOp? hop] at hl
    exact absurd hl (Nat.lt_irrefl _)
  · exact gives_pure ⟨rfl, rfl⟩

/-- The comparisons of a chain. -/
theorem gives_compareChain {first second : Formula} {op : CompareOp}
    {more : List (CompareOp × Formula)} {room : Nat}
    (hmore : ∀ link ∈ (op, second) :: more, IsOperand ending lost link.2 5 (link.2.lexemes 5))
    (hfollow : CanFollow 4 l.kind)
    (hread : ReadUpTo ending lost first (Formula.bareLinks ((op, second) :: more) ++ l :: tail)
      t state) :
    Gives ending state (compareChain (.within room) start t)
      (ReadUpTo ending lost (.compare first op second more) (l :: tail)) := by
  obtain ⟨ht, hs⟩ := hread
  rw [Formula.bareLinks_eq_flatMap] at hs
  have hl := hfollow.power
  refine Gives.bind (Gives.mono (gives_many (gives_manyWithin (Precedes 5 Power.ofCompare.2)
    (fun link => (link.1, link.2.skeleton)) (fun link => (link.1, link.2.tree))
    ?_ ?_ ?_ ?_ ?_ hs (Nat.lt_succ_self _))) ?_)
  · refine ParserLaw.follows_bind spent inferInstance fun result => ?_
    cases result <;> infer_instance
  · rintro ⟨op, f⟩ hf _ state ⟨m, ms, rfl, hm, hmpower⟩ hs
    obtain ⟨n, ns, hns, hstart⟩ := f.starts_lexemes 5
    have hsigns := hs
    dsimp only at hsigns
    rw [hns, List.append_assoc, List.cons_append] at hsigns
    refine ((gives_eatCompare (ne_of_canStart hstart rfl) hsigns).mono ?_).andThen ?_
    · rintro _ next ⟨rfl, hnext⟩
      rw [← List.cons_append, ← hns] at hnext
      refine Gives.bind ((hmore _ hf (by decide) hm (.inr hmpower) hnext).mono ?_)
      intro t last hread
      exact gives_pure ⟨_, rfl, by rw [hread.1], hread.2⟩
    · intro result
      cases result <;> infer_instance
  · rintro ⟨op, f⟩ _ rest
    obtain ⟨sign, signs, hsigns, hsign, hpower⟩ := exists_signs_eq_cons op
    dsimp only
    rw [hsigns]
    exact ⟨List.cons_ne_nil _ _, _, _, rfl, hsign, hpower⟩
  · exact ⟨l, tail, rfl, hfollow.mono (by decide) (by decide), Nat.lt_trans hl (by decide)⟩
  · intro state hs
    refine ((gives_eatCompare_none hs hl).mono ?_).andThen ?_
    · rintro _ _ ⟨rfl, rfl⟩
      exact gives_pure ⟨rfl, hs⟩
    · intro result
      cases result <;> infer_instance
  · rintro links last ⟨hlinks, hlast⟩
    have hops := congrArg (List.map Prod.fst) hlinks
    have htrees := congrArg (List.map Prod.snd) hlinks
    rw [List.map_map, List.map_map] at hops htrees
    have hops : links.map (·.1) = ((op, second) :: more).map (·.1) := hops
    have htrees : links.map (·.2.skeleton) = ((op, second) :: more).map (·.2.tree) := htrees
    refine gives_node fun span => ⟨?_, hlast⟩
    rw [Tree.skeleton_node, List.map_cons, List.map_map, ht, hops, Formula.tree,
      Formula.linkTrees_eq_map]
    exact congrArg _ (congrArg _ htrees)

theorem climbs_compare {first second : Formula} {op : CompareOp}
    {more : List (CompareOp × Formula)}
    (hfirst : Climbs ending lost first 5 (first.lexemes 5))
    (hmore : ∀ link ∈ (op, second) :: more, IsOperand ending lost link.2 5 (link.2.lexemes 5))
    (hle : level ≤ 4) :
    Climbs ending lost (.compare first op second more) level
      (Formula.compare first op second more).bare := by
  obtain ⟨sign, signs, hsigns, hsign, -⟩ := exists_signs_eq_cons op
  have hbare : Formula.bareLinks ((op, second) :: more) =
      sign :: (signs ++ second.lexemes 5 ++ Formula.bareLinks more) := by
    rw [Formula.bareLinks_cons, hsigns, List.cons_append, List.cons_append]
  rw [Formula.bare_compare, hbare]
  refine climbs_of_extend hfirst (Nat.le_succ_of_le hle) hsign ?_
  intro room least start state t l tail hleast hfollow hread
  rw [← List.cons_append, ← hbare] at hread
  obtain ⟨m, ms, hms, hstart⟩ := second.starts_lexemes 5
  have hs := hread.2
  rw [Formula.bareLinks_cons, hms, List.append_assoc, List.append_assoc, List.cons_append] at hs
  refine gives_extend_compare (ne_of_canStart hstart rfl) hs (show least ≤ 7 by omega) ?_
  exact gives_compareChain hmore (hfollow.mono (bound_mono hle) (by decide)) hread

/-! ## Whole formulas -/

/-- A formula that is no conditional is an expression as an operand. -/
theorem isExpression_of_climbs (h : Climbs ending lost f 1 f.bare) :
    IsExpression ending lost f := by
  intro room state l tail hfollow hs
  have hl : leftPower l.kind = 0 := Nat.lt_one_iff.1 hfollow.power
  cases room with
  | zero => exact gives_tooDeeplyNested hs
  | succ room =>
    refine gives_nested hs (fun state hs => ?_) fun depth hread => hread.deepen depth
    obtain ⟨m, ms, hstart, hhead⟩ := exists_shows_cons (starts_bare f) hs
    refine Gives.bind (gives_check_of_ne hhead (ne_of_canStart hstart rfl) ?_)
    rw [if_neg Bool.false_ne_true]
    refine Gives.bind (gives_here fun start => ?_)
    refine Gives.bind ((h.isOperand (by decide) (hfollow.mono (by decide) (by decide)) (.inl hl)
      hs).mono fun t next hread => ?_)
    refine Gives.bind (gives_eat_of_ne hread.2 (hfollow.not_if rfl) ?_)
    exact gives_pure hread

theorem isExpression_conditional {body test orElse : Formula}
    (hbody : IsOperand ending lost body 1 (body.lexemes 1))
    (htest : IsOperand ending lost test 1 (test.lexemes 1))
    (horElse : IsExpression ending lost orElse) :
    IsExpression ending lost (.conditional body test orElse) := by
  intro room state l tail hfollow hs
  cases room with
  | zero => exact gives_tooDeeplyNested hs
  | succ room =>
    refine gives_nested hs (fun state hs => ?_) fun depth hread => hread.deepen depth
    rw [Formula.bare_conditional, Formula.lexemes_of_le (Nat.zero_le orElse.level),
      List.append_assoc, List.cons_append, List.append_assoc, List.cons_append] at hs
    obtain ⟨m, ms, hstart, hhead⟩ := exists_shows_cons (body.starts_lexemes 1) hs
    have hif : CanFollow 1 Lexeme.ifWord.kind := ⟨by decide, by decide, by decide⟩
    have helse : CanFollow 1 Lexeme.elseWord.kind := ⟨by decide, by decide, by decide⟩
    refine Gives.bind (gives_check_of_ne hhead (ne_of_canStart hstart rfl) ?_)
    rw [if_neg Bool.false_ne_true]
    refine Gives.bind (gives_here fun start => ?_)
    refine Gives.bind ((hbody (by decide) hif (.inl rfl) hs).mono fun b first hb => ?_)
    refine Gives.bind (gives_eat_of_eq hb.2 rfl fun second hsecond => ?_)
    rw [if_pos rfl]
    refine Gives.bind ((htest (by decide) helse (.inl rfl) hsecond).mono fun c third hc => ?_)
    refine Gives.bind (gives_eat_of_eq hc.2 rfl fun fourth hfourth => ?_)
    rw [if_pos rfl]
    refine Gives.bind ((horElse hfollow hfourth).mono fun e last he => ?_)
    refine gives_node fun span => ⟨?_, he.2⟩
    rw [Tree.skeleton_node, List.map_cons, List.map_cons, List.map_cons, hb.1, hc.1, he.1]
    rfl

/-- A formula can be read wherever it may stand. -/
structure Parses (ending : Ending) (lost : List Lexeme) (f : Formula) : Prop where
  climbs : ∀ level, Climbs ending lost f level (f.lexemes level)
  expression : IsExpression ending lost f

/-- Where a looser formula than asked for stands, it is in parentheses. -/
theorem Parses.of_bare (h : ∀ {level}, level ≤ f.level → Climbs ending lost f level f.bare)
    (hexpression : IsExpression ending lost f) : Parses ending lost f := by
  refine ⟨fun level => ?_, hexpression⟩
  by_cases hlt : f.level < level
  · rw [Formula.lexemes_of_lt hlt]
    exact climbs_enclosed hexpression level
  · rw [Formula.lexemes_of_le (Nat.not_lt.1 hlt)]
    exact h (Nat.not_lt.1 hlt)

theorem Parses.of_climbs (hpos : 0 < f.level)
    (h : ∀ {level}, level ≤ f.level → Climbs ending lost f level f.bare) :
    Parses ending lost f := .of_bare h (isExpression_of_climbs (h hpos))

theorem parses (ending : Ending) (lost : List Lexeme) (f : Formula) : Parses ending lost f := by
  induction f using Formula.induction with
  | name id => exact .of_climbs (by decide : 0 < 13) fun _ => climbs_name id _
  | number literal => exact .of_climbs (by decide : 0 < 13) fun _ => climbs_number literal _
  | unary op f ih =>
    have hpos : 0 < op.level := by cases op <;> decide
    exact .of_climbs hpos (climbs_unary (ih.climbs _).isOperand)
  | binary op left right hleft hright =>
    have hpos : 0 < op.level := by cases op <;> decide
    exact .of_climbs hpos (climbs_binary (hleft.climbs _) (hright.climbs _).isOperand)
  | bool op first second more hfirst hmore =>
    have hpos : 0 < op.level := by cases op <;> decide
    exact .of_climbs hpos
      (climbs_bool (hfirst.climbs _) fun f hf => ((hmore f hf).climbs _).isOperand)
  | compare first op second more hfirst hmore =>
    exact .of_climbs (by decide : 0 < 4)
      (climbs_compare (hfirst.climbs _) fun link hlink => ((hmore link hlink).climbs _).isOperand)
  | conditional body test orElse hbody htest horElse =>
    refine .of_bare ?_ (isExpression_conditional (hbody.climbs _).isOperand
      (htest.climbs _).isOperand horElse.expression)
    -- no operand is asked for where a conditional stands without parentheses
    intro level hlevel room least start state l tail post hleast
    have hlevel : level ≤ 0 := hlevel
    omega

/-! ## Statements and snippets -/

/-- The end of the line after a formula. -/
def newline : Lexeme := ⟨.newline, []⟩

theorem canFollow_newline : CanFollow 0 newline.kind := ⟨by decide, by decide, by decide⟩

/-- The statement that is a formula. -/
def statement (f : Formula) : Tree := .node .exprStmt .zero [f.tree]

theorem gives_assigned (hs : Shows ending lost state (f.bare ++ newline :: tail)) :
    Gives ending state (assigned .top) (ReadUpTo ending lost f (newline :: tail)) := by
  obtain ⟨m, ms, hstart, hhead⟩ := exists_shows_cons (starts_bare f) hs
  have hitem : Gives ending state (star .top) (ReadUpTo ending lost f (newline :: tail)) := by
    refine Gives.bind (gives_check_of_ne hhead (ne_of_canStart hstart rfl) ?_)
    rw [if_neg Bool.false_ne_true]
    exact (parses ending lost f).expression canFollow_newline hs
  refine Gives.bind (gives_check_of_ne hhead (ne_of_canStart hstart rfl) ?_)
  rw [if_neg Bool.false_ne_true]
  refine Gives.bind (gives_here fun start => Gives.bind (hitem.mono fun t next hread => ?_))
  refine Gives.bind (gives_check_of_ne hread.2 nofun ?_)
  exact gives_pure hread

theorem gives_expressionStmt (hs : Shows ending lost state (f.bare ++ newline :: tail)) :
    Gives ending state Simple.expressionStmt fun t next =>
      t.skeleton = statement f ∧ Shows ending lost next (newline :: tail) := by
  refine gives_bind_of_ok rfl ?_
  refine ((gives_assigned hs).mono fun t next hread => ?_).andThen fun first => ?_
  · refine (gives_peek hread.2 ?_).andThen fun kind => ?_
    · have hprint : (Simple.isPrint t && Simple.followsPrint newline.kind) = false :=
        Bool.and_false _
      show Gives ending next (if _ then _ else _) _
      rw [hprint]
      refine gives_node fun span => ⟨?_, hread.2⟩
      rw [Tree.skeleton_node, List.map_cons, hread.1]
      rfl
    · split
      · infer_instance
      · split <;> infer_instance
  · refine ParserLaw.follows_bind spent inferInstance fun kind => ?_
    split
    · infer_instance
    · split <;> infer_instance

theorem gives_line (hs : Shows ending lost state (f.bare ++ newline :: tail)) :
    Gives ending state Simple.line fun ts next =>
      ts.map Tree.skeleton = [statement f] ∧ Shows ending lost next tail := by
  obtain ⟨m, ms, hstart, hhead⟩ := exists_shows_cons (starts_bare f) hs
  have hstatement : Gives ending state Simple.statement fun t next =>
      t.skeleton = statement f ∧ Shows ending lost next (newline :: tail) := by
    refine hhead.gives fun hne => gives_bind_of_ok (hhead.peek_eq hne) ?_
    -- no formula starts with the keyword of a statement
    split
    all_goals first
      | exact absurd ‹m.kind = _› (ne_of_canStart hstart rfl)
      | exact gives_expressionStmt hs
  refine Gives.bind (hstatement.mono ?_)
  rintro t next ⟨ht, hnext⟩
  refine Gives.bind (gives_many (gives_manyWithin_succ ?_))
  refine Gives.bind (gives_eat_of_ne hnext (by decide) ?_)
  refine gives_pure ?_
  refine Gives.bind (gives_require hnext rfl fun last hlast => ?_)
  exact gives_pure ⟨by rw [List.map_cons, ht]; rfl, hlast⟩

theorem exists_mem_of_check {kind : TokenKind} {next : ParserState}
    (h : check kind ending state = .ok true next) (hkind : kind ≠ .endMarker) :
    ∃ token ∈ state.rest, token.kind = kind := by
  obtain ⟨found, _, hpeek, h⟩ := ParserLaw.bind_eq_ok h
  have hfound : found = kind := by
    have heq : (found == kind) = true := by
      injection h
    exact eq_of_beq heq
  cases hpeek
  cases hrest : state.rest with
  | nil =>
    rw [hrest] at hfound
    exact absurd hfound.symm hkind
  | cons token rest =>
    rw [hrest] at hfound
    exact ⟨token, List.mem_cons_self, hfound⟩

/-- A formula that starts with the name `match` is no match statement, for want of a colon. -/
theorem matchStmt_eq_none {ls : List Lexeme} (hs : Shows ending lost state ls)
    (block : Compound.BlockParser) :
    Compound.matchStmt block ending state = .ok none state := by
  have hnone : speculate Compound.matchSubject ending state = .ok none state := by
    unfold speculate
    split
    · next subject next h =>
      obtain ⟨_, first, hfirst, h⟩ := ParserLaw.bind_eq_ok h
      obtain ⟨_, second, hsecond, h⟩ := ParserLaw.bind_eq_ok h
      obtain ⟨found, _, hcheck, h⟩ := ParserLaw.bind_eq_ok h
      obtain ⟨_, _, _, h⟩ := ParserLaw.bind_eq_ok h
      split at h
      · next hcolon =>
        rw [(Bool.and_eq_true_iff.1 hcolon).1] at hcheck
        obtain ⟨token, hmem, hkind⟩ := exists_mem_of_check hcheck (by decide)
        have hfirst : Derivation.Moves state first := Derivation.moves_of_advance hfirst
        have hsecond : Derivation.Moves first second :=
          (inferInstance : Derivation.moves.Follows _).run hsecond
        obtain ⟨tokens, htokens, -⟩ := (hfirst.trans hsecond).taken
        have hshown : token.toLexeme ∈ ls := by
          rw [← hs.tokens_eq, htokens]
          exact List.mem_append_left _ (List.mem_map_of_mem (List.mem_append_right _ hmem))
        exact absurd hkind (hs.plain _ hshown).1
      · cases h
    · rfl
  unfold Compound.matchStmt
  rw [ParserLaw.bind_eq]
  dsimp only [here]
  rw [ParserLaw.bind_eq, hnone]
  rfl

theorem gives_statement (hs : Shows ending lost state (f.bare ++ newline :: tail)) (room : Nat) :
    Gives ending state (Compound.statement (room + 1)) fun ts next =>
      ts.map Tree.skeleton = [statement f] ∧ Shows ending lost next tail := by
  obtain ⟨m, ms, hstart, hhead⟩ := exists_shows_cons (starts_bare f) hs
  refine hhead.gives fun hne => ?_
  refine Gives.of_eq (q := Compound.statementWith _) ?_ rfl
  refine gives_bind_of_ok rfl ?_
  refine gives_bind_of_ok (hhead.peek_eq hne) ?_
  split
  all_goals first
    | exact absurd ‹m.kind = _› (ne_of_canStart hstart rfl)
    | skip
  refine gives_bind_of_ok rfl ?_
  split
  · exact gives_bind_of_ok (matchStmt_eq_none hs _) (gives_line hs)
  · exact gives_line hs

theorem rest_eq_nil (hs : Shows ending lost state []) : state.rest = [] := by
  have htokens := (List.append_eq_nil_iff.1 hs.tokens_eq).1
  exact List.map_eq_nil_iff.1 htokens

theorem gives_statements (hs : Shows ending lost state (f.bare ++ [newline])) (room : Nat) :
    Gives ending state (Module.statements (room + 1)) fun ts next =>
      ts.map Tree.skeleton = [statement f] ∧ Shows ending lost next [] := by
  have hall : Shows ending lost state ([f].flatMap (fun f => f.bare ++ [newline]) ++ []) := by
    simpa using hs
  refine Gives.bind (Gives.mono (gives_many (gives_manyWithin (fun _ => True)
    (List.map Tree.skeleton) (fun f => [statement f]) inferInstance ?_ ?_ trivial ?_ hall
    (Nat.lt_succ_self _))) ?_)
  · intro g _ rest state _ hs
    rw [List.append_assoc] at hs
    obtain ⟨m, ms, -, hhead⟩ := exists_shows_cons (starts_bare g) hs
    refine hhead.gives fun hne => gives_bind_of_ok rfl ?_
    rw [if_neg (by simpa using hne)]
    refine Gives.bind ((gives_statement hs room).mono ?_)
    rintro ts next ⟨hts, hnext⟩
    exact gives_pure ⟨ts, rfl, hts, hnext⟩
  · exact fun g _ rest => ⟨by simp, trivial⟩
  · intro state hs
    refine gives_bind_of_ok rfl ?_
    rw [rest_eq_nil hs]
    exact gives_pure ⟨rfl, hs⟩
  · rintro ts next ⟨hts, hnext⟩
    refine gives_pure ⟨?_, hnext⟩
    rw [List.map_flatten, hts]
    rfl

/-- The tree of a snippet that is a formula. -/
def snippet (f : Formula) : Tree := .node .module .zero [statement f]

theorem gives_module (hs : Shows ending lost state (f.bare ++ [newline])) (room : Nat) :
    Gives ending state (Module.module (room + 1)) fun t _ => t.skeleton = snippet f := by
  -- what stands after the tokens is known to the last check
  refine Gives.of_eq (q := do
    let start ← here
    let statements ← Module.statements (room + 1)
    if ending.fault.isSome then failHere .invalidSyntax
    else return .node .module ⟨start, ending.position⟩ statements) ?_ rfl
  refine Gives.bind (gives_here fun start => ?_)
  refine Gives.bind ((gives_statements hs room).mono ?_)
  rintro ts next ⟨hts, hnext⟩
  have hfault : ending.fault = none := by
    rcases hnext.cut with ⟨-, hfault⟩ | ⟨⟨more, hlost⟩, -⟩
    · exact hfault
    · have htokens := (List.append_eq_nil_iff.1 hnext.tokens_eq).2
      rw [hlost] at htokens
      cases htokens
  rw [hfault]
  refine gives_pure ?_
  rw [Tree.skeleton_node, hts]
  rfl

/-! ## Streams of formulas -/

/-- A lexeme that the grammar sees, and that neither names a value nor ends a header. -/
structure IsPlain (l : Lexeme) : Prop where
  not_trivia : l.kind.isTrivia = false
  not_end : l.kind ≠ .endMarker
  not_colon : l.kind ≠ .op .colon ∧ l.kind ≠ .op .colonEqual

theorem isPlain_of_balanced {depth : Nat} {ls : List Lexeme} (h : Formula.Balanced depth ls) :
    ∀ l ∈ ls, IsPlain l := by
  induction h with
  | nil => exact fun l hl => nomatch hl
  | lexeme writes _ ih =>
    refine List.forall_mem_cons.2 ⟨?_, ih⟩
    cases writes with
    | name id | number literal | ifWord | elseWord => exact ⟨rfl, nofun, nofun, nofun⟩
    | unary op | binary op | bool op => cases op <;> exact ⟨rfl, nofun, nofun, nofun⟩
    | compare op _ mem =>
      have hall : ∀ l ∈ op.signs, l.kind.isTrivia = false ∧ l.kind ≠ .endMarker ∧
          l.kind ≠ .op .colon ∧ l.kind ≠ .op .colonEqual := by cases op <;> decide
      obtain ⟨htrivia, hend, hcolon⟩ := hall _ mem
      exact ⟨htrivia, hend, hcolon⟩
  | leftParen _ ih | rightParen _ ih =>
    exact List.forall_mem_cons.2 ⟨⟨rfl, nofun, nofun, nofun⟩, ih⟩

theorem map_toLexeme_significant (stream : TokenStream) :
    (Module.significant stream).map Token.toLexeme =
      (stream.tokens.map Token.toLexeme).filter fun l =>
        !l.kind.isTrivia && l.kind != .endMarker := by
  rw [List.filter_map]
  rfl

/-- A lexeme that the grammar sees. -/
def IsSeen (l : Lexeme) : Prop := l.kind.isTrivia = false ∧ l.kind ≠ .endMarker

theorem IsPlain.isSeen {l : Lexeme} (h : IsPlain l) : IsSeen l := ⟨h.not_trivia, h.not_end⟩

theorem filter_eq_self {ls : List Lexeme} (h : ∀ l ∈ ls, IsSeen l) :
    (ls.filter fun l => !l.kind.isTrivia && l.kind != .endMarker) = ls := by
  refine List.filter_eq_self.2 fun l hl => ?_
  simp [(h l hl).1, (h l hl).2]

/-- The parser starts before the lexemes of a formula and the end of the line. -/
theorem exists_shows_initial {stream : TokenStream} {ls : List Lexeme} (h : Lexed stream ls)
    (hls : ∀ l ∈ ls, IsPlain l) :
    ∃ lost, Shows (Module.endingOf stream) lost (Module.initial stream) (ls ++ [newline]) := by
  have hplain : ∀ l ∈ ls ++ [newline], l.kind ≠ .op .colon ∧ l.kind ≠ .op .colonEqual := by
    intro l hl
    rcases List.mem_append.1 hl with hl | hl
    · exact (hls l hl).not_colon
    · obtain rfl := List.mem_singleton.1 hl
      exact ⟨nofun, nofun⟩
  cases h with
  | whole tokens_eq =>
    refine ⟨[], ?_, .inl ⟨rfl, rfl⟩, rfl, hplain⟩
    show (Module.significant _).map _ ++ [] = _
    rw [map_toLexeme_significant, tokens_eq, List.filter_append,
      filter_eq_self fun l hl => (hls l hl).isSeen, List.append_nil]
    rfl
  | @cut tokens front back position tokens_eq =>
    refine ⟨.leftParen :: (back ++ [newline]), ?_, .inr ⟨⟨_, rfl⟩, rfl⟩, rfl, hplain⟩
    have hfront : ∀ l ∈ front, IsPlain l := fun l hl => hls l (List.mem_append_left _ hl)
    show (Module.significant _).map _ ++ _ = _
    rw [map_toLexeme_significant, tokens_eq, filter_eq_self fun l hl => (hfront l hl).isSeen,
      List.append_assoc, List.cons_append]

/-- The text of a formula parses back to the formula, as the one statement of its snippet, unless
expressions or brackets nest too deeply in it. -/
theorem formula_text_parses_back (f : Formula) :
    (∃ t, Module.parse f.text = .ok t ∧
      t.skeleton = .node .module .zero [.node .exprStmt .zero [f.tree]]) ∨
    ∃ error, Module.parse f.text = .error error ∧
      (error.fault = .tooDeeplyNested ∨ error.fault = .lexical .tooManyBrackets) := by
  obtain ⟨lost, hs⟩ :=
    exists_shows_initial (lexed_ofText f) (isPlain_of_balanced (f.balanced_lexemes 0))
  rw [Formula.lexemes_of_le (Nat.zero_le _)] at hs
  have hgives := gives_module hs (Module.initial (.ofText f.text)).left
  unfold Module.parse Module.ofStream
  dsimp only
  split
  · next t next hok =>
    have hnone := Agreement.fault_eq_none_of_module hok
    refine .inl ⟨t, rfl, (hgives.ok hok).resolve_right fun hspent => ?_⟩
    rw [hspent.fault_eq] at hnone
    cases hnone
  · next error next hfail => exact .inr ⟨error, rfl, hgives.fail hfail⟩

/-- Both operands have a sign, and only the first one needs parentheses. -/
example :
    let x : Formula := .name ⟨'x', [], rfl, nofun, rfl⟩
    (Formula.binary .pow (.unary .minus x) (.unary .minus x)).text = "( - x ) ** - x" ∧
      (Module.parse "( - x ) ** - x").toOption.isSome = true := by
  decide +kernel

end SnippetLint.Precedence
