import SnippetLint.Proofs.Blocks
import SnippetLint.Token.Feed

/-!
The discipline of a token stream. A `Standing` is what the tokens so far leave open: blocks,
brackets and the logical line. `Next` lists how a token may change it, every step of a lexer goes by
these rules (`runs_of_emits`), and so does a whole stream (`runs_of_lexes`). What the rules say of
prefixes is read off from runs. Main statement: `streams_are_disciplined`.
-/

namespace SnippetLint.Discipline
open SnippetLint.Blocks

/-! ## Brackets -/

/-- The bracket that closes an opening one. -/
def closer? : Operator → Option Operator
  | .leftParen => some .rightParen
  | .leftBracket => some .rightBracket
  | .leftBrace => some .rightBrace
  | _ => none

def isOpener (sign : Operator) : Bool := (closer? sign).isSome

def isCloser : Operator → Bool
  | .rightParen | .rightBracket | .rightBrace => true
  | _ => false

/-- Words in which every bracket has its partner. -/
inductive Matched : List Operator → Prop
  | nil : Matched []
  | pair {opening closing : Operator} {inside after : List Operator}
      (partners : closer? opening = some closing) (within : Matched inside)
      (later : Matched after) : Matched (opening :: (inside ++ closing :: after))

/-- The bracket that a kind of token is. -/
def bracketOf? : TokenKind → Option Operator
  | .op sign => if isOpener sign || isCloser sign then some sign else none
  | _ => none

/-- The brackets among some tokens. -/
def brackets (tokens : List Token) : List Operator := tokens.filterMap fun t => bracketOf? t.kind

/-- Opening brackets less closing ones. -/
def openBrackets (tokens : List Token) : Int :=
  (brackets tokens).countP isOpener - (brackets tokens).countP isCloser

@[simp] theorem brackets_nil : brackets [] = [] := rfl

@[simp] theorem brackets_append (ts us : List Token) :
    brackets (ts ++ us) = brackets ts ++ brackets us := List.filterMap_append

@[simp] theorem openBrackets_append (ts us : List Token) :
    openBrackets (ts ++ us) = openBrackets ts + openBrackets us := by
  simp only [openBrackets, brackets_append, List.countP_append]
  omega

/-- What closes the open brackets of a stack, innermost first, and matches otherwise. -/
inductive Unwinds : List Operator → List Operator → Prop
  | bare {word : List Operator} (matched : Matched word) : Unwinds [] word
  | close {closing : Operator} {stack inside after : List Operator} (matched : Matched inside)
      (later : Unwinds stack after) : Unwinds (closing :: stack) (inside ++ closing :: after)

theorem Unwinds.stack (stack : List Operator) : Unwinds stack stack := by
  induction stack with
  | nil => exact .bare .nil
  | cons closing stack ih => exact .close .nil ih

theorem Unwinds.open {opening closing : Operator} {stack word : List Operator}
    (partners : closer? opening = some closing) (h : Unwinds (closing :: stack) word) :
    Unwinds stack (opening :: word) := by
  cases h with
  | close matched later =>
    cases later with
    | bare rest => exact .bare (.pair partners matched rest)
    | @close outer stack between after rest later =>
      have hclose : Unwinds (outer :: stack) _ :=
        .close (.pair partners matched rest) later
      simpa using hclose

/-! ## Standings -/

/-- What tokens leave open. -/
structure Standing where
  blocks : Nat
  /-- The closing brackets that have to come, innermost first. -/
  closers : List Operator
  /-- Whether the logical line has a token. -/
  content : Bool

/-- Tokens that are part of a logical line. -/
def isSignificant (kind : TokenKind) : Bool := !kind.isTrivia && !kind.isLayout

/-- How a token may change a standing. The mark of the end is not among them. -/
inductive Next : Standing → Token → Standing → Prop
  | opening {blocks : Nat} {closers : List Operator} {content : Bool} {token : Token}
      {sign closing : Operator} (kind : token.kind = .op sign)
      (partners : closer? sign = some closing) (room : closers.length < Bracket.maxDepth) :
      Next ⟨blocks, closers, content⟩ token ⟨blocks, closing :: closers, true⟩
  | closing {blocks : Nat} {closers : List Operator} {content : Bool} {token : Token}
      {sign : Operator} (kind : token.kind = .op sign) (closes : isCloser sign = true) :
      Next ⟨blocks, sign :: closers, content⟩ token ⟨blocks, closers, true⟩
  | content {blocks : Nat} {closers : List Operator} {content : Bool} {token : Token}
      (significant : isSignificant token.kind = true) (plain : bracketOf? token.kind = none) :
      Next ⟨blocks, closers, content⟩ token ⟨blocks, closers, true⟩
  | trivia {standing : Standing} {token : Token} (trivial : token.kind.isTrivia = true) :
      Next standing token standing
  | newline {blocks : Nat} {token : Token} (kind : token.kind = .newline) :
      Next ⟨blocks, [], true⟩ token ⟨blocks, [], false⟩
  | indent {blocks : Nat} {content : Bool} {token : Token} (kind : token.kind = .indent)
      (room : blocks < Indentation.maxBlocks) :
      Next ⟨blocks, [], content⟩ token ⟨blocks + 1, [], content⟩
  | dedent {blocks : Nat} {content : Bool} {token : Token} (kind : token.kind = .dedent) :
      Next ⟨blocks + 1, [], content⟩ token ⟨blocks, [], content⟩

inductive Runs : Standing → List Token → Standing → Prop
  | nil (standing : Standing) : Runs standing [] standing
  | cons {a b c : Standing} {token : Token} {tokens : List Token} (next : Next a token b)
      (rest : Runs b tokens c) : Runs a (token :: tokens) c

theorem Runs.one {a b : Standing} {token : Token} (h : Next a token b) : Runs a [token] b :=
  .cons h (.nil b)

theorem Runs.append {a b c : Standing} {ts us : List Token} (h : Runs a ts b) (k : Runs b us c) :
    Runs a (ts ++ us) c := by
  induction h with
  | nil => exact k
  | cons next _ ih => exact .cons next (ih k)

theorem Runs.split {a c : Standing} {ts us : List Token} (h : Runs a (ts ++ us) c) :
    ∃ b, Runs a ts b ∧ Runs b us c := by
  induction ts generalizing a with
  | nil => exact ⟨a, .nil a, h⟩
  | cons t ts ih =>
    cases h with
    | cons next rest =>
      obtain ⟨b, hts, hus⟩ := ih rest
      exact ⟨b, .cons next hts, hus⟩

/-! ## What a run says of its tokens -/

section Run

variable {a b : Standing} {token : Token} {tokens : List Token}

theorem bracketOf?_of_trivia : ∀ {kind : TokenKind}, kind.isTrivia = true → bracketOf? kind = none
  | .comment, _ => rfl
  | .nl, _ => rfl

theorem isLayout_of_isTrivia : ∀ {kind : TokenKind}, kind.isTrivia = true → kind.isLayout = false
  | .comment, _ => rfl
  | .nl, _ => rfl

theorem isOpener_of_isCloser : ∀ {sign : Operator}, isCloser sign = true → isOpener sign = false
  | .rightParen, _ => rfl
  | .rightBracket, _ => rfl
  | .rightBrace, _ => rfl

theorem bracketOf?_opening {sign closing : Operator} (h : closer? sign = some closing) :
    bracketOf? (.op sign) = some sign := by
  simp [bracketOf?, isOpener, h]

theorem bracketOf?_closing {sign : Operator} (h : isCloser sign = true) :
    bracketOf? (.op sign) = some sign := by
  simp [bracketOf?, h]

theorem brackets_singleton (token : Token) : brackets [token] = (bracketOf? token.kind).toList := by
  cases h : bracketOf? token.kind <;> simp [brackets, h]

theorem isCloser_eq_false {sign closing : Operator} (h : closer? sign = some closing) :
    isCloser sign = false := by
  cases sign <;> cases h <;> rfl

theorem openBlocks_eq_zero (h : token.kind.isLayout = false) : openBlocks [token] = 0 := by
  refine openBlocks_other ?_ ?_ <;> intro hkind <;> rw [hkind] at h <;> cases h

/-- A token changes the number of open blocks by what it counts for. -/
theorem Next.openBlocks_eq (h : Next a token b) :
    (b.blocks : Int) = a.blocks + openBlocks [token] := by
  cases h with
  | opening kind _ _ => rw [openBlocks_eq_zero (by rw [kind]; rfl), Int.add_zero]
  | closing kind _ => rw [openBlocks_eq_zero (by rw [kind]; rfl), Int.add_zero]
  | content significant _ =>
    rw [openBlocks_eq_zero (by simpa using (Bool.and_eq_true_iff.1 significant).2), Int.add_zero]
  | trivia trivial => rw [openBlocks_eq_zero (isLayout_of_isTrivia trivial), Int.add_zero]
  | newline kind => rw [openBlocks_other (by simp [kind]) (by simp [kind]), Int.add_zero]
  | indent kind _ => rw [openBlocks_indent kind, Int.natCast_add, Int.natCast_one]
  | @dedent blocks _ _ kind =>
    rw [openBlocks_dedent kind]
    show (blocks : Int) = (blocks + 1 : Nat) + -1
    omega

/-- A token opens or closes the bracket that it is. -/
theorem Next.brackets_cases (h : Next a token b) :
    (∃ sign closing, brackets [token] = [sign] ∧ closer? sign = some closing ∧
      b.closers = closing :: a.closers) ∨
    (∃ sign, brackets [token] = [sign] ∧ isCloser sign = true ∧ a.closers = sign :: b.closers) ∨
    brackets [token] = [] ∧ b.closers = a.closers := by
  cases h with
  | @opening _ _ _ _ sign closing kind partners _ =>
    refine .inl ⟨sign, closing, ?_, partners, rfl⟩
    rw [brackets_singleton, kind, bracketOf?_opening partners, Option.toList_some]
  | @closing _ _ _ _ sign kind closes =>
    refine .inr (.inl ⟨sign, ?_, closes, rfl⟩)
    rw [brackets_singleton, kind, bracketOf?_closing closes, Option.toList_some]
  | content _ plain => exact .inr (.inr ⟨by rw [brackets_singleton, plain]; rfl, rfl⟩)
  | trivia trivial =>
    exact .inr (.inr ⟨by rw [brackets_singleton, bracketOf?_of_trivia trivial]; rfl, rfl⟩)
  | newline kind | indent kind _ | dedent kind =>
    refine .inr (.inr ⟨?_, rfl⟩)
    rw [brackets_singleton, kind]
    rfl

theorem Next.openBrackets_eq (h : Next a token b) :
    (b.closers.length : Int) = a.closers.length + openBrackets [token] := by
  rcases h.brackets_cases with ⟨sign, closing, hword, partners, hb⟩ | ⟨sign, hword, closes, ha⟩ |
    ⟨hword, hb⟩
  · have hopen : isOpener sign = true := by rw [isOpener, partners]; rfl
    simp [openBrackets, hword, hopen, isCloser_eq_false partners, hb]
  · have hchange : openBrackets [token] = -1 := by
      simp [openBrackets, hword, isOpener_of_isCloser closes, closes]
    rw [hchange, ha, List.length_cons]
    omega
  · simp [openBrackets, hword, hb]

theorem Next.limits (h : Next a token b)
    (ha : a.blocks ≤ Indentation.maxBlocks ∧ a.closers.length ≤ Bracket.maxDepth) :
    b.blocks ≤ Indentation.maxBlocks ∧ b.closers.length ≤ Bracket.maxDepth := by
  cases h with
  | opening _ _ room => exact ⟨ha.1, room⟩
  | closing _ _ => exact ⟨ha.1, Nat.le_of_succ_le ha.2⟩
  | content _ _ => exact ha
  | trivia _ => exact ha
  | newline _ => exact ha
  | indent _ room => exact ⟨room, ha.2⟩
  | dedent _ => exact ⟨Nat.le_of_succ_le ha.1, ha.2⟩

/-- A logical line gets its first token from a token that is part of it. -/
theorem Next.significant (h : Next a token b) (ha : a.content = false) (hb : b.content = true) :
    isSignificant token.kind = true := by
  cases h with
  | opening kind _ _ => rw [kind]; rfl
  | closing kind _ => rw [kind]; rfl
  | content significant _ => exact significant
  | trivia _ => rw [ha] at hb; cases hb
  | newline _ => cases hb
  | indent _ _ => exact absurd (ha.symm.trans hb) Bool.false_ne_true
  | dedent _ => exact absurd (ha.symm.trans hb) Bool.false_ne_true

theorem Runs.openBlocks_eq (h : Runs a tokens b) :
    (b.blocks : Int) = a.blocks + openBlocks tokens := by
  induction h with
  | nil => simp
  | @cons a b c token tokens next _ ih =>
    have hnext := next.openBlocks_eq
    rw [← List.singleton_append, openBlocks_append]
    omega

theorem Runs.openBrackets_eq (h : Runs a tokens b) :
    (b.closers.length : Int) = a.closers.length + openBrackets tokens := by
  induction h with
  | nil => simp [openBrackets]
  | @cons a b c token tokens next _ ih =>
    have hnext := next.openBrackets_eq
    rw [← List.singleton_append, openBrackets_append]
    omega

/-- The brackets read, and then those that have to come, close what was open before. -/
theorem Runs.unwinds (h : Runs a tokens b) {word : List Operator} (hb : Unwinds b.closers word) :
    Unwinds a.closers (brackets tokens ++ word) := by
  induction h with
  | nil => exact hb
  | @cons a b c token tokens next _ ih =>
    have hrest := ih hb
    rw [← List.singleton_append, brackets_append, List.append_assoc]
    rcases next.brackets_cases with ⟨sign, closing, hword, partners, hclosers⟩ |
      ⟨sign, hword, _, hclosers⟩ | ⟨hword, hclosers⟩
    · rw [hclosers] at hrest
      rw [hword]
      exact hrest.open partners
    · rw [hclosers, hword]
      exact .close .nil hrest
    · rw [hword, ← hclosers]
      exact hrest

theorem Runs.limits (h : Runs a tokens b)
    (ha : a.blocks ≤ Indentation.maxBlocks ∧ a.closers.length ≤ Bracket.maxDepth) :
    b.blocks ≤ Indentation.maxBlocks ∧ b.closers.length ≤ Bracket.maxDepth := by
  induction h with
  | nil => exact ha
  | cons next _ ih => exact ih (next.limits ha)

theorem Runs.exists_significant (h : Runs a tokens b) (ha : a.content = false)
    (hb : b.content = true) : ∃ token ∈ tokens, isSignificant token.kind = true := by
  induction h with
  | nil => rw [ha] at hb; cases hb
  | @cons a b c token tokens next _ ih =>
    cases hcontent : b.content with
    | true => exact ⟨token, List.mem_cons_self, next.significant ha hcontent⟩
    | false =>
      obtain ⟨other, hother, hsignificant⟩ := ih hcontent hb
      exact ⟨other, List.mem_cons_of_mem _ hother, hsignificant⟩

theorem Next.kind_ne_endMarker (h : Next a token b) : token.kind ≠ .endMarker := by
  intro hkind
  cases h with
  | opening kind _ _ | closing kind _ | newline kind | indent kind _ | dedent kind =>
    rw [kind] at hkind
    cases hkind
  | content significant _ => rw [hkind] at significant; cases significant
  | trivia trivial => rw [hkind] at trivial; cases trivial

theorem Runs.kind_ne_endMarker (h : Runs a tokens b) :
    ∀ token ∈ tokens, token.kind ≠ .endMarker := by
  induction h with
  | nil => simp
  | cons next _ ih => exact List.forall_mem_cons.2 ⟨next.kind_ne_endMarker, ih⟩

end Run

/-! ## The runs of a lexer -/

/-- The closing bracket for an opening character. -/
def closing (c : Char) : Operator :=
  if c = '(' then .rightParen else if c = '[' then .rightBracket else .rightBrace

/-- What a lexer has open. -/
def standing (lexer : Lexer) : Standing :=
  ⟨lexer.blocks.length, lexer.brackets.map fun bracket => closing bracket.sign,
    lexer.lineHasContent⟩

/-- Every open bracket was opened by an opening one. -/
def Opened (lexer : Lexer) : Prop :=
  ∀ bracket ∈ lexer.brackets, Bracket.isOpening bracket.sign = true

theorem isCloser_closing (c : Char) : isCloser (closing c) = true := by
  unfold closing
  split
  · rfl
  · split <;> rfl

theorem munch_opening {c : Char} (h : Bracket.isOpening c = true) (cs : List Char)
    (position : Position) :
    ∃ sign, Lexeme.munch ⟨c :: cs, position⟩ = .ok ⟨.op sign, [c]⟩ ∧
      closer? sign = some (closing c) := by
  simp only [Bracket.isOpening, Bool.or_eq_true, beq_iff_eq] at h
  rcases h with (rfl | rfl) | rfl
  · exact ⟨.leftParen, rfl, rfl⟩
  · exact ⟨.leftBracket, rfl, rfl⟩
  · exact ⟨.leftBrace, rfl, rfl⟩

theorem munch_closing {opening c : Char} (h : Bracket.isOpening opening = true)
    (partners : Bracket.partner opening = c) (cs : List Char) (position : Position) :
    Lexeme.munch ⟨c :: cs, position⟩ = .ok ⟨.op (closing opening), [c]⟩ := by
  subst partners
  simp only [Bracket.isOpening, Bool.or_eq_true, beq_iff_eq] at h
  rcases h with (rfl | rfl) | rfl <;> rfl

/-- A bracket among the operators is spelled by the one character that it is. -/
theorem spelling_of_bracket :
    ∀ entry ∈ Operator.table, isOpener entry.2 = true ∨ isCloser entry.2 = true →
      entry.1.toList ∈ ['(', '[', '\x7b', ')', ']', '\x7d'].map ([·]) := by
  decide

theorem bracketOf?_wordKind (word : List Char) : bracketOf? (Word.kind word) = none := by
  unfold Word.kind
  split <;> rfl

theorem bracketOf?_of_operator {c : Char} {cs : List Char} {lexeme : Lexeme}
    (hopening : Bracket.isOpening c = false) (hclosing : Bracket.isClosing c = false)
    (h : Lexeme.operator (c :: cs) = .ok lexeme) : bracketOf? lexeme.kind = none := by
  unfold Lexeme.operator at h
  split at h
  · next spelling sign found =>
    cases h
    simp only [bracketOf?, Bool.or_eq_true]
    refine if_neg fun hbracket => ?_
    obtain ⟨d, hd, hspelling⟩ :=
      List.mem_map.1 (spelling_of_bracket _ (List.mem_of_find?_eq_some found) hbracket)
    have hprefix := List.find?_some found
    obtain rfl : d = c := by simpa [← hspelling] using hprefix
    have hnone : ∀ d ∈ ['(', '[', '\x7b', ')', ']', '\x7d'],
        (Bracket.isOpening d || Bracket.isClosing d) = true := by
      simp [Bracket.isOpening, Bracket.isClosing]
    have hsome := hnone d hd
    rw [hopening, hclosing] at hsome
    cases hsome
  · split at h <;> cases h

/-- What starts with no bracket is none. -/
theorem bracketOf?_of_munch {c : Char} {cs : List Char} {position : Position} {lexeme : Lexeme}
    (hopening : Bracket.isOpening c = false) (hclosing : Bracket.isClosing c = false)
    (h : Lexeme.munch ⟨c :: cs, position⟩ = .ok lexeme) : bracketOf? lexeme.kind = none := by
  cases Lexeme.accepted h with
  | string kind_eq => rw [kind_eq]; rfl
  | number kind_eq => rw [kind_eq]; rfl
  | word kind_eq => rw [kind_eq, bracketOf?_wordKind]
  | operator _ _ operator_eq => exact bracketOf?_of_operator hopening hclosing operator_eq

theorem runs_dedents (k blocks : Nat) (content : Bool) (position : Position) :
    Runs ⟨k + blocks, [], content⟩ (List.replicate k (Lexer.mark .dedent position))
      ⟨blocks, [], content⟩ := by
  induction k with
  | zero => rw [Nat.zero_add]; exact .nil _
  | succ k ih =>
    rw [Nat.succ_add]
    exact .cons (.dedent rfl) ih

/-- A token of the logical line opens and closes what its first character says. -/
theorem next_lexeme {lexer : Lexer} {c : Char} {rest : List Char} {lexeme : Lexeme}
    {brackets : List Bracket} (opened : Opened lexer) (hrest : lexer.here.rest = c :: rest)
    (munched : Lexeme.munch lexer.here = .ok lexeme)
    (updated : Bracket.update c lexer.here.position lexer.brackets = .ok brackets) (n : Nat) :
    Next (standing lexer) (Lexer.take lexer.here lexeme.kind n)
      ⟨lexer.blocks.length, brackets.map fun bracket => closing bracket.sign, true⟩ ∧
    ∀ bracket ∈ brackets, Bracket.isOpening bracket.sign = true := by
  have hhere : lexer.here = ⟨c :: rest, lexer.here.position⟩ := by rw [← hrest]
  rw [hhere] at munched
  unfold Bracket.update at updated
  split at updated
  · next hopening =>
    split at updated
    · cases updated
    · next hroom =>
      cases updated
      obtain ⟨sign, hmunch, partners⟩ := munch_opening hopening rest lexer.here.position
      rw [hmunch] at munched
      cases munched
      refine ⟨?_, List.forall_mem_cons.2 ⟨hopening, opened⟩⟩
      exact .opening rfl partners (by simpa using hroom)
  · next hopening =>
    split at updated
    · next hclosing =>
      split at updated
      · cases updated
      · next top outer hbrackets =>
        split at updated
        · next partners =>
          have hall : ∀ bracket ∈ top :: outer, Bracket.isOpening bracket.sign = true := by
            rw [← hbrackets]
            exact opened
          obtain ⟨htop, houter⟩ := List.forall_mem_cons.1 hall
          cases updated
          rw [munch_closing htop partners] at munched
          cases munched
          refine ⟨?_, houter⟩
          rw [standing, hbrackets]
          exact .closing rfl (isCloser_closing _)
        · cases updated
    · next hclosing =>
      cases updated
      have hplain := bracketOf?_of_munch (by simpa using hopening) (by simpa using hclosing) munched
      have hcontent := Lexeme.isContent_of_munch munched
      refine ⟨.content ?_ hplain, opened⟩
      simp [isSignificant, Lexer.take, hcontent.not_trivia, hcontent.not_layout]

theorem brackets_eq_nil_of_measures {lexer : Lexer} (h : lexer.measures = true) :
    lexer.brackets = [] := List.isEmpty_iff.1 (Bool.and_eq_true_iff.1 h).2

theorem lt_maxBlocks_of_deeper {here : Indentation} {blocks : List Indentation}
    (h : here.compare blocks = .ok .deeper) : blocks.length < Indentation.maxBlocks := by
  unfold Indentation.compare at h
  simp only at h
  repeat' split at h
  all_goals cases h
  omega

/-- Every step of a lexer keeps to the rules. -/
theorem runs_of_emits {tabSize : Nat} {lexer next : Lexer} {tokens : List Token}
    (h : lexer.Emits tabSize tokens next) (opened : Opened lexer) :
    Runs (standing lexer) tokens (standing next) ∧ Opened next := by
  cases h with
  | blank _ _ => exact ⟨.nil _, opened⟩
  | same _ _ => exact ⟨.nil _, opened⟩
  | deeper measured compared =>
    refine ⟨?_, opened⟩
    rw [standing, standing, brackets_eq_nil_of_measures measured]
    exact .one (.indent rfl (lt_maxBlocks_of_deeper compared))
  | shallower closed remaining measured compared =>
    refine ⟨?_, opened⟩
    rw [standing, standing, brackets_eq_nil_of_measures measured,
      ← Indentation.closed_add_remaining compared]
    exact runs_dedents closed remaining.length lexer.lineHasContent _
  | join _ _ _ _ => exact ⟨.nil _, opened⟩
  | lineBreak _ _ =>
    refine ⟨.one ?_, opened⟩
    cases hends : lexer.brackets.isEmpty && lexer.lineHasContent with
    | true =>
      obtain ⟨hbrackets, hcontent⟩ := Bool.and_eq_true_iff.1 hends
      simp only [standing, List.isEmpty_iff.1 hbrackets, hcontent]
      exact .newline rfl
    | false =>
      have hsame : standing { lexer with
          cursor := lexer.here.skip (Cursor.lineBreak lexer.here.rest).length
          atLineStart := lexer.brackets.isEmpty
          lineHasContent := lexer.lineHasContent && !false } = standing lexer := by
        simp [standing]
      rw [hsame]
      exact .trivia rfl
  | comment _ _ _ => exact ⟨.one (.trivia rfl), opened⟩
  | lexeme c rest lexeme brackets _ hrest munched updated =>
    obtain ⟨hnext, hopened⟩ := next_lexeme opened hrest munched updated lexeme.chars.length
    exact ⟨.one hnext, hopened⟩

/-- At the end of the text the line and all blocks are closed, and the end is marked. -/
theorem runs_of_finishes {lexer : Lexer} {tokens : List Token} (h : lexer.Finishes tokens) :
    ∃ init, tokens = init ++ [Lexer.mark .endMarker lexer.here.position] ∧
      Runs (standing lexer) init ⟨0, [], false⟩ := by
  refine ⟨_, h.tokens_eq, ?_⟩
  have hdedents := runs_dedents lexer.blocks.length 0 false lexer.here.position
  rw [standing, h.brackets_eq]
  cases hcontent : lexer.lineHasContent with
  | true => exact .append (.one (.newline rfl)) hdedents
  | false => exact hdedents

/-- Every stream keeps to the rules, up to its error or to the mark of the end. -/
theorem runs_of_lexes {tabSize : Nat} {lexer : Lexer} {stream : TokenStream}
    (h : lexer.Lexes tabSize stream) (opened : Opened lexer) :
    ∃ init last, Runs (standing lexer) init last ∧
      (stream.error = none ∧ last = ⟨0, [], false⟩ ∧
        (∃ mark : Token, mark.kind = .endMarker ∧ stream.tokens = init ++ [mark]) ∨
      stream.error ≠ none ∧ stream.tokens = init) := by
  induction h with
  | emit emits _ ih =>
    obtain ⟨hruns, hopened⟩ := runs_of_emits emits opened
    obtain ⟨init, last, hinit, hend⟩ := ih hopened
    refine ⟨_, last, hruns.append hinit, ?_⟩
    rcases hend with ⟨hnone, hlast, mark, hmark, htokens⟩ | ⟨hsome, htokens⟩
    · exact .inl ⟨hnone, hlast, mark, hmark, by rw [htokens, List.append_assoc]⟩
    · exact .inr ⟨hsome, by rw [htokens]⟩
  | finish finishes =>
    obtain ⟨init, htokens, hruns⟩ := runs_of_finishes finishes
    exact ⟨init, _, hruns, .inl ⟨rfl, rfl, _, rfl, htokens⟩⟩
  | @fail lexer _ _ => exact ⟨[], standing lexer, .nil _, .inr ⟨nofun, rfl⟩⟩

/-! ## Tokens on demand -/

/-- What a feed has to hand out for a stream: its tokens, then its error. -/
def items (stream : TokenStream) : List (Except LexicalError Token) :=
  stream.tokens.map .ok ++ stream.error.toList.map .error

theorem items_append (tokens : List Token) (stream : TokenStream) :
    items ⟨tokens ++ stream.tokens, stream.error⟩ = tokens.map .ok ++ items stream := by
  simp [items]

/-- More fuel than is needed changes nothing. -/
theorem run_eq_run {tabSize f g : Nat} {lexer : Lexer} (hf : lexer.fuel ≤ f)
    (hg : lexer.fuel ≤ g) : lexer.run tabSize f = lexer.run tabSize g := by
  induction f generalizing lexer g with
  | zero => simp [Lexer.fuel] at hf
  | succ f ih =>
    cases g with
    | zero => simp [Lexer.fuel] at hg
    | succ g =>
      unfold Lexer.run
      split
      · next tokens next hstep =>
        have hlt := Lexer.fuel_lt_of_emits (Lexer.emits_of_step hstep)
        have hrest : next.run tabSize f = next.run tabSize g := ih (by omega) (by omega)
        rw [hrest]
      · rfl
      · rfl

/-- What a feed will hand out: what is pending, and then what its lexer still gives. -/
inductive Feeds : Feed → List (Except LexicalError Token) → Prop
  | running (lexer : Lexer) (pending : List Token) :
      Feeds ⟨lexer, pending, false⟩
        (pending.map .ok ++ items (lexer.run TokenStream.tabSize lexer.fuel))
  | finished (lexer : Lexer) (pending : List Token) :
      Feeds ⟨lexer, pending, true⟩ (pending.map .ok)

/-- A lexer that has not finished gives something. -/
theorem feeds_pull {lexer : Lexer} {fuel : Nat} (hfuel : lexer.fuel ≤ fuel) :
    ∃ first rest, items (lexer.run TokenStream.tabSize fuel) = first :: rest ∧
      (Feed.pull TokenStream.tabSize fuel lexer).1 = some first ∧
      Feeds (Feed.pull TokenStream.tabSize fuel lexer).2 rest := by
  induction fuel generalizing lexer with
  | zero => simp [Lexer.fuel] at hfuel
  | succ fuel ih =>
    unfold Lexer.run Feed.pull
    cases hstep : lexer.step TokenStream.tabSize with
    | emit tokens next =>
      have hlt := Lexer.fuel_lt_of_emits (Lexer.emits_of_step hstep)
      dsimp only
      rw [items_append]
      cases tokens with
      | nil => exact ih (by omega)
      | cons token pending =>
        refine ⟨_, _, rfl, rfl, ?_⟩
        rw [run_eq_run (f := fuel) (g := next.fuel) (by omega) (Nat.le_refl _)]
        exact .running next pending
    | finish tokens =>
      have htokens := (Lexer.finishes_of_step hstep).tokens_eq
      cases tokens with
      | nil => simp at htokens
      | cons token pending =>
        refine ⟨.ok token, pending.map .ok, by simp [items], rfl, .finished lexer pending⟩
    | fail error => exact ⟨.error error, [], rfl, rfl, .finished lexer []⟩

theorem answer_of_feeds {feed : Feed} {items : List (Except LexicalError Token)}
    (h : Feeds feed items) (n : Nat) : feed.answer n = items[n]? := by
  -- what a question is answered with, and what is left for the next one
  have hnext : ∀ {feed items}, Feeds feed items →
      feed.next.1 = items.head? ∧ Feeds feed.next.2 items.tail := by
    intro feed items h
    cases h with
    | running lexer pending =>
      cases pending with
      | nil =>
        obtain ⟨first, rest, hitems, hfirst, hrest⟩ := feeds_pull (Nat.le_refl lexer.fuel)
        rw [List.map_nil, List.nil_append, hitems]
        exact ⟨hfirst, hrest⟩
      | cons token pending => exact ⟨rfl, .running lexer pending⟩
    | finished lexer pending =>
      cases pending with
      | nil => exact ⟨rfl, .finished lexer []⟩
      | cons token pending => exact ⟨rfl, .finished lexer pending⟩
  induction n generalizing feed items with
  | zero => rw [Feed.answer, (hnext h).1, List.head?_eq_getElem?]
  | succ n ih => rw [Feed.answer, ih (hnext h).2, List.getElem?_tail]

/-- A feed hands out the tokens of the stream one by one, then its error if there is one, and then
nothing any more. -/
theorem answer_ofText (source : String) (n : Nat) :
    (Feed.ofText source).answer n = (items (.ofText source))[n]? :=
  answer_of_feeds (.running (.ofText source) []) n

/-! ## The whole stream -/

theorem runs_ofText (source : String) :
    ∃ init last, Runs ⟨0, [], false⟩ init last ∧
      ((TokenStream.ofText source).error = none ∧ last = ⟨0, [], false⟩ ∧
        (∃ mark : Token, mark.kind = .endMarker ∧
          (TokenStream.ofText source).tokens = init ++ [mark]) ∨
      (TokenStream.ofText source).error ≠ none ∧ (TokenStream.ofText source).tokens = init) :=
  runs_of_lexes (TokenStream.lexes_withTabs TokenStream.tabSize source)
    (by simp [Opened, Lexer.ofText])

/-- What stands before a token, and how that token goes on from there. -/
theorem runs_before {source : String} {before after : List Token} {token : Token}
    (h : (TokenStream.ofText source).tokens = before ++ token :: after) :
    ∃ here, Runs ⟨0, [], false⟩ before here ∧
      ((∃ there, Next here token there) ∨
        token.kind = .endMarker ∧ here = ⟨0, [], false⟩ ∧ after = [] ∧
          (TokenStream.ofText source).error = none) := by
  obtain ⟨init, _, hruns, ⟨hnone, rfl, mark, hmark, htokens⟩ | ⟨_, htokens⟩⟩ :=
    runs_ofText source
  · rw [htokens] at h
    rcases List.append_eq_append_iff.1 h with ⟨rest, rfl, hrest⟩ | ⟨rest, rfl, hrest⟩
    · -- the mark is the last token, so nothing of it is left
      obtain ⟨rfl, rfl, rfl⟩ : rest = [] ∧ token = mark ∧ after = [] := by
        cases rest with
        | nil => simpa [eq_comm] using hrest
        | cons first rest => simp at hrest
      rw [List.append_nil]
      exact ⟨_, hruns, .inr ⟨hmark, rfl, rfl, hnone⟩⟩
    · obtain ⟨here, hbefore, hafter⟩ := hruns.split
      cases rest with
      | nil =>
        obtain ⟨rfl, rfl⟩ : token = mark ∧ after = [] := by simpa using hrest
        cases hafter
        exact ⟨_, hbefore, .inr ⟨hmark, rfl, rfl, hnone⟩⟩
      | cons first rest =>
        obtain ⟨rfl, _⟩ : token = first ∧ after = rest ++ [mark] := by simpa using hrest
        cases hafter with
        | cons next _ => exact ⟨here, hbefore, .inl ⟨_, next⟩⟩
  · rw [htokens] at h
    rw [h] at hruns
    obtain ⟨here, hbefore, hafter⟩ := hruns.split
    cases hafter with
    | cons next _ => exact ⟨here, hbefore, .inl ⟨_, next⟩⟩

/-- How the tokens of a prefix stand to each other. -/
structure Balanced (tokens : List Token) : Prop where
  blocks_nonneg : 0 ≤ openBlocks tokens
  blocks_le : openBlocks tokens ≤ 100
  /-- The brackets are the front of a word in which all are matched. -/
  brackets : ∃ closers, Matched (brackets tokens ++ closers) ∧
    openBrackets tokens = closers.length ∧ closers.length ≤ 200

theorem matched_of_runs {tokens : List Token} {last : Standing}
    (h : Runs ⟨0, [], false⟩ tokens last) : Matched (brackets tokens ++ last.closers) := by
  cases h.unwinds (.stack _) with
  | bare matched => exact matched

theorem balanced_of_runs {tokens : List Token} {last : Standing}
    (h : Runs ⟨0, [], false⟩ tokens last) : Balanced tokens := by
  have hblocks := h.openBlocks_eq
  have hbrackets := h.openBrackets_eq
  obtain ⟨hmaxBlocks, hmaxDepth⟩ := h.limits ⟨Nat.zero_le _, Nat.zero_le _⟩
  have hblocks : (last.blocks : Int) = openBlocks tokens := by simpa using hblocks
  have hmaxBlocks : last.blocks ≤ 100 := hmaxBlocks
  refine ⟨by omega, by omega, last.closers, matched_of_runs h, ?_, hmaxDepth⟩
  simpa using hbrackets.symm

theorem Balanced.mark {tokens : List Token} (h : Balanced tokens) {mark : Token}
    (hmark : mark.kind = .endMarker) : Balanced (tokens ++ [mark]) := by
  have hbrackets : Discipline.brackets [mark] = [] := by rw [brackets_singleton, hmark]; rfl
  have hblocks : openBlocks (tokens ++ [mark]) = openBlocks tokens := by
    rw [openBlocks_append, openBlocks_other (by simp [hmark]) (by simp [hmark]), Int.add_zero]
  have hopen : openBrackets (tokens ++ [mark]) = openBrackets tokens := by
    simp [openBrackets, hbrackets]
  obtain ⟨hnonneg, hle, closers, hmatched, hlength, hmax⟩ := h
  refine ⟨by omega, by omega, closers, ?_, by omega, hmax⟩
  rwa [brackets_append, hbrackets, List.append_nil]

theorem balanced_of_prefix {source : String} {before after : List Token}
    (h : (TokenStream.ofText source).tokens = before ++ after) : Balanced before := by
  -- a prefix is empty or ends in a token, which goes on from what stands before it
  rcases List.eq_nil_or_concat before with rfl | ⟨front, token, rfl⟩
  · exact balanced_of_runs (.nil _)
  · rw [List.concat_eq_append, List.append_assoc] at h
    rw [List.concat_eq_append]
    obtain ⟨here, hfront, ⟨there, hnext⟩ | ⟨hmark, _⟩⟩ := runs_before h
    · exact balanced_of_runs (hfront.append (.one hnext))
    · exact (balanced_of_runs hfront).mark hmark

theorem openBrackets_of_layout {source : String} {before after : List Token} {token : Token}
    (h : (TokenStream.ofText source).tokens = before ++ token :: after)
    (hlayout : token.kind.isLayout = true) : openBrackets before = 0 := by
  obtain ⟨here, hbefore, hnext⟩ := runs_before h
  have hopen := hbefore.openBrackets_eq
  have hclosers : here.closers = [] := by
    rcases hnext with ⟨there, hnext⟩ | ⟨_, rfl, _⟩
    · cases hnext with
      | opening kind _ _ | closing kind _ => rw [kind] at hlayout; cases hlayout
      | content significant _ => simp [isSignificant, hlayout] at significant
      | trivia trivial => rw [isLayout_of_isTrivia trivial] at hlayout; cases hlayout
      | newline _ | indent _ _ | dedent _ => rfl
    · rfl
  simpa [hclosers] using hopen.symm

/-- After a line has ended there is a token of a new one before that ends. -/
theorem exists_significant {source : String} {before middle after : List Token} {newline : Token}
    (h : (TokenStream.ofText source).tokens = before ++ middle ++ newline :: after)
    (hnewline : newline.kind = .newline) (hstart : ∀ last ∈ before.getLast?, last.kind = .newline) :
    ∃ token ∈ middle, isSignificant token.kind = true := by
  have hcontent : ∀ {a b : Standing} {token : Token}, Next a token b → token.kind = .newline →
      a.content = true ∧ b.content = false := by
    intro a b token hnext hkind
    cases hnext with
    | opening kind _ _ | closing kind _ | indent kind _ | dedent kind =>
      rw [kind] at hkind
      cases hkind
    | content significant _ => rw [hkind] at significant; cases significant
    | trivia trivial => rw [hkind] at trivial; cases trivial
    | newline _ => exact ⟨rfl, rfl⟩
  obtain ⟨here, hruns, hnext⟩ := runs_before h
  obtain ⟨there, hnext⟩ : ∃ there, Next here newline there := by
    rcases hnext with hnext | ⟨hmark, _⟩
    · exact hnext
    · rw [hnewline] at hmark
      cases hmark
  obtain ⟨first, hbefore, hmiddle⟩ := hruns.split
  refine hmiddle.exists_significant ?_ (hcontent hnext hnewline).1
  rcases List.eq_nil_or_concat before with rfl | ⟨front, last, rfl⟩
  · cases hbefore
    rfl
  · rw [List.concat_eq_append] at hbefore hstart
    obtain ⟨_, _, hlast⟩ := hbefore.split
    cases hlast with
    | cons next rest =>
      cases rest
      exact (hcontent next (hstart last (by simp))).2

/-- Whether nothing comes after what a feed has handed out. -/
def IsLast : Except LexicalError Token → Prop
  | .ok token => token.kind = .endMarker
  | .error _ => True

theorem exists_items_eq (source : String) :
    ∃ (init : List Token) (last : Except LexicalError Token),
      items (.ofText source) = init.map .ok ++ [last] ∧
        ∀ token ∈ init, token.kind ≠ .endMarker := by
  obtain ⟨init, _, hruns, ⟨hnone, _, mark, _, htokens⟩ | ⟨hsome, htokens⟩⟩ := runs_ofText source
  · exact ⟨init, .ok mark, by simp [items, htokens, hnone], hruns.kind_ne_endMarker⟩
  · obtain ⟨error, herror⟩ := Option.ne_none_iff_exists'.1 hsome
    exact ⟨init, .error error, by simp [items, htokens, herror], hruns.kind_ne_endMarker⟩

theorem length_items_of_isLast {source : String} {n : Nat} {item : Except LexicalError Token}
    (h : (items (.ofText source))[n]? = some item) (hlast : IsLast item) :
    (items (.ofText source)).length = n + 1 := by
  obtain ⟨init, last, hitems, hinit⟩ := exists_items_eq source
  obtain ⟨hlt, _⟩ := List.getElem?_eq_some_iff.1 h
  rw [hitems] at h hlt ⊢
  simp only [List.length_append, List.length_map, List.length_cons, List.length_nil] at hlt ⊢
  -- before its end a stream has no item that ends it
  have hnot : ¬n < init.length := by
    intro hn
    rw [List.getElem?_append_left (by simpa using hn), List.getElem?_map,
      List.getElem?_eq_getElem hn] at h
    cases h
    exact hinit _ (List.getElem_mem hn) hlast
  omega

theorem closed_of_error_eq_none {source : String} (h : (TokenStream.ofText source).error = none) :
    openBlocks (TokenStream.ofText source).tokens = 0 ∧
      Matched (brackets (TokenStream.ofText source).tokens) ∧
      ∃ init mark, (TokenStream.ofText source).tokens = init ++ [mark] ∧
        mark.kind = .endMarker ∧ ∀ token ∈ init, token.kind ≠ .endMarker := by
  obtain ⟨init, _, hruns, ⟨_, rfl, mark, hmark, htokens⟩ | ⟨hsome, _⟩⟩ := runs_ofText source
  · have hblocks : openBlocks init = 0 := by simpa using hruns.openBlocks_eq.symm
    have hmatched : Matched (brackets init) := by simpa using matched_of_runs hruns
    rw [htokens, openBlocks_append, brackets_append, hblocks, brackets_singleton, hmark,
      openBlocks_other (by simp [hmark]) (by simp [hmark])]
    refine ⟨rfl, ?_, init, mark, rfl, hmark, hruns.kind_ne_endMarker⟩
    simpa [bracketOf?] using hmatched
  · exact absurd h hsome

/-- **The discipline of a token stream.** Along the tokens of a snippet blocks and brackets are
closed only after they were opened, each bracket by its partner, and never nest too deeply; marks of
the layout stand outside brackets, and a logical line ends only if it has a token. Without an error
all blocks and brackets are closed and one mark of the end comes last. A feed hands out these tokens
and the error, and nothing after the mark of the end or the error. -/
theorem streams_are_disciplined (source : String) :
    (∀ before after, (TokenStream.ofText source).tokens = before ++ after → Balanced before) ∧
    (∀ before token after, (TokenStream.ofText source).tokens = before ++ token :: after →
      token.kind.isLayout = true → openBrackets before = 0) ∧
    (∀ before middle newline after,
      (TokenStream.ofText source).tokens = before ++ middle ++ newline :: after →
      newline.kind = .newline → (∀ last ∈ before.getLast?, last.kind = .newline) →
      ∃ token ∈ middle, isSignificant token.kind = true) ∧
    ((TokenStream.ofText source).error = none →
      openBlocks (TokenStream.ofText source).tokens = 0 ∧
      Matched (brackets (TokenStream.ofText source).tokens) ∧
      ∃ init mark, (TokenStream.ofText source).tokens = init ++ [mark] ∧
        mark.kind = .endMarker ∧ ∀ token ∈ init, token.kind ≠ .endMarker) ∧
    (∀ n, (Feed.ofText source).answer n = (items (.ofText source))[n]?) ∧
    ∀ n item, (Feed.ofText source).answer n = some item → IsLast item →
      ∀ m, n < m → (Feed.ofText source).answer m = none := by
  refine ⟨fun _ _ => balanced_of_prefix, fun _ _ _ => openBrackets_of_layout,
    fun _ _ _ _ => exists_significant, closed_of_error_eq_none, answer_ofText source, ?_⟩
  intro n item hitem hlast m hm
  rw [answer_ofText] at hitem ⊢
  have hlength := length_items_of_isLast hitem hlast
  exact List.getElem?_eq_none (by omega)

end SnippetLint.Discipline
