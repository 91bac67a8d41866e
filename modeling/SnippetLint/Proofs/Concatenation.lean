import SnippetLint.Proofs.LineEndings
import SnippetLint.Proofs.Lookahead
import SnippetLint.Proofs.TabSize

/-!
Two snippets one after the other. Where the first one ends with the end of a line, a lexer of both
gives the tokens of the first one, and what it gives from there on are the tokens of the second one,
except that the blocks which are still open end where the second one has its first line. Main
statement: `joined_ofText`.
-/

namespace SnippetLint

/-- A fault without the line that it names. -/
def LexicalFault.unlined : LexicalFault → LexicalFault
  | .unterminatedString _ => .unterminatedString 0
  | .unterminatedTripleQuoted _ => .unterminatedTripleQuoted 0
  | fault => fault

/-- A text that ends with a line feed. -/
def EndsLine (cs : List Char) : Prop := cs.getLast? = some '\n'

instance (cs : List Char) : Decidable (EndsLine cs) := inferInstanceAs (Decidable (_ = _))

namespace EndsLine

variable {cs : List Char}

theorem mem (h : EndsLine cs) : '\n' ∈ cs := List.mem_of_getLast? h

theorem ne_nil (h : EndsLine cs) : cs ≠ [] := List.ne_nil_of_mem h.mem

theorem drop (h : EndsLine cs) {n : Nat} (hn : n < cs.length) : EndsLine (cs.drop n) := by
  rw [EndsLine, List.getLast?_drop, if_neg (Nat.not_le.2 hn)]
  exact h

theorem takeWhile_append {p : Char → Bool} (h : EndsLine cs) (hp : p '\n' = false)
    (text : List Char) : (cs ++ text).takeWhile p = cs.takeWhile p :=
  Lookahead.takeWhile_append_of_mem h.mem hp text

theorem length_takeWhile_lt {p : Char → Bool} (h : EndsLine cs) (hp : p '\n' = false) :
    (cs.takeWhile p).length < cs.length := by
  refine Nat.lt_of_le_of_ne (List.takeWhile_prefix p).length_le fun hlength => ?_
  have hall := (List.takeWhile_prefix p).eq_of_length hlength
  have hfeed := List.mem_takeWhile_imp (hall ▸ h.mem)
  rw [hp] at hfeed
  cases hfeed

/-- More text does not change the line break that comes next. -/
theorem lineBreak_append (h : EndsLine cs) (text : List Char) :
    Cursor.lineBreak (cs ++ text) = Cursor.lineBreak cs := by
  rw [Lookahead.lineBreak_eq, Lookahead.lineBreak_eq]
  rcases cs with _ | ⟨c, _ | ⟨d, cs⟩⟩
  · cases h
  · obtain rfl : c = '\n' := Option.some.inj h
    rfl
  · rfl

end EndsLine

namespace Cursor

/-- The same cursor before a longer text. -/
def more (text : List Char) (c : Cursor) : Cursor := ⟨c.rest ++ text, c.position⟩

variable {c : Cursor} {text : List Char}

theorem next_more (h : EndsLine c.rest) : (c.more text).next = c.next.more text := by
  obtain ⟨rest, position⟩ := c
  rcases rest with _ | ⟨ch, _ | ⟨d, rest⟩⟩
  · cases h
  · obtain rfl : ch = '\n' := Option.some.inj h
    rfl
  · rfl

theorem skip_more (h : EndsLine c.rest) {n : Nat} (hn : n ≤ c.rest.length) :
    (c.more text).skip n = (c.skip n).more text := by
  induction n generalizing c with
  | zero => rfl
  | succ n ih =>
    have hnext : c.next.rest = c.rest.drop 1 := by rw [rest_next, List.drop_one]
    show (c.more text).next.skip n = (c.next.skip n).more text
    rw [next_more h]
    by_cases hone : 1 < c.rest.length
    · refine ih ?_ ?_
      · rw [hnext]
        exact h.drop hone
      · rw [hnext, List.length_drop]
        omega
    · obtain rfl : n = 0 := by omega
      rfl

end Cursor

namespace Lexer

/-- The same lexer before a longer text. -/
def more (text : List Char) (lexer : Lexer) : Lexer :=
  { lexer with cursor := lexer.cursor.more text }

/-- The same step of a lexer before a longer text. -/
def Step.more (text : List Char) : Step → Step
  | emit tokens next => emit tokens (next.more text)
  | finish tokens => finish tokens
  | fail error => fail error

section More

variable {lexer next : Lexer} {cursor : Cursor} {tokens : List Token} {tabSize : Nat}
  {text : List Char}

theorem take_more (h : EndsLine cursor.rest) (kind : TokenKind) {n : Nat}
    (hn : n ≤ cursor.rest.length) : take (cursor.more text) kind n = take cursor kind n := by
  unfold take
  rw [Cursor.skip_more h hn]
  unfold Cursor.more
  dsimp only
  rw [List.take_append_of_le_length hn]
  rfl

theorem isGap_feed : Indentation.isGap '\n' = false := by decide

theorem here_more (h : EndsLine lexer.cursor.rest) :
    (lexer.more text).here = lexer.here.more text := by
  have hgap : (lexer.more text).cursor.rest.takeWhile Indentation.isGap =
      lexer.cursor.rest.takeWhile Indentation.isGap := h.takeWhile_append isGap_feed text
  unfold here Cursor.eatWhile
  rw [hgap]
  exact Cursor.skip_more h (List.takeWhile_prefix _).length_le

theorem endsLine_here (h : EndsLine lexer.cursor.rest) : EndsLine lexer.here.rest := by
  rw [here, Cursor.eatWhile, Cursor.rest_skip]
  exact h.drop (h.length_takeWhile_lt isGap_feed)

theorem indentStep_more (h : EndsLine lexer.cursor.rest) :
    (lexer.more text).indentStep tabSize = (lexer.indentStep tabSize).more text := by
  have hhere : EndsLine (lexer.cursor.skip _).rest := endsLine_here h
  have hlength := (List.takeWhile_prefix (l := lexer.cursor.rest) Indentation.isGap).length_le
  have hgap : (lexer.more text).cursor.rest.takeWhile Indentation.isGap =
      lexer.cursor.rest.takeWhile Indentation.isGap := h.takeWhile_append isGap_feed text
  unfold indentStep
  dsimp only
  rw [hgap]
  unfold Lexer.more
  dsimp only
  rw [Cursor.skip_more h hlength, take_more h .indent hlength]
  generalize Cursor.skip _ lexer.cursor = here at hhere ⊢
  obtain ⟨rest, position⟩ := here
  cases rest with
  | nil => cases hhere
  | cons c rest =>
    unfold Cursor.more
    dsimp only [List.cons_append]
    split
    · rfl
    · split <;> rfl

theorem length_lineBreak_le (cs : List Char) : (Cursor.lineBreak cs).length ≤ cs.length :=
  (List.prefix_iff_eq_take.2 (LineEndings.take_lineBreak cs).symm).length_le

theorem breakStep_more (h : EndsLine cursor.rest) :
    (lexer.more text).breakStep (cursor.more text) = (lexer.breakStep cursor).more text := by
  have hbreak : Cursor.lineBreak (cursor.more text).rest = Cursor.lineBreak cursor.rest :=
    h.lineBreak_append text
  have hlength := length_lineBreak_le cursor.rest
  unfold breakStep
  dsimp only
  rw [hbreak, take_more h _ hlength, Cursor.skip_more h hlength]
  rfl

theorem commentStep_more (h : EndsLine cursor.rest) :
    (lexer.more text).commentStep (cursor.more text) = (lexer.commentStep cursor).more text := by
  have hcomment : (cursor.more text).rest.takeWhile (!isLineBreak ·) =
      cursor.rest.takeWhile (!isLineBreak ·) := h.takeWhile_append rfl text
  have hlength := (List.takeWhile_prefix (l := cursor.rest) (!isLineBreak ·)).length_le
  unfold commentStep
  dsimp only
  rw [hcomment, take_more h _ hlength, Cursor.skip_more h hlength]
  rfl

theorem joinStep_more (h : EndsLine cursor.rest) (hnext : EndsLine cursor.next.rest) :
    (lexer.more text).joinStep (cursor.more text) = (lexer.joinStep cursor).more text := by
  have hbreak : Cursor.lineBreak (cursor.next.more text).rest =
      Cursor.lineBreak cursor.next.rest := hnext.lineBreak_append text
  have hlength := length_lineBreak_le cursor.next.rest
  have hend : (cursor.next.more text).atEnd = cursor.next.atEnd := by
    have hmore : (cursor.next.more text).rest ≠ [] :=
      List.append_ne_nil_of_left_ne_nil hnext.ne_nil text
    unfold Cursor.atEnd
    rw [List.isEmpty_eq_false_iff.2 hnext.ne_nil, List.isEmpty_eq_false_iff.2 hmore]
  unfold joinStep Cursor.eatLineBreak?
  rw [Cursor.next_more h, hbreak, hend]
  generalize Cursor.lineBreak cursor.next.rest = br at hlength
  cases br with
  | nil =>
    dsimp only
    split <;> rfl
  | cons c br =>
    dsimp only
    rw [Cursor.skip_more hnext hlength]
    rfl

/-- A lexeme in front of the last line feed stays what it is. -/
theorem lexemeStep_more (h : EndsLine cursor.rest) {lexeme : Lexeme}
    (hmunch : Lexeme.munch cursor = .ok lexeme)
    (hlength : lexeme.chars.length < cursor.rest.length) (c : Char) :
    (lexer.more text).lexemeStep (cursor.more text) c = (lexer.lexemeStep cursor c).more text := by
  have hfront := List.prefix_append_drop (Places.taken_munch hmunch).front
  have hmore : (cursor.more text).rest =
      lexeme.chars ++ (cursor.rest.drop lexeme.chars.length ++ text) := by
    rw [← List.append_assoc, ← hfront]
    rfl
  have hfeed := (h.drop hlength).mem
  have hmunch' := (Lookahead.munch_follows hmunch hfront hmore
    (Lookahead.follows_more hfeed (by decide) (by decide) text)).1
  unfold lexemeStep
  rw [hmunch, hmunch']
  dsimp only
  have hupdate : Bracket.update c (cursor.more text).position (lexer.more text).brackets =
      Bracket.update c cursor.position lexer.brackets := rfl
  rw [hupdate, take_more h _ hlength.le, Cursor.skip_more h hlength.le]
  split <;> rfl

/-- Marks of the end of a line, or of a line without tokens. -/
def isLineEnd : TokenKind → Bool
  | .newline | .nl => true
  | _ => false

theorem isLineEnd_of_content {lexeme : Lexeme} (h : lexeme.IsContent) :
    isLineEnd lexeme.kind = false := by
  have hlayout := h.not_layout
  have htrivia := h.not_trivia
  cases hkind : lexeme.kind with
  | newline => rw [hkind] at hlayout; cases hlayout
  | nl => rw [hkind] at htrivia; cases htrivia
  | _ => rfl

theorem length_lt_of_lexemeStep {lexeme : Lexeme} {c : Char}
    (hmunch : Lexeme.munch cursor = .ok lexeme)
    (hstep : lexer.lexemeStep cursor c = .emit tokens next)
    (hnext : next.cursor.rest = [] → ∃ token ∈ tokens, isLineEnd token.kind = true) :
    lexeme.chars.length < cursor.rest.length := by
  unfold lexemeStep at hstep
  rw [hmunch] at hstep
  dsimp only at hstep
  split at hstep
  · cases hstep
  · cases hstep
    by_contra hlength
    obtain ⟨token, htoken, hends⟩ := hnext (by
      rw [Cursor.rest_skip, List.drop_eq_nil_of_le (Nat.le_of_not_lt hlength)])
    obtain rfl := List.mem_singleton.1 htoken
    have hcontent := isLineEnd_of_content (Lexeme.isContent_of_munch hmunch)
    exact Bool.false_ne_true (hcontent.symm.trans hends)

/-- As long as text is left, or where a line has ended, a lexer gives the same before a longer
text. -/
theorem step_more (h : EndsLine lexer.cursor.rest) (hstep : lexer.step tabSize = .emit tokens next)
    (hnext : next.cursor.rest = [] → ∃ token ∈ tokens, isLineEnd token.kind = true) :
    (lexer.more text).step tabSize = .emit tokens (next.more text) := by
  have hmeasures : (lexer.more text).measures = lexer.measures := rfl
  suffices (lexer.more text).step tabSize = (lexer.step tabSize).more text by
    rw [this, hstep]
    rfl
  rw [step_eq] at hstep
  rw [step_eq, step_eq, hmeasures]
  split
  · exact indentStep_more h
  · next hinside =>
    rw [if_neg hinside] at hstep
    have hhere := endsLine_here h
    obtain ⟨c, rest, hrest⟩ := List.exists_cons_of_ne_nil hhere.ne_nil
    have hrest' : (lexer.more text).here.rest = c :: (rest ++ text) := by
      rw [here_more h, Cursor.more, hrest, List.cons_append]
    rw [contentStep_cons hrest] at hstep ⊢
    rw [contentStep_cons hrest', here_more h]
    split
    · next hslash =>
      subst hslash
      refine joinStep_more hhere ?_
      have hlong : 1 < lexer.here.rest.length := by
        cases rest with
        | nil =>
          rw [hrest] at hhere
          cases hhere
        | cons d rest => simp [hrest]
      rw [Cursor.rest_next, ← List.drop_one]
      exact hhere.drop hlong
    · next hslash =>
      rw [if_neg hslash] at hstep
      split
      · exact breakStep_more hhere
      · next hbreak =>
        rw [if_neg hbreak] at hstep
        split
        · exact commentStep_more hhere
        · next hcomment =>
          rw [if_neg hcomment] at hstep
          cases hmunch : Lexeme.munch lexer.here with
          | error fault =>
            unfold lexemeStep at hstep
            rw [hmunch] at hstep
            cases hstep
          | ok lexeme =>
            exact lexemeStep_more hhere hmunch (length_lt_of_lexemeStep hmunch hstep hnext) c

end More

/-! ## The end of the first text -/

section Last

variable {lexer next : Lexer} {tokens : List Token} {tabSize : Nat}

/-- A step moves forward, and its tokens stop where it does. -/
theorem moves_of_emits (h : Emits tabSize lexer tokens next) :
    (∃ n, next.cursor = lexer.cursor.skip n) ∧
      ∀ token ∈ tokens, token.span.stop = next.cursor.position := by
  have hskip : ∀ n, ∃ m, lexer.here.skip n = lexer.cursor.skip m := fun n =>
    ⟨_, Cursor.skip_skip _ n lexer.cursor⟩
  cases h with
  | blank | same => exact ⟨⟨_, rfl⟩, fun _ htoken => absurd htoken List.not_mem_nil⟩
  | deeper => exact ⟨⟨_, rfl⟩, List.forall_mem_singleton.2 rfl⟩
  | shallower =>
    refine ⟨⟨_, rfl⟩, fun token htoken => ?_⟩
    rw [(List.mem_replicate.1 htoken).2]
    rfl
  | join => exact ⟨hskip _, fun _ htoken => absurd htoken List.not_mem_nil⟩
  | lineBreak | comment | lexeme => exact ⟨hskip _, List.forall_mem_singleton.2 rfl⟩

/-- Where no text is left tokens are marks. -/
theorem marks_of_lexes {stream : TokenStream} (h : lexer.Lexes tabSize stream)
    (hrest : lexer.cursor.rest = []) :
    ∀ token ∈ stream.tokens, token.span.start = token.span.stop := by
  have hhere : ∀ {lexer : Lexer}, lexer.cursor.rest = [] → lexer.here = lexer.cursor := fun h =>
    Cursor.skip_of_rest_eq_nil h _
  have htake : ∀ {cursor : Cursor} (kind : TokenKind) (n : Nat), cursor.rest = [] →
      (take cursor kind n).span.start = (take cursor kind n).span.stop := by
    intro cursor kind n h
    unfold take Cursor.spanFrom
    rw [Cursor.skip_of_rest_eq_nil h]
  induction h with
  | @emit lexer next tokens stream emits _ ih =>
    obtain ⟨⟨n, hnext⟩, _⟩ := moves_of_emits emits
    refine List.forall_mem_append.2 ⟨?_, ih (by rw [hnext, Cursor.rest_skip, hrest, List.drop_nil])⟩
    have hnil : lexer.here.rest = [] := by rw [hhere hrest, hrest]
    cases emits with
    | blank | same | join => exact fun _ htoken => absurd htoken List.not_mem_nil
    | deeper => exact List.forall_mem_singleton.2 (htake _ _ hrest)
    | shallower =>
      intro token htoken
      rw [(List.mem_replicate.1 htoken).2]
      rfl
    | lineBreak | comment | lexeme => exact List.forall_mem_singleton.2 (htake _ _ hnil)
  | finish finishes =>
    rw [finishes.tokens_eq]
    intro token htoken
    simp only [List.mem_append, List.mem_replicate, List.mem_singleton] at htoken
    rcases htoken with (hnewline | ⟨_, rfl⟩) | rfl
    · split at hnewline
      · rw [List.mem_singleton.1 hnewline]
        rfl
      · cases hnewline
    · rfl
    · rfl
  | fail => exact fun _ htoken => absurd htoken List.not_mem_nil

/-- A lexer at the start of a line, with no bracket open. -/
def fresh (text : List Char) (position : Position) (blocks : List Indentation) : Lexer :=
  ⟨⟨text, position⟩, blocks, [], true, false⟩

/-- The tokens that end the blocks and the text. -/
def closing (position : Position) (blocks : List Indentation) : List Token :=
  List.replicate blocks.length (mark .dedent position) ++ [mark .endMarker position]

theorem run_fresh_nil {position : Position} {blocks : List Indentation} {fuel : Nat}
    (h : (fresh [] position blocks).fuel ≤ fuel) :
    (fresh [] position blocks).run tabSize fuel = ⟨closing position blocks, none⟩ := by
  have htwo : 2 ≤ fuel := h
  obtain ⟨fuel, rfl⟩ := Nat.exists_eq_add_of_le' htwo
  have hfirst : (fresh [] position blocks).step tabSize =
      .emit [] { fresh [] position blocks with atLineStart := false } := rfl
  have hsecond : ({ fresh [] position blocks with atLineStart := false } : Lexer).step tabSize =
      .finish (closing position blocks) := rfl
  rw [run_of_emit hfirst, run_of_finish hsecond, List.nil_append]

/-- The tokens that the grammar sees. -/
def seen (tokens : List Token) : List Token :=
  tokens.filter fun token => !token.kind.isTrivia && token.kind != .endMarker

theorem seen_append (front rest : List Token) : seen (front ++ rest) = seen front ++ seen rest :=
  List.filter_append ..

/-- What a lexer reads up to where its last line has ended, whatever text comes after it. -/
structure Fronts (tabSize : Nat) (lexer : Lexer) (stream : TokenStream) (front : List Token)
    (position : Position) (blocks : List Indentation) : Prop where
  tokens_eq : stream.tokens = front ++ closing position blocks
  /-- The last token that the grammar sees does not stand inside a line. -/
  closed : ∀ token ∈ (seen front).getLast?, token.kind.isLayout = true
  content : lexer.lineHasContent = true → seen front ≠ []
  nested : Indentation.Nested lexer.blocks → Indentation.Nested blocks
  more : ∀ (text : List Char) {fuel : Nat}, (lexer.more text).fuel ≤ fuel →
    ∃ fuel', (fresh text position blocks).fuel ≤ fuel' ∧
      (lexer.more text).run tabSize fuel =
        ⟨front ++ ((fresh text position blocks).run tabSize fuel').tokens,
          ((fresh text position blocks).run tabSize fuel').error⟩

/-- A line has content as long as tokens stand inside it. -/
theorem content_of_emits (h : Emits tabSize lexer tokens next) :
    ((∀ token ∈ seen tokens, token.kind.isLayout = true) ∨ next.lineHasContent = true) ∧
      (lexer.lineHasContent = true → next.lineHasContent = true ∨ seen tokens ≠ []) := by
  cases h with
  | blank | same | join => exact ⟨.inl fun _ htoken => absurd htoken List.not_mem_nil, .inl⟩
  | deeper => exact ⟨.inl (List.forall_mem_singleton.2 rfl), .inl⟩
  | shallower =>
    refine ⟨.inl fun token htoken => ?_, .inl⟩
    rw [(List.mem_replicate.1 (List.mem_filter.1 htoken).1).2]
    rfl
  | comment => exact ⟨.inl fun _ htoken => absurd htoken List.not_mem_nil, .inl⟩
  | lexeme => exact ⟨.inr rfl, fun _ => .inl rfl⟩
  | lineBreak inside broken =>
    cases hends : lexer.brackets.isEmpty && lexer.lineHasContent with
    | true => exact ⟨.inl (List.forall_mem_singleton.2 rfl), fun _ => .inr (List.cons_ne_nil _ _)⟩
    | false =>
      refine ⟨.inl fun _ htoken => absurd htoken List.not_mem_nil, fun hcontent => .inl ?_⟩
      dsimp only
      rw [hcontent]
      rfl

theorem Fronts.emit {stream : TokenStream} {front : List Token} {position : Position}
    {blocks : List Indentation} (h : Fronts tabSize next stream front position blocks)
    (hemits : Emits tabSize lexer tokens next)
    (hmore : ∀ text, (lexer.more text).step tabSize = .emit tokens (next.more text)) :
    Fronts tabSize lexer ⟨tokens ++ stream.tokens, stream.error⟩ (tokens ++ front) position
      blocks := by
  obtain ⟨hlayout, hcontent⟩ := content_of_emits hemits
  refine ⟨?_, ?_, fun hline hnil => ?_, fun hnested => h.nested (nested_of_emits hnested hemits),
    fun text fuel hfuel => ?_⟩
  · rw [h.tokens_eq, List.append_assoc]
  · intro token htoken
    rw [seen_append, List.getLast?_append] at htoken
    cases hfront : (seen front).getLast? with
    | some last =>
      rw [hfront] at htoken
      exact h.closed token (hfront ▸ htoken)
    | none =>
      rw [hfront, Option.none_or] at htoken
      have hnil := List.getLast?_eq_none_iff.1 hfront
      rcases hlayout with hlayout | hinside
      · exact hlayout token (List.mem_of_getLast? htoken)
      · exact absurd hnil (h.content hinside)
  · rw [seen_append] at hnil
    obtain ⟨htokens, hfront⟩ := List.append_eq_nil_iff.1 hnil
    rcases hcontent hline with hinside | hne
    · exact h.content hinside hfront
    · exact hne htokens
  · have hlt := fuel_lt_of_emits (emits_of_step (hmore text))
    obtain ⟨fuel, rfl⟩ := Nat.exists_eq_add_of_lt (Nat.lt_of_lt_of_le hlt hfuel)
    obtain ⟨fuel', hfuel', hrun⟩ := h.more text (Nat.le_add_right _ fuel)
    refine ⟨fuel', hfuel', ?_⟩
    rw [run_of_emit (hmore text), hrun, List.append_assoc]

theorem brackets_of_run {fuel : Nat} (h : lexer.fuel ≤ fuel) (hrest : lexer.cursor.rest = [])
    (herror : (lexer.run tabSize fuel).error = none) : lexer.brackets = [] := by
  by_contra hopen
  have hinside : lexer.measures = false := by
    rw [measures, List.isEmpty_eq_false_iff.2 hopen, Bool.and_false]
  have hnil : lexer.here.rest = [] := by
    rw [here, Cursor.eatWhile, Cursor.rest_skip, hrest, List.drop_nil]
  obtain ⟨bracket, brackets, hbrackets⟩ := List.exists_cons_of_ne_nil hopen
  cases fuel with
  | zero => simp [Lexer.fuel] at h
  | succ fuel =>
    have hstep : lexer.step tabSize = .fail ⟨.unclosedBracket bracket.sign, bracket.position⟩ := by
      rw [step_eq, if_neg (Bool.eq_false_iff.1 hinside), contentStep_nil hnil, endStep, hbrackets]
    rw [run, hstep] at herror
    cases herror

/-- After a line the next one starts afresh. -/
theorem fresh_of_emits (h : Emits tabSize lexer tokens next)
    (hends : ∃ token ∈ tokens, isLineEnd token.kind = true) (hbrackets : next.brackets = []) :
    next = fresh next.cursor.rest next.cursor.position next.blocks := by
  obtain ⟨token, htoken, hends⟩ := hends
  cases h with
  | blank | same | join => cases htoken
  | deeper | comment =>
    rw [List.mem_singleton.1 htoken] at hends
    cases hends
  | shallower =>
    rw [(List.mem_replicate.1 htoken).2] at hends
    cases hends
  | lexeme _ _ _ _ _ _ munched _ =>
    rw [List.mem_singleton.1 htoken] at hends
    have hcontent := isLineEnd_of_content (Lexeme.isContent_of_munch munched)
    exact absurd (hcontent.symm.trans hends) Bool.false_ne_true
  | lineBreak =>
    dsimp only at hbrackets ⊢
    rw [hbrackets]
    cases lexer.lineHasContent <;> rfl

/-- The step at the end of the last line. -/
theorem fronts_of_last {fuel : Nat} (hemits : Emits tabSize lexer tokens next)
    (hmore : ∀ text, (lexer.more text).step tabSize = .emit tokens (next.more text))
    (hends : ∃ token ∈ tokens, isLineEnd token.kind = true) (hfuel : next.fuel ≤ fuel)
    (hrest : next.cursor.rest = []) (herror : (next.run tabSize fuel).error = none) :
    Fronts tabSize lexer ⟨tokens ++ (next.run tabSize fuel).tokens,
      (next.run tabSize fuel).error⟩ tokens next.cursor.position next.blocks := by
  have hfresh := fresh_of_emits hemits hends (brackets_of_run hfuel hrest herror)
  rw [hrest] at hfresh
  have hlast : Fronts tabSize next (next.run tabSize fuel) [] next.cursor.position next.blocks := by
    refine ⟨?_, fun _ h => absurd h (by simp [seen]), fun h => ?_, id,
      fun text fuel' h => ⟨fuel', ?_, ?_⟩⟩
    · rw [hfresh] at hfuel ⊢
      rw [run_fresh_nil hfuel]
      rfl
    · rw [hfresh] at h
      cases h
    · rw [hfresh] at h
      exact h
    · have heq : next.more text = fresh text next.cursor.position next.blocks := by
        conv_lhs => rw [hfresh]
        rfl
      rw [heq]
      rfl
  have hall := hlast.emit hemits hmore
  rwa [List.append_nil] at hall

/-- The token of a line break up to an offset. -/
structure ClosesAt (stop : Nat) (token : Token) : Prop where
  ends : isLineEnd token.kind = true
  proper : token.span.start.offset < token.span.stop.offset
  stop_eq : token.span.stop.offset = stop

instance (stop : Nat) (token : Token) : Decidable (ClosesAt stop token) :=
  decidable_of_iff (isLineEnd token.kind = true ∧
    token.span.start.offset < token.span.stop.offset ∧ token.span.stop.offset = stop)
    ⟨fun ⟨ends, proper, stop_eq⟩ => ⟨ends, proper, stop_eq⟩,
      fun h => ⟨h.ends, h.proper, h.stop_eq⟩⟩

theorem byteLength_pos {cs : List Char} (h : cs ≠ []) : 0 < Text.byteLength cs := by
  obtain ⟨c, cs, rfl⟩ := List.exists_cons_of_ne_nil h
  exact Nat.add_pos_left c.utf8Size_pos _

/-- Up to the token that closes it, a text is read in the same way whatever comes after it. -/
theorem fronts_of_run {fuel stop : Nat} (hfuel : lexer.fuel ≤ fuel)
    (hline : EndsLine lexer.cursor.rest) (herror : (lexer.run tabSize fuel).error = none)
    (hstop : stop = lexer.cursor.position.offset + Text.byteLength lexer.cursor.rest)
    (hcloses : ∃ token ∈ (lexer.run tabSize fuel).tokens, ClosesAt stop token) :
    ∃ front position blocks,
      Fronts tabSize lexer (lexer.run tabSize fuel) front position blocks := by
  induction fuel generalizing lexer with
  | zero => simp [Lexer.fuel] at hfuel
  | succ fuel ih =>
    cases hstep : lexer.step tabSize with
    | fail error =>
      rw [run, hstep] at herror
      cases herror
    | finish tokens =>
      exact absurd (finishes_of_step hstep).rest_eq (endsLine_here hline).ne_nil
    | emit tokens next =>
      have hemits := emits_of_step hstep
      have hlt := fuel_lt_of_emits hemits
      rw [run_of_emit hstep] at herror hcloses ⊢
      obtain ⟨token, htoken, hcloses⟩ := hcloses
      obtain ⟨⟨n, hskip⟩, hstops⟩ := moves_of_emits hemits
      by_cases hrest : next.cursor.rest = []
      · -- what comes after the last line feed has no text, so the token is one of this step
        have hends : ∃ token ∈ tokens, isLineEnd token.kind = true := by
          rcases List.mem_append.1 htoken with htoken | htoken
          · exact ⟨token, htoken, hcloses.ends⟩
          · have hlexes := @lexes_run tabSize next fuel (by omega)
            have hmark := marks_of_lexes hlexes hrest token htoken
            have hproper := hcloses.proper
            rw [hmark] at hproper
            exact absurd hproper (Nat.lt_irrefl _)
        exact ⟨_, _, _, fronts_of_last hemits (fun text => step_more hline hstep fun _ => hends)
          hends (by omega) hrest herror⟩
      · have hline' : EndsLine next.cursor.rest := by
          rw [hskip, Cursor.rest_skip] at hrest ⊢
          exact hline.drop (Nat.lt_of_not_le (mt List.drop_eq_nil_of_le hrest))
        have hstop' : stop =
            next.cursor.position.offset + Text.byteLength next.cursor.rest := by
          rw [hstop, hskip, Cursor.offset_skip, Cursor.rest_skip, Nat.add_assoc,
            ← Text.byteLength_append, List.take_append_drop]
        have hlater : token ∈ (next.run tabSize fuel).tokens := by
          refine (List.mem_append.1 htoken).resolve_left fun htoken => ?_
          have hpos := byteLength_pos hrest
          have hstopped := hcloses.stop_eq
          rw [hstops token htoken] at hstopped
          omega
        obtain ⟨front, position, blocks, hfronts⟩ :=
          ih (by omega) hline' herror hstop' ⟨token, hlater, hcloses⟩
        refine ⟨_, _, _, hfronts.emit hemits fun text => ?_⟩
        exact step_more hline hstep fun h => absurd h hrest

end Last

/-! ## The same text at another place -/

/-- Tokens of the same kind and text. -/
structure SameToken (a b : Token) : Prop where
  kind : b.kind = a.kind
  lexeme : b.lexeme = a.lexeme

/-- Lexers that differ in places, and in that the second one has blocks around all others. -/
structure Twin (outer : List Indentation) (a b : Lexer) : Prop where
  rest : b.cursor.rest = a.cursor.rest
  blocks : b.blocks = a.blocks ++ outer
  signs : b.brackets.map Bracket.sign = a.brackets.map Bracket.sign
  atLineStart : b.atLineStart = a.atLineStart
  lineHasContent : b.lineHasContent = a.lineHasContent

/-- Steps that go together. -/
inductive StepTwin (outer : List Indentation) : Step → Step → Prop
  | emit {tokens tokens' : List Token} {next next' : Lexer}
    (same : List.Forall₂ SameToken tokens tokens') (twin : Twin outer next next') :
    StepTwin outer (.emit tokens next) (.emit tokens' next')
  | finish {tokens tokens' : List Token} (same : List.Forall₂ SameToken tokens tokens') :
    StepTwin outer (.finish tokens) (.finish tokens')
  | fail {error error' : LexicalError} (same : error'.fault.unlined = error.fault.unlined) :
    StepTwin outer (.fail error) (.fail error')

section Twin

variable {a b : Lexer} {c d : Cursor} {outer : List Indentation} {tabSize : Nat}

theorem rest_skip_eq (h : d.rest = c.rest) (n : Nat) : (d.skip n).rest = (c.skip n).rest := by
  rw [Cursor.rest_skip, Cursor.rest_skip, h]

theorem take_same (h : d.rest = c.rest) (kind : TokenKind) (n : Nat) :
    SameToken (take c kind n) (take d kind n) := by
  refine ⟨rfl, ?_⟩
  unfold take
  rw [h]

theorem marks_same (kind : TokenKind) (p q : Position) (n : Nat) :
    List.Forall₂ SameToken (List.replicate n (mark kind p)) (List.replicate n (mark kind q)) := by
  induction n with
  | zero => exact .nil
  | succ n ih => exact .cons ⟨rfl, rfl⟩ ih

theorem here_rest_eq (h : b.cursor.rest = a.cursor.rest) : b.here.rest = a.here.rest := by
  unfold here Cursor.eatWhile
  rw [h, rest_skip_eq h]

theorem isEmpty_eq_of_signs {as bs : List Bracket}
    (h : bs.map Bracket.sign = as.map Bracket.sign) : bs.isEmpty = as.isEmpty := by
  rw [← List.isEmpty_map (f := Bracket.sign), h, List.isEmpty_map]

/-- Opening and closing brackets only looks at their signs. -/
theorem update_twin (ch : Char) (p q : Position) {as bs : List Bracket}
    (h : bs.map Bracket.sign = as.map Bracket.sign) :
    (Bracket.update ch q bs).map (·.map Bracket.sign) =
      (Bracket.update ch p as).map (·.map Bracket.sign) := by
  have hlength : bs.length = as.length := by simpa using congrArg List.length h
  unfold Bracket.update
  rw [hlength]
  split
  · split
    · rfl
    · exact congrArg (fun signs => Except.ok (ch :: signs)) h
  · split
    · cases as with
      | nil =>
        rw [List.map_eq_nil_iff.1 h]
      | cons top outer =>
        cases bs with
        | nil => cases h
        | cons top' outer' =>
          obtain ⟨htop, houter⟩ := List.cons.inj h
          dsimp only
          rw [htop]
          split
          · exact congrArg Except.ok houter
          · rfl
    · exact congrArg Except.ok h

theorem quotation_twin (marks cs : List Char) :
    (Lexeme.quotation d marks cs).mapError LexicalFault.unlined =
      (Lexeme.quotation c marks cs).mapError LexicalFault.unlined := by
  unfold Lexeme.quotation
  split <;> rfl

/-- What is read does not depend on the place where it is read. -/
theorem munch_twin (h : d.rest = c.rest) :
    (Lexeme.munch d).mapError LexicalFault.unlined =
      (Lexeme.munch c).mapError LexicalFault.unlined := by
  unfold Lexeme.munch Lexeme.word Cursor.peek
  rw [h]
  split
  · exact quotation_twin [] _
  · split
    · rfl
    · split
      · dsimp only
        split
        · exact quotation_twin _ _
        · rfl
      · rfl

theorem breakStep_twin (h : Twin outer a b) (hrest : d.rest = c.rest) :
    StepTwin outer (a.breakStep c) (b.breakStep d) := by
  unfold breakStep
  dsimp only
  rw [hrest, isEmpty_eq_of_signs h.signs, h.lineHasContent]
  exact .emit (.cons (take_same hrest _ _) .nil) ⟨rest_skip_eq hrest _, h.blocks, h.signs, rfl, rfl⟩

theorem commentStep_twin (h : Twin outer a b) (hrest : d.rest = c.rest) :
    StepTwin outer (a.commentStep c) (b.commentStep d) := by
  unfold commentStep
  dsimp only
  rw [hrest]
  exact .emit (.cons (take_same hrest _ _) .nil)
    ⟨rest_skip_eq hrest _, h.blocks, h.signs, h.atLineStart, h.lineHasContent⟩

theorem joinStep_twin (h : Twin outer a b) (hrest : d.rest = c.rest) :
    StepTwin outer (a.joinStep c) (b.joinStep d) := by
  have hnext : d.next.rest = c.next.rest := by rw [Cursor.rest_next, Cursor.rest_next, hrest]
  unfold joinStep Cursor.eatLineBreak? Cursor.atEnd
  rw [hnext]
  cases Cursor.lineBreak c.next.rest with
  | nil =>
    dsimp only
    split <;> exact .fail rfl
  | cons ch br =>
    exact .emit .nil ⟨rest_skip_eq hnext _, h.blocks, h.signs, h.atLineStart, h.lineHasContent⟩

theorem lexemeStep_twin (h : Twin outer a b) (hrest : d.rest = c.rest) (ch : Char) :
    StepTwin outer (a.lexemeStep c ch) (b.lexemeStep d ch) := by
  have hmunch := munch_twin hrest
  have hupdate := update_twin ch c.position d.position h.signs
  unfold lexemeStep
  generalize Lexeme.munch c = first at hmunch ⊢
  generalize Lexeme.munch d = second at hmunch ⊢
  generalize Bracket.update ch c.position a.brackets = brackets at hupdate ⊢
  generalize Bracket.update ch d.position b.brackets = brackets' at hupdate ⊢
  cases first with
  | error fault =>
    cases second with
    | error fault' => exact .fail (Except.error.inj hmunch)
    | ok lexeme' => cases hmunch
  | ok lexeme =>
    cases second with
    | error fault' => cases hmunch
    | ok lexeme' =>
      obtain rfl : lexeme' = lexeme := Except.ok.inj hmunch
      cases brackets with
      | error fault =>
        cases brackets' with
        | error fault' =>
          obtain rfl : fault' = fault := Except.error.inj hupdate
          exact .fail rfl
        | ok opened' => cases hupdate
      | ok opened =>
        cases brackets' with
        | error fault' => cases hupdate
        | ok opened' =>
          exact .emit (.cons (take_same hrest _ _) .nil)
            ⟨rest_skip_eq hrest _, h.blocks, Except.ok.inj hupdate, h.atLineStart, rfl⟩

theorem endStep_twin (h : Twin [] a b) (p q : Position) :
    StepTwin [] (a.endStep p) (b.endStep q) := by
  have hsigns := h.signs
  unfold endStep
  cases hbrackets : a.brackets with
  | cons bracket brackets =>
    rw [hbrackets] at hsigns
    cases hbrackets' : b.brackets with
    | nil =>
      rw [hbrackets'] at hsigns
      cases hsigns
    | cons bracket' brackets' =>
      rw [hbrackets'] at hsigns
      exact .fail (congrArg (fun sign => (LexicalFault.unclosedBracket sign).unlined)
        (List.cons.inj hsigns).1)
  | nil =>
    rw [hbrackets] at hsigns
    rw [List.map_eq_nil_iff.1 hsigns, h.lineHasContent, h.blocks, List.append_nil]
    refine .finish (List.rel_append (List.rel_append ?_ (marks_same _ _ _ _))
      (.cons ⟨rfl, rfl⟩ .nil))
    split
    · exact .cons ⟨rfl, rfl⟩ .nil
    · exact .nil

theorem indentStep_twin (h : Twin [] a b) :
    StepTwin [] (a.indentStep tabSize) (b.indentStep tabSize) := by
  have hblocks : b.blocks = a.blocks := h.blocks.trans (List.append_nil _)
  have hhere := rest_skip_eq h.rest (a.cursor.rest.takeWhile Indentation.isGap).length
  have hnext : ∀ blocks, Twin []
      { a with
        cursor := a.cursor.skip (a.cursor.rest.takeWhile Indentation.isGap).length
        atLineStart := false
        blocks }
      { b with
        cursor := b.cursor.skip (a.cursor.rest.takeWhile Indentation.isGap).length
        atLineStart := false
        blocks } := fun blocks =>
    ⟨hhere, (List.append_nil blocks).symm, h.signs, rfl, h.lineHasContent⟩
  unfold indentStep
  dsimp only
  rw [h.rest, hhere, hblocks]
  split
  · exact .emit .nil (hnext _)
  · split
    · exact .emit .nil (hnext _)
    · split
      · exact .emit .nil (hnext _)
      · exact .emit (.cons (take_same h.rest _ _) .nil) (hnext _)
      · exact .emit (marks_same _ _ _ _) (hnext _)
      all_goals exact .fail rfl

theorem measures_twin (h : Twin outer a b) : b.measures = a.measures := by
  unfold measures
  rw [h.atLineStart, isEmpty_eq_of_signs h.signs]

theorem step_twin (h : Twin [] a b) : StepTwin [] (a.step tabSize) (b.step tabSize) := by
  have hhere : b.here.rest = a.here.rest := here_rest_eq h.rest
  rw [step_eq, step_eq, measures_twin h]
  split
  · exact indentStep_twin h
  · cases hrest : a.here.rest with
    | nil =>
      rw [contentStep_nil hrest, contentStep_nil (hhere.trans hrest)]
      exact endStep_twin h _ _
    | cons c rest =>
      rw [contentStep_cons hrest, contentStep_cons (hhere.trans hrest)]
      split
      · exact joinStep_twin h hhere
      · split
        · exact breakStep_twin h hhere
        · split
          · exact commentStep_twin h hhere
          · exact lexemeStep_twin h hhere c

/-- Streams with the same tokens but for their places, and with the same error, if any. -/
structure SameStream (first second : TokenStream) : Prop where
  tokens : List.Forall₂ SameToken first.tokens second.tokens
  error : second.error.map (·.fault.unlined) = first.error.map (·.fault.unlined)

theorem SameStream.error_eq_none {first second : TokenStream} (h : SameStream first second)
    (hnone : first.error = none) : second.error = none := by
  have herror := h.error
  rw [hnone] at herror
  exact Option.map_eq_none_iff.1 herror

theorem SameStream.append {first second : TokenStream} {front front' : List Token}
    (hfront : List.Forall₂ SameToken front front') (h : SameStream first second) :
    SameStream ⟨front ++ first.tokens, first.error⟩ ⟨front' ++ second.tokens, second.error⟩ :=
  ⟨List.rel_append hfront h.tokens, h.error⟩

/-- The same text is read in the same way wherever it stands. -/
theorem run_twin {fuel fuel' : Nat} (h : Twin [] a b) (hfuel : a.fuel ≤ fuel)
    (hfuel' : b.fuel ≤ fuel') : SameStream (a.run tabSize fuel) (b.run tabSize fuel') := by
  induction fuel generalizing a b fuel' with
  | zero => simp [Lexer.fuel] at hfuel
  | succ fuel ih =>
    cases fuel' with
    | zero => simp [Lexer.fuel] at hfuel'
    | succ fuel' =>
      have htwin : StepTwin [] (a.step tabSize) (b.step tabSize) := step_twin h
      unfold run
      generalize hleft : a.step tabSize = left at htwin ⊢
      generalize hright : b.step tabSize = right at htwin ⊢
      cases htwin with
      | emit hsame hnext =>
        have hlt := fuel_lt_of_emits (emits_of_step hleft)
        have hlt' := fuel_lt_of_emits (emits_of_step hright)
        exact (ih hnext (by omega) (by omega : _ ≤ fuel')).append hsame
      | finish hsame => exact ⟨hsame, rfl⟩
      | fail hsame => exact ⟨.nil, congrArg some hsame⟩

end Twin

/-! ## The first line of the second text -/

end Lexer

namespace Indentation

variable {here : Indentation} {blocks : List Indentation}

theorem remaining_zero (h : Nested blocks) : remaining zero blocks = [] := by
  induction blocks with
  | nil => rfl
  | cons top blocks ih =>
    have hfurther : Further top zero :=
      (List.pairwise_cons.1 h).1 zero (List.mem_append_right _ (List.mem_singleton_self _))
    rw [remaining_cons_of_lt blocks hfurther.width]
    exact ih (h.suffix (List.suffix_cons top blocks))

/-- A line without indentation ends all blocks. -/
theorem compare_zero (h : Nested blocks) :
    blocks = [] ∧ compare zero blocks = .ok .same ∨
      compare zero blocks = .ok (.shallower blocks.length []) := by
  cases blocks with
  | nil => exact .inl ⟨rfl, compare_of_accepts (.same rfl)⟩
  | cons top blocks =>
    have hfurther : Further top zero :=
      (List.pairwise_cons.1 h).1 zero (List.mem_append_right _ (List.mem_singleton_self _))
    have hnone := remaining_zero h
    have hcompare := compare_of_accepts (.shallower hfurther.width (by rw [hnone]; rfl))
    rw [hnone] at hcompare
    exact .inr hcompare

/-- Outside all blocks a line is not indented, or it opens a block. -/
theorem cases_of_compare_nil {change : Change} (h : compare here [] = .ok change) :
    change = .same ∧ here = zero ∨ change = .deeper := by
  cases accepts_of_compare h with
  | same level => exact .inl ⟨rfl, level⟩
  | deeper => exact .inr rfl
  | shallower ends => exact absurd ends (Nat.not_lt_zero _)

end Indentation

namespace Lexer

/-- Two lexers that have not come to a line with tokens yet: the first one has no block open, and
the second one has not ended the blocks around it. -/
structure Pending (outer : List Indentation) (a b : Lexer) : Prop extends Twin outer a b where
  blocks_eq : a.blocks = []
  brackets_eq : a.brackets = []
  content : a.lineHasContent = false
  bare : a.atLineStart = false → ∀ c ∈ a.here.rest.head?, c = '#' ∨ c = '\n' ∨ c = '\r'

/-- The marks for the end of this many blocks. -/
def Ends (n : Nat) (tokens : List Token) : Prop :=
  ∃ position, tokens = List.replicate n (mark .dedent position)

/-- Steps up to the first line with tokens, where the second lexer ends the blocks around it, unless
the first one opens a block or fails. -/
inductive PendingStep (outer : List Indentation) : Step → Step → Prop
  | wait {tokens tokens' : List Token} {next next' : Lexer} (unseen : seen tokens = [])
    (same : List.Forall₂ SameToken tokens tokens') (pending : Pending outer next next') :
    PendingStep outer (.emit tokens next) (.emit tokens' next')
  | resume {marks : List Token} {next next' : Lexer} (ends : Ends outer.length marks)
    (twin : Twin [] next next') : PendingStep outer (.emit [] next) (.emit marks next')
  | finish {tokens tokens' : List Token} (unseen : seen tokens = [])
    (ends : Ends outer.length (seen tokens')) : PendingStep outer (.finish tokens) (.finish tokens')
  | deeper {token : Token} (kind : token.kind = .indent) (next : Lexer) (other : Step) :
    PendingStep outer (.emit [token] next) other
  | fail (error : LexicalError) (other : Step) : PendingStep outer (.fail error) other

section Pending

variable {a b : Lexer} {outer : List Indentation} {tabSize : Nat}

theorem ends_marks (n : Nat) (p : Position) : Ends n (List.replicate n (mark .dedent p)) :=
  ⟨p, rfl⟩

theorem seen_of_ends {n : Nat} {tokens : List Token} (h : Ends n tokens) :
    seen tokens = tokens := by
  obtain ⟨position, rfl⟩ := h
  refine List.filter_eq_self.2 fun token htoken => ?_
  rw [List.eq_of_mem_replicate htoken]
  rfl

theorem seen_same {tokens tokens' : List Token} (h : List.Forall₂ SameToken tokens tokens') :
    List.Forall₂ SameToken (seen tokens) (seen tokens') := by
  refine List.rel_filter ?_ h
  intro token token' h
  dsimp only
  rw [h.kind]

theorem any_isGap_here (lexer : Lexer) : lexer.here.rest.head?.any Indentation.isGap = false := by
  rw [here, Cursor.rest_eatWhile]
  exact head?_dropWhile _ _

theorem here_eq_cursor {lexer : Lexer}
    (h : lexer.cursor.rest.head?.any Indentation.isGap = false) : lexer.here = lexer.cursor := by
  unfold here Cursor.eatWhile
  cases hrest : lexer.cursor.rest with
  | nil => rfl
  | cons c rest =>
    rw [hrest] at h
    rw [List.takeWhile_cons_of_neg (by simpa using h)]
    rfl

theorem indentStep_of_bare {lexer : Lexer}
    (h : ∀ c ∈ lexer.here.rest.head?, c = '#' ∨ c = '\n' ∨ c = '\r') :
    lexer.indentStep tabSize =
      .emit [] { lexer with cursor := lexer.here, atLineStart := false } := by
  unfold indentStep
  dsimp only
  split
  · rfl
  · next c rest hrest =>
    have hrest : lexer.here.rest = c :: rest := hrest
    rw [hrest] at h
    rw [if_pos (h c rfl)]
    rfl

/-- The step at the start of a line with tokens. -/
def changeStep (tabSize : Nat) (lexer : Lexer) :
    Except Indentation.Fault Indentation.Change → Step
  | .ok .same => .emit [] { lexer with cursor := lexer.here, atLineStart := false }
  | .ok .deeper =>
    .emit [take lexer.cursor .indent (lexer.cursor.rest.takeWhile Indentation.isGap).length]
      { lexer with
        cursor := lexer.here
        atLineStart := false
        blocks := lexer.indentation tabSize :: lexer.blocks }
  | .ok (.shallower closed remaining) =>
    .emit (List.replicate closed (mark .dedent lexer.here.position))
      { lexer with cursor := lexer.here, atLineStart := false, blocks := remaining }
  | .error .tabs => .fail ⟨.inconsistentTabs, lexer.here.position⟩
  | .error .tooDeep => .fail ⟨.tooManyIndents, lexer.here.position⟩
  | .error .mismatch => .fail ⟨.unindentMismatch, lexer.here.position⟩

theorem indentStep_of_not_bare {lexer : Lexer}
    (h : ¬ ∀ c ∈ lexer.here.rest.head?, c = '#' ∨ c = '\n' ∨ c = '\r') :
    lexer.indentStep tabSize =
      lexer.changeStep tabSize ((lexer.indentation tabSize).compare lexer.blocks) := by
  unfold indentStep indentation
  dsimp only
  split
  · next hrest =>
    have hrest : lexer.here.rest = [] := hrest
    rw [hrest] at h
    exact absurd (fun _ hc => absurd hc (by simp)) h
  · next c rest hrest =>
    have hrest : lexer.here.rest = c :: rest := hrest
    rw [hrest] at h
    have hc : ¬ (c = '#' ∨ c = '\n' ∨ c = '\r') := fun hc => h fun d hd => by
      obtain rfl : c = d := Option.some.inj hd
      exact hc
    rw [if_neg hc]
    split <;> next hcompare => rw [hcompare]; rfl

theorem indentStep_pending (h : Pending outer a b) (houter : Indentation.Nested outer) :
    PendingStep outer (a.indentStep tabSize) (b.indentStep tabSize) := by
  have hhere : b.here.rest = a.here.rest := here_rest_eq h.rest
  have hagain : ({ a with cursor := a.here, atLineStart := false } : Lexer).here = a.here :=
    here_eq_cursor (any_isGap_here a)
  by_cases hbare : ∀ c ∈ a.here.rest.head?, c = '#' ∨ c = '\n' ∨ c = '\r'
  · rw [indentStep_of_bare hbare, indentStep_of_bare (hhere ▸ hbare)]
    refine .wait rfl .nil ⟨⟨hhere, h.blocks, h.signs, rfl, h.lineHasContent⟩, h.blocks_eq,
      h.brackets_eq, h.content, fun _ => ?_⟩
    rw [hagain]
    exact hbare
  · have hblocks : b.blocks = outer := by rw [h.blocks, h.blocks_eq, List.nil_append]
    have hindentation : b.indentation tabSize = a.indentation tabSize := by
      unfold indentation
      rw [h.rest]
    rw [indentStep_of_not_bare hbare, indentStep_of_not_bare (hhere ▸ hbare), hindentation, hblocks,
      h.blocks_eq]
    cases hcompare : (a.indentation tabSize).compare [] with
    | error fault => cases fault <;> exact .fail _ _
    | ok change =>
      rcases Indentation.cases_of_compare_nil hcompare with ⟨rfl, hzero⟩ | rfl
      · have hresume : ∀ {blocks}, blocks = [] → Twin []
            { a with cursor := a.here, atLineStart := false }
            { b with cursor := b.here, atLineStart := false, blocks } := fun hnone =>
          ⟨hhere, by rw [hnone, h.blocks_eq]; rfl, h.signs, rfl, h.lineHasContent⟩
        rw [hzero]
        rcases Indentation.compare_zero houter with ⟨rfl, hsame⟩ | hshallower
        · rw [hsame]
          exact .resume (ends_marks 0 .start) (hresume hblocks)
        · rw [hshallower]
          exact .resume (ends_marks _ _) (hresume rfl)
      · exact .deeper rfl _ _

theorem endStep_pending (h : Pending outer a b) (p q : Position) :
    PendingStep outer (a.endStep p) (b.endStep q) := by
  have hsigns := h.signs
  have hblocks : b.blocks = outer := by rw [h.blocks, h.blocks_eq, List.nil_append]
  rw [h.brackets_eq, List.map_nil] at hsigns
  unfold endStep
  rw [h.brackets_eq, List.map_eq_nil_iff.1 hsigns, h.lineHasContent, h.content, h.blocks_eq,
    hblocks]
  refine .finish rfl ?_
  rw [seen_append, seen_append, seen_of_ends (ends_marks _ q)]
  exact ⟨q, List.append_nil _⟩

theorem breakStep_pending (h : Pending outer a b) :
    PendingStep outer (a.breakStep a.here) (b.breakStep b.here) := by
  have htwin := breakStep_twin h.toTwin (here_rest_eq h.rest : b.here.rest = a.here.rest)
  have hstep : a.breakStep a.here =
      .emit [take a.here .nl (Cursor.lineBreak a.here.rest).length]
        { a with
          cursor := a.here.skip (Cursor.lineBreak a.here.rest).length
          atLineStart := true } := by
    unfold breakStep
    rw [h.brackets_eq, h.content]
    rfl
  rw [hstep] at htwin ⊢
  generalize b.breakStep b.here = other at htwin ⊢
  cases htwin with
  | emit same twin =>
    exact .wait rfl same ⟨twin, h.blocks_eq, h.brackets_eq, h.content,
      fun hinside => absurd hinside Bool.noConfusion⟩

theorem commentStep_pending (h : Pending outer a b) :
    PendingStep outer (a.commentStep a.here) (b.commentStep b.here) := by
  have htwin := commentStep_twin h.toTwin (here_rest_eq h.rest : b.here.rest = a.here.rest)
  have hrest : (a.here.skip (a.here.rest.takeWhile (!isLineBreak ·)).length).rest =
      a.here.rest.dropWhile (!isLineBreak ·) := Cursor.rest_eatWhile _ _
  have hbreak : ∀ c ∈ (a.here.rest.dropWhile (!isLineBreak ·)).head?, c = '\n' ∨ c = '\r' := by
    intro c hc
    have hnot := head?_dropWhile (!isLineBreak ·) a.here.rest
    rw [Option.mem_def.1 hc] at hnot
    have hbreak : isLineBreak c = true := by simpa using hnot
    simpa [isLineBreak] using hbreak
  generalize b.commentStep b.here = other at htwin ⊢
  unfold commentStep at htwin ⊢
  cases htwin with
  | emit same twin =>
    refine .wait rfl same ⟨twin, h.blocks_eq, h.brackets_eq, h.content, fun _ c hc => ?_⟩
    rw [here_eq_cursor, hrest] at hc
    · exact .inr (hbreak c hc)
    · rw [hrest]
      cases hhead : (a.here.rest.dropWhile (!isLineBreak ·)).head? with
      | none => rfl
      | some c => rcases hbreak c hhead with rfl | rfl <;> rfl

theorem step_pending (h : Pending outer a b) (houter : Indentation.Nested outer) :
    PendingStep outer (a.step tabSize) (b.step tabSize) := by
  have hhere : b.here.rest = a.here.rest := here_rest_eq h.rest
  rw [step_eq, step_eq, measures_twin h.toTwin]
  split
  · exact indentStep_pending h houter
  · next hinside =>
    have hline : a.atLineStart = false := by
      unfold measures at hinside
      rw [h.brackets_eq] at hinside
      simpa using hinside
    have hbare := h.bare hline
    cases hrest : a.here.rest with
    | nil =>
      rw [contentStep_nil hrest, contentStep_nil (hhere.trans hrest)]
      exact endStep_pending h _ _
    | cons c rest =>
      rw [hrest] at hbare
      rw [contentStep_cons hrest, contentStep_cons (hhere.trans hrest)]
      rcases hbare c rfl with rfl | rfl | rfl
      · exact commentStep_pending h
      · exact breakStep_pending h
      · exact breakStep_pending h

/-- A second lexer reads what a first one does, once it has ended the blocks around it. -/
structure Resumes (n : Nat) (first second : TokenStream) : Prop where
  tokens : ∃ marks later, seen second.tokens = marks ++ later ∧ Ends n marks ∧
    List.Forall₂ SameToken (seen first.tokens) later
  error : second.error = none

theorem run_pending {fuel fuel' : Nat} (h : Pending outer a b) (houter : Indentation.Nested outer)
    (hfuel : a.fuel ≤ fuel) (hfuel' : b.fuel ≤ fuel') (herror : (a.run tabSize fuel).error = none)
    (hindent : ∀ token ∈ (seen (a.run tabSize fuel).tokens).head?, token.kind ≠ .indent) :
    Resumes outer.length (a.run tabSize fuel) (b.run tabSize fuel') := by
  induction fuel generalizing a b fuel' with
  | zero => simp [Lexer.fuel] at hfuel
  | succ fuel ih =>
    cases fuel' with
    | zero => simp [Lexer.fuel] at hfuel'
    | succ fuel' =>
      have hpending : PendingStep outer (a.step tabSize) (b.step tabSize) := step_pending h houter
      unfold run at herror hindent ⊢
      generalize hleft : a.step tabSize = left at hpending herror hindent ⊢
      generalize hright : b.step tabSize = right at hpending ⊢
      cases hpending with
      | fail => cases herror
      | finish unseen ends =>
        refine ⟨⟨_, [], (List.append_nil _).symm, ends, ?_⟩, rfl⟩
        rw [unseen]
        exact .nil
      | @deeper token kind next =>
        have hfirst : (seen (token :: (next.run tabSize fuel).tokens)).head? = some token := by
          rw [seen, List.filter_cons_of_pos (by rw [kind]; rfl), List.head?_cons]
        exact absurd kind (hindent token hfirst)
      | wait unseen same pending =>
        have hlt := fuel_lt_of_emits (emits_of_step hleft)
        have hlt' := fuel_lt_of_emits (emits_of_step hright)
        dsimp only at hindent herror ⊢
        rw [seen_append, unseen, List.nil_append] at hindent
        obtain ⟨⟨marks, later, htokens, hends, hlater⟩, hnone⟩ :=
          ih pending (by omega) (by omega : _ ≤ fuel') herror hindent
        refine ⟨⟨marks, later, ?_, hends, ?_⟩, hnone⟩
        · have hsame := seen_same same
          rw [unseen] at hsame
          rw [seen_append, List.forall₂_nil_left_iff.1 hsame, List.nil_append, htokens]
        · rw [seen_append, unseen, List.nil_append]
          exact hlater
      | resume ends twin =>
        have hlt := fuel_lt_of_emits (emits_of_step hleft)
        have hlt' := fuel_lt_of_emits (emits_of_step hright)
        have hsame := @run_twin _ _ tabSize fuel fuel' twin (by omega) (by omega)
        exact ⟨⟨_, _, by rw [seen_append, seen_of_ends ends], ends, seen_same hsame.tokens⟩,
          hsame.error_eq_none herror⟩

end Pending

end Lexer

/-! ## Both texts -/

/-- A snippet whose last character is a line feed that ends a line. -/
def EndsWithLine (source : String) : Prop :=
  EndsLine source.toList ∧ ∃ token ∈ (TokenStream.ofText source).tokens,
    Lexer.ClosesAt (Text.byteLength source.toList) token

instance (source : String) : Decidable (EndsWithLine source) := inferInstanceAs (Decidable (_ ∧ _))

/-- The grammar sees the tokens of one stream, and then those of another one. -/
structure Joined (first second both : TokenStream) : Prop where
  tokens : ∃ former later, Lexer.seen both.tokens = former ++ later ∧
    List.Forall₂ Lexer.SameToken (Lexer.seen first.tokens) former ∧
    List.Forall₂ Lexer.SameToken (Lexer.seen second.tokens) later
  closed : ∀ token ∈ (Lexer.seen first.tokens).getLast?, token.kind.isLayout = true
  error : both.error = none

section Both

open Lexer

theorem same_refl (tokens : List Token) : List.Forall₂ SameToken tokens tokens :=
  List.forall₂_same.2 fun _ _ => ⟨rfl, rfl⟩

theorem joined_of_empty {second : TokenStream} (h : second.error = none) :
    Joined (.ofText "") second second := by
  have hnil : seen (TokenStream.ofText "").tokens = [] := by decide
  refine ⟨⟨[], _, rfl, hnil ▸ .nil, same_refl _⟩, ?_, h⟩
  rw [hnil]
  exact fun _ htoken => absurd htoken (by simp)

section Fronts

variable {lexer : Lexer} {stream : TokenStream} {front : List Token} {position : Position}
  {blocks : List Indentation} {tabSize : Nat}

theorem seen_of_fronts (h : Fronts tabSize lexer stream front position blocks) :
    seen stream.tokens =
      seen front ++ List.replicate blocks.length (mark .dedent position) := by
  have hend : seen [mark .endMarker position] = [] := rfl
  rw [h.tokens_eq, closing, seen_append, seen_append, seen_of_ends (ends_marks _ position), hend,
    List.append_nil]

theorem closed_of_fronts (h : Fronts tabSize lexer stream front position blocks) :
    ∀ token ∈ (seen stream.tokens).getLast?, token.kind.isLayout = true := by
  intro token htoken
  rw [seen_of_fronts h, List.getLast?_append] at htoken
  cases hlast : (List.replicate blocks.length (mark .dedent position)).getLast? with
  | none =>
    rw [hlast, Option.none_or] at htoken
    exact h.closed token htoken
  | some last =>
    rw [hlast, Option.some_or] at htoken
    obtain rfl := Option.some.inj htoken
    rw [List.eq_of_mem_replicate (List.mem_of_getLast? hlast)]
    rfl

end Fronts

/-- A snippet that ends with the end of a line is read as it would be alone, and so is the one after
it. -/
theorem joined_ofText {a b : String} (ha : a = "" ∨ EndsWithLine a)
    (herror : (TokenStream.ofText a).error = none) (herror' : (TokenStream.ofText b).error = none)
    (hindent : ∀ token ∈ (seen (TokenStream.ofText b).tokens).head?, token.kind ≠ .indent) :
    Joined (.ofText a) (.ofText b) (.ofText (a ++ b)) := by
  rcases ha with rfl | ⟨hline, hcloses⟩
  · rw [String.empty_append]
    exact joined_of_empty herror'
  · have hstop : Text.byteLength a.toList = (Lexer.ofText a).cursor.position.offset +
        Text.byteLength (Lexer.ofText a).cursor.rest := (Nat.zero_add _).symm
    obtain ⟨front, position, blocks, hfronts⟩ :=
      fronts_of_run (Nat.le_refl _) hline herror hstop hcloses
    obtain ⟨fuel, hfuel, hrun⟩ := hfronts.more b.toList (Nat.le_refl _)
    have hmore : (Lexer.ofText a).more b.toList = Lexer.ofText (a ++ b) := by
      unfold Lexer.ofText Cursor.ofText Lexer.more Cursor.more
      rw [String.toList_append]
    have hboth : TokenStream.ofText (a ++ b) =
        ⟨front ++ ((fresh b.toList position blocks).run TokenStream.tabSize fuel).tokens,
          ((fresh b.toList position blocks).run TokenStream.tabSize fuel).error⟩ := by
      rw [← hrun, hmore]
      rfl
    -- the second snippet begins at the start of a line, where only the blocks are still open
    have hpending : Pending blocks (Lexer.ofText b) (fresh b.toList position blocks) :=
      ⟨⟨rfl, rfl, rfl, rfl, rfl⟩, rfl, rfl, rfl, fun h => absurd h Bool.noConfusion⟩
    have hnested : Indentation.Nested blocks := hfronts.nested (List.pairwise_singleton _ _)
    obtain ⟨⟨_, later, htokens, ⟨position', rfl⟩, hlater⟩, hnone⟩ :=
      run_pending hpending hnested (Nat.le_refl _) hfuel herror' hindent
    refine ⟨⟨seen front ++ List.replicate blocks.length (mark .dedent position'), later, ?_, ?_,
      hlater⟩, closed_of_fronts hfronts, ?_⟩
    · rw [hboth, seen_append, htokens, List.append_assoc]
    · rw [TokenStream.ofText, TokenStream.withTabs, seen_of_fronts hfronts]
      exact List.rel_append (same_refl _) (marks_same _ _ _ _)
    · rw [hboth]
      exact hnone

end Both

end SnippetLint
