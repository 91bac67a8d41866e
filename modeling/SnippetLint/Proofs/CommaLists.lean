import SnippetLint.Proofs.Settling

/-!
Lists in brackets: items with commas between them, where one more comma may stand after the last.
Written without blanks, but for those after a comma, such a list is read back into its lexemes,
since names and numbers end where a sign comes next and no sign goes on into the next lexeme. The
loop that reads the items is followed once for all kinds of item: what a step says of the items read
so far holds of all of them in the end (`settles_commaLoop`).
-/

namespace SnippetLint

/-- Items with a comma after each of them, which may be missing after the last one. -/
def commaSeparated (comma : List α) (trailing : Bool) : List (List α) → List α
  | [] => []
  | item :: items =>
    if items.isEmpty && !trailing then item
    else item ++ (comma ++ commaSeparated comma trailing items)

/-- Every item is placed right between those before it and those after it. -/
def EachPlaced (Placed : List ι → ι → List ι → Prop) (items : List ι) : Prop :=
  ∀ front item back, items = front ++ item :: back → Placed front item back

theorem eachPlaced_nil (Placed : List ι → ι → List ι → Prop) : EachPlaced Placed [] := by
  intro front item back h
  cases front <;> cases h

/-- Where only what stands before an item counts, one more item changes nothing for the others. -/
theorem eachPlaced_concat {Admits : List ι → ι → Prop} {front : List ι} {item : ι}
    (hfront : EachPlaced (fun front item _ => Admits front item) front)
    (hitem : Admits front item) :
    EachPlaced (fun front item _ => Admits front item) (front ++ [item]) := by
  intro before other after h
  rcases List.eq_nil_or_concat after with rfl | ⟨after, last, rfl⟩
  · obtain ⟨rfl, hother⟩ := List.append_inj' h rfl
    cases hother
    exact hitem
  · rw [List.concat_eq_append, ← List.cons_append, ← List.append_assoc] at h
    exact hfront before other after (List.append_inj' h rfl).1

theorem any_concat {front : List ι} {item : ι} (f : ι → Bool) :
    (front ++ [item]).any f = (front.any f || f item) := by simp

theorem any_eq_false_iff {front : List ι} {f : ι → Bool} :
    front.any f = false ↔ ∀ item ∈ front, f item = false := by simp

/-- A name of one letter. -/
def Identifier.letter (c : Char) (hstart : Word.isStart c = true) (hkind : Word.kind [c] = .name) :
    Identifier := ⟨c, [], hstart, List.forall_mem_nil _, hkind⟩

/-- The name that is defined or called in front of a list. -/
def Identifier.f : Identifier := .letter 'f' rfl rfl

namespace Lexeme

def defWord : Lexeme := ⟨.keyword .defKw, ['d', 'e', 'f']⟩

def classWord : Lexeme := ⟨.keyword .classKw, ['c', 'l', 'a', 's', 's']⟩

def forWord : Lexeme := ⟨.keyword .forKw, ['f', 'o', 'r']⟩

def inWord : Lexeme := ⟨.keyword .inKw, ['i', 'n']⟩

def comma : Lexeme := ⟨.op .comma, [',']⟩

def colon : Lexeme := ⟨.op .colon, [':']⟩

def equal : Lexeme := ⟨.op .equal, ['=']⟩

def star : Lexeme := ⟨.op .star, ['*']⟩

def doubleStar : Lexeme := ⟨.op .doubleStar, ['*', '*']⟩

def slash : Lexeme := ⟨.op .slash, ['/']⟩

/-! ## Signs -/

variable {l : Lexeme} {c : Char} {cs rest : List Char}

/-- No sign of a list goes on with this text. -/
def EndsSign (rest : List Char) : Prop := Numerals.Bars ['=', '*', '/'].contains rest

theorem readsBefore_comma (rest : List Char) : comma.ReadsBefore rest ',' [] := by
  have hnone : extensions [','] = [] := by decide
  refine readsBefore_operator (by decide) (by decide) (by decide) (by decide) rfl fun d _ => ?_
  rw [hnone]
  exact List.not_mem_nil

/-- Only these characters make another sign of one that stands in a list. -/
theorem readsBefore_sign (hl : l ∈ [colon, equal, star, doubleStar, slash])
    (hrest : EndsSign rest) : ∃ c cs, l.ReadsBefore rest c cs ∧ c ∉ Bracket.signs := by
  have hextensions : ∀ l ∈ [colon, equal, star, doubleStar, slash],
      ∀ d ∈ extensions l.chars, ['=', '*', '/'].contains d = true := by decide
  have hbars : ∀ d, rest.head? = some d → d ∉ extensions l.chars := by
    intro d hd hmem
    have hrest : (rest.head?.any ['=', '*', '/'].contains) = false := hrest
    rw [hd, Option.any_some, hextensions l hl d hmem] at hrest
    cases hrest
  simp only [List.mem_cons, List.not_mem_nil, or_false] at hl
  rcases hl with rfl | rfl | rfl | rfl | rfl
  all_goals exact ⟨_, _, readsBefore_operator (by decide) (by decide) (by decide) (by decide) rfl
    hbars, by decide⟩

/-! ## Names and numbers -/

/-- A text before which words and numbers end. -/
def EndsOperand (rest : List Char) : Prop :=
  Numerals.Bars (fun c => Word.isPart c || c == '.' || Quotation.isQuote c) rest

theorem endsOperand_cons (hc : c ∈ [',', ')', '(', ':', '=', ' ']) : EndsOperand (c :: rest) := by
  have hall : ∀ d ∈ [',', ')', '(', ':', '=', ' '],
      (Word.isPart d || d == '.' || Quotation.isQuote d) = false := by decide
  exact hall c hc

theorem EndsOperand.ends (h : EndsOperand rest) : Numerals.Ends rest :=
  Numerals.Bars.mono h fun c hc => by rw [hc, Bool.true_or]

theorem EndsOperand.readsBefore_word (h : EndsOperand rest) (hstart : Word.isStart c = true)
    (hparts : ∀ d ∈ cs, Word.isPart d = true) :
    ReadsBefore ⟨Word.kind (c :: cs), c :: cs⟩ rest c cs :=
  Lexeme.readsBefore_word hstart hparts (Numerals.Bars.mono h fun d hd => by simp [hd])
    (Numerals.Bars.mono h fun d hd => by simp [hd])

/-- Names and numbers are read before what ends them, and a sign ends before them. -/
theorem readsBefore_operand (operand : Operand) (hrest : EndsOperand rest) :
    ∃ c cs, operand.lexeme.ReadsBefore rest c cs ∧ c ∉ Bracket.signs ∧
      ['=', '*', '/'].contains c = false := by
  cases operand with
  | name id =>
    have hstart := id.isStart_first
    have hread := hrest.readsBefore_word hstart id.isPart_more
    rw [id.kind_eq] at hread
    refine ⟨id.first, id.more, hread, (not_foreign_of_isStart hstart).2, ?_⟩
    have hnone : ∀ d ∈ ['=', '*', '/'], Word.isStart d = false := by decide
    refine Bool.eq_false_iff.2 fun hmem => ?_
    rw [hnone _ (List.contains_iff_mem.1 hmem)] at hstart
    cases hstart
  | number literal =>
    obtain ⟨c, cs, hchars, hc⟩ := exists_chars_of_number literal
    refine ⟨c, cs, readsBefore_number hchars hrest.ends, (not_foreign_of_number hc).2, ?_⟩
    have hnone : ∀ d ∈ ['=', '*', '/'], ¬(Number.isDecimal d = true ∨ d = '.') := by decide
    exact Bool.eq_false_iff.2 fun hmem => hnone c (List.contains_iff_mem.1 hmem) hc

end Lexeme

/-! ## Texts of lists -/

section Rendered
open Lexeme

variable {depth : Nat} {l : Lexeme} {ls : List Lexeme} {c : Char} {cs rest : List Char}

theorem rendered_comma (n : Nat) (more : Rendered depth ls rest) :
    Rendered depth (comma :: ls) (',' :: (blanks n ++ rest)) :=
  .lexeme (readsBefore_comma _) (by decide) more

theorem rendered_sign (hl : l ∈ [colon, equal, star, doubleStar, slash]) (n : Nat)
    (hrest : EndsSign (blanks n ++ rest)) (more : Rendered depth ls rest) :
    Rendered depth (l :: ls) (l.chars ++ (blanks n ++ rest)) := by
  obtain ⟨c, cs, hread, hbracket⟩ := readsBefore_sign hl hrest
  exact .lexeme hread hbracket more

theorem rendered_word {kind : TokenKind} (hstart : Word.isStart c = true)
    (hparts : ∀ d ∈ cs, Word.isPart d = true) (hkind : Word.kind (c :: cs) = kind) (n : Nat)
    (hrest : EndsOperand (blanks n ++ rest)) (more : Rendered depth ls rest) :
    Rendered depth (⟨kind, c :: cs⟩ :: ls) (c :: cs ++ (blanks n ++ rest)) := by
  subst hkind
  exact .lexeme (hrest.readsBefore_word hstart hparts) (not_foreign_of_isStart hstart).2 more

theorem rendered_operand (operand : Operand) (n : Nat) (hrest : EndsOperand (blanks n ++ rest))
    (more : Rendered depth ls rest) :
    Rendered depth (operand.lexeme :: ls) (operand.lexeme.chars ++ (blanks n ++ rest)) := by
  obtain ⟨c, cs, hread, hbracket, -⟩ := readsBefore_operand operand hrest
  exact .lexeme hread hbracket more

theorem endsSign_operand (operand : Operand) (rest : List Char) :
    EndsSign (operand.lexeme.chars ++ rest) := by
  have hnil : EndsOperand [] := rfl
  obtain ⟨c, cs, hread, -, hc⟩ := readsBefore_operand operand hnil
  rw [hread.chars_eq]
  exact hc

/-- What ends an item of a list. -/
def EndsItem (rest : List Char) : Prop := ∃ more, rest = ',' :: more ∨ rest = ')' :: more

theorem EndsItem.endsOperand (h : EndsItem rest) : EndsOperand rest := by
  obtain ⟨more, rfl | rfl⟩ := h
  · exact endsOperand_cons (by decide)
  · exact endsOperand_cons (by decide)

theorem EndsItem.endsSign (h : EndsItem rest) : EndsSign rest := by
  obtain ⟨more, rfl | rfl⟩ := h <;> rfl

variable {ι : Type} {items : List ι} {lexemes : ι → List Lexeme} {chars : ι → List Char}
  {comma : List α} {trailing : Bool}

theorem commaSeparated_cons {item : List α} {items : List (List α)}
    (h : items ≠ [] ∨ trailing = true) :
    commaSeparated comma trailing (item :: items) =
      item ++ (comma ++ commaSeparated comma trailing items) := by
  have hmore : (items.isEmpty && !trailing) = false := by
    rcases h with h | h
    · rw [List.isEmpty_eq_false_iff.2 h, Bool.false_and]
    · rw [h, Bool.not_true, Bool.and_false]
  rw [commaSeparated, hmore, if_neg Bool.false_ne_true]

theorem mem_commaSeparated {x : α} {items : List (List α)}
    (h : x ∈ commaSeparated comma trailing items) : x ∈ comma ∨ ∃ item ∈ items, x ∈ item := by
  induction items with
  | nil => cases h
  | cons item items ih =>
    rw [commaSeparated] at h
    split at h
    · exact .inr ⟨item, List.mem_cons_self, h⟩
    · rcases List.mem_append.1 h with h | h
      · exact .inr ⟨item, List.mem_cons_self, h⟩
      · rcases List.mem_append.1 h with h | h
        · exact .inl h
        · exact (ih h).imp_right fun ⟨other, hmem, hx⟩ => ⟨other, List.mem_cons_of_mem _ hmem, hx⟩

/-- A list is rendered where its items are. -/
theorem rendered_commaSeparated (n : Nat)
    (hitem : ∀ item ∈ items, ∀ {ls rest}, EndsItem rest → Rendered depth ls rest →
      Rendered depth (lexemes item ++ ls) (chars item ++ rest))
    (more : Rendered depth ls (')' :: rest)) :
    Rendered depth (commaSeparated [.comma] trailing (items.map lexemes) ++ ls)
      (commaSeparated (',' :: blanks n) trailing (items.map chars) ++ ')' :: rest) := by
  induction items with
  | nil => exact more
  | cons item items ih =>
    obtain ⟨hfirst, hitems⟩ := List.forall_mem_cons.1 hitem
    rw [List.map_cons, List.map_cons]
    by_cases hmore : items ≠ [] ∨ trailing = true
    · rw [commaSeparated_cons (hmore.imp_left (mt List.map_eq_nil_iff.1)),
        commaSeparated_cons (hmore.imp_left (mt List.map_eq_nil_iff.1))]
      simp only [List.append_assoc, List.cons_append, List.nil_append]
      exact hfirst ⟨_, .inl rfl⟩ (rendered_comma n (ih hitems))
    · obtain ⟨rfl, rfl⟩ : items = [] ∧ trailing = false := by simpa using hmore
      exact hfirst ⟨_, .inr rfl⟩ more

/-- No list opens a parenthesis of its own. -/
theorem count_leftParen_commaSeparated
    (hitem : ∀ item, ∀ l ∈ lexemes item, l.kind ≠ .op .leftParen) :
    (commaSeparated [.comma] trailing (items.map lexemes)).count .leftParen = 0 := by
  refine List.count_eq_zero.2 fun hmem => ?_
  rcases mem_commaSeparated hmem with hcomma | ⟨item, hmap, hparen⟩
  · exact absurd (List.mem_singleton.1 hcomma) (by decide)
  · obtain ⟨source, -, rfl⟩ := List.mem_map.1 hmap
    exact hitem source _ hparen rfl

/-- A list in parentheses after a name. -/
theorem rendered_bracketed (n : Nat) (name : Identifier)
    (hitem : ∀ item ∈ items, ∀ {ls rest}, EndsItem rest → Rendered 1 ls rest →
      Rendered 1 (lexemes item ++ ls) (chars item ++ rest))
    (more : Rendered 0 ls rest) :
    Rendered 0 (name.lexeme :: .leftParen ::
        (commaSeparated [.comma] trailing (items.map lexemes) ++ .rightParen :: ls))
      (name.lexeme.chars ++ '(' ::
        (commaSeparated (',' :: blanks n) trailing (items.map chars) ++ ')' :: rest)) :=
  rendered_operand (.name name) 0 (endsOperand_cons (by decide))
    (.leftParen (n := 0) (rendered_commaSeparated n hitem (.rightParen (n := 0) more)))

/-- The end of a header and a block that does nothing. -/
theorem rendered_pass : Rendered 0 [colon, passWord] [':', ' ', 'p', 'a', 's', 's'] := by
  have hpass : Rendered 0 [passWord] ['p', 'a', 's', 's'] :=
    rendered_word (by decide) (by decide) (by decide) 0 rfl .nil
  exact rendered_sign (by decide) 1 rfl hpass

end Rendered

/-! ## Reading a list -/

/-- What comes after an item: a comma if there are more items or one more comma is written, or the
closing bracket. -/
inductive AfterItem (trailing : Bool) (back : List ι) : Lexeme → Prop
  | comma (more : back ≠ [] ∨ trailing = true) : AfterItem trailing back .comma
  | closed (last : back = []) (bare : trailing = false) : AfterItem trailing back .rightParen

section Loop
open SnippetLint.Parser

variable {ι σ : Type} {ending : Ending} {depth : Nat} {tail : List Lexeme} {fail : Prop}
  {items : List ι} {lexemes : ι → List Lexeme} {trailing : Bool} {step : σ → Parser σ}
  {Holds : List ι → σ → Prop}

/-- Before a list that is not empty stand the lexemes of its first item, and what comes after. -/
theorem exists_afterItem (lexemes : ι → List Lexeme) (trailing : Bool) (item : ι)
    (back : List ι) (tail : List Lexeme) :
    ∃ l more, AfterItem trailing back l ∧
      commaSeparated [.comma] trailing ((item :: back).map lexemes) ++ .rightParen :: tail =
        lexemes item ++ l :: more ∧
      (l = .comma → more = commaSeparated [.comma] trailing (back.map lexemes) ++
        .rightParen :: tail) ∧
      (l = .rightParen → back = [] ∧ more = tail) := by
  rw [List.map_cons]
  by_cases hmore : back ≠ [] ∨ trailing = true
  · refine ⟨_, _, .comma hmore, ?_, fun _ => rfl, nofun⟩
    rw [commaSeparated_cons (hmore.imp_left (mt List.map_eq_nil_iff.1)), List.append_assoc]
    rfl
  · obtain ⟨rfl, rfl⟩ : back = [] ∧ trailing = false := by simpa using hmore
    exact ⟨_, _, .closed rfl rfl, rfl, nofun, fun _ => ⟨rfl, rfl⟩⟩

/-- What each step keeps about the items read so far holds of all items in the end. -/
theorem settles_commaLoop {state : ParserState} {s : σ}
    (hstarts : ∀ item, ∃ l ls, lexemes item = l :: ls ∧ l.kind ≠ .op .rightParen)
    (hstep : ∀ {front item back s state l tail}, items = front ++ item :: back → Holds front s →
      AfterItem trailing back l → Before state depth (lexemes item ++ l :: tail) →
      Settles ending state (step s)
        (fun s next => Holds (front ++ [item]) s ∧ Before next depth (l :: tail)) fail)
    (hs : Holds [] s)
    (hb : Before state depth
      (commaSeparated [.comma] trailing (items.map lexemes) ++ .rightParen :: tail)) :
    Settles ending state
      (iterate (fun s => do
        if ← check (.op .rightParen) then return (s, false)
        else
          let s ← step s
          return (s, ← eat (.op .comma))) s)
      (fun s next => Holds items s ∧ Before next depth (.rightParen :: tail)) fail := by
  -- from any point on: the items that are left, with the state that those before them led to
  suffices hfrom : ∀ back front s state fuel, items = front ++ back → Holds front s →
      Before state depth
        (commaSeparated [.comma] trailing (back.map lexemes) ++ .rightParen :: tail) →
      state.left < fuel →
      Settles ending state (iterateWithin (fun s => do
        if ← check (.op .rightParen) then return (s, false)
        else
          let s ← step s
          return (s, ← eat (.op .comma))) fuel s)
        (fun s next => Holds items s ∧ Before next depth (.rightParen :: tail)) fail from
    settles_iterate (hfrom items [] s state _ rfl hs hb (Nat.lt_succ_self _))
  intro back
  induction back with
  | nil =>
    intro front s state fuel hitems hs hb hfuel
    obtain ⟨fuel, rfl⟩ : ∃ n, fuel = n + 1 := ⟨fuel - 1, by omega⟩
    rw [List.append_nil] at hitems
    subst hitems
    exact settles_iterateWithin (Settles.bind (settles_check hb ⟨hs, hb⟩))
  | cons item back ih =>
    intro front s state fuel hitems hs hb hfuel
    obtain ⟨fuel, rfl⟩ : ∃ n, fuel = n + 1 := ⟨fuel - 1, by omega⟩
    obtain ⟨l, more, hafter, hlexemes, hcomma, hclosed⟩ :=
      exists_afterItem lexemes trailing item back tail
    rw [hlexemes] at hb
    have hleft := hb.left_eq_length
    rw [List.length_append, List.length_cons] at hleft
    obtain ⟨m, ms, hm, hkind⟩ := hstarts item
    refine settles_iterateWithin ?_
    have hhead := hb
    rw [hm, List.cons_append] at hhead
    refine Settles.bind (settles_check hhead ?_)
    rw [beq_false_of_ne hkind, if_neg Bool.false_ne_true]
    refine Settles.bind ((hstep hitems hs hafter hb).mono ?_ id)
    rintro s next ⟨hs, hnext⟩
    cases hafter with
    | comma =>
      obtain rfl := hcomma rfl
      refine Settles.bind (settles_eat_of_eq hnext rfl fun last hlast => ?_)
      refine ih _ s last fuel (by rw [hitems, List.append_assoc]; rfl) hs hlast ?_
      rw [hlast.left_eq_length]
      omega
    | closed =>
      obtain ⟨rfl, rfl⟩ := hclosed rfl
      refine Settles.bind (settles_eat_of_ne hnext nofun ?_)
      exact ⟨hitems ▸ hs, hnext⟩

end Loop

end SnippetLint
