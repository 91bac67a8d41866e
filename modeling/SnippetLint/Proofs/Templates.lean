import SnippetLint.Proofs.Recoding

/-!
What a formatted string is. `Body` is the grammar of the text between the quotes: plain characters,
doubled braces and fields, which hold an expression, a conversion and a format in which fields may
stand once more. Expressions are compared first: what the reader takes up to the character that ends
an expression is balanced text, and balanced text is taken whole. Main statement:
`template_bodies_are_recognised`.
-/

namespace SnippetLint.Templates
open Template

/-! ## The grammar -/

/-- The text of an expression from where `depth` brackets are open to where none is. Quoted text
goes on to the next quote of the same kind, and a closing bracket of any kind ends the innermost
one. Outside quotes and brackets neither a colon nor a closing brace may stand, nor an exclamation
mark without an equals sign. -/
inductive Balanced : Nat → List Char → Prop
  | nil : Balanced 0 []
  | quoted {depth : Nat} {quote : Char} {inner cs : List Char}
      (isQuote : quote = '\x27' ∨ quote = '\x22') (inside : quote ∉ inner)
      (more : Balanced depth cs) : Balanced depth (quote :: (inner ++ quote :: cs))
  | opening {depth : Nat} {c : Char} {cs : List Char} (opens : c ∈ ['(', '[', '\x7b'])
      (more : Balanced (depth + 1) cs) : Balanced depth (c :: cs)
  | closing {depth : Nat} {c : Char} {cs : List Char} (closes : c ∈ [')', ']', '\x7d'])
      (more : Balanced depth cs) : Balanced (depth + 1) (c :: cs)
  | inside {depth : Nat} {c : Char} {cs : List Char}
      (plain : c ∉ ['\x27', '\x22', '(', '[', '\x7b', ')', ']', '\x7d'])
      (more : Balanced (depth + 1) cs) : Balanced (depth + 1) (c :: cs)
  | outside {c : Char} {cs : List Char}
      (plain : c ∉ ['\x27', '\x22', '(', '[', '\x7b', '\x7d', ':', '!'])
      (more : Balanced 0 cs) : Balanced 0 (c :: cs)
  | unequal {cs : List Char} (more : Balanced 0 ('=' :: cs)) : Balanced 0 ('!' :: '=' :: cs)

/-- Nothing but blanks, with or without one equals sign. -/
def Blank (cs : List Char) : Prop :=
  (∀ c ∈ cs, Text.isBlank c = true) ∨ ∃ front back, cs = front ++ '=' :: back ∧
    ∀ c ∈ front ++ back, Text.isBlank c = true

/-- The expression of a field that stands inside so many others. After the brace of an outermost
field no second one stands, which would double it. -/
structure IsExpression (level : Nat) (cs : List Char) : Prop where
  balanced : Balanced 0 cs
  shown : ¬Blank cs
  single : level = 0 → cs.head? ≠ some '\x7b'

/-- An exclamation mark and a letter, or nothing. -/
def IsConversion (cs : List Char) : Prop := cs = [] ∨ ∃ c ∈ ['s', 'r', 'a'], cs = ['!', c]

mutual

/-- A field inside `level` others, from its opening brace to the closing one. -/
inductive Field : Nat → List Char → Prop
  | plain {level : Nat} {text conversion : List Char} (shallow : level ≤ 1)
      (expression : IsExpression level text) (converts : IsConversion conversion) :
      Field level ('\x7b' :: (text ++ (conversion ++ ['\x7d'])))
  | formatted {level : Nat} {text conversion format : List Char} (shallow : level ≤ 1)
      (expression : IsExpression level text) (converts : IsConversion conversion)
      (formats : Format (level + 1) format) :
      Field level ('\x7b' :: (text ++ (conversion ++ ':' :: (format ++ ['\x7d']))))

/-- A format whose fields stand inside `level` others. -/
inductive Format : Nat → List Char → Prop
  | nil {level : Nat} : Format level []
  | char {level : Nat} {c : Char} {cs : List Char} (plain : c ≠ '\x7b' ∧ c ≠ '\x7d')
      (more : Format level cs) : Format level (c :: cs)
  | field {level : Nat} {fs cs : List Char} (field : Field level fs) (more : Format level cs) :
      Format level (fs ++ cs)

end

/-- The text between the quotes of a formatted string. -/
inductive Body : List Char → Prop
  | nil : Body []
  | char {c : Char} {cs : List Char} (plain : c ≠ '\x7b' ∧ c ≠ '\x7d') (more : Body cs) :
      Body (c :: cs)
  | doubled {brace : Char} {cs : List Char} (isBrace : brace = '\x7b' ∨ brace = '\x7d')
      (more : Body cs) : Body (brace :: brace :: cs)
  | field {fs cs : List Char} (field : Field 0 fs) (more : Body cs) : Body (fs ++ cs)

/-! ## Expressions -/

variable {depth fuel : Nat} {quote : Char} {cs text rest : List Char} {stop : Char}

/-- The characters that end an expression. -/
def Stops (stop : Char) (rest : List Char) : Prop :=
  stop = ':' ∨ stop = '\x7d' ∨ stop = '!' ∧ rest.head? ≠ some '='

/-- What is kept of an expression has lost the text inside its quotes, but a quote for each. -/
def Keeps (cs text : List Char) : Prop :=
  text = cs ∨ ∃ quote, Template.isQuote quote = true ∧ quote ∈ cs ∧ quote ∈ text

theorem Keeps.cons (h : Keeps cs text) (c : Char) : Keeps (c :: cs) (c :: text) := by
  rcases h with rfl | ⟨quote, hquote, hcs, htext⟩
  · exact .inl rfl
  · exact .inr ⟨quote, hquote, List.mem_cons_of_mem c hcs, List.mem_cons_of_mem c htext⟩

theorem blank_iff : Blank cs ↔
    cs.filter (!Text.isBlank ·) = [] ∨ cs.filter (!Text.isBlank ·) = ['='] := by
  have hnil : ∀ ds : List Char, ds.filter (!Text.isBlank ·) = [] ↔
      ∀ c ∈ ds, Text.isBlank c = true := by simp
  refine or_congr (hnil cs).symm ⟨?_, fun h => ?_⟩
  · rintro ⟨front, back, rfl, hblank⟩
    obtain ⟨hfront, hback⟩ := List.forall_mem_append.1 hblank
    rw [List.filter_append, (hnil front).2 hfront, List.filter_cons_of_pos (by decide),
      (hnil back).2 hback]
    rfl
  · obtain ⟨front, back, rfl, hfront, hback⟩ := List.filter_eq_cons_iff.1 h
    have hblank : ∀ ds : List Char, (∀ c ∈ ds, ¬(!Text.isBlank c) = true) →
        ∀ c ∈ ds, Text.isBlank c = true := by simp
    exact ⟨front, back, rfl, List.forall_mem_append.2
      ⟨hblank front hfront, (hnil back).1 hback.2⟩⟩

theorem not_blank_of_mem {quote : Char} (hquote : Template.isQuote quote = true)
    (h : quote ∈ cs) :
    ¬(cs.filter (!Text.isBlank ·) = [] ∨ cs.filter (!Text.isBlank ·) = ['=']) := by
  have hshown : Text.isBlank quote = false ∧ quote ≠ '=' := by
    rcases (by simpa [Template.isQuote] using hquote) with rfl | rfl
    all_goals decide
  have hmem : quote ∈ cs.filter (!Text.isBlank ·) :=
    List.mem_filter.2 ⟨h, by simp [hshown.1]⟩
  rintro (hnil | hequal)
  · rw [hnil] at hmem
    cases hmem
  · rw [hequal] at hmem
    exact hshown.2 (List.mem_singleton.1 hmem)

/-- So it is blank if and only if the expression is. -/
theorem Keeps.isBlankExpression (h : Keeps cs text) : isBlankExpression text = true ↔ Blank cs := by
  rw [blank_iff, Recoding.isBlankExpression_iff]
  rcases h with rfl | ⟨quote, hquote, hcs, htext⟩
  · rfl
  · exact iff_of_false (not_blank_of_mem hquote htext) (not_blank_of_mem hquote hcs)

theorem expression_quoted (hquote : quote ∉ text) :
    expression (some quote) depth (text ++ quote :: rest) = expression none depth rest := by
  induction text with
  | nil => rw [List.nil_append, Recoding.expression_some, if_pos rfl]
  | cons c text ih =>
    obtain ⟨hc, htext⟩ := not_or.1 (mt List.mem_cons.2 hquote)
    rw [List.cons_append, Recoding.expression_some, if_neg (Ne.symm hc), ih htext]

/-- Where a quote is open, the text goes on behind the next quote of the same kind. -/
theorem exists_of_quoted {result : Recoding.Cut}
    (h : expression (some quote) depth cs = .ok result) : ∃ inner tail,
      cs = inner ++ quote :: tail ∧ quote ∉ inner ∧ expression none depth tail = .ok result := by
  induction cs with
  | nil => cases h
  | cons c cs ih =>
    rw [Recoding.expression_some] at h
    split at h
    · next hc =>
      subst hc
      exact ⟨[], cs, rfl, List.not_mem_nil, h⟩
    · next hc =>
      obtain ⟨inner, tail, rfl, hinner, htail⟩ := ih h
      exact ⟨c :: inner, tail, rfl, by simp [hinner, Ne.symm hc], htail⟩

theorem keep_ok (c : Char) (text : List Char) (stop : Char) (rest : List Char) :
    Recoding.keep c (.ok (text, stop, rest)) = .ok (c :: text, stop, rest) := rfl

theorem exists_of_keep {c : Char} {x : Except TemplateFault Recoding.Cut}
    (h : Recoding.keep c x = .ok (text, stop, rest)) :
    ∃ tail, text = c :: tail ∧ x = .ok (tail, stop, rest) := by
  cases x with
  | error fault => cases h
  | ok result =>
    cases h
    exact ⟨_, rfl, rfl⟩

/-- Where an expression can end it does. -/
theorem expression_stop (h : Stops stop rest) :
    expression none 0 (stop :: rest) = .ok ([], stop, rest) := by
  rcases h with rfl | rfl | ⟨rfl, hrest⟩
  · rfl
  · rfl
  · rw [Recoding.expression_none]
    simp [Template.isQuote, isOpening, isClosing, hrest]

theorem expression_opening {c : Char} (h : c ∈ ['(', '[', '\x7b']) (depth : Nat) (cs : List Char) :
    expression none depth (c :: cs) = Recoding.keep c (expression none (depth + 1) cs) := by
  have hall : ∀ c ∈ ['(', '[', '\x7b'], Template.isQuote c = false ∧ isOpening c = true := by decide
  obtain ⟨hquote, hopening⟩ := hall c h
  rw [Recoding.expression_none, if_neg (by simp [hquote]), if_pos hopening]

theorem expression_closing {c : Char} (h : c ∈ [')', ']', '\x7d']) (depth : Nat) (cs : List Char) :
    expression none (depth + 1) (c :: cs) = Recoding.keep c (expression none depth cs) := by
  have hall : ∀ c ∈ [')', ']', '\x7d'], Template.isQuote c = false ∧ isOpening c = false ∧
      isClosing c = true := by decide
  obtain ⟨hquote, hopening, hclosing⟩ := hall c h
  rw [Recoding.expression_none, if_neg (by simp [hquote]), if_neg (by simp [hopening]),
    if_pos (by simp [hclosing]), Nat.add_sub_cancel]

theorem expression_inside {c : Char}
    (h : c ∉ ['\x27', '\x22', '(', '[', '\x7b', ')', ']', '\x7d']) (depth : Nat) (cs : List Char) :
    expression none (depth + 1) (c :: cs) = Recoding.keep c (expression none (depth + 1) cs) := by
  simp only [List.mem_cons, List.not_mem_nil, or_false, not_or] at h
  rw [Recoding.expression_none]
  simp [Template.isQuote, isOpening, isClosing, h]

theorem expression_outside {c : Char}
    (h : c ∉ ['\x27', '\x22', '(', '[', '\x7b', '\x7d', ':', '!']) (cs : List Char) :
    expression none 0 (c :: cs) = Recoding.keep c (expression none 0 cs) := by
  simp only [List.mem_cons, List.not_mem_nil, or_false, not_or] at h
  rw [Recoding.expression_none]
  simp [Template.isQuote, isOpening, h]

theorem expression_unequal (cs : List Char) :
    expression none 0 ('!' :: '=' :: cs) = Recoding.keep '!' (expression none 0 ('=' :: cs)) := rfl

/-- Balanced text is read whole before a character that ends an expression. -/
theorem exists_expression_eq (h : Balanced depth cs) (hstop : Stops stop rest) :
    ∃ text, expression none depth (cs ++ stop :: rest) = .ok (text, stop, rest) ∧
      Keeps cs text := by
  induction h with
  | nil => exact ⟨[], expression_stop hstop, .inl rfl⟩
  | @quoted depth quote inner cs isQuote inside more ih =>
    obtain ⟨text, htext, -⟩ := ih
    have hquote : Template.isQuote quote = true := by simpa [Template.isQuote] using isQuote
    refine ⟨quote :: text, ?_, .inr ⟨quote, hquote, List.mem_cons_self, List.mem_cons_self⟩⟩
    rw [List.cons_append, Recoding.expression_none, if_pos hquote, List.append_assoc,
      List.cons_append, expression_quoted inside, htext, keep_ok]
  | @opening depth c cs opens more ih =>
    obtain ⟨text, htext, hkeeps⟩ := ih
    exact ⟨c :: text, by rw [List.cons_append, expression_opening opens, htext, keep_ok],
      hkeeps.cons c⟩
  | @closing depth c cs closes more ih =>
    obtain ⟨text, htext, hkeeps⟩ := ih
    exact ⟨c :: text, by rw [List.cons_append, expression_closing closes, htext, keep_ok],
      hkeeps.cons c⟩
  | @inside depth c cs plain more ih =>
    obtain ⟨text, htext, hkeeps⟩ := ih
    exact ⟨c :: text, by rw [List.cons_append, expression_inside plain, htext, keep_ok],
      hkeeps.cons c⟩
  | @outside c cs plain more ih =>
    obtain ⟨text, htext, hkeeps⟩ := ih
    exact ⟨c :: text, by rw [List.cons_append, expression_outside plain, htext, keep_ok],
      hkeeps.cons c⟩
  | @unequal cs more ih =>
    obtain ⟨text, htext, hkeeps⟩ := ih
    exact ⟨'!' :: text, by
      rw [List.cons_append, List.cons_append, expression_unequal, ← List.cons_append, htext,
        keep_ok], hkeeps.cons '!'⟩

/-- How an expression goes on with a character. -/
inductive Step (cs : List Char) : Nat → Char → Except TemplateFault Recoding.Cut → Prop
  | quote {depth : Nat} {c : Char} (isQuote : Template.isQuote c = true) :
      Step cs depth c (Recoding.keep c (expression (some c) depth cs))
  | opening {depth : Nat} {c : Char} (opens : c ∈ ['(', '[', '\x7b']) :
      Step cs depth c (Recoding.keep c (expression none (depth + 1) cs))
  | closing {depth : Nat} {c : Char} (closes : c ∈ [')', ']', '\x7d']) :
      Step cs (depth + 1) c (Recoding.keep c (expression none depth cs))
  | inside {depth : Nat} {c : Char}
      (plain : c ∉ ['\x27', '\x22', '(', '[', '\x7b', ')', ']', '\x7d']) :
      Step cs (depth + 1) c (Recoding.keep c (expression none (depth + 1) cs))
  | outside {c : Char} (plain : c ∉ ['\x27', '\x22', '(', '[', '\x7b', '\x7d', ':', '!']) :
      Step cs 0 c (Recoding.keep c (expression none 0 cs))
  | unequal (equal : cs.head? = some '=') :
      Step cs 0 '!' (Recoding.keep '!' (expression none 0 cs))
  | stop {c : Char} (stops : Stops c cs) : Step cs 0 c (.ok ([], c, cs))

theorem step_expression (depth : Nat) (c : Char) (cs : List Char) :
    Step cs depth c (expression none depth (c :: cs)) := by
  by_cases hquote : Template.isQuote c = true
  · rw [Recoding.expression_none, if_pos hquote]
    exact .quote hquote
  by_cases hopening : c ∈ ['(', '[', '\x7b']
  · rw [expression_opening hopening]
    exact .opening hopening
  simp only [Template.isQuote, Bool.or_eq_true, beq_iff_eq, not_or] at hquote
  simp only [List.mem_cons, List.not_mem_nil, or_false, not_or] at hopening
  cases depth with
  | succ depth =>
    by_cases hclosing : c ∈ [')', ']', '\x7d']
    · rw [expression_closing hclosing]
      exact .closing hclosing
    · have hplain : c ∉ ['\x27', '\x22', '(', '[', '\x7b', ')', ']', '\x7d'] := by
        simp only [List.mem_cons, List.not_mem_nil, or_false, not_or] at hclosing ⊢
        exact ⟨hquote.1, hquote.2, hopening.1, hopening.2.1, hopening.2.2, hclosing⟩
      rw [expression_inside hplain]
      exact .inside hplain
  | zero =>
    by_cases hstop : Stops c cs
    · rw [expression_stop hstop]
      exact .stop hstop
    by_cases hmark : c = '!'
    · subst hmark
      have hequal : cs.head? = some '=' := not_not.1 fun hne => hstop (.inr (.inr ⟨rfl, hne⟩))
      obtain ⟨cs, rfl⟩ := List.head?_eq_some_iff.1 hequal
      rw [expression_unequal]
      exact .unequal rfl
    · have hplain : c ∉ ['\x27', '\x22', '(', '[', '\x7b', '\x7d', ':', '!'] := by
        simp only [Stops, not_or] at hstop
        simp only [List.mem_cons, List.not_mem_nil, or_false, not_or]
        exact ⟨hquote.1, hquote.2, hopening.1, hopening.2.1, hopening.2.2, hstop.2.1, hstop.1,
          hmark⟩
      rw [expression_outside hplain]
      exact .outside hplain

/-- What is read as an expression is balanced text. -/
theorem exists_balanced (h : expression none depth cs = .ok (text, stop, rest)) :
    ∃ front, cs = front ++ stop :: rest ∧ Balanced depth front ∧ Stops stop rest ∧
      Keeps front text := by
  induction hlength : cs.length using Nat.strongRecOn generalizing cs depth text with
  | ind n ih =>
    cases cs with
    | nil => cases h
    | cons c cs =>
      -- a character that is kept stands in front of what is read after it
      have hkeep : ∀ {depth'},
          Recoding.keep c (expression none depth' cs) = .ok (text, stop, rest) →
          (∀ front, cs = front ++ stop :: rest → Stops stop rest → Balanced depth' front →
            Balanced depth (c :: front)) →
          ∃ front, c :: cs = front ++ stop :: rest ∧ Balanced depth front ∧ Stops stop rest ∧
            Keeps front text := by
        intro depth' h hcons
        obtain ⟨tail, rfl, htail⟩ := exists_of_keep h
        obtain ⟨front, hcs, hfront, hstop, hkeeps⟩ := ih cs.length (by simp [← hlength]) htail rfl
        exact ⟨c :: front, by rw [hcs, List.cons_append], hcons front hcs hstop hfront, hstop,
          hkeeps.cons c⟩
      have hstep := step_expression depth c cs
      rw [h] at hstep
      generalize hresult : (Except.ok (text, stop, rest) : Except TemplateFault Recoding.Cut) =
        result at hstep
      cases hstep with
      | quote isQuote =>
        obtain ⟨tail, rfl, htail⟩ := exists_of_keep hresult.symm
        obtain ⟨inner, more, rfl, hinner, hmore⟩ := exists_of_quoted htail
        obtain ⟨front, rfl, hfront, hstop, -⟩ :=
          ih more.length (by simp [← hlength]; omega) hmore rfl
        refine ⟨c :: (inner ++ c :: front), by simp, .quoted ?_ hinner hfront, hstop,
          .inr ⟨c, isQuote, List.mem_cons_self, List.mem_cons_self⟩⟩
        simpa [Template.isQuote] using isQuote
      | opening opens => exact hkeep hresult.symm fun _ _ _ => .opening opens
      | closing closes => exact hkeep hresult.symm fun _ _ _ => .closing closes
      | inside plain => exact hkeep hresult.symm fun _ _ _ => .inside plain
      | outside plain => exact hkeep hresult.symm fun _ _ _ => .outside plain
      | unequal equal =>
        refine hkeep hresult.symm fun front hcs hstop hfront => ?_
        rw [hcs] at equal
        cases front with
        | nil =>
          -- an equals sign ends no expression
          obtain rfl : stop = '=' := by simpa using equal
          rcases hstop with heq | heq | ⟨heq, -⟩ <;> cases heq
        | cons d front =>
          obtain rfl : d = '=' := by simpa using equal
          exact .unequal hfront
      | stop stops =>
        cases hresult
        exact ⟨[], rfl, .nil, stops, .inl rfl⟩

/-! ## Fields -/

variable {level : Nat}

/-- A colon or a closing brace comes after a conversion. -/
def Closes (stop : Char) : Prop := stop = ':' ∨ stop = '\x7d'

theorem conversion_eq_ok_iff : conversion cs = .ok (stop, rest) ↔
    Closes stop ∧ ∃ c ∈ ['s', 'r', 'a'], cs = c :: stop :: rest := by
  constructor
  · intro h
    unfold conversion at h
    split at h
    · cases h
    · next c cs =>
      split at h
      · next hletter =>
        split at h
        · next after =>
          split at h
          · next hstop =>
            cases h
            exact ⟨by simpa [Closes] using hstop, c, by simpa [or_assoc] using hletter, rfl⟩
          · cases h
        · cases h
      · split at h <;> cases h
  · rintro ⟨hstop, c, hletter, rfl⟩
    have hletter : (c == 's' || c == 'r' || c == 'a') = true := by simpa [or_assoc] using hletter
    have hstop : (stop == ':' || stop == '\x7d') = true := by simpa [Closes] using hstop
    simp only [conversion, hletter, hstop, if_true]

/-- A format is read up to the brace that closes its field, if its fields are. -/
theorem exists_format {field' : List Char → Except TemplateFault (List Char)}
    (hfield : ∀ cs rest, field' cs = .ok rest →
      ∃ inner, cs = inner ++ rest ∧ Field level ('\x7b' :: inner))
    (h : specification field' fuel cs = .ok rest) :
    ∃ format, cs = format ++ '\x7d' :: rest ∧ Format level format := by
  induction fuel generalizing cs with
  | zero =>
    cases cs <;> cases h
  | succ fuel ih =>
    cases cs with
    | nil => cases h
    | cons c cs =>
      rw [specification] at h
      split at h
      · next hc =>
        obtain rfl := eq_of_beq hc
        cases hafter : field' cs with
        | error fault =>
          rw [hafter] at h
          cases h
        | ok after =>
          rw [hafter] at h
          obtain ⟨inner, rfl, hinner⟩ := hfield cs after hafter
          obtain ⟨format, rfl, hformat⟩ := ih h
          exact ⟨'\x7b' :: inner ++ format, by simp, .field hinner hformat⟩
      · next hopen =>
        split at h
        · next hc =>
          cases h
          exact ⟨[], by rw [eq_of_beq hc, List.nil_append], .nil⟩
        · next hclose =>
          obtain ⟨format, rfl, hformat⟩ := ih h
          exact ⟨c :: format, rfl, .char ⟨by simpa using hopen, by simpa using hclose⟩ hformat⟩

/-- What ends a field after its expression and its conversion. -/
def tail (room : Nat) (stop : Char) (rest : List Char) : Except TemplateFault (List Char) :=
  if stop == ':' then specification (field room) rest.length rest else .ok rest

theorem field_of_cut {room : Nat} (h : expression none 0 cs = .ok (text, stop, rest)) :
    field (room + 1) cs =
      if isBlankExpression text = true then .error .emptyExpression
      else (if stop == '!' then conversion rest else .ok (stop, rest)) >>= fun next =>
        tail room next.1 next.2 := by
  rw [field, h]
  show (if isBlankExpression text = true then _ else _) =
    if isBlankExpression text = true then _ else _
  split
  · rfl
  · cases hstop : stop == '!' with
    | false => rfl
    | true => cases conversion rest <;> rfl

/-- After its expression and its conversion a field is read on to its end. -/
theorem field_eq_tail {room : Nat} {converts : List Char} (hexpression : IsExpression level cs)
    (hconverts : IsConversion converts) (hstop : Closes stop) :
    field (room + 1) (cs ++ (converts ++ stop :: rest)) = tail room stop rest := by
  have hread : ∀ {stop after}, Stops stop after →
      field (room + 1) (cs ++ stop :: after) =
        (if stop == '!' then conversion after else .ok (stop, after)) >>= fun next =>
          tail room next.1 next.2 := by
    intro stop after hstops
    obtain ⟨text, htext, hkeeps⟩ := exists_expression_eq hexpression.balanced hstops
    have hshown : ¬isBlankExpression text = true := mt hkeeps.isBlankExpression.1 hexpression.shown
    rw [field_of_cut htext, if_neg hshown]
  rcases hconverts with rfl | ⟨c, hc, rfl⟩
  · have hne : (stop == '!') = false := by rcases hstop with rfl | rfl <;> rfl
    rw [List.nil_append, hread (hstop.imp_right .inl), hne]
    rfl
  · have hequal : (c :: stop :: rest).head? ≠ some '=' := by
      have hall : ∀ c ∈ ['s', 'r', 'a'], some c ≠ some '=' := by decide
      exact hall c hc
    rw [List.cons_append, List.singleton_append, hread (.inr (.inr ⟨rfl, hequal⟩)), if_pos (by rfl),
      conversion_eq_ok_iff.2 ⟨hstop, c, hc, rfl⟩]
    rfl

/-- A field that is read has an expression and a conversion, and goes on to its end. -/
theorem exists_of_field {room : Nat} (h : field (room + 1) cs = .ok rest) :
    ∃ text converts stop after, cs = text ++ (converts ++ stop :: after) ∧ Balanced 0 text ∧
      ¬Blank text ∧ IsConversion converts ∧ Closes stop ∧ tail room stop after = .ok rest := by
  cases hcut : expression none 0 cs with
  | error fault =>
    rw [field, hcut] at h
    cases h
  | ok cut =>
    obtain ⟨text, stop, after⟩ := cut
    obtain ⟨front, rfl, hbalanced, hstops, hkeeps⟩ := exists_balanced hcut
    rw [field_of_cut hcut] at h
    split at h
    · cases h
    · next hshown =>
      have hblank : ¬Blank front := mt hkeeps.isBlankExpression.2 hshown
      rcases hstops with rfl | rfl | ⟨rfl, -⟩
      · exact ⟨front, [], ':', after, rfl, hbalanced, hblank, .inl rfl, .inl rfl, h⟩
      · exact ⟨front, [], '\x7d', after, rfl, hbalanced, hblank, .inl rfl, .inr rfl, h⟩
      · rw [if_pos (by rfl)] at h
        cases hnext : conversion after with
        | error fault =>
          rw [hnext] at h
          cases h
        | ok next =>
          rw [hnext] at h
          obtain ⟨stop, last⟩ := next
          obtain ⟨hstop, c, hc, rfl⟩ := conversion_eq_ok_iff.1 hnext
          exact ⟨front, ['!', c], stop, last, rfl, hbalanced, hblank, .inr ⟨c, hc, rfl⟩, hstop, h⟩

/-- What is read as a field is one. -/
theorem exists_field {room : Nat} (hroom : level + room = 2) (h : field room cs = .ok rest)
    (hsingle : level = 0 → cs.head? ≠ some '\x7b') :
    ∃ inner, cs = inner ++ rest ∧ Field level ('\x7b' :: inner) := by
  induction room generalizing level cs rest with
  | zero => cases h
  | succ room ih =>
    have hinner : ∀ cs rest, field room cs = .ok rest →
        ∃ inner, cs = inner ++ rest ∧ Field (level + 1) ('\x7b' :: inner) := fun cs rest h =>
      ih (by omega) h nofun
    obtain ⟨text, converts, stop, after, rfl, hbalanced, hblank, hconverts, hstop, htail⟩ :=
      exists_of_field h
    have hexpression : IsExpression level text := by
      refine ⟨hbalanced, hblank, fun hzero => ?_⟩
      cases text with
      | nil => exact absurd (.inl (by simp)) hblank
      | cons c text => exact hsingle hzero
    rcases hstop with rfl | rfl
    · obtain ⟨format, rfl, hformat⟩ := exists_format hinner htail
      exact ⟨_, by simp, .formatted (by omega) hexpression hconverts hformat⟩
    · cases htail
      exact ⟨_, by simp, .plain (by omega) hexpression hconverts⟩

/-- A field is read to its closing brace. -/
def ReadsField (level : Nat) (fs : List Char) : Prop :=
  ∃ inner, fs = '\x7b' :: inner ∧ ∀ rest, field (2 - level) (inner ++ rest) = .ok rest

/-- A format is read to the brace that closes its field. -/
def ReadsFormat (level : Nat) (format : List Char) : Prop :=
  ∀ ⦃fuel⦄, format.length < fuel → ∀ rest,
    specification (field (2 - level)) fuel (format ++ '\x7d' :: rest) = .ok rest

variable {conversion format : List Char}

theorem readsField_plain (shallow : level ≤ 1) (expression : IsExpression level text)
    (converts : IsConversion conversion) :
    ReadsField level ('\x7b' :: (text ++ (conversion ++ ['\x7d']))) := by
  refine ⟨_, rfl, fun rest => ?_⟩
  rw [show 2 - level = (1 - level) + 1 by omega, List.append_assoc, List.append_assoc,
    List.singleton_append, field_eq_tail expression converts (.inr rfl)]
  rfl

theorem readsField_formatted (shallow : level ≤ 1) (expression : IsExpression level text)
    (converts : IsConversion conversion) (formats : ReadsFormat (level + 1) format) :
    ReadsField level ('\x7b' :: (text ++ (conversion ++ ':' :: (format ++ ['\x7d'])))) := by
  refine ⟨_, rfl, fun rest => ?_⟩
  rw [show 2 - level = (2 - (level + 1)) + 1 by omega, List.append_assoc, List.append_assoc,
    List.cons_append, List.append_assoc, List.singleton_append,
    field_eq_tail expression converts (.inl rfl)]
  exact formats (by simp) rest

theorem readsFormat_char {c : Char} (plain : c ≠ '\x7b' ∧ c ≠ '\x7d')
    (more : ReadsFormat level cs) : ReadsFormat level (c :: cs) := by
  intro fuel hfuel rest
  obtain ⟨fuel, rfl⟩ : ∃ n, fuel = n + 1 := ⟨fuel - 1, by omega⟩
  rw [List.cons_append, specification, if_neg (by simpa using plain.1),
    if_neg (by simpa using plain.2)]
  exact more (Nat.lt_of_succ_lt_succ hfuel) rest

theorem readsFormat_field {fs : List Char} (inner : ReadsField level fs)
    (more : ReadsFormat level cs) : ReadsFormat level (fs ++ cs) := by
  intro fuel hfuel rest
  obtain ⟨fuel, rfl⟩ : ∃ n, fuel = n + 1 := ⟨fuel - 1, by omega⟩
  obtain ⟨fs, rfl, hfield⟩ := inner
  rw [List.cons_append, List.cons_append, List.append_assoc, specification, if_pos (by rfl), hfield]
  refine more ?_ rest
  simp only [List.cons_append, List.length_cons, List.length_append] at hfuel
  omega

theorem readsField {fs : List Char} (h : Field level fs) : ReadsField level fs := by
  refine @Field.rec (fun level fs _ => ReadsField level fs) (fun level cs _ => ReadsFormat level cs)
    ?_ ?_ ?_ ?_ ?_ level fs h
  · exact readsField_plain
  · exact fun shallow expression converts _ => readsField_formatted shallow expression converts
  · intro level fuel hfuel rest
    obtain ⟨fuel, rfl⟩ : ∃ n, fuel = n + 1 := ⟨fuel - 1, by omega⟩
    rfl
  · exact fun plain _ => readsFormat_char plain
  · exact fun _ _ => readsFormat_field

/-! ## Bodies -/

/-- What passes the check is the body of a formatted string. -/
theorem body_of_checkText {raw : Bool} (hplain : '\\' ∉ cs) (hfuel : cs.length ≤ fuel)
    (h : checkText raw fuel cs = .ok ()) : Body cs := by
  induction fuel generalizing cs with
  | zero =>
    rw [List.length_eq_zero_iff.1 (Nat.le_zero.1 hfuel)]
    exact .nil
  | succ fuel ih =>
    cases cs with
    | nil => exact .nil
    | cons c cs =>
      obtain ⟨hc, hcs⟩ := not_or.1 (mt List.mem_cons.2 hplain)
      rw [List.length_cons] at hfuel
      -- a brace that stands twice
      have hdoubled : ∀ brace, cs.head? = some brace → (brace = '\x7b' ∨ brace = '\x7d') →
          checkText raw fuel (cs.drop 1) = .ok () → Body (brace :: cs) := by
        intro brace hhead hbrace h
        obtain ⟨cs, rfl⟩ := List.head?_eq_some_iff.1 hhead
        rw [List.length_cons] at hfuel
        exact .doubled hbrace
          (ih (fun hmem => hcs (List.mem_cons_of_mem _ hmem)) (by omega) h)
      rw [checkText, if_neg (by simp [Ne.symm hc])] at h
      split at h
      · next hopen =>
        obtain rfl := eq_of_beq hopen
        split at h
        · next hhead => exact hdoubled _ hhead (.inl rfl) h
        · next hhead =>
          cases hafter : field maxNesting cs with
          | error fault =>
            rw [hafter] at h
            cases h
          | ok after =>
            rw [hafter] at h
            have hlevel : 0 + maxNesting = 2 := rfl
            obtain ⟨inner, rfl, hfield⟩ := exists_field hlevel hafter fun _ => hhead
            rw [List.length_append] at hfuel
            exact .field hfield (ih (fun hmem => hcs (List.mem_append_right _ hmem)) (by omega) h)
      · next hopen =>
        split at h
        · next hclose =>
          obtain rfl := eq_of_beq hclose
          split at h
          · next hhead => exact hdoubled _ hhead (.inr rfl) h
          · cases h
        · next hclose =>
          exact .char ⟨by simpa using hopen, by simpa using hclose⟩ (ih hcs (by omega) h)

/-- A second brace after the first one of an outermost field would double it. -/
theorem Field.single {fs : List Char} (h : Field 0 fs) (cs : List Char) :
    (fs.drop 1 ++ cs).head? ≠ some '\x7b' := by
  have hhead : ∀ {text} (more : List Char), IsExpression 0 text →
      (text ++ more).head? ≠ some '\x7b' := by
    intro text more hexpression
    cases text with
    | nil => exact absurd (.inl (by simp)) hexpression.shown
    | cons c text => exact hexpression.single rfl
  cases h with
  | plain _ expression _ =>
    rw [List.drop_one, List.tail_cons, List.append_assoc]
    exact hhead _ expression
  | formatted _ expression _ _ =>
    rw [List.drop_one, List.tail_cons, List.append_assoc]
    exact hhead _ expression

/-- The body of a formatted string passes the check. -/
theorem checkText_of_body {raw : Bool} (hplain : '\\' ∉ cs) (hfuel : cs.length ≤ fuel)
    (h : Body cs) : checkText raw fuel cs = .ok () := by
  induction h generalizing fuel with
  | nil => exact Recoding.checkText_nil raw fuel
  | @char c cs plain more ih =>
    obtain ⟨hc, hcs⟩ := not_or.1 (mt List.mem_cons.2 hplain)
    obtain ⟨fuel, rfl⟩ : ∃ n, fuel = n + 1 := ⟨fuel - 1, by simp at hfuel; omega⟩
    rw [checkText, if_neg (by simp [Ne.symm hc]), if_neg (by simpa using plain.1),
      if_neg (by simpa using plain.2)]
    exact ih hcs (Nat.le_of_succ_le_succ hfuel)
  | @doubled brace cs isBrace more ih =>
    obtain ⟨fuel, rfl⟩ : ∃ n, fuel = n + 1 := ⟨fuel - 1, by simp at hfuel; omega⟩
    have hcs : '\\' ∉ cs := fun hmem =>
      hplain (List.mem_cons_of_mem _ (List.mem_cons_of_mem _ hmem))
    have hrest : checkText raw fuel cs = .ok () := ih hcs (by simp at hfuel; omega)
    rcases isBrace with rfl | rfl
    · rw [checkText]
      exact hrest
    · rw [checkText]
      exact hrest
  | @field fs cs field more ih =>
    obtain ⟨inner, rfl, hread⟩ := readsField field
    have hsingle : (inner ++ cs).head? ≠ some '\x7b' := field.single cs
    obtain ⟨fuel, rfl⟩ : ∃ n, fuel = n + 1 := ⟨fuel - 1, by simp at hfuel; omega⟩
    have hread : Template.field maxNesting (inner ++ cs) = .ok cs := hread cs
    rw [List.cons_append, checkText, if_neg (by simp), if_pos (by rfl), if_neg hsingle, hread]
    refine ih (fun hmem => hplain (List.mem_append_right _ hmem)) ?_
    simp only [List.cons_append, List.length_cons, List.length_append] at hfuel
    omega

/-- The text of a formatted string passes the check if and only if it is made of plain characters,
doubled braces and fields. -/
theorem template_bodies_are_recognised (raw : Bool) (body : List Char) (hplain : '\\' ∉ body) :
    check raw body = .ok () ↔ Body body :=
  ⟨body_of_checkText hplain (Nat.le_refl _), checkText_of_body hplain (Nat.le_refl _)⟩

/-- A field in the format of a field. -/
theorem nested_field_is_recognised :
    '\\' ∉ "\x7bname!r:>\x7bwidth\x7d\x7d".toList ∧
      (check false "\x7bname!r:>\x7bwidth\x7d\x7d".toList = .ok () ↔
        Body "\x7bname!r:>\x7bwidth\x7d\x7d".toList) ∧
      check false "\x7bname!r:>\x7bwidth\x7d\x7d".toList = .ok () := by
  have hplain : '\\' ∉ "\x7bname!r:>\x7bwidth\x7d\x7d".toList := by decide
  exact ⟨hplain, template_bodies_are_recognised false _ hplain, by decide⟩

end SnippetLint.Templates
