import SnippetLint.Proofs.FormulaLexing
import SnippetLint.Proofs.Recoding

/-!
How far a lexeme looks. Of the text after it, a lexeme depends on the next character, on the word
that comes next, unless that is a name, and on the operator characters that come next. Where these
stay the same a text is read to the same lexeme. Main statement: `munch_follows`.
-/

namespace SnippetLint.Lookahead

/-- The characters that operators are written with. -/
def isSign (c : Char) : Bool := Operator.table.any fun entry => entry.1.toList.contains c

/-- Two texts that look the same from before them. -/
structure Follows (cs ds : List Char) : Prop where
  /-- The next character is the same, unless a word starts in both. -/
  head : ds.head? = cs.head? ∨
    cs.head?.any Word.isStart = true ∧ ds.head?.any Word.isStart = true
  word : Word.kind (Word.munch cs) ≠ .name → Word.munch ds = Word.munch cs
  signs : ds.takeWhile isSign <+: cs.takeWhile isSign

section Follows

variable {cs ds : List Char}

theorem Follows.refl (cs : List Char) : Follows cs cs :=
  ⟨.inl rfl, fun _ => rfl, List.prefix_rfl⟩

/-- Where no word starts, the next character is the same. -/
theorem Follows.head_eq (h : Follows cs ds) (hcs : cs.head?.any Word.isStart = false) :
    ds.head? = cs.head? := by
  rcases h.head with heq | ⟨hstart, _⟩
  · exact heq
  · rw [hcs] at hstart
    cases hstart

/-- What no letter satisfies holds of the next character in both texts or in neither. -/
theorem Follows.any_head (h : Follows cs ds) {p : Char → Bool}
    (hp : ∀ c, Word.isStart c = true → p c = false) : ds.head?.any p = cs.head?.any p := by
  have hnone : ∀ x : Option Char, x.any Word.isStart = true → x.any p = false := by
    rintro (_ | c) hc
    · rfl
    · exact hp c hc
  rcases h.head with heq | ⟨hstart, hstart'⟩
  · rw [heq]
  · rw [hnone _ hstart, hnone _ hstart']

theorem takeWhile_append_congr {p : Char → Bool} (h : ds.takeWhile p = cs.takeWhile p)
    (front : List Char) : (front ++ ds).takeWhile p = (front ++ cs).takeWhile p := by
  induction front with
  | nil => exact h
  | cons c front ih =>
    rw [List.cons_append, List.cons_append, List.takeWhile_cons, List.takeWhile_cons, ih]

theorem prefix_takeWhile_append {p : Char → Bool} (h : ds.takeWhile p <+: cs.takeWhile p)
    (front : List Char) : (front ++ ds).takeWhile p <+: (front ++ cs).takeWhile p := by
  induction front with
  | nil => exact h
  | cons c front ih =>
    rw [List.cons_append, List.cons_append, List.takeWhile_cons, List.takeWhile_cons]
    split
    · exact List.cons_prefix_cons.2 ⟨rfl, ih⟩
    · exact List.prefix_rfl

/-- A run of characters ends where one of them does not belong to it. -/
theorem takeWhile_append_of_mem {p : Char → Bool} {c : Char} {front : List Char}
    (hc : c ∈ front) (hp : p c = false) (cs : List Char) :
    (front ++ cs).takeWhile p = front.takeWhile p := by
  induction front with
  | nil => cases hc
  | cons d front ih =>
    rw [List.cons_append, List.takeWhile_cons, List.takeWhile_cons]
    split
    · next hd =>
      rcases List.mem_cons.1 hc with rfl | hc
      · rw [hp] at hd
        cases hd
      · rw [ih hc]
    · rfl

theorem kind_of_isDecimal {c : Char} (hc : Number.isDecimal c = true) (word : List Char) :
    Word.kind (c :: word) = .name := by
  have hall : ∀ entry ∈ Keyword.table, entry.1.toList.head?.any Number.isDecimal = false := by
    decide
  unfold Word.kind
  split
  · next keyword hkeyword =>
    obtain ⟨front, back, htable, _⟩ := List.lookup_eq_some_iff.1 hkeyword
    have hmem : (String.ofList (c :: word), keyword) ∈ Keyword.table :=
      htable ▸ List.mem_append_right _ List.mem_cons_self
    have hdigit := hall _ hmem
    rw [String.toList_ofList, List.head?_cons, Option.any_some, hc] at hdigit
    cases hdigit
  · rfl

/-- A text with which no keyword is lost or found: one of its characters belongs to no word, the
same word comes after it, or it starts with a digit. -/
def Apart (front cs ds : List Char) : Prop :=
  (∃ c ∈ front, Word.isPart c = false) ∨ Word.munch ds = Word.munch cs ∨
    front.head?.any Number.isDecimal = true

theorem Apart.word {front : List Char} (h : Apart front cs ds)
    (hkind : Word.kind (Word.munch (front ++ cs)) ≠ .name) :
    Word.munch (front ++ ds) = Word.munch (front ++ cs) := by
  rcases h with ⟨c, hc, hpart⟩ | hword | hdigit
  · unfold Word.munch
    rw [takeWhile_append_of_mem hc hpart, takeWhile_append_of_mem hc hpart]
  · exact takeWhile_append_congr hword front
  · obtain ⟨c, hc, hdigit⟩ := (Option.any_eq_true _ _).1 hdigit
    obtain ⟨front, rfl⟩ := List.head?_eq_some_iff.1 hc
    refine absurd ?_ hkind
    rw [List.cons_append, Word.munch, List.takeWhile_cons]
    split
    · exact kind_of_isDecimal hdigit _
    · rfl

/-- Any two texts whose operator characters come from one another, after some text. -/
theorem follows_of_apart {front : List Char} (hne : front ≠ []) (hfront : Apart front cs ds)
    (hsigns : ds.takeWhile isSign <+: cs.takeWhile isSign) :
    Follows (front ++ cs) (front ++ ds) := by
  obtain ⟨c, front, rfl⟩ := List.exists_cons_of_ne_nil hne
  exact ⟨.inl rfl, hfront.word, prefix_takeWhile_append hsigns _⟩

theorem Follows.append (h : Follows cs ds) {front : List Char} (hfront : Apart front cs ds) :
    Follows (front ++ cs) (front ++ ds) := by
  by_cases hne : front = []
  · subst hne
    exact h
  · exact follows_of_apart hne hfront h.signs

/-- Any two texts after a character that belongs to no word and to no operator. -/
theorem follows_of_mem {c : Char} {front : List Char} (hc : c ∈ front)
    (hpart : Word.isPart c = false) (hsign : isSign c = false) (cs ds : List Char) :
    Follows (front ++ cs) (front ++ ds) := by
  obtain ⟨first, rest, rfl⟩ := List.exists_cons_of_ne_nil (List.ne_nil_of_mem hc)
  refine ⟨.inl rfl, fun _ => ?_, ?_⟩
  · exact (takeWhile_append_of_mem hc hpart ds).trans (takeWhile_append_of_mem hc hpart cs).symm
  · rw [takeWhile_append_of_mem hc hsign, takeWhile_append_of_mem hc hsign]

/-- More text after the first character that belongs to no word and to no operator. -/
theorem follows_more {c : Char} (hc : c ∈ cs) (hpart : Word.isPart c = false)
    (hsign : isSign c = false) (more : List Char) : Follows cs (cs ++ more) := by
  have h := follows_of_mem hc hpart hsign [] more
  rwa [List.append_nil] at h

end Follows

/-! ## Line breaks -/

theorem lineBreak_eq (cs : List Char) : Cursor.lineBreak cs =
    if cs.head? = some '\r' then
      if cs.tail.head? = some '\n' then ['\r', '\n'] else ['\r']
    else if cs.head? = some '\n' then ['\n'] else [] := by
  unfold Cursor.lineBreak
  split
  · rfl
  · next rest hpair =>
    rw [if_pos List.head?_cons, if_neg]
    intro hfeed
    obtain ⟨more, hmore⟩ := List.head?_eq_some_iff.1 hfeed
    exact hpair more hmore
  · rfl
  · next hreturn hfeed =>
    rw [if_neg, if_neg]
    · intro hhead
      obtain ⟨more, rfl⟩ := List.head?_eq_some_iff.1 hhead
      exact hfeed more rfl
    · intro hhead
      obtain ⟨more, rfl⟩ := List.head?_eq_some_iff.1 hhead
      exact hreturn more rfl

theorem exists_lineBreak {cs : List Char} (h : Cursor.lineBreak cs ≠ []) :
    ∃ c rest, Cursor.lineBreak cs = c :: rest ∧ Lexer.isLineBreak c = true := by
  rw [lineBreak_eq] at h ⊢
  split
  · split
    · exact ⟨_, _, rfl, rfl⟩
    · exact ⟨_, _, rfl, rfl⟩
  · next hreturn =>
    rw [if_neg hreturn] at h
    split
    · exact ⟨_, _, rfl, rfl⟩
    · next hfeed => exact absurd (if_neg hfeed) h

/-- What two characters have in common, each that is one of them has. -/
theorem eq_of_either {f : Char → Bool} {b : Bool} {c d e : Char} (h : (c == d || c == e) = true)
    (hd : f d = b) (he : f e = b) : f c = b := by
  rcases Bool.or_eq_true_iff.1 h with hc | hc
  · rwa [eq_of_beq hc]
  · rwa [eq_of_beq hc]

theorem isPart_of_isLineBreak {ch : Char} (h : Lexer.isLineBreak ch = true) :
    Word.isPart ch = false := eq_of_either h (by decide) (by decide)

/-- A line break is the same where no line feed comes to stand next to it. -/
theorem lineBreak_again {cs : List Char} (h : Cursor.lineBreak cs ≠ []) {ds : List Char}
    (hcut : Places.IsCut (Cursor.lineBreak cs) ds) :
    Cursor.lineBreak (Cursor.lineBreak cs ++ ds) = Cursor.lineBreak cs := by
  rw [lineBreak_eq cs] at h hcut ⊢
  split
  · split
    · rfl
    · next hreturn hfeed =>
      rw [if_pos hreturn, if_neg hfeed] at hcut
      rw [lineBreak_eq, List.singleton_append, if_pos List.head?_cons, List.tail_cons, if_neg]
      exact fun hhead => hcut ⟨rfl, hhead⟩
  · next hreturn =>
    rw [if_neg hreturn] at h
    split
    · rfl
    · next hfeed => exact absurd (if_neg hfeed) h

/-! ## White space -/

/-- White space comes first. -/
def Parted (cs : List Char) : Prop := cs.head?.any Indentation.isGap = true

/-- A class of characters without white space. -/
def Solid (p : Char → Bool) : Prop := ∀ c, Indentation.isGap c = true → p c = false

section Parted

variable {cs : List Char}

theorem solid_of {p : Char → Bool} (hspace : p ' ' = false) (htab : p '\t' = false)
    (hfeed : p '\x0c' = false) : Solid p := by
  intro c hc
  simp only [Indentation.isGap, Bool.or_eq_true, beq_iff_eq] at hc
  rcases hc with (rfl | rfl) | rfl
  · exact hspace
  · exact htab
  · exact hfeed

theorem solid_isPart : Solid Word.isPart := solid_of (by decide) (by decide) (by decide)

theorem Parted.exists_cons (h : Parted cs) :
    ∃ c rest, cs = c :: rest ∧ Indentation.isGap c = true := by
  cases cs with
  | nil => cases h
  | cons c rest => exact ⟨c, rest, rfl, h⟩

/-- What does not stand for white space does not come next. -/
theorem Parted.any_head (h : Parted cs) {p : Char → Bool} (hp : Solid p) :
    cs.head?.any p = false := by
  obtain ⟨c, rest, rfl, hc⟩ := h.exists_cons
  exact hp c hc

theorem Parted.takeWhile_eq (h : Parted cs) {p : Char → Bool} (hp : Solid p) :
    cs.takeWhile p = [] := by
  obtain ⟨c, rest, rfl, hc⟩ := h.exists_cons
  exact List.takeWhile_cons_of_neg (by rw [hp c hc]; exact Bool.false_ne_true)

end Parted

/-- What follows a lexeme looks the same, or white space comes after it now. -/
def Steady (rest rest' : List Char) : Prop := Follows rest rest' ∨ Parted rest'

/-! ## Numbers -/

/-- Two texts that a number ends at in the same way: with the same next character, and with the same
second one if the first belongs to a word. White space ends numbers wherever it stands. -/
inductive Near (cs ds : List Char) : Prop
  | same (first : ds.head? = cs.head?)
    (second : cs.head?.any Word.isPart = true → ds.tail.head? = cs.tail.head? ∨ Parted ds.tail)
  | parted (parted : Parted ds)

section Number

open Number

variable {left left' rest rest' : List Char}

theorem Near.append (h : Near rest rest') (front : List Char) :
    Near (front ++ rest) (front ++ rest') := by
  rcases front with _ | ⟨c, _ | ⟨d, front⟩⟩
  · exact h
  · refine .same rfl fun _ => ?_
    cases h with
    | same first _ => exact .inl first
    | parted hparted => exact .inr hparted
  · exact .same rfl fun _ => .inl rfl

theorem Near.nil (h : Near [] rest') : rest' = [] ∨ Parted rest' := by
  cases h with
  | same first _ => exact .inl (List.head?_eq_none_iff.1 first)
  | parted hparted => exact .inr hparted

theorem Near.cons {c : Char} (h : Near (c :: rest) rest') :
    (∃ more, rest' = c :: more ∧
      (Word.isPart c = true → more.head? = rest.head? ∨ Parted more)) ∨ Parted rest' := by
  cases h with
  | same first second =>
    obtain ⟨more, rfl⟩ := List.head?_eq_some_iff.1 first
    exact .inl ⟨more, rfl, second⟩
  | parted hparted => exact .inr hparted

/-- A digit belongs to words, an underscore is none. -/
structure OfWords (isDigit : Char → Bool) : Prop where
  part : ∀ c, isDigit c = true → Word.isPart c = true
  underscore : isDigit '_' = false

theorem OfWords.solid {isDigit : Char → Bool} (h : OfWords isDigit) : Solid isDigit := by
  intro c hc
  refine Bool.eq_false_iff.2 fun hdigit => ?_
  have hpart := solid_isPart c hc
  rw [h.part c hdigit] at hpart
  cases hpart

theorem digitTail_parted {isDigit : Char → Bool} (hdigit : OfWords isDigit)
    (h : Parted rest) : digitTail isDigit rest = ([], rest) := by
  obtain ⟨c, more, rfl, hc⟩ := h.exists_cons
  rw [digitTail, if_neg (by rw [hdigit.solid c hc]; exact Bool.false_ne_true)]
  rintro _ _ rfl
  cases hc

theorem digitPart_parted {isDigit : Char → Bool} (hdigit : OfWords isDigit)
    (h : Parted rest) : digitPart isDigit rest = ([], rest) := by
  obtain ⟨c, more, rfl, hc⟩ := h.exists_cons
  rw [digitPart, if_neg (by rw [hdigit.solid c hc]; exact Bool.false_ne_true)]

theorem optional_parted {p : Char → Bool} (hp : Solid p) (h : Parted rest) :
    Number.optional p rest = ([], rest) := by
  obtain ⟨c, more, rfl, hc⟩ := h.exists_cons
  rw [Number.optional, if_neg (by rw [hp c hc]; exact Bool.false_ne_true)]

/-- An underscore that no digit follows belongs to no number. -/
theorem digitTail_underscore {isDigit : Char → Bool} (hdigit : OfWords isDigit)
    (h : rest.head?.any isDigit = false) :
    digitTail isDigit ('_' :: rest) = ([], '_' :: rest) := by
  cases rest with
  | nil => simp [digitTail, hdigit.underscore]
  | cons d rest => rw [digitTail, if_neg (by simpa using h)]

theorem digitTail_near {isDigit : Char → Bool} (hdigit : OfWords isDigit) {cs taken : List Char}
    (h : digitTail isDigit cs = (taken, left)) (hnear : Near left left') :
    digitTail isDigit (taken ++ left') = (taken, left') := by
  fun_induction digitTail isDigit cs generalizing taken with
  | case1 c cs hc more rest heq ih =>
    cases h
    rw [List.cons_append, List.cons_append, digitTail, if_pos hc, ih heq]
  | case2 c cs hc =>
    cases h
    rw [List.nil_append]
    rcases hnear.cons with ⟨more, rfl, hsecond⟩ | hparted
    · refine digitTail_underscore hdigit ?_
      rcases hsecond (by decide) with hhead | hparted
      · rw [hhead]
        exact Bool.eq_false_iff.2 hc
      · exact hparted.any_head hdigit.solid
    · exact digitTail_parted hdigit hparted
  | case3 c cs hother hc more rest heq ih =>
    cases h
    have hne : c ≠ '_' := by
      rintro rfl
      exact absurd hc (by rw [hdigit.underscore]; exact Bool.false_ne_true)
    rw [List.cons_append, digitTail, if_pos hc, ih heq]
    exact fun _ _ hunderscore => absurd hunderscore hne
  | case4 c cs hother hc =>
    cases h
    rw [List.nil_append]
    rcases hnear.cons with ⟨more, rfl, hsecond⟩ | hparted
    · by_cases hunderscore : c = '_'
      · -- an underscore that no digit follows here is the last character there as well
        subst hunderscore
        refine digitTail_underscore hdigit ?_
        rcases hsecond (by decide) with hhead | hparted
        · cases cs with
          | nil => rw [hhead]; rfl
          | cons e cs => exact absurd rfl (hother e cs rfl)
        · exact hparted.any_head hdigit.solid
      · rw [digitTail, if_neg hc]
        exact fun _ _ heq => absurd heq hunderscore
    · exact digitTail_parted hdigit hparted
  | case5 =>
    cases h
    rw [List.nil_append]
    rcases hnear.nil with rfl | hparted
    · rw [digitTail]
    · exact digitTail_parted hdigit hparted

/-- What is taken of a text, and what is left of it. The same is taken if what is left is near. -/
structure Again (f : List Char → List Char × List Char) (cs taken left : List Char) : Prop where
  whole : taken ++ left = cs
  run : ∀ {left'}, Near left left' → f (taken ++ left') = (taken, left')

variable {cs taken : List Char}

theorem again_digitPart {isDigit : Char → Bool} (hdigit : OfWords isDigit)
    (h : digitPart isDigit cs = (taken, left)) : Again (digitPart isDigit) cs taken left := by
  have hreturn : isDigit '\r' = false :=
    Bool.eq_false_iff.2 fun htrue => absurd (hdigit.part _ htrue) (by decide)
  have hwhole := (Places.cuts_digitPart hreturn cs).whole
  rw [h] at hwhole
  refine ⟨hwhole, fun hnear => ?_⟩
  unfold digitPart at h
  split at h
  · next c cs =>
    split at h
    · next hc =>
      cases h
      rw [List.cons_append, digitPart, if_pos hc, digitTail_near hdigit rfl hnear]
    · next hc =>
      cases h
      rw [List.nil_append]
      rcases hnear.cons with ⟨more, rfl, _⟩ | hparted
      · rw [digitPart, if_neg hc]
      · exact digitPart_parted hdigit hparted
  · cases h
    rw [List.nil_append]
    rcases hnear.nil with rfl | hparted
    · rw [digitPart]
    · exact digitPart_parted hdigit hparted

theorem again_optional {p : Char → Bool} (hp : Solid p)
    (h : Number.optional p cs = (taken, left)) : Again (Number.optional p) cs taken left := by
  unfold Number.optional at h
  split at h
  · next c cs =>
    split at h
    · next hc =>
      cases h
      refine ⟨rfl, fun _ => ?_⟩
      rw [List.singleton_append, Number.optional, if_pos hc]
    · next hc =>
      cases h
      refine ⟨rfl, fun hnear => ?_⟩
      rw [List.nil_append]
      rcases hnear.cons with ⟨more, rfl, _⟩ | hparted
      · rw [Number.optional, if_neg hc]
      · exact optional_parted hp hparted
  · cases h
    refine ⟨rfl, fun hnear => ?_⟩
    rw [List.nil_append]
    rcases hnear.nil with rfl | hparted
    · rw [Number.optional]
    · exact optional_parted hp hparted

theorem solid_isExponentMark : Solid isExponentMark := solid_of rfl rfl rfl

theorem solid_isSign : Solid Number.isSign := solid_of rfl rfl rfl

theorem solid_isImaginaryUnit : Solid isImaginaryUnit := solid_of rfl rfl rfl

theorem solid_eq {c : Char} (h : Indentation.isGap c = false) : Solid (· == c) := by
  intro d hd
  refine Bool.eq_false_iff.2 fun heq => ?_
  rw [eq_of_beq heq, h] at hd
  cases hd

theorem ofWords_isDecimal : OfWords isDecimal := ⟨fun _ => Word.isPart_of_isDigit, rfl⟩

/-- Keywords that may follow a number are no names, and no exponent is read from one. -/
theorem operatorWords_shape : ∀ word ∈ operatorWords, Word.kind word ≠ .name ∧
    2 ≤ word.length ∧ (word.head?.any isExponentMark = true →
      word.tail.head?.any Number.isSign = false ∧ word.tail.head?.any isDecimal = false) := by
  decide

theorem word_cases (h : runsIntoWord rest = false) :
    Word.munch rest = [] ∨ Word.munch rest ∈ operatorWords := by
  unfold runsIntoWord at h
  rcases Bool.and_eq_false_iff.1 h with hempty | hword
  · exact .inl (List.isEmpty_iff.1 (by simpa using hempty))
  · exact .inr (List.contains_iff_mem.1 (by simpa using hword))

theorem exists_of_length {word : List Char} (h : 2 ≤ word.length) :
    ∃ c d more, word = c :: d :: more := by
  obtain ⟨c, word, rfl⟩ := List.exists_cons_of_length_pos (Nat.lt_of_lt_of_le (by decide) h)
  obtain ⟨d, word, rfl⟩ := List.exists_cons_of_length_pos (Nat.lt_of_succ_lt_succ h)
  exact ⟨c, d, word, rfl⟩

/-- A text begins with its first word. -/
theorem exists_of_munch {c d : Char} {word : List Char} (h : Word.munch rest = c :: d :: word) :
    ∃ more, rest = c :: d :: more := by
  have hwhole := List.takeWhile_append_dropWhile (p := Word.isPart) (l := rest)
  rw [← hwhole, show rest.takeWhile Word.isPart = c :: d :: word from h]
  exact ⟨_, rfl⟩

theorem any_isStart_eq_false {x : Option Char} (h : x.any Word.isPart = false) :
    x.any Word.isStart = false := by
  cases x with
  | none => rfl
  | some c =>
    refine Bool.eq_false_iff.2 fun hstart => ?_
    rw [Option.any_some, Word.isPart_of_isStart hstart] at h
    cases h

/-- A number looks at the word that follows it, and at one character if none does. -/
theorem near_of_follows (h : Follows rest rest') (hword : runsIntoWord rest = false) :
    Near rest rest' ∧ Word.munch rest' = Word.munch rest := by
  rcases word_cases hword with hnil | hmem
  · have hpart := Word.munch_eq_nil_iff.1 hnil
    have hfirst := h.head_eq (any_isStart_eq_false hpart)
    refine ⟨.same hfirst fun htrue => ?_, ?_⟩
    · rw [hpart] at htrue
      cases htrue
    · rw [hnil, Word.munch_eq_nil_iff, hfirst, hpart]
  · obtain ⟨hkind, hlength, _⟩ := operatorWords_shape _ hmem
    have heq := h.word hkind
    obtain ⟨c, d, word, hmunch⟩ := exists_of_length hlength
    rw [hmunch] at heq ⊢
    obtain ⟨more, rfl⟩ := exists_of_munch hmunch
    obtain ⟨more', rfl⟩ := exists_of_munch heq
    exact ⟨.same rfl fun _ => .inl rfl, heq⟩

theorem exponentPart_of_digits {c d : Char} (hsign : Number.isSign d = false)
    (hdigit : isDecimal d = false) (tail : List Char) :
    exponentPart (c :: d :: tail) = ([], c :: d :: tail) := by
  cases hmark : isExponentMark c with
  | false => exact Numerals.exponentPart_of_mark hmark
  | true => simp [exponentPart, Number.optional, digitPart, hmark, hsign, hdigit]

/-- No word that may follow a number is read as an exponent. -/
theorem exponentPart_of_word (h : runsIntoWord rest = false) :
    exponentPart rest = ([], rest) := by
  rcases word_cases h with hnil | hmem
  · refine Numerals.exponentPart_of_mark (Bool.eq_false_iff.2 fun hmark => ?_)
    obtain ⟨c, hc, hmark⟩ := Option.any_eq_true _ _ |>.1 hmark
    have hnone := Word.munch_eq_nil_iff.1 hnil
    rw [hc, Option.any_some, Numerals.isPart_of_isExponentMark hmark] at hnone
    cases hnone
  · obtain ⟨_, hlength, hshape⟩ := operatorWords_shape _ hmem
    obtain ⟨c, d, word, hword⟩ := exists_of_length hlength
    rw [hword] at hshape
    obtain ⟨tail, rfl⟩ := exists_of_munch hword
    cases hmark : isExponentMark c with
    | false => exact Numerals.exponentPart_of_mark hmark
    | true =>
      obtain ⟨hsign, hdigit⟩ := hshape hmark
      exact exponentPart_of_digits hsign hdigit tail

/-- An exponent is read again, and so is its absence in front of a word that may follow. -/
theorem again_exponentPart (h : exponentPart cs = (taken, left))
    (hne : taken ≠ []) : Again exponentPart cs taken left := by
  unfold exponentPart at h
  dsimp only at h
  split at h
  · cases h
    exact absurd rfl hne
  · next hparts =>
    generalize hmark : Number.optional isExponentMark cs = mark at h hparts
    obtain ⟨mark, afterMark⟩ := mark
    generalize hsign : Number.optional Number.isSign afterMark = sign at h hparts
    obtain ⟨sign, afterSign⟩ := sign
    generalize hdigits : digitPart isDecimal afterSign = digits at h hparts
    obtain ⟨digits, last⟩ := digits
    dsimp only at h hparts
    cases h
    obtain ⟨rfl, hmark'⟩ := again_optional solid_isExponentMark hmark
    obtain ⟨rfl, hsign'⟩ := again_optional solid_isSign hsign
    obtain ⟨rfl, hdigits'⟩ := again_digitPart ofWords_isDecimal hdigits
    refine ⟨by simp only [List.append_assoc], fun hnear => ?_⟩
    unfold exponentPart
    rw [List.append_assoc, List.append_assoc, hmark' ((hnear.append digits).append sign)]
    dsimp only
    rw [hsign' (hnear.append digits)]
    dsimp only
    rw [hdigits' hnear, if_neg hparts, List.append_assoc]

theorem exponentPart_whole (h : exponentPart cs = (taken, left)) : taken ++ left = cs := by
  have hwhole := (Places.cuts_exponentPart cs).whole
  rwa [h] at hwhole

/-- There is a fraction only after a point. -/
theorem again_fraction {point : List Char}
    (h : (if point.isEmpty = true then ([], cs) else digitPart isDecimal cs) = (taken, left)) :
    Again (fun cs => if point.isEmpty = true then ([], cs) else digitPart isDecimal cs) cs taken
      left := by
  split at h
  · next hpoint =>
    cases h
    exact ⟨rfl, fun _ => if_pos hpoint⟩
  · next hpoint =>
    obtain ⟨hwhole, hrun⟩ := again_digitPart ofWords_isDecimal h
    exact ⟨hwhole, fun hnear => (if_neg hpoint).trans (hrun hnear)⟩

/-- Where an exponent was looked for, with an imaginary unit or a word after it. -/
theorem exponentPart_near {unit : List Char} {cs : List Char}
    (h : exponentPart cs = (taken, unit ++ rest))
    (hunit : unit = [] ∨ ∃ c, unit = [c] ∧ isImaginaryUnit c = true) (hnear : Near rest rest')
    (hword : runsIntoWord rest' = false) :
    exponentPart (taken ++ (unit ++ rest')) = (taken, unit ++ rest') := by
  by_cases hne : taken = []
  · subst hne
    rw [List.nil_append]
    rcases hunit with rfl | ⟨c, rfl, hc⟩
    · exact exponentPart_of_word hword
    · refine Numerals.exponentPart_of_mark (Bool.eq_false_iff.2 fun hmark => ?_)
      rw [List.singleton_append, List.head?_cons, Option.any_some] at hmark
      simp only [isImaginaryUnit, isExponentMark, Bool.or_eq_true, beq_iff_eq] at hc hmark
      rcases hc with rfl | rfl <;> simp at hmark
  · exact (again_exponentPart h hne).run (hnear.append unit)

/-- A reader of numbers: no word follows a number, other than those that may, and where what follows
is near the number stays the same. -/
def Local (read : List Char → Except LexicalFault (List Char)) (number rest : List Char) : Prop :=
  runsIntoWord rest = false ∧ ∀ {rest'}, Near rest rest' → runsIntoWord rest' = false →
    read (number ++ rest') = .ok number

theorem local_decimal {number : List Char} (h : decimal (number ++ rest) = .ok number) :
    Local decimal number rest := by
  unfold decimal at h
  dsimp only at h
  generalize hwhole : digitPart isDecimal (number ++ rest) = whole at h
  obtain ⟨whole, afterWhole⟩ := whole
  dsimp only at h
  generalize hpoint : Number.optional (· == '.') afterWhole = point at h
  obtain ⟨point, afterPoint⟩ := point
  dsimp only at h
  generalize hfraction : (if point.isEmpty = true then ([], afterPoint)
    else digitPart isDecimal afterPoint) = fraction at h
  obtain ⟨fraction, afterFraction⟩ := fraction
  dsimp only at h
  generalize hexponent : exponentPart afterFraction = exponent at h
  obtain ⟨exponent, afterExponent⟩ := exponent
  dsimp only at h
  generalize hunit : Number.optional isImaginaryUnit afterExponent = unit at h
  obtain ⟨unit, last⟩ := unit
  dsimp only at h
  split at h
  · cases h
  next hlast =>
  split at h
  · cases h
  next hzeros =>
  cases h
  have hshape := Number.optional_cases hunit
  obtain ⟨hall, hwhole'⟩ := again_digitPart ofWords_isDecimal hwhole
  obtain ⟨rfl, hpoint'⟩ := again_optional (solid_eq rfl) hpoint
  obtain ⟨rfl, hfraction'⟩ := again_fraction hfraction
  obtain rfl := exponentPart_whole hexponent
  obtain ⟨rfl, hunit'⟩ := again_optional solid_isImaginaryUnit hunit
  obtain rfl : last = rest := by
    simp only [List.append_assoc] at hall
    simpa only [List.append_cancel_left_eq] using hall
  refine ⟨Bool.eq_false_iff.2 hlast, fun hnear hword => ?_⟩
  have hafterUnit := hnear.append unit
  have hafterExponent := hafterUnit.append exponent
  have hafterFraction := hafterExponent.append fraction
  unfold decimal
  simp only [List.append_assoc]
  rw [hwhole' (hafterFraction.append point)]
  dsimp only
  rw [hpoint' hafterFraction]
  dsimp only
  rw [hfraction' hafterExponent]
  dsimp only
  rw [exponentPart_near hexponent hshape hnear hword]
  dsimp only
  rw [hunit' hnear]
  dsimp only
  rw [hword, if_neg Bool.false_ne_true, if_neg hzeros]

theorem local_based {base : NumberBase} {isDigit : Char → Bool} (hdigit : OfWords isDigit)
    {digits : List Char} (h : based base isDigit (digits ++ rest) = .ok digits) :
    Local (based base isDigit) digits rest := by
  unfold based at h
  dsimp only at h
  generalize hgap : Number.optional (· == '_') (digits ++ rest) = gap at h
  obtain ⟨gap, afterGap⟩ := gap
  dsimp only at h
  generalize hdigits : digitPart isDigit afterGap = taken at h
  obtain ⟨taken, last⟩ := taken
  dsimp only at h
  split at h
  · cases h
  next hnone =>
  cases h
  obtain ⟨hall, hgap'⟩ := again_optional (solid_eq rfl) hgap
  obtain ⟨rfl, hdigits'⟩ := again_digitPart hdigit hdigits
  obtain rfl : last = rest := by
    simp only [List.append_assoc] at hall
    simpa only [List.append_cancel_left_eq] using hall
  obtain ⟨hempty, hlast⟩ := Bool.or_eq_false_iff.1 (Bool.eq_false_iff.2 hnone)
  refine ⟨hlast, fun hnear hword => ?_⟩
  unfold based
  simp only [List.append_assoc]
  rw [hgap' (hnear.append taken)]
  dsimp only
  rw [hdigits' hnear]
  dsimp only
  rw [hempty, hword, Bool.or_self, if_neg Bool.false_ne_true]

theorem OfWords.mono {p q : Char → Bool} (hq : OfWords q) (h : ∀ c, p c = true → q c = true) :
    OfWords p :=
  ⟨fun c hc => hq.part c (h c hc), Bool.eq_false_iff.2 fun hc => by
    have := h '_' hc
    rw [hq.underscore] at this
    cases this⟩

theorem ofWords_isOctal : OfWords isOctal := by
  refine ofWords_isDecimal.mono fun c hc => ?_
  simp only [isOctal, isDecimal, Char.isDigit, Bool.and_eq_true, decide_eq_true_eq] at *
  exact ⟨hc.1, Nat.le_trans hc.2 (by decide)⟩

theorem ofWords_isBinary : OfWords isBinary := by
  refine ofWords_isDecimal.mono fun c hc => ?_
  simp only [isBinary, Bool.or_eq_true, beq_iff_eq] at hc
  rcases hc with rfl | rfl <;> rfl

theorem ofWords_isHexadecimal : OfWords isHexadecimal := by
  have hall : ∀ n < 103, isHexadecimal (Char.ofNat n) = true →
      Word.isPart (Char.ofNat n) = true := by decide
  refine ⟨fun c hc => ?_, rfl⟩
  have hlt : c.toNat < 103 := by
    simp only [isHexadecimal, Char.isDigit, Bool.or_eq_true, Bool.and_eq_true,
      decide_eq_true_eq] at hc
    rcases hc with (⟨_, hle⟩ | ⟨_, hle⟩) | ⟨_, hle⟩
    all_goals exact Nat.lt_of_le_of_lt hle (by decide)
  have hpart := hall c.toNat hlt
  rw [Char.ofNat_toNat] at hpart
  exact hpart hc

theorem ofWords_of_baseOf? {mark : Char} {base : NumberBase} {isDigit : Char → Bool}
    (h : baseOf? mark = some (base, isDigit)) : OfWords isDigit := by
  unfold baseOf? at h
  split at h
  · cases h
    exact ofWords_isHexadecimal
  · cases h
    exact ofWords_isHexadecimal
  · cases h
    exact ofWords_isOctal
  · cases h
    exact ofWords_isOctal
  · cases h
    exact ofWords_isBinary
  · cases h
    exact ofWords_isBinary
  · cases h

theorem solid_baseOf? : Solid fun c => (baseOf? c).isSome := solid_of rfl rfl rfl

theorem local_number {number : List Char} (h : Number.munch (number ++ rest) = .ok number)
    (hstarts : Number.starts (number ++ rest) = true) : Local Number.munch number rest := by
  by_cases hbase : ∀ mark tail, number ++ rest = '0' :: mark :: tail → baseOf? mark = none
  · obtain ⟨c, more, rfl⟩ := List.exists_cons_of_ne_nil (munch_ne_nil hstarts h)
    rw [munch_eq_decimal hbase] at h
    obtain ⟨hword, hrun⟩ := local_decimal h
    refine ⟨hword, fun {rest'} hnear hword' => ?_⟩
    rw [munch_eq_decimal, hrun hnear hword']
    -- the number goes on with the same character, or with white space
    intro mark tail heq
    rw [List.cons_append] at heq
    obtain ⟨rfl, htail⟩ := List.cons.inj heq
    have hsecond := hnear.append more
    rw [htail] at hsecond
    cases hsecond with
    | same first _ =>
      obtain ⟨others, hothers⟩ := List.head?_eq_some_iff.1 first.symm
      exact hbase mark others (by rw [List.cons_append, hothers])
    | parted hparted =>
      exact Option.isNone_iff_eq_none.1 (by simpa using solid_baseOf? mark hparted)
  · simp only [not_forall] at hbase
    obtain ⟨mark, tail, heq, hmark⟩ := hbase
    obtain ⟨⟨base, isDigit⟩, hmark⟩ := Option.ne_none_iff_exists'.1 hmark
    rw [heq, Number.munch, hmark] at h
    dsimp only at h
    cases hbased : based base isDigit tail with
    | error fault => rw [hbased] at h; cases h
    | ok digits =>
      rw [hbased] at h
      cases h
      obtain rfl : digits ++ rest = tail := (List.cons.inj (List.cons.inj heq).2).2
      obtain ⟨hword, hrun⟩ := local_based (ofWords_of_baseOf? hmark) hbased
      refine ⟨hword, fun hnear hword' => ?_⟩
      simp only [List.cons_append, Number.munch, hmark, hrun hnear hword']
      rfl

theorem starts_of_decimal {number : List Char} (hs : starts cs = true)
    (h : decimal cs = .ok number) : starts number = true := by
  cases cs with
  | nil => cases hs
  | cons c cs =>
    cases hc : isDecimal c with
    | true =>
      have hfront := decimal_starts h
      rw [digitPart, if_pos hc] at hfront
      obtain ⟨more, rfl⟩ := hfront
      simp [starts, hc]
    | false =>
      rw [starts, hc, Bool.false_or, Bool.and_eq_true_iff] at hs
      obtain ⟨hpoint, hdigit⟩ := hs
      obtain rfl := eq_of_beq hpoint
      obtain ⟨d, hd, hdecimal⟩ := (Option.any_eq_true _ _).1 hdigit
      obtain ⟨more, rfl⟩ := List.head?_eq_some_iff.1 hd
      have hfraction : digitPart isDecimal (d :: more) =
          (d :: (digitTail isDecimal more).1, (digitTail isDecimal more).2) := if_pos hdecimal
      have hempty : digitPart isDecimal ('.' :: d :: more) = ([], '.' :: d :: more) := rfl
      have hpoint : Number.optional (· == '.') ('.' :: d :: more) = (['.'], d :: more) := rfl
      unfold decimal at h
      rw [hempty] at h
      dsimp only at h
      rw [hpoint] at h
      simp only [List.isEmpty_cons, Bool.false_eq_true, if_false, hfraction] at h
      repeat' split at h
      all_goals cases h
      all_goals simp [starts, hdecimal]

/-- What is taken of a number starts as one. -/
theorem starts_of_munch {number : List Char} (hs : starts cs = true)
    (h : munch cs = .ok number) : starts number = true := by
  unfold munch at h
  split at h
  · next mark rest =>
    split at h
    · next base isDigit _ =>
      cases hb : based base isDigit rest with
      | error fault => rw [hb] at h; cases h
      | ok digits =>
        rw [hb] at h
        cases h
        rfl
    · exact starts_of_decimal hs h
  · exact starts_of_decimal hs h

/-- No keyword comes of a number and the word after it. -/
theorem apart_of_starts {number : List Char} (h : starts number = true) :
    Apart number rest rest' := by
  cases number with
  | nil => cases h
  | cons c number =>
    rcases Bool.or_eq_true_iff.1 h with hdigit | hpoint
    · exact .inr (.inr hdigit)
    · obtain rfl := eq_of_beq (Bool.and_eq_true_iff.1 hpoint).1
      exact .inl ⟨'.', List.mem_cons_self, by decide⟩

/-- A number stays the same where what follows looks the same, and before white space. -/
theorem number_near {number : List Char} (h : Number.munch (number ++ rest) = .ok number)
    (hstarts : Number.starts (number ++ rest) = true) (hsteady : Steady rest rest') :
    Number.munch (number ++ rest') = .ok number := by
  obtain ⟨hword, hrun⟩ := local_number h hstarts
  rcases hsteady with hf | hparted
  · obtain ⟨hnear, hmunch⟩ := near_of_follows hf hword
    refine hrun hnear ?_
    rwa [runsIntoWord, hmunch]
  · refine hrun (.parted hparted) ?_
    rw [runsIntoWord, Word.munch_eq_nil_iff.2 (hparted.any_head solid_isPart)]
    rfl

end Number

/-! ## String literals -/

section Quotation

open Quotation

variable {rest rest' : List Char}

theorem exists_of_front {c : Char} {body text : List Char} (hfront : body <+: text)
    (hlast : body.getLast? = some c) :
    ∃ d front back, body = d :: front ∧ text = d :: back := by
  obtain ⟨back, rfl⟩ := hfront
  cases body with
  | nil => cases hlast
  | cons d front => exact ⟨d, front, front ++ back, rfl, rfl⟩

/-- A body in single quotes ends at its quote, whatever follows. -/
theorem untilQuote_again {quote : Char} (hquote : quote ≠ '\\') {text body : List Char}
    (h : untilQuote quote text = some body) (rest : List Char) :
    untilQuote quote (body ++ rest) = some body := by
  fun_induction untilQuote quote text generalizing body with
  | case1 cs ih =>
    obtain ⟨tail, htail, rfl⟩ := Option.map_eq_some_iff.1 h
    simp [untilQuote, ih htail]
  | case2 c cs hother ih =>
    obtain ⟨tail, htail, rfl⟩ := Option.map_eq_some_iff.1 h
    obtain ⟨hfront, hlast⟩ := Places.taken_untilQuote htail
    obtain ⟨d, front, back, rfl, rfl⟩ := exists_of_front hfront hlast
    rw [List.append_assoc, List.cons_append, List.cons_append, List.nil_append,
      Recoding.untilQuote_escape, ih htail]
    · rfl
    · rintro rfl hfeed
      obtain rfl : d = '\n' := Option.some.inj hfeed
      exact hother back rfl rfl
  | case3 c cs _ _ hbreak => cases h
  | case4 cs _ hother hbreak =>
    cases h
    rw [List.singleton_append, Recoding.untilQuote_cons fun h => absurd h hquote, if_neg hbreak,
      if_pos rfl]
  | case5 c cs _ hother hbreak hne ih =>
    obtain ⟨tail, htail, rfl⟩ := Option.map_eq_some_iff.1 h
    obtain ⟨hfront, hlast⟩ := Places.taken_untilQuote htail
    obtain ⟨d, front, back, rfl, rfl⟩ := exists_of_front hfront hlast
    rw [List.cons_append, Recoding.untilQuote_cons, if_neg hbreak, if_neg hne, ih htail]
    · rfl
    · rintro rfl
      exact absurd rfl (hother d back rfl)
  | case6 => cases h

theorem length_untilTripleQuote {quote : Char} {text body : List Char}
    (h : untilTripleQuote quote text = some body) : 3 ≤ body.length := by
  fun_induction untilTripleQuote quote text generalizing body with
  | case1 c cs ih | case3 c cs _ _ ih =>
    obtain ⟨tail, htail, rfl⟩ := Option.map_eq_some_iff.1 h
    have := ih htail
    simp only [List.length_append, List.length_cons]
    omega
  | case2 c cs _ hquotes =>
    cases h
    exact Nat.le_refl 3
  | case4 => cases h

/-- A body in triple quotes ends at the first three of its quotes, whatever follows. -/
theorem untilTripleQuote_again {quote : Char} (hquote : quote ≠ '\\') {text body : List Char}
    (h : untilTripleQuote quote text = some body) (rest : List Char) :
    untilTripleQuote quote (body ++ rest) = some body := by
  fun_induction untilTripleQuote quote text generalizing body with
  | case1 c cs ih =>
    obtain ⟨tail, htail, rfl⟩ := Option.map_eq_some_iff.1 h
    simp [untilTripleQuote, ih htail]
  | case2 c cs _ hquotes =>
    cases h
    obtain ⟨rfl, _⟩ := hquotes
    rw [List.cons_append, Recoding.untilTripleQuote_cons fun h => absurd h hquote,
      if_pos ⟨rfl, rfl⟩]
  | case3 c cs hother hquotes ih =>
    obtain ⟨tail, htail, rfl⟩ := Option.map_eq_some_iff.1 h
    obtain ⟨hfront, hlast⟩ := Places.taken_untilTripleQuote htail
    -- three characters are enough to see that the quotes are not here
    have htwo : (tail ++ rest).take 2 = cs.take 2 := by
      have hlength := length_untilTripleQuote htail
      obtain ⟨back, rfl⟩ := hfront
      rw [List.take_append_of_le_length (by omega), List.take_append_of_le_length (by omega)]
    obtain ⟨d, front, back, rfl, rfl⟩ := exists_of_front hfront hlast
    rw [List.cons_append, Recoding.untilTripleQuote_cons, htwo, if_neg hquotes, ih htail]
    · rfl
    · rintro rfl
      exact absurd rfl (hother d back rfl)
  | case4 => cases h

theorem take_two_of {q : Char} {body : List Char} (hne : body ≠ [])
    (hhead : rest'.head? = some q → rest.head? = some q)
    (h : (body ++ rest').take 2 = [q, q]) : (body ++ rest).take 2 = [q, q] := by
  obtain ⟨d, body, rfl⟩ := List.exists_cons_of_ne_nil hne
  cases body with
  | cons e body => exact h
  | nil =>
    have hone : ∀ cs : List Char, cs.take 1 = [q] ↔ cs.head? = some q := by
      rintro (_ | ⟨c, cs⟩) <;> simp
    simp only [List.singleton_append, List.take_succ_cons, List.cons.injEq, hone] at h ⊢
    exact ⟨h.1, hhead h.2⟩

/-- A literal stays the same where no quote comes to stand next to it. -/
theorem quoted_near {quoted : List Char} (h : Quotation.munch (quoted ++ rest) = .ok quoted)
    (hquote : ∀ q, isQuote q = true → rest'.head? = some q → rest.head? = some q)
    (hfirst : quoted.head?.any isQuote = true) :
    Quotation.munch (quoted ++ rest') = .ok quoted := by
  obtain ⟨q, body, rfl⟩ := List.exists_cons_of_ne_nil (Lexeme.quotation_ne_nil h)
  have hq : isQuote q = true := hfirst
  have hslash : q ≠ '\\' := by
    rintro rfl
    cases hq
  unfold Quotation.munch at h ⊢
  rw [List.cons_append] at h ⊢
  dsimp only at h ⊢
  by_cases hthree : (body ++ rest).take 2 = [q, q]
  · rw [if_pos hthree] at h
    split at h
    · next tail htail =>
      cases h
      have htake : List.take 2 (q :: q :: tail ++ rest') = [q, q] := rfl
      have hdrop : List.drop 2 (q :: q :: tail ++ rest') = tail ++ rest' := rfl
      rw [if_pos htake, hdrop, untilTripleQuote_again hslash htail]
    · cases h
  · rw [if_neg hthree] at h
    split at h
    · next tail htail =>
      cases h
      have hne : body ≠ [] := by
        rintro rfl
        cases (Places.taken_untilQuote htail).2
      rw [if_neg (mt (take_two_of hne (hquote q hq)) hthree), untilQuote_again hslash htail]
    · cases h

end Quotation

/-! ## Operators -/

theorem isSign_of_spelling {entry : String × Operator} (h : entry ∈ Operator.table) :
    ∀ c ∈ entry.1.toList, isSign c = true := by
  intro c hc
  exact List.any_eq_true.2 ⟨entry, h, List.contains_iff_mem.2 hc⟩

theorem prefix_iff_takeWhile {p : Char → Bool} {front cs : List Char}
    (h : ∀ c ∈ front, p c = true) : front <+: cs ↔ front <+: cs.takeWhile p := by
  constructor
  · rintro ⟨rest, rfl⟩
    rw [List.takeWhile_append_of_pos h]
    exact List.prefix_append _ _
  · exact fun hfront => hfront.trans (List.takeWhile_prefix p)

/-- The first of some entries is also the first of fewer entries that it is one of. -/
theorem find?_of_imp {p q : α → Bool} {entries : List α} {entry : α}
    (h : entries.find? p = some entry) (hq : q entry = true)
    (himp : ∀ e ∈ entries, q e = true → p e = true) : entries.find? q = some entry := by
  induction entries with
  | nil => cases h
  | cons e entries ih =>
    rw [List.find?_cons] at h ⊢
    cases hp : p e with
    | true =>
      rw [hp] at h
      obtain rfl := Option.some.inj h
      rw [hq]
    | false =>
      rw [hp] at h
      have hne : q e = false := Bool.eq_false_iff.2 fun hq => by
        rw [himp e List.mem_cons_self hq] at hp
        cases hp
      rw [hne]
      exact ih h fun e he => himp e (List.mem_cons_of_mem _ he)

theorem operator_near {rest rest' : List Char} {lexeme : Lexeme}
    (h : Lexeme.operator (lexeme.chars ++ rest) = .ok lexeme)
    (hsigns : rest'.takeWhile isSign <+: rest.takeWhile isSign) :
    Lexeme.operator (lexeme.chars ++ rest') = .ok lexeme := by
  unfold Lexeme.operator at *
  split at h
  · next spelling sign found =>
    cases h
    dsimp only at found ⊢
    rw [find?_of_imp found (List.isPrefixOf_iff_prefix.2 (List.prefix_append _ _))]
    -- an operator that fits before the other text is all signs, so it fits here as well
    intro entry hentry hfits
    have hspelling := isSign_of_spelling hentry
    rw [List.isPrefixOf_iff_prefix, prefix_iff_takeWhile hspelling] at hfits ⊢
    exact hfits.trans (prefix_takeWhile_append hsigns _)
  · split at h <;> cases h

/-! ## Lexemes -/

section Lexeme

variable {rest rest' : List Char}

theorem isPart_of_isSign {c : Char} (h : isSign c = true) : Word.isPart c = false := by
  have hall : ∀ entry ∈ Operator.table, (entry.1.toList.all (!Word.isPart ·)) = true := by decide
  obtain ⟨entry, hentry, hc⟩ := List.any_eq_true.1 h
  have hpart := List.all_eq_true.1 (hall entry hentry) c (List.contains_iff_mem.1 hc)
  rwa [Bool.not_eq_true'] at hpart

theorem solid_isQuote : Solid Quotation.isQuote := solid_of rfl rfl rfl

theorem solid_isOperatorSign : Solid isSign := solid_of (by decide) (by decide) (by decide)

theorem Steady.signs (h : Steady rest rest') :
    rest'.takeWhile isSign <+: rest.takeWhile isSign := by
  rcases h with hf | hparted
  · exact hf.signs
  · rw [hparted.takeWhile_eq solid_isOperatorSign]
    exact List.nil_prefix

/-- No quote comes to stand next to a lexeme. -/
theorem Steady.quote (h : Steady rest rest') {q : Char} (hq : Quotation.isQuote q = true)
    (hhead : rest'.head? = some q) : rest.head? = some q := by
  rcases h with hf | hparted
  · rcases hf.head with heq | ⟨_, hother⟩
    · rwa [← heq]
    · have hstart : (some q).any Word.isStart = false :=
        any_isStart_eq_false (Word.isPart_of_isQuote hq)
      rw [hhead, hstart] at hother
      cases hother
  · have hnone := hparted.any_head solid_isQuote
    rw [hhead, Option.any_some, hq] at hnone
    cases hnone

theorem Steady.part (h : Steady rest rest') (hrest : rest.head?.any Word.isPart = false) :
    rest'.head?.any Word.isPart = false := by
  rcases h with hf | hparted
  · rwa [hf.head_eq (any_isStart_eq_false hrest)]
  · exact hparted.any_head solid_isPart

theorem quotation_eq_ok {a : Cursor} {marks cs : List Char} {lexeme : Lexeme}
    (h : Lexeme.quotation a marks cs = .ok lexeme) : ∃ quoted, Quotation.munch cs = .ok quoted ∧
      lexeme = ⟨.string, marks ++ quoted⟩ ∧
      ∀ (b : Cursor) (ds : List Char), Quotation.munch ds = .ok quoted →
        Lexeme.quotation b marks ds = .ok lexeme := by
  unfold Lexeme.quotation at h
  split at h
  · cases h
  · cases h
  · next quoted hquoted =>
    cases hcheck : Quotation.check (marks ++ quoted) with
    | error fault => rw [hcheck] at h; cases h
    | ok done =>
      rw [hcheck] at h
      cases h
      refine ⟨quoted, hquoted, rfl, fun b ds hds => ?_⟩
      unfold Lexeme.quotation
      rw [hds]
      dsimp only
      rw [hcheck]
      rfl

/-- A string literal with its marks. -/
theorem quotation_near {a b : Cursor} {marks cs : List Char} {lexeme : Lexeme}
    (h : Lexeme.quotation a marks cs = .ok lexeme) (hcs : marks ++ cs = lexeme.chars ++ rest)
    (hfirst : cs.head?.any Quotation.isQuote = true) (hsteady : Steady rest rest') :
    ∃ q body, lexeme.chars = marks ++ q :: body ∧ Quotation.isQuote q = true ∧
      Lexeme.quotation b marks (q :: body ++ rest') = .ok lexeme := by
  obtain ⟨quoted, hquoted, rfl, hagain⟩ := quotation_eq_ok h
  obtain rfl : cs = quoted ++ rest := by simpa using hcs
  obtain ⟨q, body, rfl⟩ := List.exists_cons_of_ne_nil (Lexeme.quotation_ne_nil hquoted)
  exact ⟨q, body, rfl, hfirst,
    hagain b _ (quoted_near hquoted (fun _ hc => hsteady.quote hc) hfirst)⟩

theorem apart_of_quote {marks body : List Char} {q : Char} (h : Quotation.isQuote q = true) :
    Apart (marks ++ q :: body) rest rest' :=
  .inl ⟨q, List.mem_append_right _ List.mem_cons_self, Word.isPart_of_isQuote h⟩

theorem word_near {a b : Cursor} {lexeme : Lexeme} (h : Lexeme.word a = .ok lexeme)
    (ha : a.rest = lexeme.chars ++ rest) (hb : b.rest = lexeme.chars ++ rest')
    (hsteady : Steady rest rest') :
    Lexeme.word b = .ok lexeme ∧ Apart lexeme.chars rest rest' := by
  have hword : ∀ c ∈ Word.munch a.rest, Word.isPart c = true := fun c hc =>
    List.mem_takeWhile_imp hc
  obtain ⟨hdrop, hend⟩ := Word.munch_append_drop a.rest
  unfold Lexeme.word at h
  dsimp only at h
  generalize Word.munch a.rest = word at h hword hdrop hend
  generalize a.rest.drop word.length = after at h hdrop hend
  split at h
  · next hmark =>
    obtain ⟨hmark, hfirst⟩ := Bool.and_eq_true_iff.1 hmark
    obtain ⟨q, body, hchars, hquote, hagain⟩ :=
      quotation_near (b := b) h (hdrop.trans ha) hfirst hsteady
    refine ⟨?_, hchars ▸ apart_of_quote hquote⟩
    have hmunch : Word.munch (word ++ (q :: body ++ rest')) = word :=
      Word.munch_append hword (Word.isPart_of_isQuote hquote)
    have hagain' : (q :: body ++ rest').head?.any Quotation.isQuote = true := hquote
    unfold Lexeme.word
    rw [hb, hchars, List.append_assoc]
    dsimp only
    rw [hmunch, List.drop_left, hmark, hagain', Bool.and_self, if_pos rfl, hagain]
  · next hmark =>
    cases h
    obtain rfl : after = rest := List.append_cancel_left (hdrop.trans ha)
    have hend' := hsteady.part hend
    refine ⟨Lexeme.word_eq_ok hb hword hend' (Bool.eq_false_iff.2 fun hmark' => hmark ?_),
      .inr (.inl ?_)⟩
    · obtain ⟨hmark', hquote⟩ := Bool.and_eq_true_iff.1 hmark'
      obtain ⟨q, hq, hquote⟩ := (Option.any_eq_true _ _).1 hquote
      rw [hmark', hsteady.quote hquote hq, Option.any_some, hquote, Bool.and_self]
    · rw [Word.munch_eq_nil_iff.2 hend, Word.munch_eq_nil_iff.2 hend']

theorem operator_apart {cs : List Char} {lexeme : Lexeme} (h : Lexeme.operator cs = .ok lexeme) :
    Apart lexeme.chars rest rest' := by
  have hne := (Lexeme.isContent_of_operator h).chars_ne_nil
  unfold Lexeme.operator at h
  split at h
  · next spelling sign found =>
    cases h
    obtain ⟨c, hc⟩ := List.exists_mem_of_ne_nil _ hne
    have hsign := isSign_of_spelling (List.mem_of_find?_eq_some found) c hc
    exact .inl ⟨c, hc, isPart_of_isSign hsign⟩
  · split at h <;> cases h

/-- White space after a point does not make it the start of a number. -/
theorem starts_of_steady {front : List Char} (hne : front ≠ []) (hsteady : Steady rest rest')
    (h : Number.starts (front ++ rest') = true) : Number.starts (front ++ rest) = true := by
  obtain ⟨c, front, rfl⟩ := List.exists_cons_of_ne_nil hne
  cases front with
  | cons d front => exact h
  | nil =>
    rw [List.singleton_append, Number.starts] at *
    rcases hsteady with hf | hparted
    · rwa [← hf.any_head fun _ => Lexeme.isDecimal_of_isStart]
    · rw [hparted.any_head ofWords_isDecimal.solid, Bool.and_false, Bool.or_false] at h
      rw [h, Bool.true_or]

/-- What comes after a lexeme does not change it, as long as it looks the same to the lexeme or
starts with white space. -/
theorem munch_steady {a b : Cursor} {lexeme : Lexeme} (h : Lexeme.munch a = .ok lexeme)
    (ha : a.rest = lexeme.chars ++ rest) (hb : b.rest = lexeme.chars ++ rest')
    (hsteady : Steady rest rest') : Lexeme.munch b = .ok lexeme ∧ Follows a.rest b.rest := by
  have hne := (Lexeme.isContent_of_munch h).chars_ne_nil
  suffices Lexeme.munch b = .ok lexeme ∧ Apart lexeme.chars rest rest' by
    rw [ha, hb]
    exact ⟨this.1, follows_of_apart hne this.2 hsteady.signs⟩
  obtain ⟨c, more, hchars⟩ := List.exists_cons_of_ne_nil hne
  have hpeek : b.peek = a.peek := by
    rw [Cursor.peek, Cursor.peek, ha, hb, hchars]
    rfl
  unfold Lexeme.munch at h ⊢
  rw [hpeek]
  split at h
  · next hquote =>
    obtain ⟨q, body, hquoted, hq, hagain⟩ := quotation_near (b := b) h ha hquote hsteady
    rw [if_pos hquote, hb, hquoted]
    exact ⟨hagain, apart_of_quote hq⟩
  · next hquote =>
    rw [if_neg hquote]
    split at h
    · next hnumber =>
      cases hn : Number.munch a.rest with
      | error fault => rw [hn] at h; cases h
      | ok number =>
        rw [hn] at h
        cases h
        dsimp only at ha hb
        have hagain := starts_of_munch hnumber hn
        rw [ha] at hn hnumber
        rw [hb, if_pos (Number.starts_append hagain rest'), number_near hn hnumber hsteady]
        exact ⟨rfl, apart_of_starts hagain⟩
    · next hnumber =>
      rw [if_neg fun hnumber' => hnumber (ha ▸ starts_of_steady hne hsteady (hb ▸ hnumber'))]
      split at h
      · next hstart =>
        rw [if_pos hstart]
        exact word_near h ha hb hsteady
      · next hstart =>
        rw [if_neg hstart]
        rw [ha] at h
        rw [hb]
        exact ⟨operator_near h hsteady.signs, operator_apart h⟩

/-- What comes after a lexeme does not change it, as long as it looks the same to the lexeme. -/
theorem munch_follows {a b : Cursor} {lexeme : Lexeme} (h : Lexeme.munch a = .ok lexeme)
    (ha : a.rest = lexeme.chars ++ rest) (hb : b.rest = lexeme.chars ++ rest')
    (hf : Follows rest rest') : Lexeme.munch b = .ok lexeme ∧ Follows a.rest b.rest :=
  munch_steady h ha hb (.inl hf)

end Lexeme

/-! ## The white space before a lexeme -/

/-- The white space in front of a lexer. -/
def gap (lexer : Lexer) : List Char := lexer.cursor.rest.takeWhile Indentation.isGap

theorem gap_append (a : Lexer) : a.cursor.rest = gap a ++ a.here.rest := by
  rw [Lexer.here, Cursor.rest_eatWhile]
  exact List.takeWhile_append_dropWhile.symm

theorem follows_gap {a : Lexer} {ds : List Char} (h : Follows a.here.rest ds) :
    Follows a.cursor.rest (gap a ++ ds) := by
  rw [gap_append]
  cases hgap : gap a with
  | nil => exact h
  | cons c cs =>
    have hc : Indentation.isGap c = true :=
      List.mem_takeWhile_imp (hgap ▸ List.mem_cons_self : c ∈ gap a)
    exact h.append (.inl ⟨c, List.mem_cons_self, solid_isPart c hc⟩)

/-! ## The start of a lexeme -/

/-- With these characters a lexeme may start. -/
def canStart (c : Char) : Bool :=
  Quotation.isQuote c || Number.isDecimal c || c == '.' || Word.isStart c || isSign c

theorem canStart_of_munch {a : Cursor} {lexeme : Lexeme} {c : Char} {rest : List Char}
    (h : Lexeme.munch a = .ok lexeme) (hrest : a.rest = c :: rest) : canStart c = true := by
  unfold Lexeme.munch Cursor.peek at h
  rw [hrest, List.head?_cons, Option.any_some, Option.any_some] at h
  unfold canStart
  split at h
  · next hquote => simp [hquote]
  · split at h
    · next hnumber =>
      rw [Number.starts, Bool.or_eq_true, Bool.and_eq_true] at hnumber
      rcases hnumber with hdigit | ⟨hpoint, _⟩
      · simp [hdigit]
      · simp [hpoint]
    · split at h
      · next hstart => simp [hstart]
      · have hne := (Lexeme.isContent_of_operator h).chars_ne_nil
        unfold Lexeme.operator at h
        split at h
        · next spelling sign found =>
          cases h
          have hfound : spelling.toList.isPrefixOf (c :: rest) = true := by
            have htrue := List.find?_some found
            exact htrue
          have hfront := List.isPrefixOf_iff_prefix.1 hfound
          obtain ⟨d, ds, hd⟩ : ∃ d ds, spelling.toList = d :: ds :=
            List.exists_cons_of_ne_nil hne
          have hmem : d ∈ spelling.toList := hd ▸ List.mem_cons_self
          have hsign := isSign_of_spelling (List.mem_of_find?_eq_some found) d hmem
          rw [hd] at hfront
          rw [(List.cons_prefix_cons.1 hfront).1] at hsign
          simp [hsign]
        · split at h <;> cases h

/-- Where a lexeme may start, a step reads one. -/
theorem contentStep_of_canStart {a : Lexer} {c : Char} {rest : List Char}
    (h : a.here.rest = c :: rest) (hc : canStart c = true) :
    a.contentStep = a.lexemeStep a.here c := by
  have hother : ∀ d ∈ ['\\', '\n', '\r', '#'], (!canStart d) = true :=
    List.all_eq_true.1 (by decide)
  have hne : ∀ d ∈ ['\\', '\n', '\r', '#'], c ≠ d := by
    rintro d hd rfl
    have hnot := hother c hd
    rw [hc] at hnot
    cases hnot
  rw [Lexer.contentStep_cons h, if_neg (hne _ (by decide)), if_neg, if_neg (hne _ (by decide))]
  simp [Lexer.isLineBreak, hne]

end SnippetLint.Lookahead
