import Mathlib.Data.List.Infix
import SnippetLint.Proofs.Lexing

/-!
What a number is. `Numeral` is the grammar of numeric literals: digits of another base after a mark,
integers without leading zeros, floats, and either of them with an imaginary unit. A decimal literal
is a whole part, a point, a fraction, an exponent and a unit, each of which may be missing;
`Pieces` says which of them go together, and that is the form in which the reader of numbers and the
grammar are compared. Main statements: `munch_append` and `numeral_of_munch`.
-/

namespace SnippetLint.Numerals
open Number

/-! ## The grammar -/

def decimalDigits : List Char := "0123456789".toList

/-- The digits of the base that a letter after a leading zero stands for. -/
def digitsOf : Char → List Char
  | 'b' | 'B' => "01".toList
  | 'o' | 'O' => "01234567".toList
  | 'x' | 'X' => "0123456789abcdefABCDEF".toList
  | _ => []

/-- Digits with single underscores between them. -/
inductive DigitPart (digits : List Char) : List Char → Prop
  | last {c : Char} (digit : c ∈ digits) : DigitPart digits [c]
  | digit {c : Char} {cs : List Char} (digit : c ∈ digits) (more : DigitPart digits cs) :
      DigitPart digits (c :: cs)
  | spaced {c : Char} {cs : List Char} (digit : c ∈ digits) (more : DigitPart digits cs) :
      DigitPart digits (c :: '_' :: cs)

/-- One digit or more, each with at most one underscore before it. -/
inductive Groups (digits : List Char) : List Char → Prop
  | last {c : Char} (digit : c ∈ digits) : Groups digits [c]
  | lastSpaced {c : Char} (digit : c ∈ digits) : Groups digits ['_', c]
  | digit {c : Char} {cs : List Char} (digit : c ∈ digits) (more : Groups digits cs) :
      Groups digits (c :: cs)
  | spaced {c : Char} {cs : List Char} (digit : c ∈ digits) (more : Groups digits cs) :
      Groups digits ('_' :: c :: cs)

inductive Exponent : List Char → Prop
  | plain {mark : Char} {ds : List Char} (marked : mark = 'e' ∨ mark = 'E')
      (digits : DigitPart decimalDigits ds) : Exponent (mark :: ds)
  | signed {mark sign : Char} {ds : List Char} (marked : mark = 'e' ∨ mark = 'E')
      (isSigned : sign = '+' ∨ sign = '-') (digits : DigitPart decimalDigits ds) :
      Exponent (mark :: sign :: ds)

/-- Digits around a point, at least on one side. -/
inductive PointFloat : List Char → Prop
  | fraction {ds : List Char} (fraction : DigitPart decimalDigits ds) : PointFloat ('.' :: ds)
  | whole {ws : List Char} (whole : DigitPart decimalDigits ws) : PointFloat (ws ++ ['.'])
  | both {ws ds : List Char} (whole : DigitPart decimalDigits ws)
      (fraction : DigitPart decimalDigits ds) : PointFloat (ws ++ '.' :: ds)

inductive Float : List Char → Prop
  | point {ps : List Char} (point : PointFloat ps) : Float ps
  | pointExponent {ps es : List Char} (point : PointFloat ps) (exponent : Exponent es) :
      Float (ps ++ es)
  | exponent {ws es : List Char} (whole : DigitPart decimalDigits ws) (exponent : Exponent es) :
      Float (ws ++ es)

inductive Numeral : List Char → Prop
  | based {mark : Char} {gs : List Char} (groups : Groups (digitsOf mark) gs) :
      Numeral ('0' :: mark :: gs)
  | integer {ws : List Char} (whole : DigitPart decimalDigits ws)
      (noLeadingZero : ws.head? ≠ some '0' ∨ ∀ c ∈ ws, c ∈ decimalDigits → c = '0') : Numeral ws
  | float {fs : List Char} (float : Float fs) : Numeral fs
  | imaginary {cs : List Char} {unit : Char} (real : DigitPart decimalDigits cs ∨ Float cs)
      (isUnit : unit = 'j' ∨ unit = 'J') : Numeral (cs ++ [unit])

/-! ## Digits -/

/-- A test for digits agrees with a list of them, and an underscore is none. -/
structure Tests (isDigit : Char → Bool) (digits : List Char) : Prop where
  iff : ∀ c, isDigit c = true ↔ c ∈ digits
  underscore : isDigit '_' = false

theorem tests_of_range {isDigit : Char → Bool} {digits : List Char}
    (hbound : ∀ c, isDigit c = true → c.toNat < 128)
    (hall : ∀ n < 128, isDigit (Char.ofNat n) = true → Char.ofNat n ∈ digits)
    (hdigits : ∀ c ∈ digits, isDigit c = true) (hunderscore : isDigit '_' = false) :
    Tests isDigit digits := by
  refine ⟨fun c => ⟨fun hc => ?_, hdigits c⟩, hunderscore⟩
  have hmem := hall c.toNat (hbound c hc) (by rwa [Char.ofNat_toNat])
  rwa [Char.ofNat_toNat] at hmem

theorem tests_isDecimal : Tests isDecimal decimalDigits := by
  refine tests_of_range (fun c hc => ?_) (by decide) (by decide) (by decide)
  have hrange : 48 ≤ c.toNat ∧ c.toNat ≤ 57 := by
    simpa [isDecimal, Char.isDigit, UInt32.le_iff_toNat_le] using hc
  omega

theorem tests_isBinary : Tests isBinary "01".toList := by
  refine ⟨fun c => ?_, rfl⟩
  simp [isBinary]

theorem tests_isOctal : Tests isOctal "01234567".toList := by
  refine tests_of_range (fun c hc => ?_) (by decide) (by decide) (by decide)
  have hrange : 48 ≤ c.toNat ∧ c.toNat ≤ 55 := by
    simpa [isOctal, Char.le_def, UInt32.le_iff_toNat_le] using hc
  omega

theorem tests_isHexadecimal : Tests isHexadecimal "0123456789abcdefABCDEF".toList := by
  refine tests_of_range (fun c hc => ?_) (by decide) (by decide) (by decide)
  have hrange : (48 ≤ c.toNat ∧ c.toNat ≤ 57 ∨ 97 ≤ c.toNat ∧ c.toNat ≤ 102) ∨
      65 ≤ c.toNat ∧ c.toNat ≤ 70 := by
    simpa [isHexadecimal, Char.isDigit, Char.le_def, UInt32.le_iff_toNat_le] using hc
  omega

/-- The letters that mark a base are those that have digits. -/
theorem tests_of_baseOf? (mark : Char) :
    baseOf? mark = none ∧ digitsOf mark = [] ∨
      ∃ base isDigit, baseOf? mark = some (base, isDigit) ∧ Tests isDigit (digitsOf mark) := by
  unfold baseOf?
  split
  · exact .inr ⟨_, _, rfl, tests_isHexadecimal⟩
  · exact .inr ⟨_, _, rfl, tests_isHexadecimal⟩
  · exact .inr ⟨_, _, rfl, tests_isOctal⟩
  · exact .inr ⟨_, _, rfl, tests_isOctal⟩
  · exact .inr ⟨_, _, rfl, tests_isBinary⟩
  · exact .inr ⟨_, _, rfl, tests_isBinary⟩
  · refine .inl ⟨rfl, ?_⟩
    unfold digitsOf
    split <;> first | contradiction | rfl

variable {digits cs ds gs rest : List Char} {isDigit : Char → Bool} {c : Char}

theorem groups_cons (hc : c ∈ digits) (h : cs = [] ∨ Groups digits cs) :
    Groups digits (c :: cs) := by
  rcases h with rfl | h
  · exact .last hc
  · exact .digit hc h

theorem groups_spaced (hc : c ∈ digits) (h : cs = [] ∨ Groups digits cs) :
    Groups digits ('_' :: c :: cs) := by
  rcases h with rfl | h
  · exact .lastSpaced hc
  · exact .spaced hc h

theorem digitPart_cons (hc : c ∈ digits) (h : cs = [] ∨ Groups digits cs) :
    DigitPart digits (c :: cs) := by
  rcases h with rfl | h
  · exact .last hc
  · induction h generalizing c with
    | last hd => exact .digit hc (.last hd)
    | lastSpaced hd => exact .spaced hc (.last hd)
    | digit hd _ ih => exact .digit hc (ih hd)
    | spaced hd _ ih => exact .spaced hc (ih hd)

/-- A digit part is a digit and then groups. -/
theorem exists_of_digitPart (h : DigitPart digits ds) :
    ∃ c cs, ds = c :: cs ∧ c ∈ digits ∧ (cs = [] ∨ Groups digits cs) := by
  induction h with
  | last hc => exact ⟨_, _, rfl, hc, .inl rfl⟩
  | digit hc _ ih =>
    obtain ⟨d, ds, rfl, hd, hds⟩ := ih
    exact ⟨_, _, rfl, hc, .inr (groups_cons hd hds)⟩
  | spaced hc _ ih =>
    obtain ⟨d, ds, rfl, hd, hds⟩ := ih
    exact ⟨_, _, rfl, hc, .inr (groups_spaced hd hds)⟩

theorem exists_of_groups (h : Groups digits gs) :
    ∃ gap ds, gs = gap ++ ds ∧ (gap = [] ∨ gap = ['_']) ∧ DigitPart digits ds := by
  cases h with
  | last hc => exact ⟨[], _, rfl, .inl rfl, .last hc⟩
  | lastSpaced hc => exact ⟨['_'], _, rfl, .inr rfl, .last hc⟩
  | digit hc more => exact ⟨[], _, rfl, .inl rfl, digitPart_cons hc (.inr more)⟩
  | spaced hc more => exact ⟨['_'], _, rfl, .inr rfl, digitPart_cons hc (.inr more)⟩

/-! ## Reading digits -/

/-- No character that satisfies `p` comes next. -/
def Bars (p : Char → Bool) (rest : List Char) : Prop := rest.head?.any p = false

theorem Bars.append {p : Char → Bool} {front : List Char} (hfront : Bars p front)
    (hrest : Bars p rest) : Bars p (front ++ rest) := by
  cases front with
  | nil => exact hrest
  | cons c front => exact hfront

theorem Bars.mono {p q : Char → Bool} (h : Bars q rest) (himp : ∀ c, p c = true → q c = true) :
    Bars p rest := by
  cases rest with
  | nil => rfl
  | cons c rest => exact Bool.eq_false_iff.2 fun hp => Bool.eq_false_iff.1 h (himp c hp)

/-- A digit or an underscore may continue digits. -/
def continues (isDigit : Char → Bool) (c : Char) : Bool := isDigit c || c == '_'

theorem digitTail_of_bars (h : Bars (continues isDigit) rest) :
    digitTail isDigit rest = ([], rest) := by
  cases rest with
  | nil => rfl
  | cons c rest =>
    obtain ⟨hdigit, hc⟩ : isDigit c = false ∧ c ≠ '_' := by simpa [Bars, continues] using h
    rw [digitTail_cons (fun hunderscore => absurd hunderscore hc),
      if_neg (by simp [hdigit])]

theorem groups_of_digitTail (htests : Tests isDigit digits) (cs : List Char) :
    (digitTail isDigit cs).1 = [] ∨ Groups digits (digitTail isDigit cs).1 := by
  fun_induction digitTail isDigit cs with
  | case1 c cs hc taken rest heq ih =>
    rw [heq] at ih
    exact .inr (groups_spaced ((htests.iff c).1 hc) ih)
  | case2 => exact .inl rfl
  | case3 c cs _ hc taken rest heq ih =>
    rw [heq] at ih
    exact .inr (groups_cons ((htests.iff c).1 hc) ih)
  | case4 => exact .inl rfl
  | case5 => exact .inl rfl

theorem digitTail_append (htests : Tests isDigit digits) (h : gs = [] ∨ Groups digits gs)
    (hrest : Bars (continues isDigit) rest) : digitTail isDigit (gs ++ rest) = (gs, rest) := by
  have hcons : ∀ {c cs}, c ∈ digits → digitTail isDigit (cs ++ rest) = (cs, rest) →
      digitTail isDigit (c :: (cs ++ rest)) = (c :: cs, rest) ∧
      digitTail isDigit ('_' :: c :: (cs ++ rest)) = ('_' :: c :: cs, rest) := by
    intro c cs hc hcs
    have hdigit := (htests.iff c).2 hc
    have hne : c ≠ '_' := by
      rintro rfl
      rw [htests.underscore] at hdigit
      cases hdigit
    rw [digitTail_cons (fun hunderscore => absurd hunderscore hne), if_pos hdigit,
      digitTail, if_pos hdigit, hcs]
    exact ⟨rfl, rfl⟩
  have hnil := digitTail_of_bars hrest
  rcases h with rfl | h
  · exact hnil
  · induction h with
    | last hc => exact (hcons hc (by rwa [List.nil_append])).1
    | lastSpaced hc => exact (hcons hc (by rwa [List.nil_append])).2
    | digit hc _ ih => exact (hcons hc ih).1
    | spaced hc _ ih => exact (hcons hc ih).2

theorem digitPart_cases (htests : Tests isDigit digits) (cs : List Char) :
    (digitPart isDigit cs).1 = [] ∨ DigitPart digits (digitPart isDigit cs).1 := by
  unfold digitPart
  split
  · next c cs =>
    split
    · next hc => exact .inr (digitPart_cons ((htests.iff c).1 hc) (groups_of_digitTail htests cs))
    · exact .inl rfl
  · exact .inl rfl

/-- Digits are read as far as they go. -/
theorem digitPart_append (htests : Tests isDigit digits) (h : ds = [] ∨ DigitPart digits ds)
    (hrest : Bars (continues isDigit) rest) : digitPart isDigit (ds ++ rest) = (ds, rest) := by
  rcases h with rfl | h
  · cases rest with
    | nil => rfl
    | cons c rest =>
      have hdigit : isDigit c = false := (Bool.or_eq_false_iff.1 hrest).1
      rw [List.nil_append, digitPart, if_neg (by simp [hdigit])]
  · obtain ⟨c, cs, rfl, hc, hcs⟩ := exists_of_digitPart h
    rw [List.cons_append, digitPart, if_pos ((htests.iff c).2 hc),
      digitTail_append htests hcs hrest]

theorem optional_append {p : Char → Bool} {front : List Char}
    (h : front = [] ∨ ∃ c, front = [c] ∧ p c = true) (hrest : front = [] → Bars p rest) :
    Number.optional p (front ++ rest) = (front, rest) := by
  rcases h with rfl | ⟨c, rfl, hc⟩
  · cases rest with
    | nil => rfl
    | cons c rest =>
      have hc : p c = false := hrest rfl
      rw [List.nil_append, Number.optional, if_neg (by simp [hc])]
  · rw [List.singleton_append, Number.optional, if_pos hc]

/-! ## Exponents -/

theorem isExponentMark_iff {c : Char} : isExponentMark c = true ↔ c = 'e' ∨ c = 'E' := by
  simp [isExponentMark]

theorem isSign_iff {c : Char} : Number.isSign c = true ↔ c = '+' ∨ c = '-' := by
  simp [Number.isSign]

theorem isImaginaryUnit_iff {c : Char} : isImaginaryUnit c = true ↔ c = 'j' ∨ c = 'J' := by
  simp [isImaginaryUnit]

/-- An exponent is a mark, a sign or none, and digits. -/
theorem exponent_iff {es : List Char} : Exponent es ↔ ∃ mark sign ds, es = mark :: (sign ++ ds) ∧
    isExponentMark mark = true ∧ (sign = [] ∨ ∃ c, sign = [c] ∧ Number.isSign c = true) ∧
      DigitPart decimalDigits ds := by
  constructor
  · intro h
    cases h with
    | plain marked digits =>
      exact ⟨_, [], _, rfl, isExponentMark_iff.2 marked, .inl rfl, digits⟩
    | signed marked isSigned digits =>
      exact ⟨_, [_], _, rfl, isExponentMark_iff.2 marked, .inr ⟨_, rfl, isSign_iff.2 isSigned⟩,
        digits⟩
  · rintro ⟨mark, sign, ds, rfl, hmark, rfl | ⟨c, rfl, hc⟩, hdigits⟩
    · exact .plain (isExponentMark_iff.1 hmark) hdigits
    · exact .signed (isExponentMark_iff.1 hmark) (isSign_iff.1 hc) hdigits

theorem exponentPart_cases (cs : List Char) :
    (exponentPart cs).1 = [] ∨ Exponent (exponentPart cs).1 := by
  unfold exponentPart
  generalize hmark : Number.optional isExponentMark cs = mark
  obtain ⟨mark, afterMark⟩ := mark
  dsimp only
  generalize hsign : Number.optional Number.isSign afterMark = sign
  obtain ⟨sign, afterSign⟩ := sign
  have hdigits := digitPart_cases tests_isDecimal afterSign
  dsimp only
  split
  · exact .inl rfl
  · next hparts =>
    simp only [Bool.or_eq_true, List.isEmpty_iff, not_or] at hparts
    obtain ⟨c, rfl, hc⟩ := (optional_cases hmark).resolve_left hparts.1
    exact .inr (exponent_iff.2 ⟨c, sign, _, rfl, hc, optional_cases hsign,
      hdigits.resolve_left hparts.2⟩)

theorem exponentPart_of_mark (h : Bars isExponentMark rest) : exponentPart rest = ([], rest) := by
  have hmark : Number.optional isExponentMark rest = ([], rest) :=
    optional_append (.inl rfl) fun _ => h
  unfold exponentPart
  rw [hmark]
  rfl

theorem exponentPart_append {es : List Char} (h : es = [] ∨ Exponent es)
    (hrest : Bars (continues isDecimal) rest) (hnone : es = [] → Bars isExponentMark rest) :
    exponentPart (es ++ rest) = (es, rest) := by
  rcases h with rfl | h
  · exact exponentPart_of_mark (hnone rfl)
  · obtain ⟨mark, sign, ds, rfl, hmark, hsign, hds⟩ := exponent_iff.1 h
    obtain ⟨c, cs, rfl, hc, -⟩ := exists_of_digitPart hds
    -- the digits after a sign that is missing are no sign themselves
    have hbars : Bars Number.isSign (c :: cs ++ rest) := by
      have hall : ∀ d ∈ decimalDigits, Number.isSign d = false := by decide
      exact hall c hc
    have hmarked : Number.optional isExponentMark (mark :: (sign ++ c :: cs ++ rest)) =
        ([mark], sign ++ (c :: cs ++ rest)) := by
      rw [Number.optional, if_pos hmark, List.append_assoc]
    unfold exponentPart
    rw [List.cons_append, hmarked]
    dsimp only
    rw [optional_append hsign fun _ => hbars]
    dsimp only
    rw [digitPart_append tests_isDecimal (.inr hds) hrest]
    simp

/-! ## The pieces of a decimal literal -/

/-- No leading zero, unless all digits are zeros. -/
def NoLeadingZero (whole : List Char) : Prop :=
  whole.head? ≠ some '0' ∨ ∀ c ∈ whole, c ∈ decimalDigits → c = '0'

theorem hasLeadingZeros_iff {whole : List Char} :
    hasLeadingZeros whole = false ↔ NoLeadingZero whole := by
  have hdecimal : ∀ c : Char, c.isDigit = true ↔ c ∈ decimalDigits := tests_isDecimal.iff
  simp only [hasLeadingZeros, NoLeadingZero, Bool.and_eq_false_iff, List.any_eq_false,
    Bool.and_eq_true, hdecimal, beq_eq_false_iff_ne, bne_iff_ne, ne_eq, not_and, not_not]

/-- Which pieces a decimal literal may have. -/
structure Pieces (whole point fraction exponent unit : List Char) : Prop where
  whole_eq : whole = [] ∨ DigitPart decimalDigits whole
  point_eq : point = [] ∨ point = ['.']
  fraction_eq : fraction = [] ∨ DigitPart decimalDigits fraction
  point_of_fraction : point = [] → fraction = []
  exponent_eq : exponent = [] ∨ Exponent exponent
  unit_eq : unit = [] ∨ ∃ c, unit = [c] ∧ isImaginaryUnit c = true
  has_digits : whole ≠ [] ∨ fraction ≠ []
  noLeadingZero : point = [] → exponent = [] → unit = [] → NoLeadingZero whole

variable {whole point fraction exponent unit : List Char}

/-- What may follow a number: nothing, or what neither continues a word nor is a point. -/
def Ends (rest : List Char) : Prop := Bars (fun c => Word.isPart c || c == '.') rest

theorem Ends.bars {p : Char → Bool} (h : Ends rest)
    (hp : ∀ c, p c = true → Word.isPart c = true ∨ c = '.') : Bars p rest :=
  h.mono fun c hc => by simpa using hp c hc

theorem runsIntoWord_of_ends (h : Ends rest) : runsIntoWord rest = false := by
  have hnone : Word.munch rest = [] :=
    Word.munch_eq_nil_iff.2 (h.bars fun _ hc => .inl hc)
  rw [runsIntoWord, hnone]
  rfl

theorem isPart_of_continues {c : Char} (h : continues isDecimal c = true) :
    Word.isPart c = true := by
  simp only [continues, Bool.or_eq_true, beq_iff_eq] at h
  rcases h with hc | rfl
  · exact Word.isPart_of_isDigit hc
  · rfl

theorem isPart_of_isExponentMark {c : Char} (h : isExponentMark c = true) :
    Word.isPart c = true := by
  rcases isExponentMark_iff.1 h with rfl | rfl <;> rfl

theorem isPart_of_isImaginaryUnit {c : Char} (h : isImaginaryUnit c = true) :
    Word.isPart c = true := by
  rcases isImaginaryUnit_iff.1 h with rfl | rfl <;> rfl

theorem Pieces.bars_unit (h : Pieces whole point fraction exponent unit) {p : Char → Bool}
    (hp : ∀ c ∈ ['j', 'J'], p c = false) : Bars p unit := by
  rcases h.unit_eq with rfl | ⟨c, rfl, hc⟩
  · rfl
  · exact hp c (by simpa using isImaginaryUnit_iff.1 hc)

theorem Pieces.bars_exponent (h : Pieces whole point fraction exponent unit) {p : Char → Bool}
    (hp : ∀ c ∈ ['e', 'E'], p c = false) : Bars p exponent := by
  rcases h.exponent_eq with rfl | hexponent
  · rfl
  · obtain ⟨mark, sign, ds, rfl, hmark, -⟩ := exponent_iff.1 hexponent
    exact hp mark (by simpa using isExponentMark_iff.1 hmark)

/-- The pieces of a literal are read as such, whatever follows that cannot continue them. -/
theorem decimal_append (h : Pieces whole point fraction exponent unit) (hrest : Ends rest) :
    decimal (whole ++ (point ++ (fraction ++ (exponent ++ (unit ++ rest))))) =
      .ok (whole ++ point ++ fraction ++ exponent ++ unit) := by
  have hcontinues : Bars (continues isDecimal) (unit ++ rest) :=
    (h.bars_unit (by decide)).append (hrest.bars fun _ hc => .inl (isPart_of_continues hc))
  have hmark : Bars isExponentMark (unit ++ rest) :=
    (h.bars_unit (by decide)).append
      (hrest.bars fun _ hc => .inl (isPart_of_isExponentMark hc))
  have hfraction : Bars (continues isDecimal) (exponent ++ (unit ++ rest)) :=
    (h.bars_exponent (by decide)).append hcontinues
  have hwhole :
      Bars (continues isDecimal) (point ++ (fraction ++ (exponent ++ (unit ++ rest)))) := by
    rcases h.point_eq with rfl | rfl
    · rw [h.point_of_fraction rfl]
      exact hfraction
    · rfl
  have hpoint : point = [] → Bars (· == '.') (fraction ++ (exponent ++ (unit ++ rest))) := by
    intro hnil
    rw [h.point_of_fraction hnil]
    exact (h.bars_exponent (by decide)).append ((h.bars_unit (by decide)).append
      (hrest.bars fun c hc => .inr (eq_of_beq hc)))
  have hunit : Bars isImaginaryUnit rest :=
    hrest.bars fun _ hc => .inl (isPart_of_isImaginaryUnit hc)
  unfold decimal
  rw [digitPart_append tests_isDecimal h.whole_eq hwhole]
  dsimp only
  rw [optional_append (by simpa using h.point_eq) hpoint]
  dsimp only
  have hafter : (if point.isEmpty then ([], fraction ++ (exponent ++ (unit ++ rest)))
      else digitPart isDecimal (fraction ++ (exponent ++ (unit ++ rest)))) =
        (fraction, exponent ++ (unit ++ rest)) := by
    split
    · next hnil => rw [h.point_of_fraction (List.isEmpty_iff.1 hnil), List.nil_append]
    · exact digitPart_append tests_isDecimal h.fraction_eq hfraction
  rw [hafter]
  dsimp only
  rw [exponentPart_append h.exponent_eq hcontinues fun _ => hmark]
  dsimp only
  rw [optional_append h.unit_eq fun _ => hunit, if_neg (by simp [runsIntoWord_of_ends hrest]),
    if_neg]
  simp only [Bool.and_eq_true, List.isEmpty_iff, not_and, Bool.not_eq_true]
  rintro ⟨⟨hpoint, hexponent⟩, hunit⟩
  exact hasLeadingZeros_iff.2 (h.noLeadingZero hpoint hexponent hunit)

theorem digitPart_of_starts (h : starts cs = true) : (digitPart isDecimal cs).1 ≠ [] ∨
    ∃ d ds, isDecimal d = true ∧ digitPart isDecimal cs = ([], '.' :: d :: ds) := by
  cases cs with
  | nil => cases h
  | cons c cs =>
    simp only [starts, Bool.or_eq_true, Bool.and_eq_true, beq_iff_eq] at h
    rcases h with hc | ⟨rfl, hd⟩
    · rw [digitPart, if_pos hc]
      exact .inl (List.cons_ne_nil _ _)
    · obtain ⟨d, hhead, hd⟩ := Option.any_eq_true _ _ |>.1 hd
      obtain ⟨ds, rfl⟩ := List.head?_eq_some_iff.1 hhead
      exact .inr ⟨d, ds, hd, rfl⟩

/-- What is read as a decimal literal has its pieces. -/
theorem pieces_of_decimal {number : List Char} (hstarts : starts cs = true)
    (h : decimal cs = .ok number) : ∃ whole point fraction exponent unit,
      number = whole ++ point ++ fraction ++ exponent ++ unit ∧
        Pieces whole point fraction exponent unit := by
  unfold decimal at h
  have hwhole := digitPart_cases tests_isDecimal cs
  have hdigits := digitPart_of_starts hstarts
  generalize digitPart isDecimal cs = whole at *
  obtain ⟨whole, afterWhole⟩ := whole
  dsimp only at *
  generalize hpoint : Number.optional (· == '.') afterWhole = point at *
  obtain ⟨point, afterPoint⟩ := point
  dsimp only at *
  generalize hfraction : (if point.isEmpty then ([], afterPoint)
    else digitPart isDecimal afterPoint) = fraction at *
  obtain ⟨fraction, afterFraction⟩ := fraction
  have hfraction_eq : (fraction = [] ∨ DigitPart decimalDigits fraction) ∧
      (point = [] → fraction = []) := by
    split at hfraction
    · cases hfraction
      exact ⟨.inl rfl, fun _ => rfl⟩
    · next hne =>
      have hcases := digitPart_cases tests_isDecimal afterPoint
      rw [hfraction] at hcases
      exact ⟨hcases, fun hnil => absurd (List.isEmpty_iff.2 hnil) hne⟩
  have hsome : whole ≠ [] ∨ fraction ≠ [] := by
    refine hdigits.imp_right ?_
    rintro ⟨d, ds, hd, heq⟩
    cases heq
    cases hpoint
    rw [digitPart, if_pos hd] at hfraction
    cases hfraction
    exact List.cons_ne_nil _ _
  have hexponent := exponentPart_cases afterFraction
  dsimp only at *
  generalize exponentPart afterFraction = exponent at *
  obtain ⟨exponent, afterExponent⟩ := exponent
  dsimp only at *
  generalize hunit : Number.optional isImaginaryUnit afterExponent = unit at *
  obtain ⟨unit, rest⟩ := unit
  dsimp only at *
  split at h
  · cases h
  · split at h
    · cases h
    · next hzeros =>
      cases h
      refine ⟨whole, point, fraction, exponent, unit, rfl, hwhole,
        by simpa using optional_cases hpoint, hfraction_eq.1, hfraction_eq.2, hexponent,
        optional_cases hunit, hsome, ?_⟩
      rintro rfl rfl rfl
      exact hasLeadingZeros_iff.1 (by simpa using hzeros)

/-! ## Pieces and the grammar -/

/-- A literal without its unit is a digit part or a float. -/
theorem Pieces.real (h : Pieces whole point fraction exponent unit) :
    (point = [] ∧ exponent = [] ∧ DigitPart decimalDigits whole) ∨
      Float (whole ++ point ++ fraction ++ exponent) := by
  have hdigits := h.has_digits
  rcases h.point_eq with rfl | rfl
  · obtain rfl := h.point_of_fraction rfl
    have hwhole := h.whole_eq.resolve_left (by simpa using hdigits)
    rcases h.exponent_eq with rfl | hexponent
    · exact .inl ⟨rfl, rfl, hwhole⟩
    · refine .inr ?_
      rw [List.append_nil, List.append_nil]
      exact .exponent hwhole hexponent
  · have hpoint : PointFloat (whole ++ ['.'] ++ fraction) := by
      rcases h.whole_eq with rfl | hwhole
      · exact .fraction (h.fraction_eq.resolve_left (by simpa using hdigits))
      · rcases h.fraction_eq with rfl | hfraction
        · rw [List.append_nil]
          exact .whole hwhole
        · rw [List.append_assoc]
          exact .both hwhole hfraction
    rcases h.exponent_eq with rfl | hexponent
    · rw [List.append_nil]
      exact .inr (.point hpoint)
    · exact .inr (.pointExponent hpoint hexponent)

theorem Pieces.numeral (h : Pieces whole point fraction exponent unit) :
    Numeral (whole ++ point ++ fraction ++ exponent ++ unit) := by
  rcases h.unit_eq with rfl | ⟨c, rfl, hc⟩
  · rw [List.append_nil]
    rcases h.real with ⟨rfl, rfl, hwhole⟩ | hfloat
    · rw [h.point_of_fraction rfl, List.append_nil, List.append_nil, List.append_nil]
      exact .integer hwhole (h.noLeadingZero rfl rfl rfl)
    · exact .float hfloat
  · refine .imaginary ?_ (isImaginaryUnit_iff.1 hc)
    rcases h.real with ⟨rfl, rfl, hwhole⟩ | hfloat
    · rw [h.point_of_fraction rfl, List.append_nil, List.append_nil, List.append_nil]
      exact .inl hwhole
    · exact .inr hfloat

theorem DigitPart.ne_nil (h : DigitPart digits ds) : ds ≠ [] := by
  obtain ⟨c, cs, rfl, -⟩ := exists_of_digitPart h
  exact List.cons_ne_nil c cs

theorem exists_of_pointFloat {ps : List Char} (h : PointFloat ps) : ∃ whole fraction,
    ps = whole ++ ['.'] ++ fraction ∧ (whole = [] ∨ DigitPart decimalDigits whole) ∧
      (fraction = [] ∨ DigitPart decimalDigits fraction) ∧ (whole ≠ [] ∨ fraction ≠ []) := by
  cases h with
  | fraction hfraction => exact ⟨[], _, rfl, .inl rfl, .inr hfraction, .inr hfraction.ne_nil⟩
  | whole hwhole => exact ⟨_, [], by simp, .inr hwhole, .inl rfl, .inl hwhole.ne_nil⟩
  | both hwhole hfraction =>
    exact ⟨_, _, by simp, .inr hwhole, .inr hfraction, .inl hwhole.ne_nil⟩

/-- A float has a point or an exponent. -/
theorem pieces_of_float {fs : List Char} (h : Float fs)
    (hunit : unit = [] ∨ ∃ c, unit = [c] ∧ isImaginaryUnit c = true) :
    ∃ whole point fraction exponent, fs = whole ++ point ++ fraction ++ exponent ∧
      Pieces whole point fraction exponent unit := by
  have hpoint : ∀ {ps es}, PointFloat ps → es = [] ∨ Exponent es → ∃ whole point fraction exponent,
      ps ++ es = whole ++ point ++ fraction ++ exponent ∧
        Pieces whole point fraction exponent unit := by
    intro ps es hps hes
    obtain ⟨whole, fraction, rfl, hwhole, hfraction, hdigits⟩ := exists_of_pointFloat hps
    exact ⟨whole, ['.'], fraction, es, rfl, hwhole, .inr rfl, hfraction, nofun, hes, hunit, hdigits,
      nofun⟩
  cases h with
  | point hps =>
    obtain ⟨whole, point, fraction, exponent, heq, hpieces⟩ := hpoint hps (.inl rfl)
    rw [List.append_nil] at heq
    exact ⟨whole, point, fraction, exponent, heq, hpieces⟩
  | pointExponent hps hes => exact hpoint hps (.inr hes)
  | @exponent ws es hwhole hes =>
    refine ⟨ws, [], [], es, by simp, .inr hwhole, .inl rfl, .inl rfl, fun _ => rfl, .inr hes, hunit,
      .inl hwhole.ne_nil, ?_⟩
    rintro - rfl
    cases hes

/-- A numeral is one of another base, or it has the pieces of a decimal literal. -/
theorem pieces_of_numeral (h : Numeral cs) :
    (∃ mark gs, cs = '0' :: mark :: gs ∧ Groups (digitsOf mark) gs) ∨
      ∃ whole point fraction exponent unit, cs = whole ++ point ++ fraction ++ exponent ++ unit ∧
        Pieces whole point fraction exponent unit := by
  have hinteger : ∀ {ws unit}, DigitPart decimalDigits ws →
      (unit = [] ∨ ∃ c, unit = [c] ∧ isImaginaryUnit c = true) →
      (unit = [] → NoLeadingZero ws) → Pieces ws [] [] [] unit := by
    intro ws unit hwhole hunit hzero
    exact ⟨.inr hwhole, .inl rfl, .inl rfl, fun _ => rfl, .inl rfl, hunit, .inl hwhole.ne_nil,
      fun _ _ => hzero⟩
  cases h with
  | based groups => exact .inl ⟨_, _, rfl, groups⟩
  | integer hwhole hzero =>
    exact .inr ⟨_, [], [], [], [], by simp, hinteger hwhole (.inl rfl) fun _ => hzero⟩
  | float hfloat =>
    obtain ⟨whole, point, fraction, exponent, rfl, hpieces⟩ := pieces_of_float hfloat (.inl rfl)
    exact .inr ⟨_, _, _, _, [], by simp, hpieces⟩
  | @imaginary _ c hreal hc =>
    have hunit : [c] = [] ∨ ∃ d, [c] = [d] ∧ isImaginaryUnit d = true :=
      .inr ⟨c, rfl, isImaginaryUnit_iff.2 hc⟩
    rcases hreal with hwhole | hfloat
    · exact .inr ⟨_, [], [], [], [c], by simp, hinteger hwhole hunit nofun⟩
    · obtain ⟨whole, point, fraction, exponent, rfl, hpieces⟩ := pieces_of_float hfloat hunit
      exact .inr ⟨_, _, _, _, _, rfl, hpieces⟩

/-! ## Reading numerals -/

theorem isPart_of_mem_digitsOf {mark : Char} (h : c ∈ digitsOf mark) : Word.isPart c = true := by
  revert c
  unfold digitsOf
  split <;> decide

theorem based_append {mark : Char} (base : NumberBase) (htests : Tests isDigit (digitsOf mark))
    (h : Groups (digitsOf mark) gs) (hrest : Ends rest) :
    based base isDigit (gs ++ rest) = .ok gs := by
  obtain ⟨gap, ds, rfl, hgap, hds⟩ := exists_of_groups h
  obtain ⟨c, cs, rfl, hc, -⟩ := exists_of_digitPart hds
  have hunderscore : Bars (· == '_') (c :: cs ++ rest) := by
    refine beq_false_of_ne ?_
    rintro rfl
    have hdigit := (htests.iff '_').2 hc
    rw [htests.underscore] at hdigit
    cases hdigit
  have hcontinues : Bars (continues isDigit) rest := by
    refine hrest.bars fun d hd => .inl ?_
    simp only [continues, Bool.or_eq_true, beq_iff_eq] at hd
    rcases hd with hd | rfl
    · exact isPart_of_mem_digitsOf ((htests.iff d).1 hd)
    · rfl
  unfold based
  rw [List.append_assoc, optional_append (by simpa using hgap) fun _ => hunderscore]
  dsimp only
  rw [digitPart_append htests (.inr hds) hcontinues,
    if_neg (by simp [runsIntoWord_of_ends hrest])]

theorem groups_of_based {base : NumberBase} (htests : Tests isDigit digits)
    (h : based base isDigit cs = .ok gs) : Groups digits gs := by
  unfold based at h
  generalize hgap : Number.optional (· == '_') cs = gap at h
  obtain ⟨gap, afterGap⟩ := gap
  have hdigits := digitPart_cases htests afterGap
  dsimp only at h
  split at h
  · cases h
  · next hne =>
    cases h
    simp only [Bool.or_eq_true, List.isEmpty_iff, not_or] at hne
    obtain ⟨c, cs, heq, hc, hcs⟩ := exists_of_digitPart (hdigits.resolve_left hne.1)
    rw [heq]
    rcases optional_cases hgap with rfl | ⟨d, rfl, hd⟩
    · exact groups_cons hc hcs
    · rw [eq_of_beq hd]
      exact groups_spaced hc hcs

/-- Whether a letter marks a base. -/
def marksBase (c : Char) : Bool := (baseOf? c).isSome

theorem isPart_of_marksBase {c : Char} (h : marksBase c = true) : Word.isPart c = true := by
  unfold marksBase baseOf? at h
  split at h
  all_goals first
    | rfl
    | cases h

theorem Groups.bars (h : Groups decimalDigits gs) : Bars marksBase gs := by
  have hall : ∀ c ∈ '_' :: decimalDigits, marksBase c = false := by decide
  cases h with
  | last hc | digit hc _ => exact hall _ (List.mem_cons_of_mem _ hc)
  | lastSpaced | spaced => exact hall _ List.mem_cons_self

/-- After the first digit of a decimal literal no letter comes that marks another base. -/
theorem Pieces.not_based (h : Pieces whole point fraction exponent unit) (hrest : Ends rest)
    {mark : Char} {tail : List Char}
    (heq : whole ++ (point ++ (fraction ++ (exponent ++ (unit ++ rest)))) = '0' :: mark :: tail) :
    baseOf? mark = none := by
  have hpoint : Bars marksBase (point ++ (fraction ++ (exponent ++ (unit ++ rest)))) := by
    rcases h.point_eq with rfl | rfl
    · rw [h.point_of_fraction rfl]
      exact (h.bars_exponent (by decide)).append ((h.bars_unit (by decide)).append
        (hrest.bars fun _ hc => .inl (isPart_of_marksBase hc)))
    · rfl
  rcases h.whole_eq with rfl | hwhole
  · rcases h.point_eq with rfl | rfl
    · exact absurd (h.point_of_fraction rfl) (h.has_digits.resolve_left fun hne => hne rfl)
    · cases heq
  · obtain ⟨c, cs, rfl, -, hcs⟩ := exists_of_digitPart hwhole
    have hbars : Bars marksBase (cs ++ (point ++ (fraction ++ (exponent ++ (unit ++ rest))))) := by
      refine Bars.append ?_ hpoint
      rcases hcs with rfl | hgroups
      · rfl
      · exact hgroups.bars
    obtain ⟨-, htail⟩ := List.cons.inj (List.cons_append .. ▸ heq)
    rw [htail] at hbars
    have hnone : (baseOf? mark).isSome = false := hbars
    simpa using hnone

/-- A numeral is read to its end, whatever follows that cannot continue a number. -/
theorem munch_append (h : Numeral cs) (hrest : Ends rest) :
    Number.munch (cs ++ rest) = .ok cs := by
  rcases pieces_of_numeral h with ⟨mark, gs, rfl, hgroups⟩ |
    ⟨whole, point, fraction, exponent, unit, rfl, hpieces⟩
  · rcases tests_of_baseOf? mark with ⟨-, hnil⟩ | ⟨base, isDigit, hbase, htests⟩
    · rw [hnil] at hgroups
      cases hgroups <;> contradiction
    · rw [List.cons_append, List.cons_append, Number.munch]
      simp only [hbase, based_append base htests hgroups hrest]
      rfl
  · simp only [List.append_assoc]
    rw [munch_eq_decimal fun mark tail heq => hpieces.not_based hrest heq,
      decimal_append hpieces hrest]
    simp only [List.append_assoc]

theorem numeral_of_munch {number : List Char} (hstarts : starts cs = true)
    (h : Number.munch cs = .ok number) : Numeral number := by
  have hdecimal : decimal cs = .ok number → Numeral number := by
    intro h
    obtain ⟨whole, point, fraction, exponent, unit, rfl, hpieces⟩ := pieces_of_decimal hstarts h
    exact hpieces.numeral
  unfold Number.munch at h
  split at h
  · next mark rest =>
    rcases tests_of_baseOf? mark with ⟨hnone, -⟩ | ⟨base, isDigit, hbase, htests⟩
    · rw [hnone] at h
      exact hdecimal h
    · rw [hbase] at h
      cases hbased : based base isDigit rest with
      | error fault => simp only [hbased] at h; cases h
      | ok gs =>
        simp only [hbased] at h
        cases h
        exact .based (groups_of_based htests hbased)
  · exact hdecimal h

theorem starts_of_numeral (h : Numeral cs) : starts cs = true := by
  rcases pieces_of_numeral h with ⟨mark, gs, rfl, -⟩ |
    ⟨whole, point, fraction, exponent, unit, rfl, hpieces⟩
  · rfl
  · rcases hpieces.whole_eq with rfl | hwhole
    · have hne := hpieces.has_digits.resolve_left fun hne => hne rfl
      obtain rfl := hpieces.point_eq.resolve_left fun hnil => hne (hpieces.point_of_fraction hnil)
      obtain ⟨c, cs, rfl, hc, -⟩ := exists_of_digitPart (hpieces.fraction_eq.resolve_left hne)
      have hdigit := (tests_isDecimal.iff c).2 hc
      simp [starts, hdigit]
    · obtain ⟨c, cs, rfl, hc, -⟩ := exists_of_digitPart hwhole
      have hdigit := (tests_isDecimal.iff c).2 hc
      simp [starts, hdigit]

end SnippetLint.Numerals
