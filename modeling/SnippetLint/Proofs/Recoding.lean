import Mathlib.Data.List.DropRight
import Mathlib.Data.List.Find
import SnippetLint.Proofs.Places

/-!
Texts with other line breaks. Where every line feed of a text is written as a carriage return, with
or without a line feed after it, words, numbers and signs are read as before, a string literal is
read with the same line breaks written anew in it, and what is wrong with a formatted string stays
wrong. Main statement: `munch_recode`.
-/

namespace SnippetLint.Recoding

/-- What is written in place of a line feed. -/
class IsBreak (br : List Char) : Prop where
  cases : br = ['\r'] ∨ br = ['\r', '\n']

instance : IsBreak ['\r'] := ⟨.inl rfl⟩

/-- A text with every line feed written as another line break. -/
def recode (br : List Char) (cs : List Char) : List Char :=
  cs.flatMap fun c => if c = '\n' then br else [c]

section Text

variable (br : List Char)

@[simp] theorem recode_nil : recode br [] = [] := rfl

@[simp] theorem recode_append (a b : List Char) : recode br (a ++ b) = recode br a ++ recode br b :=
  List.flatMap_append

@[simp] theorem recode_break (cs : List Char) : recode br ('\n' :: cs) = br ++ recode br cs := rfl

@[simp] theorem recode_cons {c : Char} (h : c ≠ '\n') (cs : List Char) :
    recode br (c :: cs) = c :: recode br cs := by
  unfold recode
  rw [List.flatMap_cons, if_neg h, List.singleton_append]

theorem recode_of_not_mem {cs : List Char} (h : '\n' ∉ cs) : recode br cs = cs := by
  induction cs with
  | nil => rfl
  | cons c cs ih =>
    rw [recode_cons br (fun hc => h (hc ▸ List.mem_cons_self)),
      ih fun hmem => h (List.mem_cons_of_mem c hmem)]

variable [hbr : IsBreak br]

theorem exists_break : ∃ tail, br = '\r' :: tail ∧ (tail = [] ∨ tail = ['\n']) := by
  rcases hbr.cases with h | h
  · exact ⟨[], h, .inl rfl⟩
  · exact ⟨['\n'], h, .inr rfl⟩

/-- A text that is written anew starts as before, or with the new line break. -/
theorem recode_cases (cs : List Char) : cs = [] ∨
    (∃ c rest, cs = c :: rest ∧ c ≠ '\n' ∧ recode br cs = c :: recode br rest) ∨
    ∃ rest tail, cs = '\n' :: rest ∧ recode br cs = '\r' :: tail := by
  cases cs with
  | nil => exact .inl rfl
  | cons c rest =>
    by_cases hc : c = '\n'
    · subst hc
      obtain ⟨tail, htail, _⟩ := exists_break br
      exact .inr (.inr ⟨rest, tail ++ recode br rest, rfl, congrArg (· ++ recode br rest) htail⟩)
    · exact .inr (.inl ⟨c, rest, rfl, hc, recode_cons br hc rest⟩)

theorem recode_ne_nil (c : Char) (cs : List Char) : recode br (c :: cs) ≠ [] := by
  rcases recode_cases br (c :: cs) with h | ⟨_, _, _, _, h⟩ | ⟨_, _, _, h⟩
  · cases h
  · rw [h]
    exact List.cons_ne_nil _ _
  · rw [h]
    exact List.cons_ne_nil _ _

theorem head?_recode_ne (cs : List Char) : (recode br cs).head? ≠ some '\n' := by
  rcases recode_cases br cs with rfl | ⟨c, rest, rfl, hc, h⟩ | ⟨rest, tail, rfl, h⟩
  · nofun
  · rw [h]
    exact fun heq => hc (Option.some.inj heq)
  · rw [h]
    exact fun heq => absurd (Option.some.inj heq) (by decide)

end Text

/-- Classes of characters that no line break belongs to. -/
class Inline (p : Char → Bool) : Prop where
  newline : p '\n' = false
  ret : p '\r' = false

instance : Inline Indentation.isGap := ⟨by decide, by decide⟩

instance : Inline Word.isPart := ⟨by decide, by decide⟩

instance : Inline Number.isDecimal := ⟨by decide, by decide⟩

instance : Inline Number.isOctal := ⟨by decide, by decide⟩

instance : Inline Number.isBinary := ⟨by decide, by decide⟩

instance : Inline Number.isHexadecimal := ⟨by decide, by decide⟩

instance : Inline Number.isExponentMark := ⟨by decide, by decide⟩

instance : Inline Number.isSign := ⟨by decide, by decide⟩

instance : Inline Number.isImaginaryUnit := ⟨by decide, by decide⟩

instance : Inline Word.isStart := ⟨by decide, by decide⟩

instance : Inline Quotation.isQuote := ⟨by decide, by decide⟩

instance : Inline (· == '_') := ⟨by decide, by decide⟩

instance : Inline (· == '.') := ⟨by decide, by decide⟩

section Inline

variable (br : List Char) [IsBreak br] {p : Char → Bool} [hp : Inline p]

theorem Inline.ne {c : Char} (h : p c = true) : c ≠ '\n' := by
  rintro rfl
  rw [hp.newline] at h
  cases h

theorem any_head?_recode (cs : List Char) : (recode br cs).head?.any p = cs.head?.any p := by
  rcases recode_cases br cs with rfl | ⟨c, rest, rfl, _, h⟩ | ⟨rest, tail, rfl, h⟩
  · rfl
  · rw [h]
    rfl
  · rw [h]
    exact hp.ret.trans hp.newline.symm

theorem takeWhile_recode (cs : List Char) : (recode br cs).takeWhile p = cs.takeWhile p := by
  induction cs with
  | nil => rfl
  | cons c cs ih =>
    rcases recode_cases br (c :: cs) with h | ⟨_, _, heq, hc, h⟩ | ⟨_, tail, heq, h⟩
    · cases h
    · cases heq
      rw [h, List.takeWhile_cons, List.takeWhile_cons, ih]
    · cases heq
      rw [h, List.takeWhile_cons_of_neg (by simp [hp.ret]),
        List.takeWhile_cons_of_neg (by simp [hp.newline])]

end Inline

/-! ## Numbers -/

section Number

variable (br : List Char) [IsBreak br]

/-- What has been taken, and what follows it written anew. -/
def onRest (result : List Char × List Char) : List Char × List Char :=
  (result.1, recode br result.2)

/-- A character that is not of a class is not of it after it has been written anew. -/
theorem not_of_recode {p : Char → Bool} [Inline p] {c d : Char} {cs ds : List Char}
    (h : p c = false) (heq : recode br (c :: cs) = d :: ds) : p d = false := by
  have hany := any_head?_recode br (p := p) (c :: cs)
  rw [heq] at hany
  exact hany.trans h

/-- Nothing follows an underscore that no digit follows. -/
theorem last_of_shape {c mark : Char} {cs : List Char}
    (h : ∀ d ds, c = mark → cs = d :: ds → False) : c = mark → cs = [] := by
  rintro rfl
  cases cs with
  | nil => rfl
  | cons d ds => cases h d ds rfl rfl

omit [IsBreak br] in
theorem last_recode {c mark : Char} {cs : List Char}
    (h : ∀ d ds, c = mark → cs = d :: ds → False) : c = mark → recode br cs = [] := by
  intro hc
  rw [last_of_shape h hc, recode_nil]

theorem digitTail_recode {isDigit : Char → Bool} [hdigit : Inline isDigit] (cs : List Char) :
    Number.digitTail isDigit (recode br cs) = onRest br (Number.digitTail isDigit cs) := by
  induction cs using Number.digitTail.induct isDigit with
  | case1 c cs h _ _ _ ih =>
    rw [recode_cons br (by decide), recode_cons br (Inline.ne h), Number.digitTail, if_pos h,
      Number.digitTail, if_pos h, ih]
    rfl
  | case2 c cs h =>
    obtain ⟨d, ds, hd⟩ := List.exists_cons_of_ne_nil (recode_ne_nil br c cs)
    have hd' := not_of_recode br (p := isDigit) (by simpa using h) hd
    rw [Number.digitTail.eq_1, if_neg h, onRest, recode_cons br (by decide), hd, Number.digitTail,
      if_neg (by simp [hd'])]
  | case3 c cs hshape h _ _ _ ih =>
    rw [recode_cons br (Inline.ne h), Number.digitTail_cons (last_recode br hshape), if_pos h, ih,
      Number.digitTail_cons (last_of_shape hshape), if_pos h]
    rfl
  | case4 c cs hshape h =>
    rw [Number.digitTail_cons (last_of_shape hshape), if_neg h, onRest]
    rcases recode_cases br (c :: cs) with hnil | ⟨_, _, hcons, _, hrecode⟩ | ⟨_, tail, _, hrecode⟩
    · cases hnil
    · cases hcons
      rw [hrecode, Number.digitTail_cons (last_recode br hshape), if_neg h]
    · rw [hrecode, Number.digitTail_cons (fun h => absurd h (by decide)),
        if_neg (by simp [hdigit.ret])]
  | case5 => rfl

theorem digitPart_recode {isDigit : Char → Bool} [hdigit : Inline isDigit] (cs : List Char) :
    Number.digitPart isDigit (recode br cs) = onRest br (Number.digitPart isDigit cs) := by
  rcases recode_cases br cs with rfl | ⟨c, rest, rfl, hc, hrecode⟩ | ⟨rest, tail, rfl, hrecode⟩
  · rfl
  · rw [hrecode, Number.digitPart, Number.digitPart, digitTail_recode]
    split
    · rfl
    · rw [onRest, hrecode]
  · rw [hrecode, Number.digitPart, Number.digitPart, if_neg (by simp [hdigit.ret]),
      if_neg (by simp [hdigit.newline]), onRest, hrecode]

theorem optional_recode {p : Char → Bool} [hp : Inline p] (cs : List Char) :
    Number.optional p (recode br cs) = onRest br (Number.optional p cs) := by
  rcases recode_cases br cs with rfl | ⟨c, rest, rfl, hc, hrecode⟩ | ⟨rest, tail, rfl, hrecode⟩
  · rfl
  · rw [hrecode, Number.optional, Number.optional]
    split
    · rfl
    · rw [onRest, hrecode]
  · rw [hrecode, Number.optional, Number.optional, if_neg (by simp [hp.ret]),
      if_neg (by simp [hp.newline]), onRest, hrecode]

theorem runsIntoWord_recode (cs : List Char) :
    Number.runsIntoWord (recode br cs) = Number.runsIntoWord cs := by
  unfold Number.runsIntoWord Word.munch
  rw [takeWhile_recode]

theorem exponentPart_recode (cs : List Char) :
    Number.exponentPart (recode br cs) = onRest br (Number.exponentPart cs) := by
  unfold Number.exponentPart
  simp only [optional_recode, digitPart_recode, onRest]
  split <;> rfl

theorem decimal_recode (cs : List Char) : Number.decimal (recode br cs) = Number.decimal cs := by
  unfold Number.decimal
  simp only [digitPart_recode, optional_recode, onRest]
  split
  · simp only [optional_recode, exponentPart_recode, onRest, runsIntoWord_recode]
  · simp only [optional_recode, exponentPart_recode, onRest, runsIntoWord_recode]

theorem based_recode (base : NumberBase) {isDigit : Char → Bool} [Inline isDigit]
    (cs : List Char) : Number.based base isDigit (recode br cs) = Number.based base isDigit cs := by
  unfold Number.based
  simp only [optional_recode, digitPart_recode, onRest, runsIntoWord_recode]

theorem inline_of_baseOf? {mark : Char} {base : NumberBase} {isDigit : Char → Bool}
    (h : Number.baseOf? mark = some (base, isDigit)) : Inline isDigit := by
  unfold Number.baseOf? at h
  split at h
  all_goals cases h
  all_goals infer_instance

theorem number_recode (cs : List Char) : Number.munch (recode br cs) = Number.munch cs := by
  by_cases hbased : ∃ mark rest, cs = '0' :: mark :: rest ∧ (Number.baseOf? mark).isSome
  · obtain ⟨mark, rest, rfl, hsome⟩ := hbased
    obtain ⟨⟨base, isDigit⟩, hbase⟩ := Option.isSome_iff_exists.1 hsome
    have hmark : mark ≠ '\n' := by
      rintro rfl
      cases hbase
    have := inline_of_baseOf? hbase
    rw [recode_cons br (by decide), recode_cons br hmark]
    simp only [Number.munch, hbase, based_recode]
  · have hdecimal : ∀ mark rest, cs = '0' :: mark :: rest → Number.baseOf? mark = none := by
      intro mark rest hcs
      rw [← Option.not_isSome_iff_eq_none]
      exact fun hsome => hbased ⟨mark, rest, hcs, hsome⟩
    rw [Number.munch_eq_decimal hdecimal, ← decimal_recode br cs]
    refine Number.munch_eq_decimal fun mark rest hcs => ?_
    rcases recode_cases br cs with rfl | ⟨c, tail, rfl, hc, hrecode⟩ | ⟨_, tail, rfl, hrecode⟩
    · cases hcs
    · rw [hrecode] at hcs
      obtain ⟨rfl, hcs⟩ := List.cons.inj hcs
      rcases recode_cases br tail with rfl | ⟨d, ds, rfl, hd, hrecode⟩ | ⟨_, ds, rfl, hrecode⟩
      · cases hcs
      · rw [hrecode] at hcs
        cases hcs
        exact hdecimal _ _ rfl
      · rw [hrecode] at hcs
        cases hcs
        rfl
    · rw [hrecode] at hcs
      cases hcs

theorem starts_recode (cs : List Char) : Number.starts (recode br cs) = Number.starts cs := by
  rcases recode_cases br cs with rfl | ⟨c, rest, rfl, hc, hrecode⟩ | ⟨rest, tail, rfl, hrecode⟩
  · rfl
  · rw [hrecode, Number.starts, Number.starts, any_head?_recode]
  · rw [hrecode]
    rfl

end Number

/-! ## Words and signs -/

section Sign

variable (br : List Char) [hbr : IsBreak br]

theorem prefix_recode_iff {word : List Char} (h : '\n' ∉ word) (h' : '\r' ∉ word) (cs : List Char) :
    word <+: recode br cs ↔ word <+: cs := by
  induction word generalizing cs with
  | nil => simp
  | cons c word ih =>
    have hrest := ih (fun hmem => h (List.mem_cons_of_mem c hmem)) fun hmem =>
      h' (List.mem_cons_of_mem c hmem)
    rcases recode_cases br cs with rfl | ⟨d, rest, rfl, hd, hrecode⟩ | ⟨rest, tail, rfl, hrecode⟩
    · rfl
    · rw [hrecode, List.cons_prefix_cons, List.cons_prefix_cons, hrest]
    · rw [hrecode, List.cons_prefix_cons, List.cons_prefix_cons]
      constructor
      · rintro ⟨rfl, _⟩
        exact absurd List.mem_cons_self h'
      · rintro ⟨rfl, _⟩
        exact absurd List.mem_cons_self h

theorem operator_recode {c : Char} {cs : List Char} (hc : c ≠ '\n') :
    Lexeme.operator (recode br (c :: cs)) = Lexeme.operator (c :: cs) := by
  have hspelling : ∀ entry ∈ Operator.table, '\n' ∉ entry.1.toList ∧ '\r' ∉ entry.1.toList := by
    decide
  have hfind : (Operator.table.find? fun entry =>
      entry.1.toList.isPrefixOf (recode br (c :: cs))) =
      Operator.table.find? fun entry => entry.1.toList.isPrefixOf (c :: cs) := by
    refine List.find?_congr fun entry hentry => ?_
    obtain ⟨h, h'⟩ := hspelling entry hentry
    rw [Bool.eq_iff_iff, List.isPrefixOf_iff_prefix, List.isPrefixOf_iff_prefix]
    exact prefix_recode_iff br h h' (c :: cs)
  unfold Lexeme.operator
  rw [hfind, recode_cons br hc]

/-! ## String literals -/

theorem untilQuote_escape {quote c : Char} {cs : List Char}
    (h : c = '\r' → cs.head? ≠ some '\n') : Quotation.untilQuote quote ('\\' :: c :: cs) =
      (Quotation.untilQuote quote cs).map (['\\', c] ++ ·) := by
  rw [Quotation.untilQuote]
  rintro ds rfl rfl
  exact h rfl rfl

theorem untilQuote_cons {quote c : Char} {cs : List Char} (h : c = '\\' → cs = []) :
    Quotation.untilQuote quote (c :: cs) =
      if c = '\n' ∨ c = '\r' then none
      else if c = quote then some [c]
      else (Quotation.untilQuote quote cs).map (c :: ·) := by
  rw [Quotation.untilQuote]
  · rintro ds rfl rfl
    cases h rfl
  · rintro d ds rfl rfl
    cases h rfl

theorem untilQuote_recode {quote : Char} (hquote : quote ≠ '\n') {cs : List Char}
    (hcs : '\r' ∉ cs) : Quotation.untilQuote quote (recode br cs) =
      (Quotation.untilQuote quote cs).map (recode br) := by
  fun_induction Quotation.untilQuote quote cs with
  | case1 cs ih => exact absurd (by simp) hcs
  | case2 c cs hshape ih =>
    have hrest : '\r' ∉ cs := fun h => hcs (by simp [h])
    have hret : c ≠ '\r' := fun h => hcs (by simp [h])
    rw [recode_cons br (by decide)]
    by_cases hc : c = '\n'
    · subst hc
      rw [recode_break]
      rcases hbr.cases with rfl | rfl
      · rw [List.singleton_append, untilQuote_escape fun _ => head?_recode_ne _ cs, ih hrest,
          Option.map_map, Option.map_map]
        simp [Function.comp_def]
      · rw [List.cons_append, List.singleton_append, Quotation.untilQuote, ih hrest,
          Option.map_map, Option.map_map]
        simp [Function.comp_def]
    · rw [recode_cons br hc, untilQuote_escape fun h => absurd h hret, ih hrest, Option.map_map,
        Option.map_map]
      simp [Function.comp_def, hc]
  | case3 c cs _ _ hbreak =>
    obtain rfl : c = '\n' := hbreak.resolve_right fun h => hcs (by simp [h])
    obtain ⟨tail, htail, _⟩ := exists_break br
    rw [recode_break, htail, List.cons_append, untilQuote_cons fun h => absurd h (by decide)]
    rfl
  | case4 cs _ hshape hbreak =>
    rw [recode_cons br hquote, untilQuote_cons (last_recode br hshape), if_neg hbreak, if_pos rfl]
    simp [hquote]
  | case5 c cs _ hshape hbreak hc ih =>
    have hrest : '\r' ∉ cs := fun h => hcs (by simp [h])
    have hnewline : c ≠ '\n' := fun h => hbreak (.inl h)
    rw [recode_cons br hnewline, untilQuote_cons (last_recode br hshape), if_neg hbreak, if_neg hc,
      ih hrest, Option.map_map, Option.map_map]
    simp [Function.comp_def, hnewline]
  | case6 => rfl

theorem untilTripleQuote_cons {quote c : Char} {cs : List Char} (h : c = '\\' → cs = []) :
    Quotation.untilTripleQuote quote (c :: cs) =
      if c = quote ∧ cs.take 2 = [quote, quote] then some [c, quote, quote]
      else (Quotation.untilTripleQuote quote cs).map (c :: ·) := by
  rw [Quotation.untilTripleQuote]
  rintro d ds rfl rfl
  cases h rfl

theorem untilTripleQuote_break {quote : Char} (h : quote ≠ '\n') (h' : quote ≠ '\r')
    (cs : List Char) : Quotation.untilTripleQuote quote (br ++ cs) =
      (Quotation.untilTripleQuote quote cs).map (br ++ ·) := by
  have hone : ∀ b ds, b = '\n' ∨ b = '\r' → Quotation.untilTripleQuote quote (b :: ds) =
      (Quotation.untilTripleQuote quote ds).map (b :: ·) := by
    intro b ds hb
    rw [untilTripleQuote_cons, if_neg]
    · rintro ⟨rfl, _⟩
      exact hb.elim h h'
    · rintro rfl
      exact absurd hb (by decide)
  rcases hbr.cases with rfl | rfl
  · exact hone _ _ (.inr rfl)
  · rw [List.cons_append, List.singleton_append, hone _ _ (.inr rfl), hone _ _ (.inl rfl),
      Option.map_map]
    rfl

theorem quotes_recode_iff {quote : Char} (h : quote ≠ '\n') (h' : quote ≠ '\r') (cs : List Char) :
    (recode br cs).take 2 = [quote, quote] ↔ cs.take 2 = [quote, quote] := by
  have hfront : [quote, quote] <+: recode br cs ↔ [quote, quote] <+: cs :=
    prefix_recode_iff br (by simp [h.symm]) (by simp [h'.symm]) cs
  rw [List.prefix_iff_eq_take, List.prefix_iff_eq_take] at hfront
  exact ⟨fun heq => (hfront.1 heq.symm).symm, fun heq => (hfront.2 heq.symm).symm⟩

theorem untilTripleQuote_recode {quote : Char} (h : quote ≠ '\n') (h' : quote ≠ '\r')
    (cs : List Char) : Quotation.untilTripleQuote quote (recode br cs) =
      (Quotation.untilTripleQuote quote cs).map (recode br) := by
  have hquotes := quotes_recode_iff br h h'
  fun_induction Quotation.untilTripleQuote quote cs with
  | case1 c cs ih =>
    rw [recode_cons br (by decide)]
    by_cases hc : c = '\n'
    · subst hc
      rw [recode_break]
      rcases hbr.cases with rfl | rfl
      · rw [List.singleton_append, Quotation.untilTripleQuote, ih, Option.map_map, Option.map_map]
        simp [Function.comp_def]
      · rw [List.cons_append, List.singleton_append, Quotation.untilTripleQuote,
          untilTripleQuote_cons fun h => absurd h (by decide), if_neg fun hand => h hand.1.symm, ih,
          Option.map_map, Option.map_map, Option.map_map]
        simp [Function.comp_def]
    · rw [recode_cons br hc, Quotation.untilTripleQuote, ih, Option.map_map, Option.map_map]
      simp [Function.comp_def, hc]
  | case2 c cs hshape hfound =>
    obtain ⟨rfl, htake⟩ := hfound
    rw [recode_cons br h, untilTripleQuote_cons (last_recode br hshape),
      if_pos ⟨rfl, (hquotes cs).2 htake⟩]
    simp [h]
  | case3 c cs hshape hfound ih =>
    by_cases hc : c = '\n'
    · subst hc
      rw [recode_break, untilTripleQuote_break br h h', ih, Option.map_map, Option.map_map]
      simp [Function.comp_def]
    · rw [recode_cons br hc, untilTripleQuote_cons (last_recode br hshape), if_neg, ih,
        Option.map_map, Option.map_map]
      · simp [Function.comp_def, hc]
      · exact fun hand => hfound ⟨hand.1, (hquotes cs).1 hand.2⟩
  | case4 => rfl

/-- A literal with other line breaks has the same end. -/
theorem quoted_recode {quote : Char} {cs : List Char} (h : Quotation.isQuote quote = true)
    (hcs : '\r' ∉ cs) : Quotation.munch (recode br (quote :: cs)) =
      (Quotation.munch (quote :: cs)).map (recode br) := by
  have hnewline : quote ≠ '\n' := Inline.ne h
  have hret : quote ≠ '\r' := by
    rintro rfl
    exact absurd h (by decide)
  have hquotes : (recode br cs).take 2 = [quote, quote] ↔ cs.take 2 = [quote, quote] :=
    quotes_recode_iff br hnewline hret cs
  rw [recode_cons br hnewline]
  unfold Quotation.munch
  dsimp only
  by_cases htriple : cs.take 2 = [quote, quote]
  · have hdrop : (recode br cs).drop 2 = recode br (cs.drop 2) := by
      have hcs : cs = quote :: quote :: cs.drop 2 := by
        simpa [htriple] using (List.take_append_drop 2 cs).symm
      rw [hcs, recode_cons br hnewline, recode_cons br hnewline]
      rfl
    rw [if_pos htriple, if_pos (hquotes.2 htriple), hdrop, untilTripleQuote_recode br hnewline hret]
    cases Quotation.untilTripleQuote quote (cs.drop 2) with
    | none => rfl
    | some tail => simp [Except.map, hnewline]
  · rw [if_neg htriple, if_neg fun h => htriple (hquotes.1 h), untilQuote_recode br hnewline hcs]
    cases Quotation.untilQuote quote cs with
    | none => rfl
    | some tail => simp [Except.map, hnewline]

end Sign

/-! ## Formatted strings -/

/-- Two results of one sort: two values that are related, or two faults. -/
inductive Paired {ε α : Type} (R : α → α → Prop) : Except ε α → Except ε α → Prop
  | ok {a b : α} (related : R a b) : Paired R (.ok a) (.ok b)
  | error (e e' : ε) : Paired R (.error e) (.error e')

theorem Paired.bind {ε α β : Type} {R : α → α → Prop} {S : β → β → Prop} {x y : Except ε α}
    {f g : α → Except ε β} (h : Paired R x y) (hf : ∀ a b, R a b → Paired S (f a) (g b)) :
    Paired S (x >>= f) (y >>= g) := by
  cases h with
  | ok related => exact hf _ _ related
  | error e e' => exact .error e e'

theorem Paired.mono {ε α : Type} {R S : α → α → Prop} {x y : Except ε α} (h : Paired R x y)
    (hsub : ∀ a b, R a b → S a b) : Paired S x y := by
  cases h with
  | ok related => exact .ok (hsub _ _ related)
  | error e e' => exact .error e e'

theorem Paired.mapError {ε ε' α : Type} {R : α → α → Prop} {x y : Except ε α} (h : Paired R x y)
    (f : ε → ε') : Paired R (x.mapError f) (y.mapError f) := by
  cases h with
  | ok related => exact .ok related
  | error e e' => exact .error (f e) (f e')

section Template

open Template

variable (br : List Char)

/-- The text of an expression, the character that ends it and what follows. -/
abbrev Cut : Type := List Char × Char × List Char

/-- What is left of a text, as it is and written anew. -/
structure Left (cs a b : List Char) : Prop where
  suffix : a <:+ cs
  anew : b = recode br a

/-- Two expressions at the front of a text, of which the second is the first written anew. -/
structure CutLike (cs : List Char) (a b : Cut) : Prop where
  text : b.1 = recode br a.1
  stop : b.2.1 = a.2.1
  rest : Left br cs a.2.2 b.2.2

/-- The character after a conversion, and what follows. -/
structure StopLike (cs : List Char) (a b : Char × List Char) : Prop where
  stop : b.1 = a.1
  rest : Left br cs a.2 b.2

variable {br} in
theorem Left.widen {cs ds a b : List Char} (h : Left br cs a b) (hcs : cs <:+ ds) :
    Left br ds a b := ⟨h.suffix.trans hcs, h.anew⟩

theorem left_refl (cs : List Char) : Left br cs cs (recode br cs) := ⟨List.suffix_refl cs, rfl⟩

/-- A character in front of an expression. -/
def keep (c : Char) (x : Except TemplateFault Cut) : Except TemplateFault Cut := do
  let (text, stop, rest) ← x
  return (c :: text, stop, rest)

theorem paired_keep {c : Char} (hc : c ≠ '\n') {cs : List Char} {x y : Except TemplateFault Cut}
    (h : Paired (CutLike br cs) x y) : Paired (CutLike br (c :: cs)) (keep c x) (keep c y) :=
  h.bind fun a b hlike => .ok
    ⟨by rw [recode_cons br hc, hlike.text], hlike.stop, hlike.rest.widen (List.suffix_cons c cs)⟩

variable [hbr : IsBreak br]

theorem expression_none (depth : Nat) (c : Char) (cs : List Char) :
    expression none depth (c :: cs) =
      if Template.isQuote c then keep c (expression (some c) depth cs)
      else if isOpening c then keep c (expression none (depth + 1) cs)
      else if isClosing c && 0 < depth then keep c (expression none (depth - 1) cs)
      else if depth = 0 && (c == ':' || c == '\x7d' || (c == '!' && cs.head? != some '=')) then
        .ok ([], c, cs)
      else keep c (expression none depth cs) := by
  rw [expression]
  rfl

theorem expression_some (q : Char) (depth : Nat) (c : Char) (cs : List Char) :
    expression (some q) depth (c :: cs) =
      expression (if c = q then none else some q) depth cs := by
  rw [expression]

/-- A line break belongs to its expression. -/
theorem paired_break {cs : List Char} {x y : Except TemplateFault Cut}
    (h : Paired (CutLike br cs) x y) :
    Paired (CutLike br ('\n' :: cs)) (keep '\n' x) (br.foldr keep y) := by
  have hbreak : br.foldr keep y = y.map fun b => (br ++ b.1, b.2) := by
    rcases hbr.cases with rfl | rfl
    all_goals
      cases y with
      | error e => rfl
      | ok b => rfl
  rw [hbreak]
  cases h with
  | ok hlike =>
    exact .ok ⟨congrArg (br ++ ·) hlike.text, hlike.stop,
      hlike.rest.widen (List.suffix_cons _ cs)⟩
  | error e e' => exact .error e e'

theorem expression_none_one {b : Char} (h : b = '\n' ∨ b = '\r') (depth : Nat) (cs : List Char) :
    expression none depth (b :: cs) = keep b (expression none depth cs) := by
  rcases h with rfl | rfl
  all_goals simp [expression_none, Template.isQuote, isOpening, isClosing]

theorem expression_none_break (depth : Nat) (cs : List Char) :
    expression none depth (br ++ cs) = br.foldr keep (expression none depth cs) := by
  rcases hbr.cases with rfl | rfl
  · exact expression_none_one (.inr rfl) depth cs
  · rw [List.cons_append, List.singleton_append, expression_none_one (.inr rfl),
      expression_none_one (.inl rfl)]
    rfl

theorem expression_some_break {q : Char} (h : q ≠ '\n') (h' : q ≠ '\r') (depth : Nat)
    (cs : List Char) : expression (some q) depth (br ++ cs) = expression (some q) depth cs := by
  rcases hbr.cases with rfl | rfl
  · rw [List.singleton_append, expression_some, if_neg h'.symm]
  · rw [List.cons_append, List.singleton_append, expression_some, if_neg h'.symm, expression_some,
      if_neg h.symm]

theorem head?_recode_iff {c : Char} (h : c ≠ '\n') (h' : c ≠ '\r') (cs : List Char) :
    (recode br cs).head? = some c ↔ cs.head? = some c := by
  have hfront : [c] <+: recode br cs ↔ [c] <+: cs :=
    prefix_recode_iff br (by simp [h.symm]) (by simp [h'.symm]) cs
  rw [List.head?_eq_some_iff, List.head?_eq_some_iff]
  simpa [List.IsPrefix, eq_comm] using hfront

theorem expression_recode (quote : Option Char) (depth : Nat) (cs : List Char)
    (hquote : ∀ q ∈ quote, Template.isQuote q = true) : Paired (CutLike br cs)
      (expression quote depth cs) (expression quote depth (recode br cs)) := by
  have hne : ∀ q, Template.isQuote q = true → q ≠ '\n' ∧ q ≠ '\r' := by
    rintro q h
    constructor
    all_goals
      rintro rfl
      exact absurd h (by decide)
  induction cs generalizing quote depth with
  | nil => exact .error _ _
  | cons c cs ih =>
    cases quote with
    | some q =>
      obtain ⟨hnewline, hret⟩ := hne q (hquote q rfl)
      have hrest := ih (if c = q then none else some q) depth fun q' hq' => by
        split at hq'
        · cases hq'
        · exact hquote q' hq'
      have hwiden : Paired (CutLike br (c :: cs)) _ _ := hrest.mono fun a b h =>
        ⟨h.text, h.stop, h.rest.widen (List.suffix_cons c cs)⟩
      rw [expression_some]
      by_cases hc : c = '\n'
      · subst hc
        rw [if_neg hnewline.symm] at hwiden ⊢
        rwa [recode_break, expression_some_break br hnewline hret]
      · rwa [recode_cons br hc, expression_some]
    | none =>
      by_cases hc : c = '\n'
      · subst hc
        rw [recode_break, expression_none_break, expression_none_one (.inl rfl)]
        exact paired_break br (ih none depth nofun)
      · have hhead := head?_recode_iff br (c := '=') (by decide) (by decide) cs
        rw [recode_cons br hc, expression_none, expression_none]
        simp only [bne, beq_eq_decide, hhead]
        split
        · next h =>
          exact paired_keep br hc (ih (some c) depth fun q hq => Option.some.inj hq ▸ h)
        · split
          · exact paired_keep br hc (ih none _ nofun)
          · split
            · exact paired_keep br hc (ih none _ nofun)
            · split
              · exact .ok ⟨rfl, rfl, (left_refl br cs).widen (List.suffix_cons c cs)⟩
              · exact paired_keep br hc (ih none _ nofun)

/-- Of a blank expression nothing is left but one equals sign. -/
theorem isBlankExpression_iff (text : List Char) : isBlankExpression text = true ↔
    text.filter (!Text.isBlank ·) = [] ∨ text.filter (!Text.isBlank ·) = ['='] := by
  induction text using List.reverseRecOn with
  | nil => simp [isBlankExpression, Text.trimEnd]
  | append_singleton cs c ih =>
    have htrim : Text.trimEnd (cs ++ [c]) =
        if Text.isBlank c = true then Text.trimEnd cs else cs ++ [c] :=
      List.rdropWhile_concat Text.isBlank cs c
    unfold isBlankExpression at ih ⊢
    rw [htrim, List.filter_append]
    by_cases hc : Text.isBlank c = true
    · rw [if_pos hc, ih]
      simp [hc]
    · rw [if_neg hc]
      by_cases heq : c = '='
      · subst heq
        simp [hc, List.filter_eq_nil_iff]
      · simp [hc, heq, List.append_eq_singleton_iff]

theorem isBlankExpression_recode (text : List Char) :
    isBlankExpression (recode br text) = isBlankExpression text := by
  have hfilter : (recode br text).filter (!Text.isBlank ·) = text.filter (!Text.isBlank ·) := by
    induction text with
    | nil => rfl
    | cons c cs ih =>
      by_cases hc : c = '\n'
      · subst hc
        have hbreak : br.filter (!Text.isBlank ·) = [] := by
          rcases hbr.cases with rfl | rfl
          all_goals decide
        rw [recode_break, List.filter_append, hbreak, List.nil_append, ih]
        rfl
      · rw [recode_cons br hc, List.filter_cons, List.filter_cons, ih]
  rw [Bool.eq_iff_iff, isBlankExpression_iff, isBlankExpression_iff, hfilter]

theorem conversion_recode (cs : List Char) :
    Paired (StopLike br cs) (conversion cs) (conversion (recode br cs)) := by
  rcases recode_cases br cs with rfl | ⟨c, rest, rfl, _, hrecode⟩ | ⟨rest, tail, rfl, hrecode⟩
  · exact .error _ _
  · rw [hrecode]
    unfold conversion
    dsimp only
    split
    · rcases recode_cases br rest with rfl | ⟨d, ds, rfl, _, hrecode⟩ | ⟨ds, tail, rfl, hrecode⟩
      · exact .error _ _
      · rw [hrecode]
        dsimp only
        split
        · exact .ok ⟨rfl, (left_refl br ds).widen ⟨[c, d], rfl⟩⟩
        · exact .error _ _
      · rw [hrecode]
        exact .error _ _
    · split
      · exact .error _ _
      · exact .error _ _
  · rw [hrecode]
    exact .error _ _

omit hbr in
theorem length_recode_le {a cs : List Char} (h : a <:+ cs) :
    (recode br a).length ≤ (recode br cs).length := by
  obtain ⟨front, rfl⟩ := h
  rw [recode_append, List.length_append]
  exact Nat.le_add_left _ _

theorem specification_one {b : Char} (h : b = '\n' ∨ b = '\r')
    (field : List Char → Except TemplateFault (List Char)) (fuel : Nat) (cs : List Char) :
    specification field (fuel + 1) (b :: cs) = specification field fuel cs := by
  rcases h with rfl | rfl
  all_goals rfl

theorem specification_break (field : List Char → Except TemplateFault (List Char)) (fuel : Nat)
    (cs : List Char) :
    specification field (fuel + br.length) (br ++ cs) = specification field fuel cs := by
  rcases hbr.cases with rfl | rfl
  · exact specification_one (.inr rfl) field fuel cs
  · exact (specification_one (.inr rfl) field (fuel + 1) _).trans
      (specification_one (.inl rfl) field fuel cs)

theorem specification_recode {field : List Char → Except TemplateFault (List Char)}
    (hfield : ∀ cs, Paired (Left br cs) (field cs) (field (recode br cs))) {fuel fuel' : Nat}
    {cs : List Char} (h : cs.length ≤ fuel) (h' : (recode br cs).length ≤ fuel') :
    Paired (Left br cs) (specification field fuel cs)
      (specification field fuel' (recode br cs)) := by
  induction fuel generalizing fuel' cs with
  | zero =>
    obtain rfl := List.length_eq_zero_iff.1 (Nat.le_zero.1 h)
    cases fuel' with
    | zero => exact .error _ _
    | succ fuel' => exact .error _ _
  | succ fuel ih =>
    cases cs with
    | nil =>
      cases fuel' with
      | zero => exact .error _ _
      | succ fuel' => exact .error _ _
    | cons c cs =>
      have hcs : cs <:+ c :: cs := List.suffix_cons c cs
      have hlength : cs.length ≤ fuel := Nat.le_of_succ_le_succ h
      by_cases hc : c = '\n'
      · subst hc
        rw [recode_break, List.length_append] at h'
        obtain ⟨fuel', rfl⟩ := Nat.exists_eq_add_of_le' (Nat.le_of_add_right_le h')
        rw [recode_break, specification_break, specification_one (.inl rfl)]
        exact (ih hlength (by omega)).mono fun a b h => h.widen hcs
      · rw [recode_cons br hc] at h' ⊢
        obtain ⟨fuel', rfl⟩ := Nat.exists_eq_add_of_le' (Nat.le_of_add_left_le h')
        have hlength' := Nat.le_of_succ_le_succ h'
        unfold specification
        split
        · refine (hfield cs).bind ?_
          rintro a b ⟨hsuffix, rfl⟩
          exact (ih (hsuffix.length_le.trans hlength)
            ((length_recode_le br hsuffix).trans hlength')).mono
              fun a b h => h.widen (hsuffix.trans hcs)
        · split
          · exact .ok ((left_refl br cs).widen hcs)
          · exact (ih hlength hlength').mono fun a b h => h.widen hcs

theorem field_recode (room : Nat) (cs : List Char) :
    Paired (Left br cs) (field room cs) (field room (recode br cs)) := by
  induction room generalizing cs with
  | zero => exact .error _ _
  | succ room ih =>
    have hclose : ∀ a b, StopLike br cs a b → Paired (Left br cs)
        (if a.1 == ':' then specification (field room) a.2.length a.2 else pure a.2)
        (if b.1 == ':' then specification (field room) b.2.length b.2 else pure b.2) := by
      rintro ⟨stop, rest⟩ ⟨stop', rest'⟩ ⟨hstop, hsuffix, hanew⟩
      dsimp only at hstop hsuffix hanew ⊢
      subst hstop hanew
      split
      · exact (specification_recode br ih (Nat.le_refl _) (Nat.le_refl _)).mono
          fun a b h => h.widen hsuffix
      · exact .ok ⟨hsuffix, rfl⟩
    unfold field
    refine (expression_recode br none 0 cs nofun).bind ?_
    rintro ⟨text, stop, rest⟩ ⟨text', stop', rest'⟩ ⟨htext, hstop, hsuffix, hanew⟩
    dsimp only at htext hstop hsuffix hanew ⊢
    subst htext hstop hanew
    rw [isBlankExpression_recode]
    split
    · exact .error _ _
    · split
      · exact ((conversion_recode br rest).mono
          fun a b h => ⟨h.stop, h.rest.widen hsuffix⟩).bind hclose
      · exact hclose _ _ ⟨rfl, hsuffix, rfl⟩

theorem checkText_one {b : Char} (h : b = '\n' ∨ b = '\r') (raw : Bool) (fuel : Nat)
    (cs : List Char) : checkText raw (fuel + 1) (b :: cs) = checkText raw fuel cs := by
  rcases h with rfl | rfl
  all_goals rfl

theorem checkText_break (raw : Bool) (fuel : Nat) (cs : List Char) :
    checkText raw (fuel + br.length) (br ++ cs) = checkText raw fuel cs := by
  rcases hbr.cases with rfl | rfl
  · exact checkText_one (.inr rfl) raw fuel cs
  · exact (checkText_one (.inr rfl) raw (fuel + 1) _).trans (checkText_one (.inl rfl) raw fuel cs)

theorem dropWhile_brace_break (cs : List Char) :
    (br ++ cs).dropWhile (· != '\x7d') = cs.dropWhile (· != '\x7d') := by
  rcases hbr.cases with rfl | rfl
  all_goals rfl

theorem escape_suffix (cs : List Char) : escape cs <:+ cs := by
  unfold escape
  split
  · next cs =>
    exact ((List.drop_suffix _ _).trans (List.dropWhile_suffix _)).trans ⟨['N', '\x7b'], rfl⟩
  · next c cs _ =>
    split
    · exact List.suffix_refl _
    · exact List.suffix_cons c cs
  · exact List.suffix_refl _

theorem name_recode (cs : List Char) : ((recode br cs).dropWhile (· != '\x7d')).drop 1 =
    recode br ((cs.dropWhile (· != '\x7d')).drop 1) := by
  induction cs with
  | nil => rfl
  | cons c cs ih =>
    by_cases hc : c = '\n'
    · subst hc
      rw [recode_break, dropWhile_brace_break, ih]
      rfl
    · rw [recode_cons br hc, List.dropWhile_cons, List.dropWhile_cons]
      split
      · exact ih
      · rfl

theorem escape_cons {c : Char} {cs : List Char} (h : c = 'N' → cs.head? ≠ some '\x7b') :
    escape (c :: cs) = if c == '\x7b' || c == '\x7d' then c :: cs else cs := by
  rw [escape]
  rintro ds rfl rfl
  exact h rfl rfl

/-- What a backslash protects is left out anew; of a pair that ends a line the second remains. -/
theorem escape_recode (cs : List Char) : escape (recode br cs) = recode br (escape cs) ∨
    escape (recode br cs) = '\n' :: recode br (escape cs) := by
  by_cases hname : ∃ rest, cs = 'N' :: '\x7b' :: rest
  · obtain ⟨rest, rfl⟩ := hname
    rw [recode_cons br (by decide), recode_cons br (by decide)]
    exact .inl (name_recode br rest)
  · cases cs with
    | nil => exact .inl rfl
    | cons c cs =>
      have hplain : c = 'N' → cs.head? ≠ some '\x7b' := by
        rintro rfl hhead
        obtain ⟨rest, rfl⟩ := List.head?_eq_some_iff.1 hhead
        exact hname ⟨rest, rfl⟩
      by_cases hc : c = '\n'
      · subst hc
        rw [recode_break, escape_cons hplain]
        rcases hbr.cases with rfl | rfl
        · exact .inl rfl
        · exact .inr rfl
      · have hplain' : c = 'N' → (recode br cs).head? ≠ some '\x7b' := fun h hhead =>
          hplain h ((head?_recode_iff br (by decide) (by decide) cs).1 hhead)
        rw [recode_cons br hc, escape_cons hplain, escape_cons hplain']
        split
        · exact .inl (recode_cons br hc cs).symm
        · exact .inl rfl

theorem checkText_nil (raw : Bool) (fuel : Nat) : checkText raw fuel [] = .ok () := by
  cases fuel with
  | zero => rfl
  | succ fuel => rfl

/-- A formatted string is well formed with other line breaks, too. -/
theorem checkText_recode (raw : Bool) {fuel fuel' : Nat} {cs : List Char} (h : cs.length ≤ fuel)
    (h' : (recode br cs).length ≤ fuel') :
    Paired (fun _ _ => True) (checkText raw fuel cs) (checkText raw fuel' (recode br cs)) := by
  induction fuel generalizing fuel' cs with
  | zero =>
    obtain rfl := List.length_eq_zero_iff.1 (Nat.le_zero.1 h)
    rw [recode_nil, checkText_nil, checkText_nil]
    exact .ok trivial
  | succ fuel ih =>
    cases cs with
    | nil =>
      rw [recode_nil, checkText_nil, checkText_nil]
      exact .ok trivial
    | cons c cs =>
      have hlength : cs.length ≤ fuel := Nat.le_of_succ_le_succ h
      by_cases hc : c = '\n'
      · subst hc
        rw [recode_break, List.length_append] at h'
        obtain ⟨fuel', rfl⟩ := Nat.exists_eq_add_of_le' (Nat.le_of_add_right_le h')
        rw [recode_break, checkText_break, checkText_one (.inl rfl)]
        exact ih hlength (by omega)
      · rw [recode_cons br hc] at h' ⊢
        obtain ⟨fuel', rfl⟩ := Nat.exists_eq_add_of_le' (Nat.le_of_add_left_le h')
        have hlength' : (recode br cs).length ≤ fuel' := Nat.le_of_succ_le_succ h'
        -- what follows a part of the text is no longer than the text, before and after
        have hrest : ∀ rest, rest <:+ cs → Paired (fun _ _ => True) (checkText raw fuel rest)
            (checkText raw fuel' (recode br rest)) := fun rest hsuffix =>
          ih (hsuffix.length_le.trans hlength) ((length_recode_le br hsuffix).trans hlength')
        have hdouble : ∀ d, d ≠ '\n' → cs.head? = some d →
            (recode br cs).drop 1 = recode br (cs.drop 1) := by
          intro d hd hhead
          obtain ⟨rest, rfl⟩ := List.head?_eq_some_iff.1 hhead
          rw [recode_cons br hd]
          rfl
        unfold checkText
        split
        · rcases escape_recode br cs with heq | heq
          · rw [heq]
            exact hrest _ (escape_suffix cs)
          · have hlonger := (escape_suffix (recode br cs)).length_le.trans hlength'
            rw [heq, List.length_cons] at hlonger
            obtain ⟨fuel', rfl⟩ := Nat.exists_eq_add_of_le' (Nat.le_of_add_left_le hlonger)
            rw [heq, checkText_one (.inl rfl)]
            exact ih ((escape_suffix cs).length_le.trans hlength) (Nat.le_of_succ_le_succ hlonger)
        · split
          · next hbrace =>
            obtain rfl := eq_of_beq hbrace
            simp only [head?_recode_iff br (c := '\x7b') (by decide) (by decide)]
            split
            · next hhead =>
              rw [hdouble _ (by decide) hhead]
              exact hrest _ (List.drop_suffix _ _)
            · exact (field_recode br maxNesting cs).bind fun a b hleft =>
                hleft.anew ▸ hrest a hleft.suffix
          · split
            · next hbrace =>
              obtain rfl := eq_of_beq hbrace
              simp only [head?_recode_iff br (c := '\x7d') (by decide) (by decide)]
              split
              · next hhead =>
                rw [hdouble _ (by decide) hhead]
                exact hrest _ (List.drop_suffix _ _)
              · exact .error _ _
            · exact hrest _ (List.suffix_refl _)

end Template

/-! ## Lexemes -/

/-- What is delimited by quotes: the literal and its body. -/
inductive Delimited : List Char → List Char → Prop
  | single (quote : Char) (body : List Char) (isQuote : Quotation.isQuote quote = true)
      (plain : (body ++ [quote]).take 2 ≠ [quote, quote]) :
      Delimited ([quote] ++ body ++ [quote]) body
  | triple (quote : Char) (body : List Char) (isQuote : Quotation.isQuote quote = true) :
      Delimited ([quote, quote, quote] ++ body ++ [quote, quote, quote]) body

theorem size_of_isQuote {quote : Char} (h : Quotation.isQuote quote = true) :
    quote.utf8Size = 1 := by
  simp only [Quotation.isQuote, Bool.or_eq_true, beq_iff_eq] at h
  rcases h with rfl | rfl
  all_goals rfl

/-- A literal is cut at its delimiters. -/
theorem parts_of_delimited {marks quoted body : List Char} (h : Delimited quoted body)
    (hmarks : marks.any Quotation.isQuote = false) :
    Quotation.Parts.ofLexeme? (marks ++ quoted) = some ⟨marks, body⟩ := by
  have hfront : ∀ c ∈ marks, (!Quotation.isQuote c) = true := by
    intro c hc
    have hnone := List.any_eq_false.1 hmarks c hc
    simp [hnone]
  unfold Quotation.Parts.ofLexeme?
  rw [List.dropWhile_append_of_pos hfront, List.takeWhile_append_of_pos hfront]
  cases h with
  | single quote _ isQuote plain =>
    have hsize := size_of_isQuote isQuote
    have hdelimiter : ¬(6 ≤ Text.byteLength (quote :: (body ++ [quote])) ∧
        (body ++ [quote]).take 2 = [quote, quote]) := fun h => plain h.2
    have hslice : Text.sliceBytes (quote :: (body ++ [quote])) 1
        (Text.byteLength (quote :: (body ++ [quote])) - 1) = some body := by
      have hcut := Text.sliceBytes_append [quote] body [quote]
      simp only [Text.byteLength, Text.byteLength_append, hsize] at hcut ⊢
      rwa [show 1 + (Text.byteLength body + (1 + 0)) - 1 = 1 + 0 + Text.byteLength body by omega]
    rw [List.append_assoc, List.singleton_append, List.dropWhile_cons_of_neg (by simp [isQuote]),
      List.takeWhile_cons_of_neg (by simp [isQuote])]
    dsimp only
    rw [if_neg hdelimiter, hslice, List.append_nil]
    rfl
  | triple quote _ isQuote =>
    have hsize := size_of_isQuote isQuote
    have hdelimiter :
        6 ≤ Text.byteLength (quote :: quote :: quote :: (body ++ [quote, quote, quote])) ∧
        (quote :: quote :: (body ++ [quote, quote, quote])).take 2 = [quote, quote] := by
      refine ⟨?_, rfl⟩
      simp only [Text.byteLength, Text.byteLength_append, hsize]
      omega
    have hslice : Text.sliceBytes (quote :: quote :: quote :: (body ++ [quote, quote, quote])) 3
        (Text.byteLength (quote :: quote :: quote :: (body ++ [quote, quote, quote])) - 3) =
        some body := by
      have hcut := Text.sliceBytes_append [quote, quote, quote] body [quote, quote, quote]
      simp only [Text.byteLength, Text.byteLength_append, hsize] at hcut ⊢
      rwa [show 1 + (1 + (1 + (Text.byteLength body + (1 + (1 + (1 + 0)))))) - 3 =
        1 + (1 + (1 + 0)) + Text.byteLength body by omega]
    rw [List.append_assoc, List.cons_append, List.dropWhile_cons_of_neg (by simp [isQuote]),
      List.takeWhile_cons_of_neg (by simp [isQuote])]
    dsimp only [List.cons_append, List.nil_append]
    rw [if_pos hdelimiter, hslice, List.append_nil]
    rfl

theorem exists_body_of_untilTripleQuote {quote : Char} {text tail : List Char}
    (h : Quotation.untilTripleQuote quote text = some tail) :
    ∃ body, tail = body ++ [quote, quote, quote] := by
  fun_induction Quotation.untilTripleQuote quote text generalizing tail with
  | case1 c cs ih =>
    obtain ⟨rest, hrest, rfl⟩ := Option.map_eq_some_iff.1 h
    obtain ⟨body, rfl⟩ := ih hrest
    exact ⟨['\\', c] ++ body, (List.append_assoc _ _ _).symm⟩
  | case2 c cs _ hquotes =>
    cases h
    obtain ⟨rfl, _⟩ := hquotes
    exact ⟨[], rfl⟩
  | case3 c cs _ _ ih =>
    obtain ⟨rest, hrest, rfl⟩ := Option.map_eq_some_iff.1 h
    obtain ⟨body, rfl⟩ := ih hrest
    exact ⟨c :: body, rfl⟩
  | case4 => cases h

/-- A literal that has been read is delimited. -/
theorem delimited_of_munch {quote : Char} {cs quoted : List Char}
    (hquote : Quotation.isQuote quote = true) (h : Quotation.munch (quote :: cs) = .ok quoted) :
    ∃ body, Delimited quoted body := by
  unfold Quotation.munch at h
  dsimp only at h
  split at h
  · split at h
    · next tail htail =>
      cases h
      obtain ⟨body, rfl⟩ := exists_body_of_untilTripleQuote htail
      exact ⟨body, .triple quote body hquote⟩
    · cases h
  · next hsingle =>
    split at h
    · next tail htail =>
      cases h
      obtain ⟨hfront, hlast⟩ := Places.taken_untilQuote htail
      obtain ⟨body, rfl⟩ := List.getLast?_eq_some_iff.1 hlast
      refine ⟨body, .single quote body hquote fun htake => hsingle ?_⟩
      obtain ⟨rest, rfl⟩ := hfront
      rw [List.take_append_of_le_length, htake]
      exact (congrArg List.length htake).symm.le.trans (List.length_take_le' 2 _)
    · cases h

section Lexeme

variable (br : List Char) [hbr : IsBreak br]

theorem delimited_recode {quoted body : List Char} (h : Delimited quoted body) :
    Delimited (recode br quoted) (recode br body) := by
  cases h with
  | single quote _ isQuote plain =>
    have hne := Inline.ne isQuote
    have hplain : (recode br (body ++ [quote])).take 2 ≠ [quote, quote] := fun h =>
      plain ((quotes_recode_iff br hne (by rintro rfl; exact absurd isQuote (by decide)) _).1 h)
    have hone : recode br [quote] = [quote] := recode_cons br hne []
    rw [recode_append, hone] at hplain
    rw [recode_append, recode_append, hone]
    exact .single quote (recode br body) isQuote hplain
  | triple quote _ isQuote =>
    have hne := Inline.ne isQuote
    have hthree : recode br [quote, quote, quote] = [quote, quote, quote] := by simp [hne]
    rw [recode_append, recode_append, hthree]
    exact .triple quote (recode br body) isQuote

theorem all_isAscii_recode (cs : List Char) :
    (recode br cs).all Quotation.isAscii = cs.all Quotation.isAscii := by
  induction cs with
  | nil => rfl
  | cons c cs ih =>
    by_cases hc : c = '\n'
    · subst hc
      have hbreak : br.all Quotation.isAscii = true := by
        rcases hbr.cases with rfl | rfl
        all_goals decide
      rw [recode_break, List.all_append, hbreak, ih]
      rfl
    · rw [recode_cons br hc, List.all_cons, List.all_cons, ih]

/-- A literal and the same literal with other line breaks. -/
structure LexemeLike (a b : Lexeme) : Prop where
  kind : b.kind = a.kind
  chars : b.chars = recode br a.chars
  plain : a.kind ≠ .string → '\n' ∉ a.chars
  isBytes : Quotation.isBytes b.chars = Quotation.isBytes a.chars

omit hbr in
theorem lexemeLike_of_plain {a : Lexeme} (h : '\n' ∉ a.chars) : LexemeLike br a a :=
  ⟨rfl, (recode_of_not_mem br h).symm, fun _ => h, rfl⟩

theorem check_recode {marks quoted body : List Char} (h : Delimited quoted body)
    (hmarks : marks.any Quotation.isQuote = false) : Paired (fun _ _ => True)
      (Quotation.check (marks ++ quoted)) (Quotation.check (marks ++ recode br quoted)) := by
  have hmark : ∀ letter, (Quotation.Parts.mk marks (recode br body)).hasMark letter =
      (Quotation.Parts.mk marks body).hasMark letter := fun _ => rfl
  unfold Quotation.check
  rw [parts_of_delimited h hmarks, parts_of_delimited (delimited_recode br h) hmarks]
  dsimp only
  simp only [hmark, all_isAscii_recode]
  split
  · exact .error _ _
  · split
    · exact (checkText_recode br _ (Nat.le_refl _) (Nat.le_refl _)).mapError _
    · exact .ok trivial

theorem quotation_recode {start start' : Cursor} {marks cs : List Char} {quote : Char}
    (hquote : Quotation.isQuote quote = true) (hmarks : marks.any Quotation.isQuote = false)
    (hplain : '\n' ∉ marks) (hcs : '\r' ∉ cs) : Paired (LexemeLike br)
      (Lexeme.quotation start marks (quote :: cs))
      (Lexeme.quotation start' marks (recode br (quote :: cs))) := by
  unfold Lexeme.quotation
  rw [quoted_recode br hquote hcs]
  cases hmunch : Quotation.munch (quote :: cs) with
  | error fault =>
    cases fault with
    | single => exact .error _ _
    | triple => exact .error _ _
  | ok quoted =>
    obtain ⟨body, hbody⟩ := delimited_of_munch hquote hmunch
    refine (check_recode br hbody hmarks).bind fun _ _ _ => .ok ⟨rfl, ?_, nofun, ?_⟩
    · rw [recode_append, recode_of_not_mem br hplain]
    · unfold Quotation.isBytes
      rw [parts_of_delimited hbody hmarks, parts_of_delimited (delimited_recode br hbody) hmarks]
      rfl

theorem word_recode {start start' : Cursor} (hrest : start'.rest = recode br start.rest)
    (hcs : '\r' ∉ start.rest) :
    Paired (LexemeLike br) (Lexeme.word start) (Lexeme.word start') := by
  have hword : Word.munch start'.rest = Word.munch start.rest := by
    rw [hrest]
    exact takeWhile_recode br start.rest
  have hall : ∀ c ∈ Word.munch start.rest, Word.isPart c = true :=
    fun c => List.mem_takeWhile_imp
  have hplain : '\n' ∉ Word.munch start.rest := fun h => absurd (hall _ h) (by decide)
  have hmarks : (Word.munch start.rest).any Quotation.isQuote = false := by
    refine List.any_eq_false.2 fun c hc hquote => ?_
    simp only [Quotation.isQuote, Bool.or_eq_true, beq_iff_eq] at hquote
    rcases hquote with rfl | rfl
    all_goals exact absurd (hall _ hc) (by decide)
  have hdrop : start'.rest.drop (Word.munch start.rest).length =
      recode br (start.rest.drop (Word.munch start.rest).length) := by
    have hsplit : start.rest = Word.munch start.rest ++ start.rest.dropWhile Word.isPart :=
      List.takeWhile_append_dropWhile.symm
    rw [hrest]
    generalize Word.munch start.rest = word at hsplit hplain
    rw [hsplit, recode_append, recode_of_not_mem br hplain, List.drop_left, List.drop_left]
  unfold Lexeme.word
  dsimp only
  rw [hword, hdrop, any_head?_recode]
  split
  · next hmark =>
    obtain ⟨quote, hhead, hquote⟩ := (Option.any_eq_true _ _).1 (Bool.and_eq_true_iff.1 hmark).2
    obtain ⟨rest, heq⟩ := List.head?_eq_some_iff.1 hhead
    rw [heq]
    refine quotation_recode br hquote hmarks hplain fun hmem => hcs ?_
    exact List.mem_of_mem_drop (heq ▸ List.mem_cons_of_mem quote hmem)
  · exact .ok (lexemeLike_of_plain br hplain)

theorem not_mem_recode (cs : List Char) : '\n' ∉ recode ['\r'] cs := by
  simp only [recode, List.mem_flatMap, not_exists, not_and]
  intro c _
  split
  · decide
  · next h => simpa using Ne.symm h

theorem not_mem_number {cs number : List Char} (h : Number.munch cs = .ok number) :
    '\n' ∉ number := by
  rw [← number_recode ['\r']] at h
  exact fun hmem => not_mem_recode cs ((Places.taken_number h).front.subset hmem)

theorem not_mem_operator {cs : List Char} {lexeme : Lexeme} (h : Lexeme.operator cs = .ok lexeme) :
    '\n' ∉ lexeme.chars := by
  have hspelling : ∀ entry ∈ Operator.table, '\n' ∉ entry.1.toList := by decide
  unfold Lexeme.operator at h
  split at h
  · next spelling sign found =>
    cases h
    exact hspelling _ (List.mem_of_find?_eq_some found)
  · split at h <;> cases h

/-- A lexeme is read with other line breaks as it was read before. -/
theorem munch_recode {start start' : Cursor} {c : Char} {rest : List Char}
    (hstart : start.rest = c :: rest) (hrest : start'.rest = recode br start.rest)
    (hc : c ≠ '\n') (hcs : '\r' ∉ start.rest) :
    Paired (LexemeLike br) (Lexeme.munch start) (Lexeme.munch start') := by
  have hrefl : ∀ x : Except LexicalFault Lexeme, (∀ a, x = .ok a → '\n' ∉ a.chars) →
      Paired (LexemeLike br) x x := by
    rintro (e | a) h
    · exact .error e e
    · exact .ok (lexemeLike_of_plain br (h a rfl))
  unfold Lexeme.munch Cursor.peek
  rw [hrest, any_head?_recode, any_head?_recode, starts_recode, number_recode, hstart,
    operator_recode br hc, ← hstart]
  split
  · next hquote =>
    rw [hstart] at hquote hcs ⊢
    refine quotation_recode br hquote rfl (by simp) fun h => hcs (List.mem_cons_of_mem c h)
  · split
    · refine hrefl _ fun a ha => ?_
      cases hnumber : Number.munch start.rest with
      | error fault => rw [hnumber] at ha; cases ha
      | ok number =>
        rw [hnumber] at ha
        cases ha
        exact not_mem_number hnumber
    · split
      · exact word_recode br hrest hcs
      · exact hrefl _ fun a ha => not_mem_operator ha

end Lexeme

end SnippetLint.Recoding
