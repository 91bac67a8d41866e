import SnippetLint.Proofs.Agreement
import SnippetLint.Proofs.Coverage
import SnippetLint.Proofs.DerivationStatement

/-!
Spans nest and follow the text. Tokens stand in order, and what is read between two states lies
between the tokens taken there; marking targets and binding patterns moves nothing. Main statement:
`parsed_spans_nest`.
-/

namespace SnippetLint.Spans
open SnippetLint.Derivation

mutual

/-- A span that runs forwards, around the spans of the children, and so on inside. -/
def Nests : Tree → Prop
  | .node _ span children =>
    span.start.offset ≤ span.stop.offset ∧ Fits span.start.offset children span.stop.offset

/-- Trees with spans that nest, one after the other between two offsets. -/
def Fits : Nat → List Tree → Nat → Prop
  | low, [], high => low ≤ high
  | low, t :: ts, high => low ≤ t.span.start.offset ∧ Nests t ∧ Fits t.span.stop.offset ts high

end

theorem Nests.forward {t : Tree} (h : Nests t) : t.span.start.offset ≤ t.span.stop.offset := by
  cases t
  exact h.1

theorem Nests.children {t : Tree} (h : Nests t) :
    Fits t.span.start.offset t.children t.span.stop.offset := by
  cases t
  exact h.2

theorem Fits.le {low high : Nat} {ts : List Tree} (h : Fits low ts high) : low ≤ high := by
  induction ts generalizing low with
  | nil => exact h
  | cons t ts ih =>
    obtain ⟨hlow, hnests, hrest⟩ := h
    exact Nat.le_trans (Nat.le_trans hlow hnests.forward) (ih hrest)

theorem Fits.append {low middle high : Nat} {ts us : List Tree} (hts : Fits low ts middle)
    (hus : Fits middle us high) : Fits low (ts ++ us) high := by
  induction ts generalizing low with
  | nil =>
    cases us with
    | nil => exact Nat.le_trans hts hus
    | cons u us => exact ⟨Nat.le_trans hts hus.1, hus.2⟩
  | cons t ts ih => exact ⟨hts.1, hts.2.1, ih hts.2.2⟩

theorem Fits.forall_mem {low high : Nat} {ts : List Tree} (h : Fits low ts high) :
    ∀ t ∈ ts, Nests t ∧ low ≤ t.span.start.offset ∧ t.span.stop.offset ≤ high := by
  induction ts generalizing low with
  | nil => simp
  | cons first ts ih =>
    obtain ⟨hlow, hnests, hrest⟩ := h
    intro t ht
    rcases List.mem_cons.1 ht with rfl | ht
    · exact ⟨hnests, hlow, hrest.le⟩
    · obtain ⟨htree, hafter, hhigh⟩ := ih hrest t ht
      have hforward := hnests.forward
      exact ⟨htree, by omega, hhigh⟩

theorem Fits.pairwise {low high : Nat} {ts : List Tree} (h : Fits low ts high) :
    ts.Pairwise fun t u => t.span.stop.offset ≤ u.span.start.offset := by
  induction ts generalizing low with
  | nil => exact .nil
  | cons t ts ih =>
    obtain ⟨_, _, hrest⟩ := h
    exact .cons (fun u hu => (hrest.forall_mem u hu).2.1) (ih hrest)

/-! ## Outlines -/

mutual

/-- The spans of a tree, without the kinds. -/
def outline : Tree → Tree
  | .node _ span children => .node .module span (outlineAll children)

def outlineAll : List Tree → List Tree
  | [] => []
  | t :: ts => outline t :: outlineAll ts

end

theorem span_outline (t : Tree) : (outline t).span = t.span := by
  cases t
  rfl

theorem outlineAll_eq_map (ts : List Tree) : outlineAll ts = ts.map outline := by
  induction ts with
  | nil => rfl
  | cons t ts ih => rw [outlineAll, ih, List.map_cons]

mutual

theorem nests_outline : ∀ t : Tree, Nests (outline t) ↔ Nests t
  | .node _ _ children => and_congr_right fun _ => fits_outline children _ _

theorem fits_outline : ∀ (ts : List Tree) (low high : Nat),
    Fits low (outlineAll ts) high ↔ Fits low ts high
  | [], _, _ => Iff.rfl
  | t :: ts, low, high => by
    rw [outlineAll, Fits, Fits, nests_outline t, span_outline, fits_outline ts]

end

/-- Only the outlines of trees decide how they fit. -/
theorem Fits.of_outline {low high : Nat} {ts us : List Tree} (h : Fits low ts high)
    (heq : us.map outline = ts.map outline) : Fits low us high := by
  rw [← fits_outline, outlineAll_eq_map] at h ⊢
  rwa [heq]

mutual

theorem outline_mark {action : TargetAction} : ∀ {t u : Tree}, Target.mark action t = .ok u →
    outline u = outline t
  | .node kind span children, u, h => by
    obtain ⟨_, _, _, marked, heq, rfl, hcases⟩ := mark_cases h
    cases heq
    rw [outline, outline]
    rcases hcases with ⟨_, rfl⟩ | ⟨_, _, hmarked⟩
    · rfl
    · rw [outline_markAll hmarked]

theorem outline_markAll {action : TargetAction} : ∀ {ts us : List Tree},
    Target.markAll action ts = .ok us → outlineAll us = outlineAll ts
  | [], us, h => by
    cases h
    rfl
  | t :: ts, us, h => by
    obtain ⟨u, rest, hfirst, hrest, rfl⟩ := markAll_cons h
    rw [outlineAll, outlineAll, outline_mark hfirst, outline_markAll hrest]

end

theorem outline_positionalOnly (t : Tree) : outline (Expression.positionalOnly t) = outline t := by
  unfold Expression.positionalOnly
  split <;> rfl

theorem outline_capture (t : Tree) : outline (Pattern.capture t) = outline t := by
  unfold Pattern.capture
  split <;> rfl

theorem outline_captureFirst (ts : List Tree) :
    outlineAll (Pattern.captureFirst ts) = outlineAll ts := by
  cases ts with
  | nil => rfl
  | cons t ts => rw [Pattern.captureFirst, outlineAll, outlineAll, outline_capture]

mutual

theorem outline_bind {slot : Pattern.Slot} : ∀ {t u : Tree}, Pattern.bind slot t = .ok u →
    outline u = outline t
  | .node kind span children, u, h => by
    have hall : ∀ {slot marked}, Pattern.bindAll slot children = .ok marked →
        outline (.node kind span marked) = outline (.node kind span children) := by
      intro slot marked hmarked
      rw [outline, outline, outline_bindAll hmarked]
    unfold Pattern.bind at h
    split at h
    · rw [if_pos rfl] at h
      obtain ⟨marked, hmarked, h⟩ := except_bind_eq_ok h
      cases h
      exact hall hmarked
    rw [if_neg Bool.false_ne_true] at h
    split at h
    · split at h
      · cases h
        rfl
      · cases h
    split at h
    · cases h
      rfl
    split at h
    · cases h
    split at h
    · split at h
      · cases h
        rw [outline, outline, outline_captureFirst]
      · cases h
    · cases h
      exact outline_capture _
    · obtain ⟨marked, hmarked, h⟩ := except_bind_eq_ok h
      cases h
      exact hall hmarked
    · split at h
      · cases h
      · obtain ⟨marked, hmarked, h⟩ := except_bind_eq_ok h
        cases h
        exact hall hmarked
    · obtain ⟨_, _, h⟩ := except_bind_eq_ok h
      obtain ⟨marked, hmarked, h⟩ := except_bind_eq_ok h
      cases h
      exact hall hmarked
    · obtain ⟨_, _, h⟩ := except_bind_eq_ok h
      obtain ⟨marked, hmarked, h⟩ := except_bind_eq_ok h
      cases h
      exact hall hmarked
    · obtain ⟨_, _, h⟩ := except_bind_eq_ok h
      obtain ⟨marked, hmarked, h⟩ := except_bind_eq_ok h
      cases h
      rw [outline, outline, outline_bindClass hmarked]
    · obtain ⟨_, _, h⟩ := except_bind_eq_ok h
      obtain ⟨marked, hmarked, h⟩ := except_bind_eq_ok h
      cases h
      rw [outline, outline, outline_bindEntries hmarked]
    · cases h
termination_by structural t => t

theorem outline_bindAll {slot : Pattern.Slot} : ∀ {ts us : List Tree},
    Pattern.bindAll slot ts = .ok us → outlineAll us = outlineAll ts
  | [], us, h => by
    cases h
    rfl
  | t :: ts, us, h => by
    unfold Pattern.bindAll at h
    obtain ⟨rest, hrest, h⟩ := except_bind_eq_ok h
    obtain ⟨u, hfirst, h⟩ := except_bind_eq_ok h
    cases h
    rw [outlineAll, outlineAll, outline_bind hfirst, outline_bindAll hrest]
termination_by structural t => t

theorem outline_bindClass : ∀ {ts us : List Tree},
    Pattern.bindClass ts = .ok us → outlineAll us = outlineAll ts
  | [], us, h => by
    cases h
    rfl
  | t :: ts, us, h => by
    unfold Pattern.bindClass at h
    obtain ⟨rest, hrest, h⟩ := except_bind_eq_ok h
    obtain ⟨u, hfirst, h⟩ := except_bind_eq_ok h
    cases h
    rw [outlineAll, outlineAll, outline_bind hfirst, outline_bindArguments hrest]
termination_by structural t => t

theorem outline_bindArguments : ∀ {ts us : List Tree},
    Pattern.bindArguments ts = .ok us → outlineAll us = outlineAll ts
  | [], us, h => by
    unfold Pattern.bindArguments at h
    cases h
    rfl
  | .node kind span children :: ts, us, h => by
    unfold Pattern.bindArguments at h
    split at h <;> rename_i heq <;> cases heq
    · obtain ⟨rest, hrest, h⟩ := except_bind_eq_ok h
      obtain ⟨marked, hmarked, h⟩ := except_bind_eq_ok h
      cases h
      rw [outlineAll, outlineAll, outline, outline, outline_bindAll hmarked,
        outline_bindArguments hrest]
    · obtain ⟨rest, hrest, h⟩ := except_bind_eq_ok h
      obtain ⟨u, hfirst, h⟩ := except_bind_eq_ok h
      cases h
      rw [outlineAll, outlineAll, outline_bind hfirst, outline_bindArguments hrest]
termination_by structural t => t

theorem outline_bindEntries : ∀ {ts us : List Tree},
    Pattern.bindEntries ts = .ok us → outlineAll us = outlineAll ts
  | [], us, h => by
    unfold Pattern.bindEntries at h
    cases h
    rfl
  | [key], us, h => by
    unfold Pattern.bindEntries at h
    split at h <;> rename_i heq <;> cases heq
    · obtain ⟨rest, hrest, h⟩ := except_bind_eq_ok h
      cases h
      rw [outlineAll, outlineAll, outline, outline, outline_captureFirst, outline_bindEntries hrest]
    · obtain ⟨u, hkey, h⟩ := except_bind_eq_ok h
      cases h
      rw [outlineAll, outline_bind hkey]
      rfl
  | key :: value :: rest, us, h => by
    unfold Pattern.bindEntries at h
    split at h <;> rename_i heq <;> cases heq
    · obtain ⟨rest, hrest, h⟩ := except_bind_eq_ok h
      cases h
      rw [outlineAll, outlineAll, outline, outline, outline_captureFirst, outline_bindEntries hrest]
    · obtain ⟨rest, hrest, h⟩ := except_bind_eq_ok h
      obtain ⟨u, hvalue, h⟩ := except_bind_eq_ok h
      obtain ⟨w, hkey, h⟩ := except_bind_eq_ok h
      cases h
      rw [outlineAll, outlineAll, outlineAll, outlineAll, outline_bind hkey, outline_bind hvalue,
        outline_bindEntries hrest]
termination_by structural t => t

end

/-! ## Tokens in order -/

/-- Tokens in order, from an offset on. -/
def Ordered : Nat → List Token → Prop
  | _, [] => True
  | low, token :: tokens => low ≤ token.span.start.offset ∧
      token.span.start.offset ≤ token.span.stop.offset ∧ Ordered token.span.stop.offset tokens

theorem Ordered.mono {low high : Nat} {tokens : List Token} (h : Ordered high tokens)
    (hle : low ≤ high) : Ordered low tokens := by
  cases tokens with
  | nil => trivial
  | cons token tokens => exact ⟨Nat.le_trans hle h.1, h.2⟩

theorem Ordered.filter {low : Nat} {tokens : List Token} (h : Ordered low tokens)
    (p : Token → Bool) : Ordered low (tokens.filter p) := by
  induction tokens generalizing low with
  | nil => trivial
  | cons token tokens ih =>
    obtain ⟨hlow, hforward, hrest⟩ := h
    rw [List.filter_cons]
    split
    · exact ⟨hlow, hforward, ih hrest⟩
    · exact (ih hrest).mono (Nat.le_trans hlow hforward)

theorem ordered_of_covers {offset : Nat} {text : List Char} {tokens : List Token}
    (h : Coverage.Covers offset text tokens) : Ordered offset tokens := by
  induction h with
  | nil => trivial
  | cons _ starts stops _ ih =>
    exact ⟨starts ▸ Nat.le_add_right _ _, stops ▸ Nat.le_add_right _ _, ih⟩

/-- After the first tokens of an ordered list the others are ordered too. -/
theorem Ordered.drop {low : Position} {taken rest : List Token}
    (h : Ordered low.offset (taken ++ rest)) :
    low.offset ≤ (stopAfter low taken).offset ∧ Ordered (stopAfter low taken).offset rest := by
  induction taken generalizing low with
  | nil => exact ⟨Nat.le_refl _, h⟩
  | cons token taken ih =>
    obtain ⟨hlow, hforward, hrest⟩ := h
    obtain ⟨hle, hordered⟩ := ih hrest
    exact ⟨Nat.le_trans (Nat.le_trans hlow hforward) hle, hordered⟩

/-! ## Along a derivation -/

/-- What is read lies between the tokens that are taken with it. -/
theorem fits_of_reads {a b : ParserState} {xs : List (Phrase × Tree)} (h : Reads a xs b) :
    ∀ {taken : List Token}, a.rest = taken ++ b.rest → ∀ {low : Position},
      Ordered low.offset a.rest →
      Fits low.offset (xs.map Prod.snd) (stopAfter low taken).offset := by
  induction h with
  | skip moves =>
    intro taken htaken low hordered
    rw [htaken] at hordered
    exact hordered.drop.1
  | @append a b c xs ys first second ihfirst ihsecond =>
    intro taken htaken low hordered
    obtain ⟨left, hleft, _⟩ := first.moves.taken
    obtain ⟨right, hright, _⟩ := second.moves.taken
    obtain rfl : left ++ right = taken := by
      rw [hleft, hright, ← List.append_assoc] at htaken
      exact List.append_cancel_right htaken
    have hmiddle := hordered
    rw [hleft] at hmiddle
    rw [List.map_append, stopAfter_append]
    exact (ihfirst hleft hordered).append (ihsecond hright hmiddle.drop.2)
  | @node a b token phrase kind xs next production inside progress ih =>
    intro taken htaken low hordered
    obtain ⟨tokens, htokens, hstop⟩ := inside.moves.taken
    obtain rfl : tokens = taken := by
      rw [htokens] at htaken
      exact List.append_cancel_right htaken
    -- a token has been taken, so the last stop does not depend on where the count began
    cases tokens with
    | nil =>
      rw [a.left_eq, b.left_eq, htokens] at progress
      exact absurd progress (Nat.lt_irrefl _)
    | cons first tokens =>
      obtain rfl : first = token := by
        rw [htokens] at next
        exact Option.some.inj next
      have hcount : Ordered first.span.start.offset a.rest := by
        rw [htokens] at hordered ⊢
        exact ⟨Nat.le_refl _, hordered.2⟩
      have hinside := ih htokens hcount
      rw [htokens] at hordered
      have hnode : Nests (.node kind ⟨first.span.start, b.lastStop⟩ (xs.map Prod.snd)) := by
        rw [hstop]
        exact ⟨hinside.le, hinside⟩
      refine ⟨hordered.1, hnode, ?_⟩
      show b.lastStop.offset ≤ _
      rw [hstop]
      exact Nat.le_refl _
  | widen _ _ ih => exact ih
  | mark _ marked ih =>
    intro taken htaken low hordered
    refine (ih htaken hordered).of_outline ?_
    have houtline := outline_markAll marked
    rw [outlineAll_eq_map, outlineAll_eq_map] at houtline
    simp only [List.map_append, map_snd_all, houtline]
  | positional _ ih =>
    intro taken htaken low hordered
    refine (ih htaken hordered).of_outline ?_
    rw [map_snd_all, map_snd_all, List.map_map]
    exact List.map_congr_left fun t _ => outline_positionalOnly t
  | pattern _ bound ih =>
    intro taken htaken low hordered
    refine (ih htaken hordered).of_outline ?_
    exact congrArg (fun t => [t]) (outline_bind bound)

/-! ## Whole snippets -/

theorem Fits.mono {low high higher : Nat} {ts : List Tree} (h : Fits low ts high)
    (hle : high ≤ higher) : Fits low ts higher := by
  have hnil : Fits high [] higher := hle
  simpa using h.append hnil

theorem Ordered.le_last {low : Nat} {tokens : List Token} (h : Ordered low tokens) {last : Token}
    (hlast : tokens.getLast? = some last) :
    ∀ token ∈ tokens, token.span.stop.offset ≤ last.span.stop.offset := by
  induction tokens generalizing low with
  | nil => simp
  | cons first tokens ih =>
    obtain ⟨_, _, hrest⟩ := h
    cases tokens with
    | nil =>
      obtain rfl : first = last := by simpa using hlast
      simp
    | cons second tokens =>
      have hlast : (second :: tokens).getLast? = some last := by simpa using hlast
      have hall := ih hrest hlast
      refine List.forall_mem_cons.2 ⟨?_, hall⟩
      have hsecond := hall second List.mem_cons_self
      exact Nat.le_trans (Nat.le_trans hrest.1 hrest.2.1) hsecond

theorem stopAfter_le {low : Position} {bound : Nat} {tokens : List Token}
    (hlow : low.offset ≤ bound) (h : ∀ token ∈ tokens, token.span.stop.offset ≤ bound) :
    (stopAfter low tokens).offset ≤ bound := by
  induction tokens generalizing low with
  | nil => exact hlow
  | cons token tokens ih =>
    obtain ⟨hfirst, hrest⟩ := List.forall_mem_cons.1 h
    exact ih hfirst hrest

/-- The tokens that the grammar sees are in order and stand before the end. -/
theorem significant_ordered {source : String} (h : (TokenStream.ofText source).error = none) :
    Ordered 0 (Module.significant (.ofText source)) ∧
      ∀ token ∈ Module.significant (.ofText source),
        token.span.stop.offset ≤ (Module.endingOf (.ofText source)).position.offset := by
  obtain ⟨stop, htiles, hend⟩ :=
    Coverage.tiles_of_lexes (TokenStream.lexes_withTabs TokenStream.tabSize source)
  have hordered : Ordered 0 (TokenStream.ofText source).tokens :=
    ordered_of_covers (Coverage.covers_of_tiles htiles)
  refine ⟨hordered.filter _, fun token htoken => ?_⟩
  have hmem := (List.mem_filter.1 htoken).1
  obtain ⟨last, hlast⟩ : ∃ last, (TokenStream.ofText source).tokens.getLast? = some last :=
    Option.ne_none_iff_exists'.1 fun hnone => by
      rw [List.getLast?_eq_none_iff.1 hnone] at hmem
      cases hmem
  have hposition : (Module.endingOf (.ofText source)).position = last.span.stop := by
    unfold Module.endingOf
    rw [h, hlast]
    rfl
  rw [hposition]
  exact hordered.le_last hlast token hmem

theorem nests_of_parse {source : String} {t : Tree} (h : Module.parse source = .ok t) :
    Nests t := by
  obtain ⟨hordered, hbound⟩ := significant_ordered (Agreement.error_eq_none_of_ofStream h)
  obtain ⟨statements, last, hreads, rfl⟩ := reads_of_ofStream h
  obtain ⟨taken, htaken, _⟩ := hreads.moves.taken
  have htaken : Module.significant (.ofText source) = taken ++ last.rest := htaken
  have hstart : (startOf (.ofText source)).offset ≤
      (Module.endingOf (.ofText source)).position.offset := by
    unfold startOf
    split
    · next token rest heq =>
      rw [heq] at hordered hbound
      exact Nat.le_trans hordered.2.1 (hbound token List.mem_cons_self)
    · exact Nat.le_refl _
  have hfrom : Ordered (startOf (.ofText source)).offset (Module.significant (.ofText source)) := by
    unfold startOf
    split
    · next token rest heq =>
      rw [heq] at hordered ⊢
      exact ⟨Nat.le_refl _, hordered.2⟩
    · next heq =>
      rw [heq]
      trivial
  have hfits := fits_of_reads hreads htaken hfrom
  rw [map_snd_all] at hfits
  refine ⟨hstart, hfits.mono (stopAfter_le hstart fun token htoken => hbound token ?_)⟩
  rw [htaken]
  exact List.mem_append_left _ htoken

/-- The trees of which a tree is made, down from itself. -/
inductive Part : Tree → Tree → Prop
  | self (t : Tree) : Part t t
  | child {t child part : Tree} (isChild : child ∈ t.children) (inside : Part child part) :
      Part t part

theorem Nests.part {t part : Tree} (h : Nests t) (hpart : Part t part) : Nests part := by
  induction hpart with
  | self => exact h
  | child isChild _ ih => exact ih (h.children.forall_mem _ isChild).1

/-- **Spans nest.** In the tree of a snippet every span runs forwards, the children of a node lie
inside its span, and each of them ends before the later ones start. -/
theorem parsed_spans_nest {source : String} {t part : Tree} (h : Module.parse source = .ok t)
    (hpart : Part t part) :
    part.span.start.offset ≤ part.span.stop.offset ∧
      (∀ child ∈ part.children, part.span.start.offset ≤ child.span.start.offset ∧
        child.span.stop.offset ≤ part.span.stop.offset) ∧
      part.children.Pairwise fun left right =>
        left.span.stop.offset ≤ right.span.start.offset := by
  have hnests := (nests_of_parse h).part hpart
  exact ⟨hnests.forward, fun child hchild => (hnests.children.forall_mem child hchild).2,
    hnests.children.pairwise⟩

/-- Two statements on two lines, the second of them with a bracket that belongs to no child. -/
theorem two_lines_nest : ∃ t, Module.parse "a\n(b)" = .ok t ∧ t.children.length = 2 ∧
    t.children.Pairwise fun left right => left.span.stop.offset ≤ right.span.start.offset := by
  have hlength : ((Module.parse "a\n(b)").map fun t => t.children.length).toOption = some 2 := by
    decide +kernel
  cases hparse : Module.parse "a\n(b)" with
  | error error =>
    rw [hparse] at hlength
    cases hlength
  | ok t =>
    rw [hparse] at hlength
    obtain ⟨_, _, hpairwise⟩ := parsed_spans_nest hparse (.self t)
    exact ⟨t, rfl, Option.some.inj hlength, hpairwise⟩

end SnippetLint.Spans
