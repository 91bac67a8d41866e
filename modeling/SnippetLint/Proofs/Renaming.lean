import SnippetLint.Proofs.Respelling

/-!
Names do not matter. A snippet with names written anew has the same tokens but for the names; the
grammar reads alike streams alike, and the scan knows a name where it knew the name that it stands
for. Main statement: `renaming_changes_names_only`.
-/

namespace SnippetLint.Renaming
open LineEndings

/-! ## Dotted names -/

/-- A text without dots that is a name and written anew, or no name at all. -/
structure Segment (rename : String → String) (words : List String) (a b : String) : Prop where
  left : '.' ∉ a.toList
  right : '.' ∉ b.toList
  name : IsName a → a ∈ words ∧ IsName b ∧ b = rename a
  other : ¬ IsName a → b = a

/-- Two texts whose segments go together one by one. -/
inductive Dotted (rename : String → String) (words : List String) : List Char → List Char → Prop
  | last {a b : String} (segment : Segment rename words a b) :
    Dotted rename words a.toList b.toList
  | dot {a b : String} {cs ds : List Char} (segment : Segment rename words a b)
    (rest : Dotted rename words cs ds) :
    Dotted rename words (a.toList ++ '.' :: cs) (b.toList ++ '.' :: ds)

/-- A name of a tree, and the same name with its segments written anew. -/
def NameAnew (rename : String → String) (words : List String) (a b : String) : Prop :=
  Dotted rename words a.toList b.toList

section Dotted

variable {known : NameSet} {rename : String → String} {words : List String} {a b : String}
  {cs ds cs' ds' : List Char}

theorem dotless_of_isName (h : IsName a) : '.' ∉ a.toList := by
  intro hdot
  obtain ⟨hident, _⟩ := h
  unfold Word.isIdentifier at hident
  split at hident
  · cases hident
  · next c rest hchars =>
    obtain ⟨hstart, hall⟩ := Bool.and_eq_true_iff.1 hident
    rw [hchars] at hdot
    rcases List.mem_cons.1 hdot with rfl | hdot
    · exact absurd hstart (by decide)
    · exact absurd (List.all_eq_true.1 hall _ hdot) (by decide)

theorem segment_refl (hdot : '.' ∉ a.toList) (hname : ¬ IsName a) : Segment rename words a a :=
  ⟨hdot, hdot, fun h => absurd h hname, fun _ => rfl⟩

theorem Dotted.append (h : Dotted rename words cs ds) (h' : Dotted rename words cs' ds') :
    Dotted rename words (cs ++ '.' :: cs') (ds ++ '.' :: ds') := by
  induction h with
  | last segment => exact .dot segment h'
  | dot segment _ ih =>
    rw [List.append_assoc, List.append_assoc]
    exact .dot segment ih

theorem nameAnew_intercalate {as bs : List String}
    (h : List.Forall₂ (NameAnew rename words) as bs) :
    NameAnew rename words (".".intercalate as) (".".intercalate bs) := by
  induction h with
  | nil => exact .last (segment_refl (by decide) (by decide))
  | @cons a b as bs hfirst hrest ih =>
    cases hrest with
    | nil => exact hfirst
    | cons _ _ =>
      have hpoint : ".".toList = ['.'] := rfl
      rw [NameAnew, String.intercalate_cons_cons, String.intercalate_cons_cons]
      simp only [String.toList_append, hpoint, List.append_assoc]
      exact hfirst.append ih

/-- A text without dots goes together with such a text only. -/
theorem NameAnew.segment (h : NameAnew rename words a b)
    (hdot : '.' ∉ a.toList ∨ '.' ∉ b.toList) : Segment rename words a b := by
  unfold NameAnew at h
  generalize ha : a.toList = cs at h
  generalize hb : b.toList = ds at h
  cases h with
  | last segment =>
    rw [String.toList_injective ha, String.toList_injective hb]
    exact segment
  | dot _ _ =>
    rw [ha, hb] at hdot
    simp at hdot

theorem NameAnew.firstSegment (h : NameAnew rename words a b) :
    ∃ s t, Segment rename words s t ∧ KnownNames.FirstSegment a s ∧
      KnownNames.FirstSegment b t := by
  unfold NameAnew at h
  generalize ha : a.toList = cs at h
  generalize hb : b.toList = ds at h
  cases h with
  | @last s t segment =>
    refine ⟨s, t, segment, ⟨[], ?_, segment.left, .inl rfl⟩, ⟨[], ?_, segment.right, .inl rfl⟩⟩
    · rw [ha, List.append_nil]
    · rw [hb, List.append_nil]
  | @dot s t cs ds segment _ =>
    exact ⟨s, t, segment, ⟨_, ha, segment.left, .inr ⟨cs, rfl⟩⟩,
      ⟨_, hb, segment.right, .inr ⟨ds, rfl⟩⟩⟩

theorem Segment.eq_iff (h : Segment rename words a b) {word : String} (hname : ¬ IsName word) :
    a = word ↔ b = word := by
  by_cases ha : IsName a
  · obtain ⟨_, hb, _⟩ := h.name ha
    constructor
    · rintro rfl
      exact absurd ha hname
    · rintro rfl
      exact absurd hb hname
  · rw [h.other ha]

/-- The names of a snippet go together with their new names only. -/
theorem Segment.eq_iff_rename (hrename : IsRenaming known words rename)
    (h : Segment rename words a b) {word : String} (hword : word ∈ words) (hname : IsName word) :
    word = a ↔ rename word = b := by
  by_cases ha : IsName a
  · obtain ⟨hmem, _, rfl⟩ := h.name ha
    exact ⟨congrArg rename, hrename.injective word hword a hmem⟩
  · rw [h.other ha]
    have hnew := (hrename.spelling hword hname).1
    constructor
    · rintro rfl
      exact absurd hname ha
    · rintro rfl
      exact absurd hnew ha

/-- What is known everywhere keeps its name, and no other word takes it. -/
theorem IsRenaming.mem_iff (hrename : IsRenaming known words rename) {word : String}
    (hword : word ∈ words) : word ∈ known ↔ rename word ∈ known := by
  constructor
  · intro hknown
    rwa [hrename.fixed word hword hknown]
  · intro hknown
    by_contra hother
    exact (hrename.other word hword hother).2.1 hknown

theorem Segment.eq_iff_of_known (hrename : IsRenaming known words rename)
    (h : Segment rename words a b) {word : String} (hknown : word ∈ known) :
    a = word ↔ b = word := by
  by_cases ha : IsName a
  · obtain ⟨hmem, _, rfl⟩ := h.name ha
    constructor
    · rintro rfl
      exact hrename.fixed a hmem hknown
    · rintro rfl
      exact (hrename.fixed a hmem ((hrename.mem_iff hmem).2 hknown)).symm
  · rw [h.other ha]

theorem NameAnew.eq_iff_of_segment (h : NameAnew rename words a b) {word : String}
    (hdot : '.' ∉ word.toList) (hseg : Segment rename words a b → (a = word ↔ b = word)) :
    a = word ↔ b = word := by
  constructor
  · rintro rfl
    exact (hseg (h.segment (.inl hdot))).1 rfl
  · rintro rfl
    exact (hseg (h.segment (.inr hdot))).2 rfl

theorem NameAnew.eq_iff_rename (hrename : IsRenaming known words rename)
    (h : NameAnew rename words a b) {word : String} (hword : word ∈ words) (hname : IsName word) :
    word = a ↔ rename word = b := by
  have hdot := dotless_of_isName hname
  have hdot' := dotless_of_isName (hrename.spelling hword hname).1
  constructor
  · rintro rfl
    exact ((h.segment (.inl hdot)).eq_iff_rename hrename hword hname).1 rfl
  · rintro rfl
    exact ((h.segment (.inr hdot')).eq_iff_rename hrename hword hname).2 rfl

theorem NameAnew.firstSegment_iff (hrename : IsRenaming known words rename)
    (h : NameAnew rename words a b) {word : String} (hword : word ∈ words) (hname : IsName word) :
    KnownNames.FirstSegment a word ↔ KnownNames.FirstSegment b (rename word) := by
  obtain ⟨s, t, hsegment, ha, hb⟩ := h.firstSegment
  rw [KnownNames.firstSegment_iff, KnownNames.firstSegment_iff, ← KnownNames.firstSegment_iff.1 ha,
    ← KnownNames.firstSegment_iff.1 hb]
  exact hsegment.eq_iff_rename hrename hword hname

end Dotted

/-! ## Trees -/

/-- What stays the same but for names: all else, and lines and columns of places. -/
def likeness {settings : Settings} {words : List String} {rename : String → String}
    (h : IsRenaming (Seed.names settings) words rename) : Likeness where
  place := SamePlace
  line := Eq
  name := NameAnew rename words
  literal := Eq
  text := Eq
  lexical := Eq
  line_of_place h := h.line.symm
  name_fixed hname word hword := by
    have hseed : ∀ word ∈ ["match", "case", "print", "_"],
        word ∈ Seed.baseNames ++ Seed.softKeywords ∧ '.' ∉ word.toList := by decide
    obtain ⟨hmem, hdot⟩ := hseed word hword
    have hknown : word ∈ Seed.names settings := by
      simp only [Seed.names, KnownNames.mem_ofList_iff, List.append_assoc]
      simp only [List.mem_append] at hmem ⊢
      tauto
    exact hname.eq_iff_of_segment hdot fun hsegment => hsegment.eq_iff_of_known h hknown
  name_star := .last (segment_refl (by decide) (by decide))
  name_dotted := nameAnew_intercalate
  literal_isBytes h := congrArg _ (congrArg _ h)
  text_joined h := congrArg _ (List.forall₂_eq_eq_eq ▸ h)

section Tree

variable {settings : Settings} {words : List String} {rename : String → String}
  {hrename : IsRenaming (Seed.names settings) words rename}

theorem TokenAnew.segment (hrename : IsRenaming (Seed.names settings) words rename) {a b : Token}
    (h : TokenAnew rename words a b) (hkind : a.kind = .name) :
    Segment rename words a.lexeme b.lexeme := by
  obtain ⟨hword, hname, heq⟩ := h.name hkind
  have hnew := (hrename.spelling hword hname).1
  rw [heq]
  exact ⟨dotless_of_isName hname, dotless_of_isName hnew, fun _ => ⟨hword, hnew, rfl⟩,
    fun hother => absurd hname hother⟩

theorem TokenAnew.like {a b : Token} (h : TokenAnew rename words a b) :
    Pairing.TokenLike (likeness hrename) a b where
  kind := h.kind.symm
  word := by
    cases hkind : a.kind with
    | name => exact .last (h.segment hrename hkind)
    | number => exact (h.lexeme (by rw [hkind]; decide)).symm
    | string => exact (h.lexeme (by rw [hkind]; decide)).symm
    | _ => trivial
  start := h.start
  stop := h.stop

/-- A snippet and its other form have the same tree, but for the names. -/
theorem tree_like {source : String}
    (hrename : IsRenaming (Seed.names settings) (namesOf source) rename)
    (hlex : (TokenStream.ofText source).error = none) :
    Likeness.ResultLike (likeness hrename) (Likeness.TreeLike (likeness hrename))
      (Module.parse source) (Module.parse (renamed rename source)) := by
  obtain ⟨htokens, hnone⟩ := stream_anew hrename hlex
  refine Pairing.ofStream_like (Pairing.streamLike_of_tokens ⟨rfl, rfl⟩
    (htokens.imp fun _ _ h => h.like) ?_)
  rw [hlex, hnone]
  exact .none

end Tree

/-! ## Known names -/

section Names

open KnownNames Likeness

variable {settings : Settings} {words : List String} {rename : String → String}

theorem exists_mem_iff {α β : Type} {R : α → β → Prop} {p : α → Prop} {q : β → Prop} {as : List α}
    {bs : List β} (h : List.Forall₂ R as bs) (hpq : ∀ a b, R a b → (p a ↔ q b)) :
    (∃ a ∈ as, p a) ↔ ∃ b ∈ bs, q b := by
  induction h with
  | nil => simp
  | cons hab _ ih =>
    simp only [List.mem_cons, or_and_right, exists_or, exists_eq_left, hpq _ _ hab, ih]

variable {word : String} (hrename : IsRenaming (Seed.names settings) words rename)
  (hword : word ∈ words) (hname : IsName word)

include hrename hword hname

theorem asName_iff {a b : Option String} (h : Option.Rel (NameAnew rename words) a b) :
    a = some word ↔ b = some (rename word) := by
  cases h with
  | none => simp
  | some h =>
    rw [Option.some_inj, Option.some_inj, eq_comm, eq_comm (b := rename word)]
    exact h.eq_iff_rename hrename hword hname

theorem mem_singleton_iff {a b : String} (h : NameAnew rename words a b) :
    word ∈ [a] ↔ rename word ∈ [b] := by
  rw [List.mem_singleton, List.mem_singleton, h.eq_iff_rename hrename hword hname]

theorem mem_ofImport_iff_rename {a b : Alias} (h : AliasLike (likeness hrename) a b) :
    word ∈ Bound.ofImport a ↔ rename word ∈ Bound.ofImport b := by
  have hentry : NameAnew rename words a.name b.name := h.name
  rw [mem_ofImport_iff, mem_ofImport_iff, hentry.eq_iff_rename hrename hword hname,
    hentry.firstSegment_iff hrename hword hname, asName_iff hrename hword hname h.asName]

theorem mem_ofImportFrom_iff_rename {a b : Alias} (h : AliasLike (likeness hrename) a b) :
    word ∈ Bound.ofImportFrom a ↔ rename word ∈ Bound.ofImportFrom b := by
  have hentry : NameAnew rename words a.name b.name := h.name
  have hstar : a.name = "*" ↔ b.name = "*" :=
    hentry.eq_iff_of_segment (by decide) fun hsegment => hsegment.eq_iff (by decide)
  rw [mem_ofImportFrom_iff, mem_ofImportFrom_iff, Ne, Ne, hstar,
    hentry.eq_iff_rename hrename hword hname, asName_iff hrename hword hname h.asName]

/-- A node binds a name where the other one binds its new name. -/
theorem binds_iff {k l : NodeKind} (h : KindLike (likeness hrename) k l) :
    Binds k word ↔ Binds l (rename word) := by
  rw [← mem_ofKind_iff, ← mem_ofKind_iff]
  cases h with
  | plain hplain =>
    have hnone : Bound.ofKind k = [] := by
      cases k <;> first | rfl | cases hplain
    rw [hnone]
    exact iff_of_false List.not_mem_nil List.not_mem_nil
  | functionDef h _ => exact mem_singleton_iff hrename hword hname h
  | classDef h => exact mem_singleton_iff hrename hword hname h
  | parameter h _ => exact mem_singleton_iff hrename hword hname h
  | typeParam h => exact mem_singleton_iff hrename hword hname h
  | matchAs h => exact mem_singleton_iff hrename hword hname h
  | exceptHandler h =>
    exact Option.mem_toList.trans ((asName_iff hrename hword hname h).trans Option.mem_toList.symm)
  | importStmt h =>
    exact List.mem_flatMap.trans ((exists_mem_iff h fun _ _ hentry =>
      mem_ofImport_iff_rename hrename hword hname hentry).trans List.mem_flatMap.symm)
  | importFrom _ _ h =>
    exact List.mem_flatMap.trans ((exists_mem_iff h fun _ _ hentry =>
      mem_ofImportFrom_iff_rename hrename hword hname hentry).trans List.mem_flatMap.symm)
  | globalStmt _ => exact iff_of_false List.not_mem_nil List.not_mem_nil
  | nonlocalStmt _ => exact iff_of_false List.not_mem_nil List.not_mem_nil
  | keyword _ => exact iff_of_false List.not_mem_nil List.not_mem_nil
  | string _ => exact iff_of_false List.not_mem_nil List.not_mem_nil
  | attr _ _ => exact iff_of_false List.not_mem_nil List.not_mem_nil
  | name h context =>
    cases context with
    | store => exact mem_singleton_iff hrename hword hname h
    | load => exact iff_of_false List.not_mem_nil List.not_mem_nil
    | del => exact iff_of_false List.not_mem_nil List.not_mem_nil

theorem knownNames_iff {t u : Tree} (h : TreeLike (likeness hrename) t u) :
    word ∈ Analysis.knownNames settings t ↔ rename word ∈ Analysis.knownNames settings u := by
  rw [mem_knownNames_iff, mem_knownNames_iff, ← mem_seed_iff, ← mem_seed_iff,
    hrename.mem_iff hword]
  exact or_congr_right (exists_mem_iff (within_like (nodes_like 1 h) RootedArena.maxDepth)
    fun _ _ hnode => binds_iff hrename hword hname hnode.2)

end Names

/-! ## Reports -/

/-- A diagnostic, and the one that is reported in its place where names are written anew. -/
structure Carries (rename : String → String) (d e : Diagnostic) : Prop where
  line : e.line = d.line
  column : e.column = d.column
  kind : e.kind = d.kind
  nameError : d.kind = .nameError → ∃ token token' : Token,
    d = Scan.undefinedName token ∧ e = Scan.undefinedName token' ∧
      token'.lexeme = rename token.lexeme
  other : d.kind ≠ .nameError → e = d

section Reports

variable {known names names' : NameSet} {words : List String} {rename : String → String}

theorem carries_self {d : Diagnostic} (h : d.kind ≠ .nameError) : Carries rename d d :=
  ⟨rfl, rfl, rfl, fun hkind => absurd hkind h, fun _ => rfl⟩

theorem carries_undefinedName {a b : Token} (hname : b.lexeme = rename a.lexeme)
    (hplace : SamePlace a.span.start b.span.start) :
    Carries rename (Scan.undefinedName a) (Scan.undefinedName b) :=
  ⟨hplace.line, hplace.column, rfl, fun _ => ⟨a, b, rfl, rfl, hname⟩, fun h => absurd rfl h⟩

/-- Words that are no names stand in both streams alike. -/
theorem contains_eq (hrename : IsRenaming known words rename) {a b : Token}
    (h : TokenAnew rename words a b) {texts : List String}
    (htexts : ∀ text ∈ texts, ¬ IsName text) :
    texts.contains b.lexeme = texts.contains a.lexeme := by
  by_cases hkind : a.kind = .name
  · obtain ⟨hword, hname, heq⟩ := h.name hkind
    have hnone : ∀ word, IsName word → texts.contains word = false := fun word hname =>
      Bool.eq_false_iff.2 fun hmem => htexts word (List.contains_iff_mem.1 hmem) hname
    rw [hnone _ hname, heq, hnone _ (hrename.spelling hword hname).1]
  · rw [h.lexeme hkind]

theorem any_contains_eq (hrename : IsRenaming known words rename) {x y : Option Token}
    (h : Option.Rel (TokenAnew rename words) x y) {texts : List String}
    (htexts : ∀ text ∈ texts, ¬ IsName text) :
    y.any (texts.contains ·.lexeme) = x.any (texts.contains ·.lexeme) := by
  cases h with
  | none => rfl
  | some h => exact contains_eq hrename h htexts

/-- Whether a name is bound between two tokens does not depend on names. -/
theorem window_eq (hrename : IsRenaming known words rename)
    {previous previous' next next' : Option Token}
    (hprevious : Option.Rel (TokenAnew rename words) previous previous')
    (hnext : Option.Rel (TokenAnew rename words) next next') :
    BindingRule.window previous' next' = BindingRule.window previous next :=
  congrArg₂ or (any_contains_eq hrename hprevious (by decide))
    (any_contains_eq hrename hnext (by decide))

/-- The names that are known, and the new names that are. -/
def KnownAnew (rename : String → String) (words : List String) (names names' : NameSet) : Prop :=
  ∀ word ∈ words, IsName word → (word ∈ names ↔ rename word ∈ names')

theorem KnownAnew.insert (hrename : IsRenaming known words rename)
    (h : KnownAnew rename words names names') {name : String} (hname : name ∈ words) :
    KnownAnew rename words (names.insert name) (names'.insert (rename name)) := by
  intro word hword hident
  rw [NameSet.mem_insert, NameSet.mem_insert, h word hword hident]
  exact or_congr_left ⟨congrArg rename, hrename.injective word hword name hname⟩

theorem KnownAnew.contains_eq (h : KnownAnew rename words names names') {a b : Token}
    (hab : TokenAnew rename words a b) (hkind : a.kind = .name) :
    names'.contains b.lexeme = names.contains a.lexeme := by
  obtain ⟨hword, hname, heq⟩ := hab.name hkind
  rw [Bool.eq_iff_iff, NameSet.contains_iff, NameSet.contains_iff, heq, h _ hword hname]

/-- The scan reports the same about the same tokens, but for the names. -/
theorem scan_carries (hrename : IsRenaming known words rename) (width : Nat)
    {tokens tokens' : List Token} (h : List.Forall₂ (TokenAnew rename words) tokens tokens')
    {previous previous' : Option Token}
    (hprevious : Option.Rel (TokenAnew rename words) previous previous') (expected : Int)
    (hknown : KnownAnew rename words names names') :
    List.Forall₂ (Carries rename)
      (Scan.tokens width .window names expected previous tokens).diagnostics
      (Scan.tokens width .window names' expected previous' tokens').diagnostics := by
  induction h generalizing previous previous' names names' expected with
  | nil => exact .nil
  | @cons a b rest rest' hab hrest ih =>
    have hnext : Option.Rel (TokenAnew rename words) rest.head? rest'.head? := by
      cases hrest with
      | nil => exact .none
      | cons h _ => exact .some h
    unfold Scan.tokens
    rw [hab.kind]
    cases ha : a.kind with
    | indent =>
      have hreport : ∀ expected, Scan.unexpectedIndent width b expected =
          Scan.unexpectedIndent width a expected := by
        intro expected
        simp only [Scan.unexpectedIndent, Diagnostic.placeAt, hab.start.line, hab.start.column]
      have hkind : (Scan.unexpectedIndent width a (expected + width)).kind ≠ .nameError := by
        intro h
        cases h
      dsimp only
      rw [hab.lexeme (by rw [ha]; decide), hreport]
      split
      · exact ih (.some hab) _ hknown
      · exact .cons (carries_self hkind) (ih (.some hab) _ hknown)
    | dedent => exact ih (.some hab) _ hknown
    | name =>
      obtain ⟨hword, hname, heq⟩ := hab.name ha
      dsimp only
      rw [hknown.contains_eq hab ha, window_eq hrename hprevious hnext]
      split
      · exact ih (.some hab) _ hknown
      · split
        · rw [heq]
          exact ih (.some hab) _ (hknown.insert hrename hword)
        · exact .cons (carries_undefinedName heq hab.start) (ih (.some hab) _ hknown)
    | _ => exact ih (.some hab) _ hknown

/-- Lists that go together are put in order alike. -/
theorem mergeSort_rel {α β : Type} {R : α → β → Prop} {r : α → α → Bool} {s : β → β → Bool}
    (hrs : ∀ a b c d, R a c → R b d → r a b = s c d) {as : List α} {bs : List β}
    (h : List.Forall₂ R as bs) : List.Forall₂ R (as.mergeSort r) (bs.mergeSort s) := by
  obtain ⟨pairs, rfl, rfl⟩ : ∃ pairs : List {p : α × β // R p.1 p.2},
      pairs.map (·.1.1) = as ∧ pairs.map (·.1.2) = bs := by
    induction h with
    | nil => exact ⟨[], rfl, rfl⟩
    | @cons a b _ _ hab _ ih =>
      obtain ⟨pairs, rfl, rfl⟩ := ih
      exact ⟨⟨⟨a, b⟩, hab⟩ :: pairs, rfl, rfl⟩
  have hleft := List.map_mergeSort (r := fun p q => r p.1.1 q.1.1) (l := pairs) (f := (·.1.1))
    (s := r) fun _ _ _ _ => rfl
  have hright := List.map_mergeSort (r := fun p q => r p.1.1 q.1.1) (l := pairs) (f := (·.1.2))
    (s := s) fun p _ q _ => hrs _ _ _ _ p.2 q.2
  rw [← hleft, ← hright, List.forall₂_map_left_iff, List.forall₂_map_right_iff]
  exact List.forall₂_same.2 fun p _ => p.2

theorem sorted_carries {ds es : List Diagnostic} (h : List.Forall₂ (Carries rename) ds es) :
    List.Forall₂ (Carries rename) (Diagnostic.sorted ds) (Diagnostic.sorted es) := by
  refine mergeSort_rel (fun a b c d hac hbd => ?_) h
  rw [Diagnostic.before, Diagnostic.before, hac.line, hbd.line, hac.column, hbd.column]

theorem otherLines_carries {ds es : List Diagnostic} (h : List.Forall₂ (Carries rename) ds es)
    (line : Nat) : List.Forall₂ (Carries rename) (Diagnostic.otherLines line ds)
      (Diagnostic.otherLines line es) := by
  induction h generalizing line with
  | nil => exact .nil
  | cons hde _ ih =>
    rw [Diagnostic.otherLines, Diagnostic.otherLines, hde.line]
    split
    · exact ih line
    · exact .cons hde (ih _)

theorem aggregate_carries (policy : LinePolicy) {ds es : List Diagnostic}
    (h : List.Forall₂ (Carries rename) ds es) : List.Forall₂ (Carries rename)
      (Diagnostic.aggregate policy ds) (Diagnostic.aggregate policy es) := by
  have hsorted := sorted_carries h
  unfold Diagnostic.aggregate
  cases policy with
  | keepAll => exact hsorted
  | firstPerLine =>
    dsimp only
    generalize Diagnostic.sorted ds = ds at hsorted ⊢
    generalize Diagnostic.sorted es = es at hsorted ⊢
    cases hsorted with
    | nil => exact .nil
    | @cons d e _ _ hde hrest =>
      rw [Diagnostic.firstPerLine, Diagnostic.firstPerLine, hde.line]
      exact .cons hde (otherLines_carries hrest _)

theorem fault_eq {settings : Settings} {hrename : IsRenaming (Seed.names settings) words rename}
    {a b : GrammarFault} (h : Likeness.FaultLike (likeness hrename) a b) : b = a := by
  cases h with
  | same => rfl
  | missingIndentedBlock _ h =>
    obtain rfl : _ = _ := h
    rfl
  | lexical h =>
    obtain rfl : _ = _ := h
    rfl

theorem ofParseError_carries {settings : Settings}
    {hrename : IsRenaming (Seed.names settings) words rename} {e e' : ParseError}
    (h : Likeness.ErrorLike (likeness hrename) e e') :
    Carries rename (Analysis.ofParseError e) (Analysis.ofParseError e') := by
  have hplace : SamePlace e.position e'.position := h.position
  have heq : Analysis.ofParseError e' = Analysis.ofParseError e := by
    simp only [Analysis.ofParseError, Diagnostic.placeAt, fault_eq h.fault, hplace.line,
      hplace.column]
  rw [heq]
  refine carries_self fun hkind => ?_
  unfold Analysis.ofParseError at hkind
  cases hindent : e.fault.isIndentation with
  | false => rw [hindent] at hkind; cases hkind
  | true => rw [hindent] at hkind; cases hkind

end Reports

/-- **Names do not matter.** Where a snippet is free of lexical errors and its names are written
anew, each as one of the same length, it gets the same diagnostics at the same places; name errors
speak of the new names. -/
theorem renaming_changes_names_only (settings : Settings) {source : String}
    (hlex : (TokenStream.ofText source).error = none) {rename : String → String}
    (hrename : IsRenaming (Seed.names settings) (namesOf source) rename) :
    List.Forall₂ (Carries rename) (Analysis.diagnostics settings source)
      (Analysis.diagnostics settings (renamed rename source)) := by
  obtain ⟨htokens, hnone⟩ := stream_anew hrename hlex
  have htree := tree_like hrename hlex
  unfold Analysis.diagnostics Analysis.tree
  generalize Module.parse source = result at htree ⊢
  generalize Module.parse (renamed rename source) = result' at htree ⊢
  cases htree with
  | error herror => exact .cons (ofParseError_carries herror) .nil
  | ok htree =>
    have hknown : KnownAnew rename (namesOf source) _ _ := fun _ hword hname =>
      knownNames_iff hrename hword hname htree
    refine aggregate_carries _ ?_
    unfold Scan.source Scan.stream
    rw [hlex, hnone]
    exact List.rel_append (scan_carries hrename _ htokens .none 0 hknown) .nil

/-- Two names are written anew, one of which nothing defines. -/
theorem renaming_of_unknown_name : ∃ rename : String → String,
    rename "count" = "total" ∧ rename "value" = "price" ∧
    (TokenStream.ofText "count = value + 1\n").error = none ∧
    IsRenaming (Seed.names .standard) (namesOf "count = value + 1\n") rename ∧
    renamed rename "count = value + 1\n" = "total = price + 1\n" ∧
    List.Forall₂ (Carries rename) (Analysis.diagnostics .standard "count = value + 1\n")
      (Analysis.diagnostics .standard "total = price + 1\n") := by
  let rename : String → String := fun word =>
    if word = "count" then "total" else if word = "value" then "price" else word
  have hlex : (TokenStream.ofText "count = value + 1\n").error = none := by decide +kernel
  have hnames : namesOf "count = value + 1\n" = ["count", "value"] := by decide +kernel
  have hunknown : ∀ word ∈ ["count", "value", "total", "price"],
      word ∉ Seed.names .standard := by
    simp only [Seed.names, KnownNames.mem_ofList_iff]
    decide +kernel
  have hrename : IsRenaming (Seed.names .standard) (namesOf "count = value + 1\n") rename := by
    rw [hnames]
    have hspelled : ∀ word ∈ ["count", "value"], word ∈ ["count", "value", "total", "price"] ∧
        rename word ∈ ["count", "value", "total", "price"] ∧ IsName (rename word) ∧
        (rename word).length = word.length ∧
        Word.isStringMark (rename word).toList = false := by decide +kernel
    refine ⟨by decide +kernel, fun word hword hknown => ?_, fun word hword _ => ?_⟩
    · exact absurd hknown (hunknown word (hspelled word hword).1)
    · obtain ⟨_, hmem, hname, hlength, hmark⟩ := hspelled word hword
      exact ⟨hname, hunknown _ hmem, hlength, hmark⟩
  have htext : renamed rename "count = value + 1\n" = "total = price + 1\n" := by decide +kernel
  exact ⟨rename, rfl, rfl, hlex, hrename, htext,
    htext ▸ renaming_changes_names_only .standard hlex hrename⟩

end SnippetLint.Renaming
