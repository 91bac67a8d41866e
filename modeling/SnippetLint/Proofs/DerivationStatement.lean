import SnippetLint.Proofs.DerivationExpression

/-!
The rules of statements give what they have read, and so does the grammar of whole snippets. Main
statement: `reads_of_ofStream`.
-/

namespace SnippetLint.Derivation
open SnippetLint.Parser

theorem yields_expression : Yields Level.top.expression (one .value) := SoundLevel.expression

/-! ## Simple statements -/

section Simple

variable {ending : Ending} {before after : ParserState} {t : Tree}

theorem reads_importStmt (hrest : before.rest ≠ [])
    (h : Simple.importStmt ending before = .ok t after) :
    Reads before (one .statement t) after := by
  obtain ⟨start, trail, h⟩ := Trail.begin h
  obtain ⟨_, _, hadvance, trail, h⟩ := trail.skip h
  have hlt := left_lt_of_advance hadvance hrest
  obtain ⟨item, _, hitem, trail, h⟩ := trail.skip h
  obtain ⟨more, _, hmore, trail, h⟩ := trail.skip h
  have hle := left_le_of hitem
  have hle' := left_le_of hmore
  exact trail.leaf (by omega) h (.importStmt _) rfl

/-- The rest of an import from a module whose name has been read. -/
theorem reads_importedNames {start : Position} {first : ParserState} {module : Option String}
    {level : Nat} (trail : Trail start first [] before) (progress : before.left < first.left)
    (h : (if module.isNone && level == 0 then failHere .invalidSyntax
      else do
        expect (.keyword .importKw)
        let names ← Simple.importedNames
        node (.importFrom module level names) start []) ending before = .ok t after) :
    Reads first (one .statement t) after := by
  split at h
  · exact absurd h failHere_ne_ok
  · obtain ⟨_, _, hexpect, trail, h⟩ := trail.skip h
    obtain ⟨names, _, hnames, trail, h⟩ := trail.skip h
    have hle := left_le_of hexpect
    have hle' := left_le_of hnames
    exact trail.leaf (by omega) h (.importFrom module level names) rfl

theorem reads_importFrom (hrest : before.rest ≠ [])
    (h : Simple.importFrom ending before = .ok t after) :
    Reads before (one .statement t) after := by
  obtain ⟨start, trail, h⟩ := Trail.begin h
  obtain ⟨_, _, hadvance, trail, h⟩ := trail.skip h
  have hlt := left_lt_of_advance hadvance hrest
  obtain ⟨level, _, hlevel, trail, h⟩ := trail.skip h
  have hle := left_le_of hlevel
  obtain ⟨isNamed, _, hnamed, trail, h⟩ := trail.skip h
  have hle' := left_le_of hnamed
  split at h
  · obtain ⟨module, _, hmodule, trail, h⟩ := trail.skip h
    have hle'' := left_le_of hmodule
    exact reads_importedNames trail (by omega) h
  · exact reads_importedNames trail (by omega) h

theorem length_markAll {action : TargetAction} {ts us : List Tree}
    (h : Target.markAll action ts = .ok us) : us.length = ts.length := by
  induction ts generalizing us with
  | nil =>
    cases h
    rfl
  | cons t ts ih =>
    obtain ⟨u, rest, _, hrest, rfl⟩ := markAll_cons h
    exact congrArg (· + 1) (ih hrest)

/-- An assignment, where the next token is its sign. -/
theorem reads_assignment {first state : ParserState} {start : Position} {item : Tree}
    (trail : Trail start first (one .item item) state)
    (hsign : peek ending state = .ok (.op .equal) state)
    (h : Simple.assignment start item ending state = .ok t after) :
    Reads first (one .statement t) after := by
  obtain ⟨more, _, hmore, h⟩ := ParserLaw.bind_eq_ok h
  have hmany : more ≠ [] := many_ne_nil (fun _ => after_ne_none fun _ => eat_ne_false hsign) hmore
  have trail := trail.append (yields_manyTrees (yields_after (yields_assigned .top)) hmore)
  obtain ⟨targets, _, hresult, h⟩ := ParserLaw.bind_eq_ok h
  obtain ⟨hmark, rfl⟩ := ofExcept_eq_ok hresult
  -- all but the last part are marked
  obtain ⟨parts, last, hparts⟩ : ∃ parts last, item :: more = parts ++ [last] :=
    ⟨_, _, (List.dropLast_concat_getLast (List.cons_ne_nil item more)).symm⟩
  rw [hparts, List.dropLast_concat] at hmark
  obtain ⟨n, hn⟩ : ∃ n, targets.length = n + 1 := by
    have hlength := congrArg List.length hparts
    have hpositive := List.length_pos_iff.2 hmany
    rw [List.length_cons, List.length_append, List.length_singleton] at hlength
    refine Nat.exists_eq_succ_of_ne_zero ?_
    rw [length_markAll hmark]
    omega
  have hreads : Reads first (all .item (item :: more)) _ := trail.reads
  rw [hparts, all_append, ← List.nil_append (all .item parts)] at hreads
  have trail : Trail start first _ _ := ⟨trail.start_eq, hreads.mark hmark⟩
  refine trail.node h ?_ ?_ (by simp)
  · simpa [hn] using Production.assign n
  · simp [hparts]

/-- The item read so far becomes the one target. -/
theorem Trail.single {start : Position} {first state : ParserState} {item : Tree}
    (trail : Trail start first (one .item item) state) {marked : Except ParseError Tree}
    (hmarked : ∀ u, marked = .ok u → Target.mark .assign item = .ok u) {f : Tree → Parser β}
    {b : β} (h : (Parser.ofExcept marked >>= f) ending state = .ok b after) :
    ∃ u, Trail start first (one (.target .assign) u) state ∧ f u ending state = .ok b after := by
  have trail : Trail start first ([] ++ one .item item) state := trail
  exact trail.mark hmarked h

theorem mark_of_markAugmented {item u : Tree} (h : Target.markAugmented item = .ok u) :
    Target.mark .assign item = .ok u := by
  unfold Target.markAugmented at h
  split at h
  · exact h
  · cases h

theorem mark_of_markAnnotated {item u : Tree} (h : Target.markAnnotated item = .ok u) :
    Target.mark .assign item = .ok u := by
  unfold Target.markAnnotated at h
  split at h
  · exact h
  · cases h

theorem continues_augmented (start : Position) (item : Tree) (op : BinaryOp) :
    Continues start (one .item item) (Simple.augmented start item op) (one .statement) := by
  intro ending first state t after trail h
  obtain ⟨target, trail, h⟩ := trail.single (fun _ => mark_of_markAugmented) h
  obtain ⟨_, _, _, trail, h⟩ := trail.skip h
  obtain ⟨value, _, trail, h⟩ := trail.read (yields_assigned .top) h
  exact trail.node h (.augAssign op) rfl (List.cons_ne_nil _ _)

theorem continues_annotated (start : Position) (item : Tree) :
    Continues start (one .item item) (Simple.annotated start item) (one .statement) := by
  intro ending first state t after trail h
  obtain ⟨target, trail, h⟩ := trail.single (fun _ => mark_of_markAnnotated) h
  obtain ⟨_, _, _, trail, h⟩ := trail.skip h
  obtain ⟨type, _, trail, h⟩ := trail.read yields_expression h
  obtain ⟨isAssigned, _, _, trail, h⟩ := trail.skip h
  split at h
  · obtain ⟨value, _, trail, h⟩ := trail.read (yields_assigned .top) h
    exact trail.node h .annAssign rfl (List.cons_ne_nil _ _)
  · exact trail.node h .declaration rfl (List.cons_ne_nil _ _)

theorem yields_expressionStmt : Yields Simple.expressionStmt (one .statement) := by
  intro ending before t after h
  obtain ⟨start, trail, h⟩ := Trail.begin h
  obtain ⟨item, _, trail, h⟩ := trail.read (yields_assigned .top) h
  obtain ⟨kind, _, hkind, h⟩ := ParserLaw.bind_eq_ok h
  obtain rfl := eq_of_peek hkind
  split at h
  · next hequal =>
    rw [eq_of_beq hequal] at hkind
    exact reads_assignment trail hkind h
  · cases hop : Power.augmentedOp? kind with
    | some op =>
      rw [hop] at h
      exact continues_augmented start item op trail h
    | none =>
      rw [hop] at h
      dsimp only at h
      split at h
      · exact continues_annotated start item trail h
      · split at h
        · exact absurd h failAt_ne_ok
        · exact trail.node h .exprStmt rfl (List.cons_ne_nil _ _)

theorem reads_keywordOnly {kind : NodeKind}
    (production : ∀ captures, Production captures .statement kind []) (hrest : before.rest ≠ [])
    (h : Simple.keywordOnly kind ending before = .ok t after) :
    Reads before (one .statement t) after := by
  obtain ⟨start, trail, h⟩ := Trail.begin h
  obtain ⟨_, _, hadvance, trail, h⟩ := trail.skip h
  exact trail.leaf (left_lt_of_advance hadvance hrest) h (production _) rfl

theorem reads_returnStmt (hrest : before.rest ≠ [])
    (h : Simple.returnStmt ending before = .ok t after) :
    Reads before (one .statement t) after := by
  obtain ⟨start, trail, h⟩ := Trail.begin h
  obtain ⟨_, _, hadvance, trail, h⟩ := trail.skip h
  have hlt := left_lt_of_advance hadvance hrest
  obtain ⟨bare, _, hbare, trail, h⟩ := trail.skip h
  have hle := left_le_of hbare
  split at h
  · exact trail.leaf (by omega) h (.returnStmt (Nat.zero_le 1)) rfl
  · obtain ⟨value, _, trail, h⟩ := trail.read (yields_starList .top) h
    exact trail.node h (.returnStmt (Nat.le_refl 1)) rfl (List.cons_ne_nil _ _)

theorem reads_raiseStmt (hrest : before.rest ≠ [])
    (h : Simple.raiseStmt ending before = .ok t after) : Reads before (one .statement t) after := by
  obtain ⟨start, trail, h⟩ := Trail.begin h
  obtain ⟨_, _, hadvance, trail, h⟩ := trail.skip h
  have hlt := left_lt_of_advance hadvance hrest
  obtain ⟨bare, _, hbare, trail, h⟩ := trail.skip h
  have hle := left_le_of hbare
  split at h
  · exact trail.leaf (by omega) h (.raiseStmt (Nat.zero_le 2)) rfl
  · obtain ⟨error, _, trail, h⟩ := trail.read yields_expression h
    obtain ⟨isFrom, _, _, trail, h⟩ := trail.skip h
    split at h
    · obtain ⟨cause, _, trail, h⟩ := trail.read yields_expression h
      exact trail.node h (.raiseStmt (Nat.le_refl 2)) rfl (List.cons_ne_nil _ _)
    · exact trail.node h (.raiseStmt (Nat.le_succ 1)) rfl (List.cons_ne_nil _ _)

theorem reads_scopeStmt {kind : List String → NodeKind}
    (production : ∀ captures names, Production captures .statement (kind names) [])
    (hrest : before.rest ≠ []) (h : Simple.scopeStmt kind ending before = .ok t after) :
    Reads before (one .statement t) after := by
  obtain ⟨start, trail, h⟩ := Trail.begin h
  obtain ⟨_, _, hadvance, trail, h⟩ := trail.skip h
  have hlt := left_lt_of_advance hadvance hrest
  obtain ⟨name, _, hname, trail, h⟩ := trail.skip h
  obtain ⟨more, _, hmore, trail, h⟩ := trail.skip h
  have hle := left_le_of hname
  have hle' := left_le_of hmore
  exact trail.leaf (by omega) h (production _ _) rfl

theorem yields_deleteStmt : Yields Simple.deleteStmt (one .statement) := by
  intro ending before t after h
  obtain ⟨start, trail, h⟩ := Trail.begin h
  obtain ⟨_, _, _, trail, h⟩ := trail.skip h
  obtain ⟨item, _, trail, h⟩ := trail.read (yields_targetList .top) h
  obtain ⟨target, trail, h⟩ := trail.mark (fun _ => id) h
  exact trail.node h .deleteStmt rfl (List.cons_ne_nil _ _)

theorem yields_assertStmt : Yields Simple.assertStmt (one .statement) := by
  intro ending before t after h
  obtain ⟨start, trail, h⟩ := Trail.begin h
  obtain ⟨_, _, _, trail, h⟩ := trail.skip h
  obtain ⟨test, _, trail, h⟩ := trail.read yields_expression h
  obtain ⟨isMessage, _, _, trail, h⟩ := trail.skip h
  split at h
  · obtain ⟨message, _, trail, h⟩ := trail.read yields_expression h
    exact trail.node h (.assertStmt 1 (Nat.le_refl 1)) rfl (List.cons_ne_nil _ _)
  · exact trail.node h (.assertStmt 0 (Nat.zero_le 1)) rfl (List.cons_ne_nil _ _)

theorem yields_simple : Yields Simple.statement (one .statement) := by
  intro ending before t after h
  obtain ⟨kind, _, hpeek, h⟩ := ParserLaw.bind_eq_ok h
  obtain rfl := eq_of_peek hpeek
  have hrest := rest_ne_nil_of_peek hpeek
  split at h
  · exact reads_keywordOnly (fun _ => .passStmt) (hrest (by decide)) h
  · exact reads_keywordOnly (fun _ => .breakStmt) (hrest (by decide)) h
  · exact reads_keywordOnly (fun _ => .continueStmt) (hrest (by decide)) h
  · exact reads_returnStmt (hrest (by decide)) h
  · exact reads_raiseStmt (hrest (by decide)) h
  · exact reads_scopeStmt (fun _ => .globalStmt) (hrest (by decide)) h
  · exact reads_scopeStmt (fun _ => .nonlocalStmt) (hrest (by decide)) h
  · exact yields_deleteStmt h
  · exact yields_assertStmt h
  · exact reads_importStmt (hrest (by decide)) h
  · exact reads_importFrom (hrest (by decide)) h
  · exact yields_expressionStmt h

/-- A further statement of a line, after a semicolon. -/
theorem yields_nextSimple :
    Yields (do
      if ← eat (.op .semicolon) then
        if ← check .newline then return none else return some (← Simple.statement)
      else return none) fun found => all .statement found.toList := by
  intro ending before found after h
  obtain ⟨start, trail⟩ := Trail.exists_start before
  obtain ⟨semicolon, _, _, trail, h⟩ := trail.skip h
  split at h
  · obtain ⟨ended, _, _, trail, h⟩ := trail.skip h
    split at h
    · cases h
      exact trail.reads
    · obtain ⟨t, _, trail, h⟩ := trail.read yields_simple h
      cases h
      exact trail.reads
  · cases h
    exact trail.reads

theorem yields_line : Yields Simple.line (all .statement) := by
  intro ending before ts after h
  obtain ⟨start, trail⟩ := Trail.exists_start before
  obtain ⟨first, _, trail, h⟩ := trail.read yields_simple h
  obtain ⟨more, _, trail, h⟩ := trail.read (yields_manyTrees yields_nextSimple) h
  obtain ⟨_, _, _, trail, h⟩ := trail.skip h
  cases h
  exact trail.reads

theorem line_ne_nil {ts : List Tree} (h : Simple.line ending before = .ok ts after) : ts ≠ [] := by
  obtain ⟨first, _, _, h⟩ := ParserLaw.bind_eq_ok h
  obtain ⟨more, _, _, h⟩ := ParserLaw.bind_eq_ok h
  obtain ⟨_, _, _, h⟩ := ParserLaw.bind_eq_ok h
  cases h
  exact List.cons_ne_nil first more

end Simple

/-! ## Statements with blocks -/

/-- A parser of blocks that gives what it has read. -/
class SoundBlock (block : Compound.BlockParser) : Prop where
  yields : ∀ construct line, Yields (block construct line) (one .block)

section Compound

variable (block : Compound.BlockParser) [hblock : SoundBlock block] {start : Position}

theorem optional_clause (keyword : Keyword) (construct : Construct) :
    YieldsOptional (Compound.clause block keyword construct) .block := by
  intro ending before ts after h
  obtain ⟨start, trail⟩ := Trail.exists_start before
  obtain ⟨line, _, _, trail, h⟩ := trail.skip h
  obtain ⟨found, _, _, trail, h⟩ := trail.skip h
  split at h
  · obtain ⟨_, _, _, trail, h⟩ := trail.skip h
    obtain ⟨body, _, trail, h⟩ := trail.read (hblock.yields construct line) h
    cases h
    exact ⟨trail.reads, Nat.le_refl 1⟩
  · cases h
    exact ⟨trail.reads, Nat.zero_le 1⟩

theorem optional_elseClause : YieldsOptional (Compound.elseClause block) .block :=
  optional_clause block _ _

/-- A condition and its block. -/
def IsGuarded (ts : List Tree) : Prop := ∃ test body, ts = [test, body]

/-- The phrases of a condition and its block. -/
def guarded (ts : List Tree) : List (Phrase × Tree) := [.value, .block].zip ts

theorem reads_guarded {construct : Construct} {line : Nat} {ending : Ending}
    {before after : ParserState} {ts : List Tree}
    (h : Compound.guarded block construct line ending before = .ok ts after) :
    Reads before (guarded ts) after ∧ IsGuarded ts := by
  obtain ⟨start, trail⟩ := Trail.exists_start before
  obtain ⟨test, _, trail, h⟩ := trail.read (yields_named .top) h
  obtain ⟨_, _, _, trail, h⟩ := trail.skip h
  obtain ⟨body, _, trail, h⟩ := trail.read (hblock.yields construct line) h
  cases h
  exact ⟨trail.reads, test, body, rfl⟩

theorem guards_flatMap {lists : List (List Tree)} (h : ∀ ts ∈ lists, IsGuarded ts) :
    Guards ((lists.flatMap guarded).map Prod.fst) ∧
      (lists.flatMap guarded).map Prod.snd = lists.flatten := by
  induction lists with
  | nil => exact ⟨.nil, rfl⟩
  | cons ts lists ih =>
    obtain ⟨⟨test, body, rfl⟩, hlists⟩ := List.forall_mem_cons.1 h
    obtain ⟨hguards, hflatten⟩ := ih hlists
    refine ⟨.cons hguards, ?_⟩
    rw [List.flatMap_cons, List.map_append, hflatten]
    rfl

/-- The further conditions of an if statement. -/
theorem reads_elifs {ending : Ending} {before after : ParserState} {lists : List (List Tree)}
    (h : many (do
      let line ← Compound.lineHere
      if ← eat (.keyword .elifKw) then return some (← Compound.guarded block .elifClause line)
      else return none) ending before = .ok lists after) :
    Reads before (lists.flatMap guarded) after ∧ ∀ ts ∈ lists, IsGuarded ts := by
  constructor
  · refine yields_many (fun ending before found after h => ?_) h
    obtain ⟨start, trail⟩ := Trail.exists_start before
    obtain ⟨line, _, _, trail, h⟩ := trail.skip h
    obtain ⟨isElif, _, _, trail, h⟩ := trail.skip h
    split at h
    · obtain ⟨ts, _, hguarded, h⟩ := ParserLaw.bind_eq_ok h
      cases h
      simpa using (trail.append (reads_guarded block hguarded).1).reads
    · cases h
      exact trail.reads
  · refine forall_of_manyWithin (fun {_ _ ts _} h => ?_) h
    obtain ⟨line, _, _, h⟩ := ParserLaw.bind_eq_ok h
    obtain ⟨isElif, _, _, h⟩ := ParserLaw.bind_eq_ok h
    split at h
    · obtain ⟨ts, _, hguarded, h⟩ := ParserLaw.bind_eq_ok h
      cases h
      exact (reads_guarded block hguarded).2
    · cases h

theorem yields_ifStmt : Yields (Compound.ifStmt block) (one .statement) := by
  intro ending before t after h
  obtain ⟨start, trail, h⟩ := Trail.begin h
  obtain ⟨_, _, _, trail, h⟩ := trail.skip h
  obtain ⟨first, _, hfirst, h⟩ := ParserLaw.bind_eq_ok h
  obtain ⟨hreads, test, body, rfl⟩ := reads_guarded block hfirst
  have trail := trail.append hreads
  obtain ⟨more, _, hmore, h⟩ := ParserLaw.bind_eq_ok h
  obtain ⟨hreads, hpairs⟩ := reads_elifs block hmore
  obtain ⟨hguards, hflatten⟩ := guards_flatMap hpairs
  obtain ⟨orElse, _, helse, _, trail, h⟩ :=
    (trail.append hreads).optional (optional_elseClause block) h
  refine trail.node h ?_ (by simp [hflatten, guarded]) (by simp [guarded])
  rw [List.map_append, map_fst_all, List.map_append]
  exact .ifStmt hguards helse

theorem yields_whileStmt : Yields (Compound.whileStmt block) (one .statement) := by
  intro ending before t after h
  obtain ⟨start, trail, h⟩ := Trail.begin h
  obtain ⟨_, _, _, trail, h⟩ := trail.skip h
  obtain ⟨first, _, hfirst, h⟩ := ParserLaw.bind_eq_ok h
  obtain ⟨hreads, test, body, rfl⟩ := reads_guarded block hfirst
  obtain ⟨orElse, _, helse, _, trail, h⟩ :=
    (trail.append hreads).optional (optional_elseClause block) h
  refine trail.node h ?_ (by simp [guarded]) (by simp [guarded])
  rw [List.map_append, map_fst_all]
  exact .whileStmt helse

theorem continues_forStmt (isAsync : Bool) :
    Continues start [] (Compound.forStmt block start isAsync) (one .statement) := by
  intro ending first state t after trail h
  obtain ⟨line, _, _, trail, h⟩ := trail.skip h
  obtain ⟨_, _, _, trail, h⟩ := trail.skip h
  obtain ⟨item, _, trail, h⟩ := trail.read (yields_targetList .top) h
  obtain ⟨target, trail, h⟩ := trail.mark (fun _ => id) h
  obtain ⟨_, _, _, trail, h⟩ := trail.skip h
  obtain ⟨source, _, trail, h⟩ := trail.read (yields_starList .top) h
  obtain ⟨_, _, _, trail, h⟩ := trail.skip h
  obtain ⟨body, _, trail, h⟩ := trail.read (hblock.yields _ line) h
  obtain ⟨orElse, _, helse, _, trail, h⟩ := trail.optional (optional_elseClause block) h
  refine trail.node h ?_ (by simp [one]) (by simp [one])
  rw [List.map_append, map_fst_all]
  exact .forStmt isAsync helse

/-! ## Try -/

theorem reads_caught {isStar : Bool} {ending : Ending} {before after : ParserState}
    {found : List Tree × Option String}
    (h : Compound.caught isStar ending before = .ok found after) :
    Reads before (all .value found.1) after ∧ found.1.length ≤ 1 := by
  obtain ⟨start, trail⟩ := Trail.exists_start before
  obtain ⟨isBare, _, _, trail, h⟩ := trail.skip h
  split at h
  · split at h
    · exact absurd h failHere_ne_ok
    · cases h
      exact ⟨trail.reads, Nat.zero_le 1⟩
  · obtain ⟨error, _, trail, h⟩ := trail.read yields_expression h
    obtain ⟨name, _, _, trail, h⟩ := trail.skip h
    cases h
    exact ⟨trail.reads, Nat.le_refl 1⟩

theorem continues_handler (handlers : Compound.Handlers) :
    Continues start (all .handler handlers.list) (Compound.handler block handlers)
      fun next => all .handler next.list := by
  intro ending first state next after outer h
  obtain ⟨start, trail, h⟩ := Trail.begin h
  obtain ⟨_, _, _, trail, h⟩ := trail.skip h
  obtain ⟨isStar, _, _, trail, h⟩ := trail.skip h
  split at h
  · exact absurd h failAt_ne_ok
  · obtain ⟨⟨error, name⟩, _, hcaught, h⟩ := ParserLaw.bind_eq_ok h
    obtain ⟨hreads, hlength⟩ := reads_caught hcaught
    obtain ⟨_, _, _, trail, h⟩ := (trail.append hreads).skip h
    obtain ⟨body, _, trail, h⟩ := trail.read (hblock.yields _ _) h
    obtain ⟨t, last, hnode, h⟩ := ParserLaw.bind_eq_ok h
    have hhandler : Reads state (one .handler t) last := by
      refine trail.node hnode ?_ (by simp [one]) (by simp [one])
      rw [List.map_append, List.nil_append, map_fst_all]
      exact .handler name hlength
    cases h
    show Reads first (all .handler (handlers.list ++ [t])) after
    rw [all_append]
    exact outer.reads.append hhandler

theorem yields_handlers :
    Yields (Compound.handlers block) fun found => all .handler found.list := by
  intro ending before found after h
  obtain ⟨start, trail⟩ := Trail.exists_start before
  refine continues_iterate (fun handlers => all .handler handlers.list) (fun handlers => ?_) _
    trail h
  intro ending first state next after trail h
  obtain ⟨isHandler, _, _, trail, h⟩ := trail.skip h
  split at h
  · obtain ⟨handlers, _, trail, h⟩ := trail.continue (continues_handler block handlers) h
    cases h
    exact trail.reads
  · cases h
    exact trail.reads

omit hblock in
theorem handler_ne_nil {handlers next : Compound.Handlers} {ending : Ending}
    {before after : ParserState}
    (h : Compound.handler block handlers ending before = .ok next after) : next.list ≠ [] := by
  obtain ⟨start, _, _, h⟩ := ParserLaw.bind_eq_ok h
  obtain ⟨_, _, _, h⟩ := ParserLaw.bind_eq_ok h
  obtain ⟨isStar, _, _, h⟩ := ParserLaw.bind_eq_ok h
  split at h
  · exact absurd h failAt_ne_ok
  · obtain ⟨_, _, _, h⟩ := ParserLaw.bind_eq_ok h
    obtain ⟨_, _, _, h⟩ := ParserLaw.bind_eq_ok h
    obtain ⟨_, _, _, h⟩ := ParserLaw.bind_eq_ok h
    obtain ⟨_, _, _, h⟩ := ParserLaw.bind_eq_ok h
    cases h
    exact List.append_ne_nil_of_right_ne_nil _ (List.cons_ne_nil _ _)

omit hblock in
/-- Where the first handler is seen there is one at least, and else there is none. -/
theorem handlers_of_check {isExcept : Bool} {handlers : Compound.Handlers} {ending : Ending}
    {before next after : ParserState}
    (hcheck : check (.keyword .exceptKw) ending before = .ok isExcept next)
    (h : Compound.handlers block ending before = .ok handlers after) :
    (isExcept = true → handlers.list ≠ []) ∧
      (isExcept = false → handlers = ⟨[], none⟩ ∧ after = before) := by
  have hlater : ∀ fuel (found : Compound.Handlers) {before after : ParserState}
      {handlers : Compound.Handlers}, found.list ≠ [] →
      iterateWithin (fun handlers => do
        if ← check (.keyword .exceptKw) then return (← Compound.handler block handlers, true)
        else return (handlers, false)) fuel found ending before = .ok handlers after →
      handlers.list ≠ [] := by
    intro fuel
    induction fuel with
    | zero =>
      intro found before after handlers hfound h
      cases h
      exact hfound
    | succ fuel ih =>
      intro found before after handlers hfound h
      obtain ⟨⟨next, again⟩, _, hstep, h⟩ := ParserLaw.bind_eq_ok h
      obtain ⟨isExcept, _, _, hstep⟩ := ParserLaw.bind_eq_ok hstep
      split at hstep
      · obtain ⟨_, _, hhandler, hstep⟩ := ParserLaw.bind_eq_ok hstep
        cases hstep
        exact ih _ (handler_ne_nil block hhandler) h
      · cases hstep
        cases h
        exact hfound
  obtain ⟨⟨next, again⟩, _, hstep, h⟩ := ParserLaw.bind_eq_ok h
  obtain ⟨found, _, hfound, hstep⟩ := ParserLaw.bind_eq_ok hstep
  rw [hcheck] at hfound
  cases hfound
  obtain rfl := eq_of_check hcheck
  cases isExcept with
  | true =>
    obtain ⟨_, _, hhandler, hstep⟩ := ParserLaw.bind_eq_ok hstep
    cases hstep
    exact ⟨fun _ => hlater _ _ (handler_ne_nil block hhandler) h, nofun⟩
  | false =>
    cases hstep
    cases h
    exact ⟨nofun, fun _ => ⟨rfl, rfl⟩⟩

omit hblock in
theorem clause_ne_nil {keyword : Keyword} {construct : Construct} {ending : Ending}
    {before next after : ParserState} {ts : List Tree}
    (hcheck : check (.keyword keyword) ending before = .ok true next)
    (h : Compound.clause block keyword construct ending before = .ok ts after) : ts ≠ [] := by
  obtain ⟨line, _, hline, h⟩ := ParserLaw.bind_eq_ok h
  cases hline
  obtain ⟨found, _, hfound, h⟩ := ParserLaw.bind_eq_ok h
  cases found with
  | false => exact absurd hfound (eat_ne_false (peek_of_check hcheck))
  | true =>
    obtain ⟨_, _, _, h⟩ := ParserLaw.bind_eq_ok h
    obtain ⟨body, _, _, h⟩ := ParserLaw.bind_eq_ok h
    cases h
    exact List.cons_ne_nil body []

theorem yields_tryStmt : Yields (Compound.tryStmt block) (one .statement) := by
  intro ending before t after h
  obtain ⟨start, trail, h⟩ := Trail.begin h
  obtain ⟨_, _, _, trail, h⟩ := trail.skip h
  obtain ⟨_, _, _, trail, h⟩ := trail.skip h
  obtain ⟨body, _, trail, h⟩ := trail.read (hblock.yields _ _) h
  obtain ⟨isExcept, _, hexcept, h⟩ := ParserLaw.bind_eq_ok h
  obtain rfl := eq_of_check hexcept
  obtain ⟨isFinally, _, hfinally, h⟩ := ParserLaw.bind_eq_ok h
  obtain rfl := eq_of_check hfinally
  split at h
  · exact absurd h failHere_ne_ok
  · next hclause =>
    obtain ⟨handlers, _, hhandlers, h⟩ := ParserLaw.bind_eq_ok h
    obtain ⟨hsome, hnone⟩ := handlers_of_check block hexcept hhandlers
    have trail := trail.append (yields_handlers block hhandlers)
    rcases Bool.eq_false_or_eq_true isExcept with hfound | hmissing
    · obtain ⟨n, hn⟩ := Nat.exists_eq_succ_of_ne_zero
        fun hzero => hsome hfound (List.length_eq_zero_iff.1 hzero)
      obtain ⟨orElse, _, helse, _, trail, h⟩ := trail.optionalIf (optional_elseClause block) h
      obtain ⟨final, _, hfinal, _, trail, h⟩ := trail.optional (optional_clause block _ _) h
      refine trail.node h ?_ (by simp [one]) (by simp [one])
      simp only [List.map_append, map_fst_all, hn]
      exact .tryStmt _ n helse hfinal
    · -- no handler has been seen, so it was the last clause that was
      obtain ⟨hempty, hback⟩ := hnone hmissing
      rw [hempty, hback] at h trail
      rw [show isFinally = true by simpa [hmissing] using hclause] at hfinally
      obtain ⟨_, _, hnothing, h⟩ := ParserLaw.bind_eq_ok h
      cases hnothing
      obtain ⟨final, _, hfinal, h⟩ := ParserLaw.bind_eq_ok h
      obtain ⟨hreads, hlength⟩ := optional_clause block _ _ hfinal
      obtain ⟨last, rfl⟩ := List.length_eq_one_iff.1
        (Nat.le_antisymm hlength (List.length_pos_iff.2 (clause_ne_nil block hfinally hfinal)))
      exact (trail.append hreads).node h (.tryFinally _) rfl (List.cons_ne_nil _ _)

/-! ## With -/

theorem yields_withItem : Yields Compound.withItem (one .withItem) := by
  intro ending before t after h
  obtain ⟨start, trail, h⟩ := Trail.begin h
  obtain ⟨manager, _, trail, h⟩ := trail.read yields_expression h
  obtain ⟨isBound, _, _, trail, h⟩ := trail.skip h
  split at h
  · obtain ⟨item, _, trail, h⟩ := trail.read ((yields_bitwiseOr .top).widen .item) h
    obtain ⟨target, trail, h⟩ := trail.mark (fun _ => id) h
    exact trail.node h .boundContext rfl (List.cons_ne_nil _ _)
  · exact trail.node h .context rfl (List.cons_ne_nil _ _)

theorem yields_withItems : Yields Compound.withItems (all .withItem) := by
  intro ending before ts after h
  obtain ⟨start, trail⟩ := Trail.exists_start before
  obtain ⟨first, _, trail, h⟩ := trail.read yields_withItem h
  obtain ⟨more, _, trail, h⟩ := trail.read (yields_commaTrees yields_withItem) h
  cases h
  exact trail.reads

theorem withItems_ne_nil {ending : Ending} {before after : ParserState} {ts : List Tree}
    (h : Compound.withItems ending before = .ok ts after) : ts ≠ [] := by
  obtain ⟨first, _, _, h⟩ := ParserLaw.bind_eq_ok h
  obtain ⟨more, _, _, h⟩ := ParserLaw.bind_eq_ok h
  cases h
  exact List.cons_ne_nil first more

theorem bracketedItems_ne_nil {ending : Ending} {before after : ParserState} {ts : List Tree}
    (h : Compound.bracketedItems ending before = .ok (some ts) after) : ts ≠ [] := by
  obtain ⟨_, _, _, h⟩ := ParserLaw.bind_eq_ok h
  obtain ⟨first, _, _, h⟩ := ParserLaw.bind_eq_ok h
  obtain ⟨more, _, _, h⟩ := ParserLaw.bind_eq_ok h
  obtain ⟨_, _, _, h⟩ := ParserLaw.bind_eq_ok h
  obtain ⟨isBlock, _, _, h⟩ := ParserLaw.bind_eq_ok h
  split at h
  · cases h
    exact List.cons_ne_nil first more
  · cases h

theorem reads_bracketedItems {ending : Ending} {before after : ParserState} {ts : List Tree}
    (h : Compound.bracketedItems ending before = .ok (some ts) after) :
    Reads before (all .withItem ts) after := by
  obtain ⟨start, trail⟩ := Trail.exists_start before
  obtain ⟨_, _, _, trail, h⟩ := trail.skip h
  obtain ⟨first, _, trail, h⟩ := trail.read yields_withItem h
  obtain ⟨more, _, trail, h⟩ := trail.read (yields_commaTrees yields_withItem) h
  obtain ⟨_, _, _, trail, h⟩ := trail.skip h
  obtain ⟨isBlock, _, _, trail, h⟩ := trail.skip h
  split at h
  · cases h
    exact trail.reads
  · cases h

/-- A with statement from its items on. -/
theorem reads_withBlock {first state after : ParserState} {items : List Tree} {ending : Ending}
    {line : Nat} {isAsync : Bool} {t : Tree} (trail : Trail start first (all .withItem items) state)
    (hitems : items ≠ []) (h : (do
      expect (.op .colon)
      let body ← block .withStmt line
      node (.withStmt isAsync) start (items ++ [body])) ending state = .ok t after) :
    Reads first (one .statement t) after := by
  obtain ⟨_, _, _, trail, h⟩ := trail.skip h
  obtain ⟨body, _, trail, h⟩ := trail.read (hblock.yields _ line) h
  refine trail.node h ?_ (by simp [one]) (by simp [one])
  obtain ⟨n, hn⟩ := Nat.exists_eq_succ_of_ne_zero
    fun hzero => hitems (List.length_eq_zero_iff.1 hzero)
  rw [List.map_append, map_fst_all, hn]
  exact .withStmt isAsync n

theorem continues_withStmt (isAsync : Bool) :
    Continues start [] (Compound.withStmt block start isAsync) (one .statement) := by
  intro ending first state t after trail h
  obtain ⟨line, _, _, trail, h⟩ := trail.skip h
  obtain ⟨_, _, _, trail, h⟩ := trail.skip h
  obtain ⟨isBracket, _, _, trail, h⟩ := trail.skip h
  dsimp only at h
  split at h
  · obtain ⟨bracketed, next, hbracketed, h⟩ := ParserLaw.bind_eq_ok h
    cases bracketed with
    | some items =>
      have hitems := eq_of_speculate hbracketed
      exact reads_withBlock block (trail.append (reads_bracketedItems hitems))
        (bracketedItems_ne_nil hitems) h
    | none =>
      have trail := trail.append (yields_speculate reads_bracketedItems hbracketed)
      obtain ⟨items, _, hitems, h⟩ := ParserLaw.bind_eq_ok h
      exact reads_withBlock block (trail.append (yields_withItems hitems))
        (withItems_ne_nil hitems) h
  · obtain ⟨_, _, hpure, h⟩ := ParserLaw.bind_eq_ok h
    cases hpure
    obtain ⟨items, _, hitems, h⟩ := ParserLaw.bind_eq_ok h
    exact reads_withBlock block (trail.append (yields_withItems hitems))
      (withItems_ne_nil hitems) h

/-! ## Definitions -/

/-- A type parameter from its name on. -/
theorem reads_namedTypeParam {ending : Ending} {first state after : ParserState} {t : Tree}
    (trail : Trail start first [] state)
    (h : (do
      let name ← expectName
      let bound ← do if ← eat (.op .colon) then pure [← Level.top.expression] else pure []
      let default ← do if ← eat (.op .equal) then pure [← Level.top.expression] else pure []
      node (.typeParam name) start (bound ++ default)) ending state = .ok t after) :
    Reads first (one .typeParam t) after := by
  have hbefore := trail.reads.moves.left_le
  obtain ⟨name, _, hname, trail, h⟩ := trail.skip h
  have hlt := left_lt_of_expectName hname
  obtain ⟨isBound, _, hcolon, trail, h⟩ := trail.skip h
  have hcolon := left_le_of hcolon
  dsimp only at h
  obtain ⟨bound, _, hbound, hle, trail, h⟩ := trail.readIf yields_expression h
  obtain ⟨isDefault, _, hequal, trail, h⟩ := trail.skip h
  have hequal := left_le_of hequal
  obtain ⟨default, _, hdefault, hle', trail, h⟩ := trail.readIf yields_expression h
  refine trail.leaf (by omega) h ?_ (by simp)
  rw [List.map_append, List.map_append, map_fst_all, map_fst_all]
  exact .typeParam name hbound hdefault

theorem yields_typeParam : Yields Compound.typeParam (one .typeParam) := by
  intro ending before t after h
  obtain ⟨start, trail, h⟩ := Trail.begin h
  obtain ⟨isStar, _, _, trail, h⟩ := trail.skip h
  dsimp only at h
  split at h
  · obtain ⟨_, _, _, trail, h⟩ := trail.skip h
    exact reads_namedTypeParam trail h
  · exact reads_namedTypeParam trail h

theorem yields_typeParams : Yields Compound.typeParams (all .typeParam) := by
  intro ending before ts after h
  obtain ⟨start, trail⟩ := Trail.exists_start before
  obtain ⟨isThere, _, _, trail, h⟩ := trail.skip h
  split at h
  · obtain ⟨first, _, trail, h⟩ := trail.read yields_typeParam h
    obtain ⟨more, _, trail, h⟩ := trail.read (yields_commaTrees yields_typeParam) h
    obtain ⟨_, _, _, trail, h⟩ := trail.skip h
    cases h
    exact trail.reads
  · cases h
    exact trail.reads

theorem continues_functionDef (decorators : List Tree) (isAsync : Bool) :
    Continues start (all .decorator decorators)
      (Compound.functionDef block decorators start isAsync) (one .statement) := by
  intro ending first state t after trail h
  obtain ⟨line, _, _, trail, h⟩ := trail.skip h
  obtain ⟨_, _, _, trail, h⟩ := trail.skip h
  obtain ⟨name, _, _, trail, h⟩ := trail.skip h
  obtain ⟨types, _, trail, h⟩ := trail.read yields_typeParams h
  obtain ⟨_, _, _, trail, h⟩ := trail.skip h
  obtain ⟨parameters, _, trail, h⟩ := trail.read (yields_parameters .top true _) h
  obtain ⟨_, _, _, trail, h⟩ := trail.skip h
  obtain ⟨isResult, _, _, trail, h⟩ := trail.skip h
  dsimp only at h
  obtain ⟨result, _, hresult, _, trail, h⟩ := trail.readIf yields_expression h
  obtain ⟨_, _, _, trail, h⟩ := trail.skip h
  obtain ⟨body, _, trail, h⟩ := trail.read (hblock.yields _ line) h
  refine trail.node h ?_ (by simp [one]) (by simp [one])
  simp only [List.map_append, map_fst_all]
  exact .functionDef name isAsync decorators.length types.length parameters.length hresult

theorem yields_classArguments : Yields Compound.classArguments (all .argument) := by
  intro ending before ts after h
  obtain ⟨start, trail⟩ := Trail.exists_start before
  obtain ⟨isThere, _, _, trail, h⟩ := trail.skip h
  split at h
  · obtain ⟨arguments, _, trail, h⟩ := trail.read (yields_arguments .top false) h
    obtain ⟨_, _, _, trail, h⟩ := trail.skip h
    cases h
    exact trail.reads
  · cases h
    exact trail.reads

theorem continues_classDef (decorators : List Tree) :
    Continues start (all .decorator decorators) (Compound.classDef block decorators start)
      (one .statement) := by
  intro ending first state t after trail h
  obtain ⟨line, _, _, trail, h⟩ := trail.skip h
  obtain ⟨_, _, _, trail, h⟩ := trail.skip h
  obtain ⟨name, _, _, trail, h⟩ := trail.skip h
  obtain ⟨types, _, trail, h⟩ := trail.read yields_typeParams h
  obtain ⟨arguments, _, trail, h⟩ := trail.read yields_classArguments h
  obtain ⟨_, _, _, trail, h⟩ := trail.skip h
  obtain ⟨body, _, trail, h⟩ := trail.read (hblock.yields _ line) h
  refine trail.node h ?_ (by simp [one]) (by simp [one])
  simp only [List.map_append, map_fst_all]
  exact .classDef name decorators.length types.length arguments.length

theorem yields_decorator : Yields Compound.decorator (one .decorator) := by
  intro ending before t after h
  obtain ⟨start, trail, h⟩ := Trail.begin h
  obtain ⟨_, _, _, trail, h⟩ := trail.skip h
  obtain ⟨value, _, trail, h⟩ := trail.read (yields_named .top) h
  obtain ⟨_, _, _, trail, h⟩ := trail.skip h
  exact trail.node h .decorator rfl (List.cons_ne_nil _ _)

theorem yields_decorated : Yields (Compound.decorated block) (one .statement) := by
  intro ending before t after h
  obtain ⟨start, trail, h⟩ := Trail.begin h
  obtain ⟨decorators, _, trail, h⟩ :=
    trail.read (yields_manyTrees (yields_after yields_decorator)) h
  obtain ⟨kind, _, _, trail, h⟩ := trail.skip h
  obtain ⟨second, _, _, trail, h⟩ := trail.skip h
  split at h
  · exact continues_functionDef block decorators false trail h
  · obtain ⟨_, _, _, trail, h⟩ := trail.skip h
    exact continues_functionDef block decorators true trail h
  · exact continues_classDef block decorators trail h
  · exact absurd h failHere_ne_ok

theorem continues_asyncStmt :
    Continues start [] (Compound.asyncStmt block start) (one .statement) := by
  intro ending first state t after trail h
  obtain ⟨_, _, _, trail, h⟩ := trail.skip h
  obtain ⟨kind, _, _, trail, h⟩ := trail.skip h
  split at h
  · exact continues_functionDef block [] true trail h
  · exact continues_forStmt block true trail h
  · exact continues_withStmt block true trail h
  · exact absurd h failHere_ne_ok

/-! ## Match -/

theorem yields_asPattern : Yields Compound.asPattern (one .item) := by
  intro ending before t after h
  obtain ⟨start, trail, h⟩ := Trail.begin h
  obtain ⟨isStar, _, _, trail, h⟩ := trail.skip h
  dsimp only at h
  split at h
  · obtain ⟨item, _, trail, h⟩ := trail.read (yields_starNamed .top) h
    exact continues_capturedItem trail h
  · obtain ⟨item, _, trail, h⟩ := trail.read ((yields_bitwiseOr .top).widen .item) h
    exact continues_capturedItem trail h

theorem yields_patterns : Yields Compound.patterns (one (.pattern .pattern)) := by
  intro ending before u after h
  obtain ⟨t, _, hwithin, h⟩ := ParserLaw.bind_eq_ok h
  obtain ⟨hbind, rfl⟩ := ofExcept_eq_ok h
  unfold withinPattern at hwithin
  split at hwithin
  · next hrun =>
    cases hwithin
    exact .pattern (yields_itemTuple yields_asPattern hrun) hbind
  · cases hwithin

theorem yields_caseClause : Yields (Compound.caseClause block) (one .case) := by
  intro ending before t after h
  obtain ⟨start, trail, h⟩ := Trail.begin h
  obtain ⟨_, _, _, trail, h⟩ := trail.skip h
  obtain ⟨pattern, _, trail, h⟩ := trail.read yields_patterns h
  obtain ⟨isGuarded, _, _, trail, h⟩ := trail.skip h
  dsimp only at h
  obtain ⟨guard, _, hguard, _, trail, h⟩ := trail.readIf (yields_named .top) h
  obtain ⟨_, _, _, trail, h⟩ := trail.skip h
  obtain ⟨body, _, trail, h⟩ := trail.read (hblock.yields _ _) h
  refine trail.node h ?_ (by simp [one]) (by simp [one])
  simp only [List.map_append, map_fst_all]
  exact .matchCase hguard

theorem reads_matchSubject {ending : Ending} {before after : ParserState} {t : Tree}
    (h : Compound.matchSubject ending before = .ok (some t) after) :
    Reads before (one .item t) after := by
  obtain ⟨start, trail⟩ := Trail.exists_start before
  obtain ⟨_, _, _, trail, h⟩ := trail.skip h
  obtain ⟨subject, _, trail, h⟩ := trail.read (yields_starNamedList .top) h
  obtain ⟨isColon, _, _, trail, h⟩ := trail.skip h
  obtain ⟨second, _, _, trail, h⟩ := trail.skip h
  split at h
  · cases h
    exact trail.reads
  · cases h

theorem yields_cases : Yields (Compound.cases block) (all .case) := by
  refine yields_manyTrees fun ending before found after h => ?_
  obtain ⟨start, trail⟩ := Trail.exists_start before
  obtain ⟨isDedent, _, _, trail, h⟩ := trail.skip h
  obtain ⟨isEnd, _, _, trail, h⟩ := trail.skip h
  split at h
  · cases h
    exact trail.reads
  · obtain ⟨isIndent, _, _, trail, h⟩ := trail.skip h
    split at h
    · exact absurd h failHere_ne_ok
    · obtain ⟨isCase, _, _, trail, h⟩ := trail.skip h
      split at h
      · obtain ⟨t, _, trail, h⟩ := trail.read (yields_caseClause block) h
        cases h
        exact trail.reads
      · exact absurd h failHere_ne_ok

theorem continues_matchRest (subject : Tree) :
    Continues start (one .item subject) (Compound.matchRest block start subject)
      (one .statement) := by
  intro ending first state t after trail h
  obtain ⟨_, _, _, trail, h⟩ := trail.skip h
  obtain ⟨_, _, _, trail, h⟩ := trail.skip h
  obtain ⟨isBlock, _, _, trail, h⟩ := trail.skip h
  split at h
  · exact absurd h failHere_ne_ok
  · obtain ⟨cases, _, trail, h⟩ := trail.read (yields_cases block) h
    obtain ⟨_, _, _, trail, h⟩ := trail.skip h
    refine trail.node h ?_ (by simp [one]) (by simp [one])
    rw [List.map_append, map_fst_all]
    exact .matchStmt cases.length

theorem yields_matchStmt :
    Yields (Compound.matchStmt block) fun found => all .statement found.toList := by
  intro ending before found after h
  obtain ⟨start, trail, h⟩ := Trail.begin h
  obtain ⟨subject, _, trail, h⟩ := trail.read (yields_speculate reads_matchSubject) h
  cases subject with
  | some subject =>
    obtain ⟨t, _, hrest, h⟩ := ParserLaw.bind_eq_ok h
    cases h
    exact continues_matchRest block subject trail hrest
  | none =>
    cases h
    exact trail.reads

/-! ## Statements and blocks -/

theorem Trail.singleton {first state after : ParserState} {p : Parser Tree} {ending : Ending}
    {ts : List Tree} (trail : Trail start first [] state)
    (hp : Continues start [] p (one .statement))
    (h : (do return [← p]) ending state = .ok ts after) :
    Reads first (all .statement ts) after := by
  obtain ⟨t, _, trail, h⟩ := trail.continue hp h
  cases h
  exact trail.reads

theorem Yields.continues {p : Parser α} {view : α → List (Phrase × Tree)} (hp : Yields p view) :
    Continues start [] p view :=
  fun _ _ _ _ _ trail h => (trail.append (hp h)).reads

theorem yields_statementWith : Yields (Compound.statementWith block) (all .statement) := by
  intro ending before ts after h
  obtain ⟨start, trail, h⟩ := Trail.begin h
  obtain ⟨kind, _, _, trail, h⟩ := trail.skip h
  split at h
  · exact absurd h failHere_ne_ok
  · exact trail.singleton (yields_ifStmt block).continues h
  · exact trail.singleton (yields_whileStmt block).continues h
  · exact trail.singleton (continues_forStmt block false) h
  · exact trail.singleton (yields_tryStmt block).continues h
  · exact trail.singleton (continues_withStmt block false) h
  · exact trail.singleton (continues_functionDef block [] false) h
  · exact trail.singleton (continues_classDef block []) h
  · exact trail.singleton (yields_decorated block).continues h
  · exact trail.singleton (continues_asyncStmt block) h
  · obtain ⟨isMatch, _, _, trail, h⟩ := trail.skip h
    split at h
    · obtain ⟨found, _, trail, h⟩ := trail.read (yields_matchStmt block) h
      cases found with
      | some t =>
        cases h
        exact trail.reads
      | none => exact yields_line.continues trail h
    · exact yields_line.continues trail h

end Compound

section Blocks

variable {statement : Parser (List Tree)} (hstatement : Yields statement (all .statement))
include hstatement

/-- Statements up to where a sign says that they end. -/
theorem yields_statementsUntil (stop : Parser Bool) [moves.Follows stop] :
    Yields (many do if ← stop then return none else return some (← statement))
      fun lists => all .statement lists.flatten := by
  refine yields_manyLists fun ending before found after h => ?_
  obtain ⟨start, trail⟩ := Trail.exists_start before
  obtain ⟨ended, _, _, trail, h⟩ := trail.skip h
  split at h
  · cases h
    exact trail.reads
  · obtain ⟨ts, _, trail, h⟩ := trail.read hstatement h
    cases h
    exact trail.reads

theorem yields_blockOf (construct : Construct) (line : Nat) :
    Yields (Compound.blockOf statement construct line) (one .block) := by
  intro ending before t after h
  obtain ⟨start, trail, h⟩ := Trail.begin h
  obtain ⟨isBelow, _, _, trail, h⟩ := trail.skip h
  split at h
  · obtain ⟨isIndent, _, _, trail, h⟩ := trail.skip h
    split at h
    · obtain ⟨lists, _, trail, h⟩ := trail.read
        (yields_statementsUntil hstatement do return (← check .dedent) || (← atEnd)) h
      have hle := trail.reads.moves.left_le
      obtain ⟨_, _, hdedent, trail, h⟩ := trail.skip h
      have hlt := left_lt_of_require hdedent nofun
      refine trail.leaf (by omega) h ?_ (by simp)
      rw [List.nil_append, map_fst_all]
      exact .block lists.flatten.length
    · exact absurd h failHere_ne_ok
  · obtain ⟨statements, _, hline, h⟩ := ParserLaw.bind_eq_ok h
    have hnil := line_ne_nil hline
    have trail := trail.append (yields_line hline)
    refine trail.node h ?_ (by simp) (by simpa [all] using hnil)
    rw [List.nil_append, map_fst_all]
    exact .block statements.length

end Blocks

/-- Statements give what they have read, however many blocks may nest in them. -/
theorem yields_statement (room : Nat) : Yields (Compound.statement room) (all .statement) := by
  induction room with
  | zero => exact fun _ _ _ _ h => absurd h failHere_ne_ok
  | succ room ih =>
    have hblock : SoundBlock (Compound.blockOf (Compound.statement room)) := ⟨yields_blockOf ih⟩
    exact yields_statementWith (Compound.blockOf (Compound.statement room))

/-! ## Whole snippets -/

theorem yields_statements (room : Nat) : Yields (Module.statements room) (all .statement) := by
  intro ending before ts after h
  obtain ⟨lists, _, hlists, h⟩ := ParserLaw.bind_eq_ok h
  cases h
  exact yields_statementsUntil (yields_statement room) atEnd hlists

/-- Where the first token of a stream starts, or where its text ends if there is none. -/
def startOf (stream : TokenStream) : Position :=
  match Module.significant stream with
  | token :: _ => token.span.start
  | [] => (Module.endingOf stream).position

/-- The tree of a snippet holds the statements read from its tokens. -/
theorem reads_of_ofStream {stream : TokenStream} {t : Tree} (h : Module.ofStream stream = .ok t) :
    ∃ statements last, Reads (Module.initial stream) (all .statement statements) last ∧
      t = .node .module ⟨startOf stream, (Module.endingOf stream).position⟩ statements := by
  unfold Module.ofStream at h
  dsimp only at h
  split at h
  · next hmodule =>
    cases h
    obtain ⟨start, _, hhere, hmodule⟩ := ParserLaw.bind_eq_ok hmodule
    cases hhere
    obtain ⟨statements, last, hstatements, hmodule⟩ := ParserLaw.bind_eq_ok hmodule
    split at hmodule
    · exact absurd hmodule failHere_ne_ok
    · cases hmodule
      exact ⟨statements, _, yields_statements _ hstatements, rfl⟩
  · cases h

end SnippetLint.Derivation
