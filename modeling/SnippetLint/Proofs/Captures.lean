import SnippetLint.Proofs.CasePatterns

/-!
What patterns capture. `Captures` gives the addresses of the names that a pattern binds; which of
them are below a node is told by what the node asks for (`capturedIn_node`). A tree that is accepted
has these names bound, and is as it was for the rest. Main statement: `marks_of_bind`.
-/

namespace SnippetLint.CasePatterns
open SnippetLint.Pattern hiding bind
open SnippetLint.Contexts (at?)
open SnippetLint.Derivation (except_bind_eq_ok)

/-! ## Captures -/

mutual

/-- The addresses of the names that a pattern captures. -/
inductive Captures : Tree → List Nat → Prop
  | name {id : String} {context : Context} {span : Span} {children : List Tree} :
      Captures (.node (.name id context) span children) []
  | alternative {span : Span} {children : List Tree} {i : Nat} {t : Tree} {path : List Nat}
      (found : children[i]? = some t) (inside : Captures t path) :
      Captures (.node (.binOp .bitOr) span children) (i :: path)
  | named {name : String} {span : Span} {children : List Tree} {i : Nat} {t : Tree}
      {path : List Nat} (found : children[i]? = some t) (inside : Captures t path) :
      Captures (.node (.matchAs name) span children) (i :: path)
  | sequence {kind : NodeKind} {span : Span} {items : List Tree} {i : Nat} {t : Tree}
      {path : List Nat} (hkind : isSequence kind = true) (found : items[i]? = some t)
      (inside : ItemCaptures t path) : Captures (.node kind span items) (i :: path)
  | call {span : Span} {callee : Tree} {arguments : List Tree} {i : Nat} {t : Tree}
      {path : List Nat} (found : arguments[i]? = some t) (inside : ArgumentCaptures t path) :
      Captures (.node .call span (callee :: arguments)) ((i + 1) :: path)
  | dict {span : Span} {entries : List Tree} {path : List Nat} (h : EntryCaptures entries path) :
      Captures (.node .dict span entries) path

inductive ItemCaptures : Tree → List Nat → Prop
  | pattern {t : Tree} {path : List Nat} (h : Captures t path) : ItemCaptures t path
  | star {context : Context} {span : Span} {target : Tree} {others : List Tree} :
      ItemCaptures (.node (.starred context) span (target :: others)) [0]

inductive ArgumentCaptures : Tree → List Nat → Prop
  | positional {t : Tree} {path : List Nat} (h : Captures t path) : ArgumentCaptures t path
  | keyword {arg : Option String} {span : Span} {children : List Tree} {i : Nat} {t : Tree}
      {path : List Nat} (found : children[i]? = some t) (inside : Captures t path) :
      ArgumentCaptures (.node (.keyword arg) span children) (i :: path)

/-- The addresses of the names that the entries of a mapping capture: none in the keys. -/
inductive EntryCaptures : List Tree → List Nat → Prop
  | rest {span : Span} {target : Tree} {others : List Tree} :
      EntryCaptures [.node .dictUnpack span (target :: others)] [0, 0]
  | value {key value : Tree} {later : List Tree} {path : List Nat} (h : Captures value path) :
      EntryCaptures (key :: value :: later) (1 :: path)
  | later {key value : Tree} {later : List Tree} {i : Nat} {path : List Nat}
      (h : EntryCaptures later (i :: path)) :
      EntryCaptures (key :: value :: later) ((i + 2) :: path)

end

/-- The addresses of the names that are captured in a slot. -/
def CapturedIn : Slot → Tree → List Nat → Prop
  | .pattern => Captures
  | .sequenceItem => ItemCaptures
  | .mappingKey | .dotted => fun _ _ => False

/-! ## What is captured below a node -/

/-- The addresses that begin with the place of a tree and go on inside it. -/
def Along (P : Tree → List Nat → Prop) (ts : List Tree) : List Nat → Prop
  | [] => False
  | i :: path => ∃ t, ts[i]? = some t ∧ P t path

/-- The addresses behind the first tree, counted from there. -/
def later (P : List Nat → Prop) : List Nat → Prop
  | [] => False
  | i :: path => P ((i + 1) :: path)

/-- The addresses that are captured below a node that asks for this. -/
def CapturedBy : Demand → List Tree → List Nat → Prop
  | .read, _, _ | .refused _, _, _ => False
  | .capture, _, path => path = []
  | .captureFirst, ts, path => ts ≠ [] ∧ path = [0]
  | .all slot, ts, path => Along (CapturedIn slot) ts path
  | .sequence, ts, path => Along ItemCaptures ts path
  | .arguments, ts, path =>
    ∃ i rest, path = (i + 1) :: rest ∧ Along ArgumentCaptures ts.tail (i :: rest)
  | .entries, ts, path => EntryCaptures ts path

section Captured

variable {slot : Slot} {kind : NodeKind} {span : Span} {t : Tree} {children : List Tree}
  {path : List Nat}

/-- No name is captured in a literal. -/
theorem not_captures_literal (h : IsLiteral t) : ¬ Captures t path := by
  intro hcaptures
  cases h with
  | constant => cases hcaptures; contradiction
  | negated => cases hcaptures; contradiction
  | complex sum => rcases sum with rfl | rfl <;> cases hcaptures <;> contradiction

theorem along_iff {P : Tree → List Nat → Prop} :
    Along P children path ↔
      ∃ i t rest, path = i :: rest ∧ children[i]? = some t ∧ P t rest := by
  cases path with
  | nil => exact ⟨False.elim, nofun⟩
  | cons i path =>
    refine ⟨fun ⟨t, found, inside⟩ => ⟨i, t, path, rfl, found, inside⟩, ?_⟩
    rintro ⟨_, t, _, heq, found, inside⟩
    cases heq
    exact ⟨t, found, inside⟩

theorem capturedIn_open (hslot : isOpen slot = true) (hkind : kind.isStarred = false) :
    CapturedIn slot (.node kind span children) path ↔ Captures (.node kind span children) path := by
  cases slot with
  | pattern => exact Iff.rfl
  | sequenceItem =>
    refine ⟨fun h => ?_, .pattern⟩
    cases h with
    | pattern h => exact h
    | star => cases hkind
  | mappingKey | dotted => cases hslot

theorem not_capturedIn_literal (h : isLiteral (.node kind span children) = true) :
    ¬ CapturedIn slot (.node kind span children) path := by
  have hnone : ¬ Captures (.node kind span children) path :=
    not_captures_literal (isLiteral_iff.1 h)
  cases slot with
  | pattern => exact hnone
  | sequenceItem =>
    rintro (hinside | _)
    · exact hnone hinside
    · cases h
  | mappingKey | dotted => exact id

theorem not_capturedIn_attribute {attr : String} {context : Context} :
    ¬ CapturedIn slot (.node (.attribute attr context) span children) path := by
  have hnone : ¬ Captures (.node (.attribute attr context) span children) path := by
    intro h
    cases h
    contradiction
  cases slot with
  | pattern => exact hnone
  | sequenceItem =>
    rintro ⟨hinside⟩
    exact hnone hinside
  | mappingKey | dotted => exact id

/-- What a node captures is told by what it asks for. -/
theorem capturedIn_node (h : ∀ fault, demandOf slot kind span children ≠ .refused fault) :
    CapturedIn slot (.node kind span children) path ↔
      CapturedBy (demandOf slot kind span children) children path := by
  have hasks : Asks slot _ _ kind (demandOf slot kind span children) := asks_demand _ _ _ _
  generalize demandOf slot kind span children = asked at h hasks
  cases hasks with
  | access =>
    refine iff_of_false not_capturedIn_attribute fun h => ?_
    obtain ⟨_, _, _, _, _, hnone⟩ := along_iff.1 h
    exact hnone
  | path hslot =>
    subst hslot
    exact Iff.rfl
  | literal _ hliteral => exact iff_of_false (not_capturedIn_literal hliteral) id
  | name hslot =>
    rw [capturedIn_open hslot rfl]
    refine ⟨fun h => ?_, fun h => h ▸ .name⟩
    cases h with
    | name => rfl
    | sequence hkind => cases hkind
  | star hslot =>
    subst hslot
    constructor
    · rintro (h | _)
      · cases h with
        | sequence hkind => cases hkind
      · exact ⟨List.cons_ne_nil _ _, rfl⟩
    · rintro ⟨hne, rfl⟩
      obtain ⟨target, others, rfl⟩ := List.exists_cons_of_ne_nil hne
      exact .star
  | alternatives hslot =>
    rw [capturedIn_open hslot rfl]
    refine Iff.trans ⟨fun h => ?_, ?_⟩ along_iff.symm
    · cases h with
      | alternative found inside => exact ⟨_, _, _, rfl, found, inside⟩
      | sequence hkind => cases hkind
    · rintro ⟨_, _, _, rfl, found, inside⟩
      exact .alternative found inside
  | named hslot =>
    rw [capturedIn_open hslot rfl]
    refine Iff.trans ⟨fun h => ?_, ?_⟩ along_iff.symm
    · cases h with
      | named found inside => exact ⟨_, _, _, rfl, found, inside⟩
      | sequence hkind => cases hkind
    · rintro ⟨_, _, _, rfl, found, inside⟩
      exact .named found inside
  | sequence hslot hkind =>
    have hstar : kind.isStarred = false := by
      unfold isSequence at hkind
      split at hkind <;> first | rfl | cases hkind
    rw [capturedIn_open hslot hstar]
    refine Iff.trans ⟨fun h => ?_, ?_⟩ along_iff.symm
    · cases h with
      | sequence _ found inside => exact ⟨_, _, _, rfl, found, inside⟩
      | _ => cases hkind
    · rintro ⟨_, _, _, rfl, found, inside⟩
      exact .sequence hkind found inside
  | call hslot =>
    rw [capturedIn_open hslot rfl]
    constructor
    · intro h
      cases h with
      | call found inside => exact ⟨_, _, rfl, _, found, inside⟩
      | sequence hkind => cases hkind
    · rintro ⟨i, rest, rfl, t, found, inside⟩
      cases children with
      | nil => cases found
      | cons callee arguments => exact .call found inside
  | dict hslot =>
    rw [capturedIn_open hslot rfl]
    refine ⟨fun h => ?_, .dict⟩
    cases h with
    | dict h => exact h
    | sequence hkind => cases hkind
  | refused _ fault => exact absurd rfl (h fault)

end Captured

/-! ## Marks -/

/-- What a node shows apart from its children. -/
def label (t : Tree) : NodeKind × Span × Nat := (t.kind, t.span, t.children.length)

/-- The names at these addresses are bound in the second tree, which is like the first one but for
that. -/
structure Marks (P : List Nat → Prop) (t u : Tree) : Prop where
  bound : ∀ path, P path → ∃ id context span n,
    (at? t path).map label = some (.name id context, span, n) ∧
      (at? u path).map label = some (.name id .store, span, n)
  kept : ∀ path, ¬ P path → (at? u path).map label = (at? t path).map label

/-- The same of trees one after another. -/
inductive MarksAll : (List Nat → Prop) → List Tree → List Tree → Prop
  | nil {P : List Nat → Prop} (none : ∀ path, ¬ P path) : MarksAll P [] []
  | cons {P : List Nat → Prop} {t u : Tree} {ts us : List Tree} (top : ¬ P [])
      (first : Marks (fun path => P (0 :: path)) t u) (rest : MarksAll (later P) ts us) :
      MarksAll P (t :: ts) (u :: us)

section Marks

variable {P Q : List Nat → Prop} {slot : Slot} {kind : NodeKind} {span : Span} {t u : Tree}
  {ts us : List Tree}

theorem Marks.of_iff (h : Marks P t u) (hiff : ∀ path, Q path ↔ P path) : Marks Q t u :=
  (funext fun path => propext (hiff path) : Q = P) ▸ h

theorem MarksAll.of_iff (h : MarksAll P ts us) (hiff : ∀ path, Q path ↔ P path) :
    MarksAll Q ts us :=
  (funext fun path => propext (hiff path) : Q = P) ▸ h

theorem marks_self (h : ∀ path, ¬ P path) (t : Tree) : Marks P t t :=
  ⟨fun path hpath => absurd hpath (h path), fun _ _ => rfl⟩

theorem marksAll_self (h : ∀ path, ¬ P path) (ts : List Tree) : MarksAll P ts ts := by
  induction ts generalizing P with
  | nil => exact .nil h
  | cons t ts ih =>
    refine .cons (h []) (marks_self (fun _ => h _) t) (ih fun path hpath => ?_)
    cases path with
    | nil => exact hpath
    | cons i path => exact h _ hpath

theorem MarksAll.length (h : MarksAll P ts us) : us.length = ts.length := by
  induction h with
  | nil => rfl
  | cons _ _ _ ih => exact congrArg (· + 1) ih

theorem MarksAll.top (h : MarksAll P ts us) : ¬ P [] := by
  cases h with
  | nil none => exact none []
  | cons top => exact top

theorem MarksAll.bound (h : MarksAll P ts us) {i : Nat} {path : List Nat}
    (hpath : P (i :: path)) : ∃ t u, ts[i]? = some t ∧ us[i]? = some u ∧
      Marks (fun path => P (i :: path)) t u := by
  induction h generalizing i with
  | nil none => exact absurd hpath (none _)
  | @cons P t u ts us _ first _ ih =>
    cases i with
    | zero => exact ⟨t, u, rfl, rfl, first⟩
    | succ i => exact ih hpath

theorem MarksAll.kept (h : MarksAll P ts us) {i : Nat} {path : List Nat}
    (hpath : ¬ P (i :: path)) : (us[i]?.bind (at? · path)).map label =
      (ts[i]?.bind (at? · path)).map label := by
  induction h generalizing i with
  | nil => rfl
  | cons _ first _ ih =>
    cases i with
    | zero => exact first.kept path hpath
    | succ i => exact ih hpath

/-- Marks among the children are marks of the node. -/
theorem MarksAll.node (h : MarksAll P ts us) :
    Marks P (.node kind span ts) (.node kind span us) := by
  constructor
  · intro path hpath
    cases path with
    | nil => exact absurd hpath h.top
    | cons i path =>
      obtain ⟨t, u, ht, hu, hmarks⟩ := h.bound hpath
      simp only [at?, Tree.children, ht, hu, Option.bind_some]
      exact hmarks.bound path hpath
  · intro path hpath
    cases path with
    | nil => exact congrArg (fun n => some (kind, span, n)) h.length
    | cons i path => exact h.kept hpath

theorem marks_capture (hname : t.kind.isName = true) : Marks (· = []) t (Pattern.capture t) := by
  obtain ⟨kind, span, children⟩ := t
  have hname : kind.isName = true := hname
  unfold NodeKind.isName at hname
  split at hname
  · next id context _ =>
    constructor
    · rintro path rfl
      exact ⟨id, context, span, children.length, rfl, rfl⟩
    · intro path hpath
      cases path with
      | nil => exact absurd rfl hpath
      | cons i path => rfl
  · cases hname

theorem marksAll_captureFirst (hname : startsWithName ts = true) :
    MarksAll (fun path => ts ≠ [] ∧ path = [0]) ts (captureFirst ts) := by
  cases ts with
  | nil => cases hname
  | cons t ts =>
    refine .cons (fun h => by cases h.2) ((marks_capture hname).of_iff fun path => ?_)
      (marksAll_self (fun path hpath => ?_) ts)
    · simp
    · cases path with
      | nil => exact hpath
      | cons i path => cases hpath.2

end Marks

section Bind

variable {slot : Slot} {kind : NodeKind} {span : Span} {t u key value : Tree}
  {ts us children rest : List Tree}

section Along

variable {P : Tree → List Nat → Prop}

theorem not_along_nil (path : List Nat) : ¬ Along P [] path := by
  intro h
  obtain ⟨_, _, _, _, found, _⟩ := along_iff.1 h
  cases found

theorem along_zero (t : Tree) (ts : List Tree) (path : List Nat) :
    Along P (t :: ts) (0 :: path) ↔ P t path :=
  ⟨fun ⟨_, found, h⟩ => Option.some.inj found ▸ h, fun h => ⟨t, rfl, h⟩⟩

theorem along_later (t : Tree) (ts : List Tree) (path : List Nat) :
    Along P ts path ↔ later (Along P (t :: ts)) path := by
  cases path <;> exact Iff.rfl

end Along

theorem capturedBy_arguments {callee : Tree} {arguments : List Tree} {path : List Nat} :
    Along ArgumentCaptures arguments path ↔
      later (CapturedBy .arguments (callee :: arguments)) path := by
  cases path with
  | nil => exact Iff.rfl
  | cons i path =>
    constructor
    · exact fun h => ⟨i, path, rfl, h⟩
    · rintro ⟨_, _, heq, h⟩
      cases heq
      exact h

theorem argumentCaptures_keyword {arg : Option String} (path : List Nat) :
    ArgumentCaptures (.node (.keyword arg) span children) path ↔
      Along Captures children path := by
  refine Iff.trans ⟨fun h => ?_, ?_⟩ along_iff.symm
  · cases h with
    | positional h =>
      cases h with
      | sequence hkind => cases hkind
    | keyword found inside => exact ⟨_, _, _, rfl, found, inside⟩
  · rintro ⟨_, _, _, rfl, found, inside⟩
    exact .keyword found inside

theorem argumentCaptures_positional (h : ∀ arg, t.kind ≠ .keyword arg) (path : List Nat) :
    ArgumentCaptures t path ↔ Captures t path := by
  refine ⟨fun hcaptures => ?_, .positional⟩
  cases hcaptures with
  | positional hcaptures => exact hcaptures
  | keyword => exact absurd rfl (h _)

/-- The names that entries capture are in the value after a key or behind both. -/
theorem entryCaptures_pair : ¬ EntryCaptures (key :: value :: rest) [] ∧
    (∀ path, ¬ EntryCaptures (key :: value :: rest) (0 :: path)) ∧
    (∀ path, EntryCaptures (key :: value :: rest) (1 :: path) ↔ Captures value path) ∧
    ∀ path, EntryCaptures rest path ↔
      later (later (EntryCaptures (key :: value :: rest))) path := by
  refine ⟨nofun, fun path h => ?_, fun path => ⟨fun h => ?_, .value⟩, fun path => ?_⟩
  · cases h
  · cases h
    assumption
  · cases path with
    | nil => exact iff_of_false nofun id
    | cons i path =>
      refine ⟨.later, fun h => ?_⟩
      cases h
      assumption

/-- A single entry captures the name that takes the rest. -/
theorem entryCaptures_unpack (path : List Nat) :
    EntryCaptures [.node .dictUnpack span children] path ↔ children ≠ [] ∧ path = [0, 0] := by
  constructor
  · intro h
    cases h
    exact ⟨List.cons_ne_nil _ _, rfl⟩
  · rintro ⟨hne, rfl⟩
    obtain ⟨target, others, rfl⟩ := List.exists_cons_of_ne_nil hne
    exact .rest

theorem not_entryCaptures_single (h : key.kind ≠ .dictUnpack) (path : List Nat) :
    ¬ EntryCaptures [key] path := by
  intro hcaptures
  cases hcaptures
  exact h rfl

mutual

/-- What is accepted differs from what was read only in the captured names, which are bound. -/
theorem marks_of_bind : ∀ {t u : Tree} {slot : Slot}, Pattern.bind slot t = .ok u →
    Marks (CapturedIn slot t) t u
  | .node kind span children, u, slot, h => by
    have hrefused : ∀ fault, demandOf slot kind span children ≠ .refused fault := by
      intro fault hdemand
      rw [bind_node, hdemand] at h
      cases h
    have hcaptured : ∀ path, CapturedIn slot (.node kind span children) path ↔
        CapturedBy (demandOf slot kind span children) children path :=
      fun path => capturedIn_node hrefused
    refine Marks.of_iff ?_ hcaptured
    rw [bind_node] at h
    have hasks : Asks slot _ _ kind (demandOf slot kind span children) := asks_demand _ _ _ _
    generalize demandOf slot kind span children = asked at h hasks ⊢
    cases hasks with
    | path | literal =>
      cases h
      exact marks_self (fun _ => id) _
    | name =>
      cases h
      exact marks_capture rfl
    | star _ hname =>
      cases h
      exact (marksAll_captureFirst hname).node
    | access | alternatives | named =>
      obtain ⟨marked, hmarked, h⟩ := except_bind_eq_ok h
      cases h
      exact (marksAll_of_bindAll hmarked).node
    | sequence =>
      obtain ⟨_, _, h⟩ := except_bind_eq_ok h
      obtain ⟨marked, hmarked, h⟩ := except_bind_eq_ok h
      cases h
      exact (marksAll_of_bindAll hmarked).node
    | call =>
      obtain ⟨_, _, h⟩ := except_bind_eq_ok h
      obtain ⟨marked, hmarked, h⟩ := except_bind_eq_ok h
      cases h
      exact (marksAll_of_bindClass hmarked).node
    | dict =>
      obtain ⟨_, hcheck, h⟩ := except_bind_eq_ok h
      obtain ⟨marked, hmarked, h⟩ := except_bind_eq_ok h
      cases h
      exact (marksAll_of_bindEntries hmarked hcheck).node
    | refused => cases h
termination_by structural t => t

theorem marksAll_of_bindAll : ∀ {ts us : List Tree} {slot : Slot}, bindAll slot ts = .ok us →
    MarksAll (Along (CapturedIn slot) ts) ts us
  | [], us, slot, h => by
    cases h
    exact .nil not_along_nil
  | t :: ts, us, slot, h => by
    unfold bindAll at h
    obtain ⟨more, hmore, h⟩ := except_bind_eq_ok h
    obtain ⟨u, hfirst, h⟩ := except_bind_eq_ok h
    cases h
    exact .cons id ((marks_of_bind hfirst).of_iff (along_zero t ts))
      ((marksAll_of_bindAll hmore).of_iff fun path => (along_later t ts path).symm)
termination_by structural ts => ts

theorem marksAll_of_bindClass : ∀ {ts us : List Tree}, bindClass ts = .ok us →
    MarksAll (CapturedBy .arguments ts) ts us
  | [], us, h => by
    cases h
    exact .nil fun _ ⟨_, _, _, hnone⟩ => not_along_nil _ hnone
  | callee :: arguments, us, h => by
    unfold bindClass at h
    obtain ⟨more, hmore, h⟩ := except_bind_eq_ok h
    obtain ⟨u, hfirst, h⟩ := except_bind_eq_ok h
    cases h
    exact .cons nofun ((marks_of_bind hfirst).of_iff fun path => iff_of_false nofun id)
      ((marksAll_of_bindArguments hmore).of_iff fun path => capturedBy_arguments.symm)
termination_by structural ts => ts

theorem marksAll_of_bindArguments : ∀ {ts us : List Tree}, bindArguments ts = .ok us →
    MarksAll (Along ArgumentCaptures ts) ts us
  | [], us, h => by
    cases h
    exact .nil not_along_nil
  | .node kind span children :: ts, us, h => by
    have hcons : ∀ {u more}, Marks (ArgumentCaptures (.node kind span children))
        (.node kind span children) u → bindArguments ts = .ok more →
        MarksAll (Along ArgumentCaptures (.node kind span children :: ts))
          (.node kind span children :: ts) (u :: more) := fun hfirst hmore =>
      .cons id (hfirst.of_iff (along_zero _ ts))
        ((marksAll_of_bindArguments hmore).of_iff fun path => (along_later _ ts path).symm)
    unfold bindArguments at h
    split at h <;> rename_i heq <;> cases heq
    · obtain ⟨more, hmore, h⟩ := except_bind_eq_ok h
      obtain ⟨marked, hmarked, h⟩ := except_bind_eq_ok h
      cases h
      exact hcons ((marksAll_of_bindAll hmarked).of_iff argumentCaptures_keyword).node hmore
    · next hkeyword =>
      obtain ⟨more, hmore, h⟩ := except_bind_eq_ok h
      obtain ⟨u, hfirst, h⟩ := except_bind_eq_ok h
      cases h
      refine hcons ((marks_of_bind hfirst).of_iff (argumentCaptures_positional ?_)) hmore
      rintro arg rfl
      exact hkeyword _ _ _ rfl
termination_by structural ts => ts

theorem marksAll_of_bindEntries : ∀ {ts us : List Tree}, bindEntries ts = .ok us →
    checkEntries ts = .ok () → MarksAll (EntryCaptures ts) ts us
  | [], us, h, hcheck => by
    cases h
    exact .nil nofun
  | [.node kind span children], us, h, hcheck => by
    by_cases hkind : (Tree.node kind span children).kind = .dictUnpack
    · cases hkind
      cases h
      have hname := (Bool.and_eq_true_iff.1 (checkEntries_unpack_iff.1 hcheck)).1
      refine .cons (by simp [entryCaptures_unpack])
        ((marksAll_captureFirst hname).node.of_iff fun path => ?_) (.nil fun path hpath => ?_)
      · simp [entryCaptures_unpack]
      · cases path <;> cases hpath
    · rw [bindEntries_key hkind] at h
      obtain ⟨u, hkey, h⟩ := except_bind_eq_ok h
      cases h
      have hnone := not_entryCaptures_single hkind
      refine .cons (hnone _) ((marks_of_bind hkey).of_iff fun path => iff_of_false (hnone _) id)
        (.nil fun path hpath => ?_)
      cases path with
      | nil => exact hpath
      | cons i path => exact hnone _ hpath
  | key :: value :: rest, us, h, hcheck => by
    obtain ⟨htop, hnone, hvalue, hlater⟩ : _ := @entryCaptures_pair key value rest
    by_cases hkind : key.kind = .dictUnpack
    · obtain ⟨kind, span, children⟩ := key
      cases hkind
      cases hcheck
    · rw [checkEntries_pair hkind] at hcheck
      rw [bindEntries_pair hkind] at h
      obtain ⟨more, hmore, h⟩ := except_bind_eq_ok h
      obtain ⟨second, hsecond, h⟩ := except_bind_eq_ok h
      obtain ⟨first, hfirst, h⟩ := except_bind_eq_ok h
      cases h
      refine .cons htop ((marks_of_bind hfirst).of_iff fun path => iff_of_false (hnone path) id)
        (.cons id ((marks_of_bind hsecond).of_iff hvalue) ?_)
      exact (marksAll_of_bindEntries hmore hcheck).of_iff fun path => (hlater path).symm
termination_by structural ts => ts

end

end Bind

end SnippetLint.CasePatterns
