import SnippetLint.Builder.Check
import SnippetLint.Proofs.Shapes

/-!
Case patterns. `IsPattern` says which trees are patterns. What the check asks of a node depends on
its slot and is one of a few demands on the children: both the check and the definition are read as
demands first (`bind_node`, `fills_node`), and then compared along the tree. Main statement:
`bind_ok_iff`.
-/

namespace SnippetLint.CasePatterns
open SnippetLint.Pattern hiding bind
open SnippetLint.Shapes
open SnippetLint.Derivation (Phrase)

/-! ## Patterns -/

/-- A number with this text. -/
inductive IsNumber (text : String) : Tree → Prop
  | number {span : Span} {children : List Tree} :
      IsNumber text (.node (.constant (.number text)) span children)

/-- A number with this text, or the negative of it. -/
inductive IsSigned (text : String) : Tree → Prop
  | plain {t : Tree} (number : IsNumber text t) : IsSigned text t
  | negated {t : Tree} {span : Span} (number : IsNumber text t) :
      IsSigned text (.node (.unaryOp .minus) span [t])

inductive IsLiteral : Tree → Prop
  | constant {value : Constant} {span : Span} {children : List Tree} (h : value ≠ .ellipsis) :
      IsLiteral (.node (.constant value) span children)
  | negated {text : String} {t : Tree} {span : Span} (number : IsNumber text t) :
      IsLiteral (.node (.unaryOp .minus) span [t])
  | complex {op : BinaryOp} {real imaginary : String} {t u : Tree} {span : Span}
      (sum : op = .add ∨ op = .sub) (first : IsSigned real t) (hreal : isImaginary real = false)
      (second : IsNumber imaginary u) (himaginary : isImaginary imaginary = true) :
      IsLiteral (.node (.binOp op) span [t, u])

/-- A name, with attributes or without. -/
inductive IsPath : Tree → Prop
  | name {id : String} {context : Context} {span : Span} {children : List Tree} :
      IsPath (.node (.name id context) span children)
  | access {attr : String} {context : Context} {span : Span} {t : Tree} (object : IsPath t) :
      IsPath (.node (.attribute attr context) span [t])

/-- A name with attributes. -/
inductive IsDotted : Tree → Prop
  | access {attr : String} {context : Context} {span : Span} {t : Tree} (object : IsPath t) :
      IsDotted (.node (.attribute attr context) span [t])

inductive IsKey : Tree → Prop
  | literal {t : Tree} (h : IsLiteral t) : IsKey t
  | dotted {t : Tree} (h : IsDotted t) : IsKey t

/-- Tuples and lists. -/
def isSequence : NodeKind → Bool
  | .tuple _ | .list _ => true
  | _ => false

mutual

inductive IsPattern : Tree → Prop
  | literal {t : Tree} (h : IsLiteral t) : IsPattern t
  | dotted {t : Tree} (h : IsDotted t) : IsPattern t
  | name {id : String} {context : Context} {span : Span} {children : List Tree} :
      IsPattern (.node (.name id context) span children)
  | alternatives {span : Span} {t u : Tree} (first : IsPattern t) (second : IsPattern u) :
      IsPattern (.node (.binOp .bitOr) span [t, u])
  | named {name : String} {span : Span} {t : Tree} (hname : name ≠ "_") (inside : IsPattern t) :
      IsPattern (.node (.matchAs name) span [t])
  | sequence {kind : NodeKind} {span : Span} {items : List Tree} (hkind : isSequence kind = true)
      (h : ∀ t ∈ items, IsItem t) (stars : (items.filter (·.kind.isStarred)).length ≤ 1) :
      IsPattern (.node kind span items)
  | call {span : Span} {callee : Tree} {arguments : List Tree} (path : IsPath callee)
      (h : ∀ t ∈ arguments, IsArgument t) : IsPattern (.node .call span (callee :: arguments))
  | dict {span : Span} {entries : List Tree} (h : AreEntries entries) :
      IsPattern (.node .dict span entries)

/-- An item of a sequence: a pattern, or a starred name. -/
inductive IsItem : Tree → Prop
  | pattern {t : Tree} (h : IsPattern t) : IsItem t
  | star {id : String} {context inner : Context} {span within : Span} {children : List Tree} :
      IsItem (.node (.starred context) span [.node (.name id inner) within children])

/-- An argument of a class: a pattern, by keyword or without. -/
inductive IsArgument : Tree → Prop
  | positional {t : Tree} (h : IsPattern t) : IsArgument t
  | keyword {arg : String} {span : Span} {t : Tree} (h : IsPattern t) :
      IsArgument (.node (.keyword (some arg)) span [t])

/-- The entries of a mapping: keys with patterns, and at the end it may be a name that takes the
rest. -/
inductive AreEntries : List Tree → Prop
  | nil : AreEntries []
  | rest {id : String} {context : Context} {span within : Span} {children : List Tree}
      (h : id ≠ "_") :
      AreEntries [.node .dictUnpack span [.node (.name id context) within children]]
  | pair {key value : Tree} {later : List Tree} (hkey : IsKey key) (hvalue : IsPattern value)
      (h : AreEntries later) : AreEntries (key :: value :: later)

end

/-- What may stand in a slot of a pattern. -/
def Fills : Slot → Tree → Prop
  | .pattern => IsPattern
  | .sequenceItem => IsItem
  | .mappingKey => IsKey
  | .dotted => IsPath

/-! ## Counts -/

/-- Whether keys and values pair up between the mappings that are spread. -/
def pairsUp : List Tree → Bool
  | [] => true
  | .node .dictUnpack _ _ :: ts => pairsUp ts
  | [_] => false
  | _ :: _ :: ts => pairsUp ts

/-- Whether a node has as many children as the grammar gives to its kind. -/
def hasCount (kind : NodeKind) (children : List Tree) : Bool :=
  match kind with
  | .attribute _ _ | .matchAs _ | .starred _ | .keyword _ | .dictUnpack | .unaryOp _ =>
    children.length == 1
  | .binOp _ => children.length == 2
  | .call => !children.isEmpty
  | .dict => pairsUp children
  | _ => true

/-- A tree whose nodes all have the right number of children. -/
def Counted (t : Tree) : Prop := ∀ part, Spans.Part t part → hasCount part.kind part.children = true

section Counts

variable {kind : NodeKind} {span : Span} {children : List Tree}

theorem Counted.count (h : Counted (.node kind span children)) : hasCount kind children = true :=
  h _ (.self _)

theorem Counted.inside (h : Counted (.node kind span children)) : ∀ t ∈ children, Counted t :=
  fun _ ht _ hpart => h _ (.child ht hpart)

end Counts

/-! ## Demands -/

def demandOf (slot : Slot) (kind : NodeKind) (span : Span) (children : List Tree) : Demand :=
  demand slot (isLiteral (.node kind span children)) (startsWithName children) kind

/-- What comes of a demand of a node. -/
def meet (kind : NodeKind) (span : Span) (children : List Tree) : Demand → Except ParseError Tree
  | .read => .ok (.node kind span children)
  | .capture => .ok (Pattern.capture (.node kind span children))
  | .captureFirst => .ok (.node kind span (captureFirst children))
  | .all slot => do
    let children ← bindAll slot children
    return .node kind span children
  | .sequence => do
    checkSequence children
    let children ← bindAll .sequenceItem children
    return .node kind span children
  | .arguments => do
    checkArguments (children.drop 1)
    let children ← bindClass children
    return .node kind span children
  | .entries => do
    checkEntries children
    let children ← bindEntries children
    return .node kind span children
  | .refused fault => .error ⟨fault, span.start⟩

theorem bind_node (slot : Slot) (kind : NodeKind) (span : Span) (children : List Tree) :
    Pattern.bind slot (.node kind span children) =
      meet kind span children (demandOf slot kind span children) := by
  unfold Pattern.bind demandOf demand
  by_cases hattribute : isAttribute kind = true
  · refine (if_pos hattribute).trans ?_
    rw [if_pos hattribute]
    rfl
  refine (if_neg hattribute).trans ?_
  rw [if_neg hattribute]
  by_cases hdotted : slot = .dotted
  · rw [if_pos hdotted, if_pos hdotted]
    split <;> rfl
  rw [if_neg hdotted, if_neg hdotted]
  by_cases hliteral : isLiteral (.node kind span children) = true
  · rw [if_pos hliteral, if_pos hliteral]
    rfl
  rw [if_neg hliteral, if_neg hliteral]
  by_cases hkey : slot = .mappingKey
  · rw [if_pos hkey, if_pos hkey]
    rfl
  rw [if_neg hkey, if_neg hkey]
  unfold openDemand
  cases kind with
  | starred | matchAs =>
    dsimp only
    split <;> rfl
  | binOp op => cases op <;> rfl
  | _ => rfl

/-! ## Literals -/

section Literals

variable {slot : Slot} {kind : NodeKind} {span : Span} {t : Tree} {children : List Tree}
  {text : String}

theorem number?_eq_some_iff : number? t = some text ↔ IsNumber text t := by
  constructor
  · intro h
    obtain ⟨kind, span, children⟩ := t
    unfold number? at h
    split at h
    · next heq =>
      cases heq
      cases h
      exact .number
    · cases h
  · rintro ⟨⟩
    rfl

theorem signedNumber?_eq_some_iff : signedNumber? t = some text ↔ IsSigned text t := by
  constructor
  · intro h
    obtain ⟨kind, span, children⟩ := t
    unfold signedNumber? at h
    split at h
    · next hkind hchildren =>
      cases hkind
      cases hchildren
      exact .negated (number?_eq_some_iff.1 h)
    · exact .plain (number?_eq_some_iff.1 h)
  · rintro (⟨⟨⟩⟩ | hnumber)
    · rfl
    · exact number?_eq_some_iff.2 hnumber

theorem isLiteral_iff : isLiteral t = true ↔ IsLiteral t := by
  constructor
  · intro h
    obtain ⟨kind, span, children⟩ := t
    have hcomplex : ∀ {op first second}, op = .add ∨ op = .sub →
        ((signedNumber? first).any (!isImaginary ·) && (number? second).any isImaginary) = true →
        IsLiteral (.node (.binOp op) span [first, second]) := by
      intro op first second hop hparts
      obtain ⟨hfirst, hsecond⟩ := Bool.and_eq_true_iff.1 hparts
      obtain ⟨real, hreal, hplain⟩ := (Option.any_eq_true _ _).1 hfirst
      obtain ⟨imaginary, hnumber, himaginary⟩ := (Option.any_eq_true _ _).1 hsecond
      exact .complex hop (signedNumber?_eq_some_iff.1 hreal) (by simpa using hplain)
        (number?_eq_some_iff.1 hnumber) himaginary
    unfold isLiteral at h
    split at h
    · next heq =>
      cases heq
      exact .constant (by simpa using h)
    · next heq =>
      cases heq
      obtain ⟨text, htext⟩ := Option.isSome_iff_exists.1 h
      cases signedNumber?_eq_some_iff.1 htext with
      | plain number => cases number
      | negated number => exact .negated number
    · next heq hchildren =>
      cases heq
      cases hchildren
      exact hcomplex (.inl rfl) h
    · next heq hchildren =>
      cases heq
      cases hchildren
      exact hcomplex (.inr rfl) h
    · cases h
  · intro h
    cases h with
    | constant h => simpa [isLiteral, Tree.kind] using h
    | negated number =>
      have htext := number?_eq_some_iff.2 number
      simp [isLiteral, Tree.kind, signedNumber?, Tree.children, htext]
    | complex sum first hreal second himaginary =>
      have hfirst := signedNumber?_eq_some_iff.2 first
      have hsecond := number?_eq_some_iff.2 second
      rcases sum with rfl | rfl
      all_goals simp [isLiteral, Tree.kind, Tree.children, hfirst, hreal, hsecond, himaginary]

end Literals

/-! ## What fills a slot -/

/-- Slots that patterns fill. -/
def isOpen : Slot → Bool
  | .pattern | .sequenceItem => true
  | .mappingKey | .dotted => false

/-- The demands that are not refusals, with what they tell about the node. -/
inductive Asks (slot : Slot) (literal startsName : Bool) : NodeKind → Demand → Prop
  | access {attr : String} {context : Context} :
      Asks slot literal startsName (.attribute attr context) (.all .dotted)
  | path {id : String} {context : Context} (hslot : slot = .dotted) :
      Asks slot literal startsName (.name id context) .read
  | literal {kind : NodeKind} (hslot : slot ≠ .dotted) (h : literal = true) :
      Asks slot literal startsName kind .read
  | name {id : String} {context : Context} (hslot : isOpen slot = true) :
      Asks slot literal startsName (.name id context) .capture
  | star {context : Context} (hslot : slot = .sequenceItem) (h : startsName = true) :
      Asks slot literal startsName (.starred context) .captureFirst
  | alternatives (hslot : isOpen slot = true) :
      Asks slot literal startsName (.binOp .bitOr) (.all .pattern)
  | named {name : String} (hslot : isOpen slot = true) (h : name ≠ "_") :
      Asks slot literal startsName (.matchAs name) (.all .pattern)
  | sequence {kind : NodeKind} (hslot : isOpen slot = true) (h : isSequence kind = true) :
      Asks slot literal startsName kind .sequence
  | call (hslot : isOpen slot = true) : Asks slot literal startsName .call .arguments
  | dict (hslot : isOpen slot = true) : Asks slot literal startsName .dict .entries
  | refused (kind : NodeKind) (fault : GrammarFault) :
      Asks slot literal startsName kind (.refused fault)

theorem asks_demand (slot : Slot) (literal startsName : Bool) (kind : NodeKind) :
    Asks slot literal startsName kind (demand slot literal startsName kind) := by
  unfold demand
  split
  · next h =>
    unfold isAttribute at h
    split at h
    · exact .access
    · cases h
  split
  · next hslot =>
    split
    · next h =>
      unfold NodeKind.isName at h
      split at h
      · exact .path hslot
      · cases h
    · exact .refused _ _
  next hdotted =>
  split
  · next h => exact .literal hdotted h
  split
  · exact .refused _ _
  next hkey =>
  have hslot : isOpen slot = true := by
    cases slot <;> first | rfl | contradiction
  unfold openDemand
  split
  · split
    · next h =>
      obtain ⟨hitem, hname⟩ := Bool.and_eq_true_iff.1 h
      exact .star (of_decide_eq_true hitem) hname
    · exact .refused _ _
  · exact .name hslot
  · exact .alternatives hslot
  · split
    · exact .refused _ _
    · next h => exact .named hslot h
  · exact .sequence hslot rfl
  · exact .sequence hslot rfl
  · exact .call hslot
  · exact .dict hslot
  · exact .refused _ _

/-- What has to hold of the children of a node that asks for this. -/
def Meets : Demand → List Tree → Prop
  | .read, _ | .capture, _ | .captureFirst, _ => True
  | .all slot, ts => ∀ t ∈ ts, Fills slot t
  | .sequence, ts => (ts.filter (·.kind.isStarred)).length ≤ 1 ∧ ∀ t ∈ ts, IsItem t
  | .arguments, ts => ∃ callee arguments, ts = callee :: arguments ∧ IsPath callee ∧
      ∀ t ∈ arguments, IsArgument t
  | .entries, ts => AreEntries ts
  | .refused _, _ => False

section Fills

variable {slot : Slot} {kind : NodeKind} {span : Span} {t : Tree} {children : List Tree}

theorem fills_of_pattern (hslot : isOpen slot = true) (h : IsPattern t) : Fills slot t := by
  cases slot with
  | pattern => exact h
  | sequenceItem => exact .pattern h
  | mappingKey | dotted => cases hslot

theorem fills_of_literal (hslot : slot ≠ .dotted) (h : IsLiteral t) : Fills slot t := by
  cases slot with
  | pattern => exact .literal h
  | sequenceItem => exact .pattern (.literal h)
  | mappingKey => exact .literal h
  | dotted => exact absurd rfl hslot

theorem fills_of_dotted (h : IsDotted t) : Fills slot t := by
  cases slot with
  | pattern => exact .dotted h
  | sequenceItem => exact .pattern (.dotted h)
  | mappingKey => exact .dotted h
  | dotted =>
    cases h with
    | access object => exact .access object

theorem isAttribute_of_literal (h : IsLiteral (.node kind span children)) :
    isAttribute kind = false := by
  cases h <;> rfl

theorem demandOf_literal (hslot : slot ≠ .dotted) (h : IsLiteral (.node kind span children)) :
    demandOf slot kind span children = .read := by
  unfold demandOf demand
  rw [isAttribute_of_literal h, if_neg Bool.false_ne_true, if_neg hslot,
    if_pos (isLiteral_iff.2 h)]

/-- In an open slot the kind decides if the node is no literal. -/
theorem demandOf_open (hslot : isOpen slot = true)
    (h : (isAttribute kind || isLiteral (.node kind span children)) = false) :
    demandOf slot kind span children =
      openDemand (slot = .sequenceItem && startsWithName children) kind := by
  obtain ⟨hattribute, hliteral⟩ := Bool.or_eq_false_iff.1 h
  unfold demandOf demand
  rw [hattribute, hliteral, if_neg Bool.false_ne_true, if_neg Bool.false_ne_true]
  cases slot <;> first | rfl | cases hslot

theorem meets_of_dotted (h : IsDotted (.node kind span children)) :
    Meets (demandOf slot kind span children) children := by
  cases h with
  | access object => exact List.forall_mem_singleton.2 object

theorem meets_of_pattern (hslot : isOpen slot = true) (h : IsPattern (.node kind span children)) :
    Meets (demandOf slot kind span children) children := by
  cases h with
  | literal h =>
    rw [demandOf_literal (by rintro rfl; cases hslot) h]
    trivial
  | dotted h => exact meets_of_dotted h
  | name => cases slot <;> trivial
  | alternatives first second =>
    rw [demandOf_open hslot rfl]
    exact List.forall_mem_cons.2 ⟨first, List.forall_mem_singleton.2 second⟩
  | named hname inside =>
    rw [demandOf_open hslot rfl, openDemand, if_neg hname]
    exact List.forall_mem_singleton.2 inside
  | sequence hkind h stars =>
    unfold isSequence at hkind
    split at hkind
    · rw [demandOf_open hslot rfl]
      exact ⟨stars, h⟩
    · rw [demandOf_open hslot rfl]
      exact ⟨stars, h⟩
    · cases hkind
  | call path h =>
    rw [demandOf_open hslot rfl]
    exact ⟨_, _, rfl, path, h⟩
  | dict h =>
    rw [demandOf_open hslot rfl]
    exact h

theorem meets_of_fills (h : Fills slot (.node kind span children)) :
    Meets (demandOf slot kind span children) children := by
  cases slot with
  | pattern => exact meets_of_pattern rfl h
  | sequenceItem =>
    cases h with
    | pattern h => exact meets_of_pattern rfl h
    | star => trivial
  | mappingKey =>
    cases h with
    | literal h =>
      have hslot : Slot.mappingKey ≠ .dotted := by decide
      rw [demandOf_literal hslot h]
      trivial
    | dotted h => exact meets_of_dotted h
  | dotted =>
    cases h with
    | name => trivial
    | access object => exact List.forall_mem_singleton.2 object

theorem isItem_of_star {context : Context} (hcount : children.length = 1)
    (hname : startsWithName children = true) : IsItem (.node (.starred context) span children) := by
  obtain ⟨⟨kind, within, inner⟩, rfl⟩ := List.length_eq_one_iff.1 hcount
  have hname : kind.isName = true := hname
  unfold NodeKind.isName at hname
  split at hname
  · exact .star
  · cases hname

/-- A node fills its slot if its children are what it asks for. -/
theorem fills_node (hcount : hasCount kind children = true) :
    Fills slot (.node kind span children) ↔
      Meets (demandOf slot kind span children) children := by
  refine ⟨meets_of_fills, fun h => ?_⟩
  have hasks : Asks slot _ _ kind (demandOf slot kind span children) := asks_demand _ _ _ _
  generalize demandOf slot kind span children = asked at h hasks
  cases hasks with
  | access =>
    obtain ⟨object, rfl⟩ := List.length_eq_one_iff.1 (beq_iff_eq.1 hcount)
    exact fills_of_dotted (.access (List.forall_mem_singleton.1 h))
  | path hslot =>
    subst hslot
    exact .name
  | literal hslot hliteral => exact fills_of_literal hslot (isLiteral_iff.1 hliteral)
  | name hslot => exact fills_of_pattern hslot .name
  | star hslot hname =>
    subst hslot
    exact isItem_of_star (beq_iff_eq.1 hcount) hname
  | alternatives hslot =>
    obtain ⟨first, second, rfl⟩ := List.length_eq_two.1 (beq_iff_eq.1 hcount)
    obtain ⟨hfirst, hsecond⟩ := List.forall_mem_cons.1 h
    exact fills_of_pattern hslot (.alternatives hfirst (List.forall_mem_singleton.1 hsecond))
  | named hslot hname =>
    obtain ⟨inside, rfl⟩ := List.length_eq_one_iff.1 (beq_iff_eq.1 hcount)
    exact fills_of_pattern hslot (.named hname (List.forall_mem_singleton.1 h))
  | sequence hslot hkind => exact fills_of_pattern hslot (.sequence hkind h.2 h.1)
  | call hslot =>
    obtain ⟨callee, arguments, rfl, hpath, harguments⟩ := h
    exact fills_of_pattern hslot (.call hpath harguments)
  | dict hslot => exact fills_of_pattern hslot (.dict h)
  | refused => cases h

end Fills

/-! ## Recognition -/

section Outcomes

variable {ε α β γ δ : Type} {x : Except ε α} {y : Except ε β}

theorem exists_ok_map (f : α → β) :
    (∃ b, (do let a ← x; return f a) = .ok b) ↔ ∃ a, x = .ok a := by
  cases x with
  | error error => exact ⟨nofun, nofun⟩
  | ok a => exact ⟨fun _ => ⟨a, rfl⟩, fun _ => ⟨f a, rfl⟩⟩

theorem exists_ok_pair (f : α → β → γ) :
    (∃ c, (do let a ← x; let b ← y; return f a b) = .ok c) ↔ (∃ b, y = .ok b) ∧ ∃ a, x = .ok a := by
  cases x with
  | error error => exact ⟨nofun, nofun⟩
  | ok a => exact (exists_ok_map (f a)).trans ⟨fun h => ⟨h, a, rfl⟩, And.left⟩

theorem exists_ok_triple {z : Except ε γ} (f : α → β → γ → δ) :
    (∃ d, (do let a ← x; let b ← y; let c ← z; return f a b c) = .ok d) ↔
      (∃ c, z = .ok c) ∧ (∃ b, y = .ok b) ∧ ∃ a, x = .ok a := by
  cases x with
  | error error => exact ⟨nofun, nofun⟩
  | ok a =>
    exact (exists_ok_pair (f a)).trans ⟨fun h => ⟨h.1, h.2, a, rfl⟩, fun h => ⟨h.1, h.2.1⟩⟩

theorem exists_ok_checked {check : Except ε Unit} (f : α → β) :
    (∃ b, (do check; let a ← x; return f a) = .ok b) ↔ check = .ok () ∧ ∃ a, x = .ok a := by
  cases check with
  | error error => exact ⟨nofun, nofun⟩
  | ok => exact (exists_ok_map f).trans ⟨fun h => ⟨rfl, h⟩, And.right⟩

end Outcomes

section Lists

variable {t key value : Tree} {ts rest : List Tree}

theorem invalid_ne_ok {α : Type} {start : Position} {a : α} : invalid start ≠ .ok a := by
  intro h
  cases h

theorem checkSequence_ok_iff :
    checkSequence ts = .ok () ↔ (ts.filter (·.kind.isStarred)).length ≤ 1 := by
  unfold checkSequence
  split
  · next heq =>
    rw [heq]
    exact iff_of_false invalid_ne_ok (by simp)
  · next hfew =>
    refine iff_of_true rfl ?_
    generalize ts.filter (·.kind.isStarred) = stars at hfew ⊢
    obtain _ | ⟨first, _ | ⟨second, more⟩⟩ := stars
    · exact Nat.zero_le 1
    · exact Nat.le_refl 1
    · exact absurd rfl (hfew first second more)

/-- Arguments that no class pattern has. -/
def isSpread : NodeKind → Bool
  | .keyword none | .starred _ | .generatorExp => true
  | _ => false

theorem checkArguments_eq : checkArguments (t :: ts) =
    if isSpread t.kind = true then invalid t.start else checkArguments ts := by
  rw [checkArguments]
  generalize t.kind = kind
  cases kind with
  | keyword arg => cases arg <;> rfl
  | _ => rfl

theorem checkArguments_ok_iff :
    checkArguments (t :: ts) = .ok () ↔ isSpread t.kind = false ∧ checkArguments ts = .ok () := by
  rw [checkArguments_eq]
  cases isSpread t.kind with
  | true => exact ⟨nofun, nofun⟩
  | false => exact ⟨fun h => ⟨rfl, h⟩, And.right⟩

theorem bindArguments_positional (h : ∀ arg, t.kind ≠ .keyword arg) :
    bindArguments (t :: ts) = (do
      let ts ← bindArguments ts
      let t ← Pattern.bind .pattern t
      return t :: ts) := by
  rw [bindArguments]
  rintro arg span children rfl
  exact h arg rfl

theorem no_unpack (h : key.kind ≠ .dictUnpack) (span : Span) (children : List Tree) :
    key ≠ .node .dictUnpack span children := by
  rintro rfl
  exact h rfl

theorem checkEntries_key (h : key.kind ≠ .dictUnpack) : checkEntries [key] = .ok () := by
  rw [checkEntries]
  exact no_unpack h

theorem checkEntries_pair (h : key.kind ≠ .dictUnpack) :
    checkEntries (key :: value :: rest) = checkEntries rest := by
  rw [checkEntries]
  exact no_unpack h

theorem checkEntries_unpack_iff {span : Span} {children : List Tree} :
    checkEntries [.node .dictUnpack span children] = .ok () ↔
      (startsWithName children && !children.head?.any isWildcard) = true := by
  rw [checkEntries, List.isEmpty_nil, Bool.true_and]
  split
  · next h => exact iff_of_true rfl h
  · next h => exact iff_of_false invalid_ne_ok h

theorem bindEntries_key (h : key.kind ≠ .dictUnpack) :
    bindEntries [key] = (do
      let key ← Pattern.bind .mappingKey key
      return [key]) := by
  rw [bindEntries]
  exact no_unpack h

theorem bindEntries_pair (h : key.kind ≠ .dictUnpack) :
    bindEntries (key :: value :: rest) = (do
      let rest ← bindEntries rest
      let value ← Pattern.bind .pattern value
      let key ← Pattern.bind .mappingKey key
      return key :: value :: rest) := by
  rw [bindEntries]
  exact no_unpack h

theorem pairsUp_key (h : key.kind ≠ .dictUnpack) : pairsUp [key] = false := by
  rw [pairsUp]
  exact no_unpack h

theorem pairsUp_pair (h : key.kind ≠ .dictUnpack) :
    pairsUp (key :: value :: rest) = pairsUp rest := by
  rw [pairsUp]
  exact no_unpack h

end Lists

section Recognition

variable {slot : Slot} {kind : NodeKind} {span : Span} {t key value : Tree}
  {children : List Tree}

theorem not_spread_of_pattern (h : IsPattern t) : isSpread t.kind = false := by
  cases h with
  | literal h => cases h <;> rfl
  | dotted h => cases h; rfl
  | sequence hkind =>
    unfold isSequence at hkind
    split at hkind <;> first | rfl | cases hkind
  | _ => rfl

theorem isArgument_iff (h : ∀ arg, t.kind ≠ .keyword arg) :
    IsArgument t ↔ isSpread t.kind = false ∧ IsPattern t := by
  refine ⟨fun hargument => ?_, fun hpattern => .positional hpattern.2⟩
  cases hargument with
  | positional hpattern => exact ⟨not_spread_of_pattern hpattern, hpattern⟩
  | keyword => exact absurd rfl (h _)

theorem not_pattern_of_keyword {arg : Option String} :
    ¬ IsPattern (.node (.keyword arg) span children) := by
  intro h
  cases h with
  | literal h => cases h
  | dotted h => cases h
  | sequence hkind => cases hkind

theorem isArgument_keyword_iff {arg : Option String} (hcount : children.length = 1) :
    IsArgument (.node (.keyword arg) span children) ↔
      isSpread (.keyword arg) = false ∧ ∀ t ∈ children, IsPattern t := by
  constructor
  · intro h
    cases h with
    | positional h => exact absurd h not_pattern_of_keyword
    | keyword h => exact ⟨rfl, List.forall_mem_singleton.2 h⟩
  · rintro ⟨hspread, h⟩
    cases arg with
    | none => cases hspread
    | some arg =>
      obtain ⟨value, rfl⟩ := List.length_eq_one_iff.1 hcount
      exact .keyword (List.forall_mem_singleton.1 h)

theorem not_key_of_unpack (h : key.kind = .dictUnpack) : ¬ IsKey key := by
  intro hkey
  cases hkey with
  | literal hkey => cases hkey <;> cases h
  | dotted hkey => cases hkey; cases h

theorem areEntries_pair_iff {rest : List Tree} :
    AreEntries (key :: value :: rest) ↔ IsKey key ∧ IsPattern value ∧ AreEntries rest :=
  ⟨fun | .pair hkey hvalue hrest => ⟨hkey, hvalue, hrest⟩,
    fun ⟨hkey, hvalue, hrest⟩ => .pair hkey hvalue hrest⟩

theorem areEntries_unpack_iff (hcount : children.length = 1) :
    AreEntries [.node .dictUnpack span children] ↔
      (startsWithName children && !children.head?.any isWildcard) = true := by
  obtain ⟨⟨kind, within, inner⟩, rfl⟩ := List.length_eq_one_iff.1 hcount
  constructor
  · intro h
    cases h with
    | rest h => simpa [startsWithName, isWildcard, Tree.kind, NodeKind.isName] using h
  · intro h
    obtain ⟨hname, hwildcard⟩ := Bool.and_eq_true_iff.1 h
    have hname : kind.isName = true := hname
    unfold NodeKind.isName at hname
    split at hname
    · exact .rest (by simpa [isWildcard, Tree.kind] using hwildcard)
    · cases hname

mutual

/-- A tree is accepted in a slot if and only if it fills it. -/
theorem bind_ok_iff : ∀ (t : Tree) (slot : Slot), Counted t →
    ((∃ u, Pattern.bind slot t = .ok u) ↔ Fills slot t)
  | .node kind span children, slot, h => by
    rw [bind_node, fills_node h.count]
    have hasks : Asks slot _ _ kind (demandOf slot kind span children) := asks_demand _ _ _ _
    generalize demandOf slot kind span children = asked at hasks ⊢
    cases hasks with
    | path | literal | name | star => exact ⟨fun _ => trivial, fun _ => ⟨_, rfl⟩⟩
    | access | alternatives | named =>
      exact (exists_ok_map _).trans (bindAll_ok_iff children _ h.inside)
    | sequence =>
      exact (exists_ok_checked _).trans
        (and_congr checkSequence_ok_iff (bindAll_ok_iff children .sequenceItem h.inside))
    | call =>
      have hne : children ≠ [] := by simpa [hasCount] using h.count
      exact (exists_ok_checked _).trans (bindClass_ok_iff children h.inside hne)
    | dict =>
      exact (exists_ok_checked _).trans (bindEntries_ok_iff children h.inside h.count)
    | refused => exact ⟨nofun, nofun⟩
termination_by structural t => t

theorem bindAll_ok_iff : ∀ (ts : List Tree) (slot : Slot), (∀ t ∈ ts, Counted t) →
    ((∃ us, bindAll slot ts = .ok us) ↔ ∀ t ∈ ts, Fills slot t)
  | [], _, _ => ⟨fun _ => List.forall_mem_nil _, fun _ => ⟨[], rfl⟩⟩
  | t :: ts, slot, h => by
    obtain ⟨ht, hts⟩ := List.forall_mem_cons.1 h
    rw [bindAll, List.forall_mem_cons, exists_ok_pair]
    exact and_congr (bind_ok_iff t slot ht) (bindAll_ok_iff ts slot hts)
termination_by structural ts => ts

theorem bindClass_ok_iff : ∀ ts : List Tree, (∀ t ∈ ts, Counted t) → ts ≠ [] →
    ((checkArguments (ts.drop 1) = .ok () ∧ ∃ us, bindClass ts = .ok us) ↔ Meets .arguments ts)
  | [], _, hne => absurd rfl hne
  | callee :: arguments, h, _ => by
    obtain ⟨hcallee, harguments⟩ := List.forall_mem_cons.1 h
    have hpath := bind_ok_iff callee .dotted hcallee
    have hall := bindArguments_ok_iff arguments harguments
    rw [bindClass, exists_ok_pair, and_left_comm]
    refine (and_congr hpath hall).trans ⟨fun h => ⟨_, _, rfl, h⟩, ?_⟩
    rintro ⟨_, _, heq, h⟩
    cases heq
    exact h
termination_by structural ts => ts

/-- Arguments are accepted if and only if they are patterns, by keyword or without. -/
theorem bindArguments_ok_iff : ∀ ts : List Tree, (∀ t ∈ ts, Counted t) →
    ((checkArguments ts = .ok () ∧ ∃ us, bindArguments ts = .ok us) ↔ ∀ t ∈ ts, IsArgument t)
  | [], _ => ⟨fun _ => List.forall_mem_nil _, fun _ => ⟨rfl, [], rfl⟩⟩
  | .node kind span children :: ts, h => by
    obtain ⟨ht, hts⟩ := List.forall_mem_cons.1 h
    have hrest := bindArguments_ok_iff ts hts
    rw [checkArguments_ok_iff, List.forall_mem_cons, ← hrest]
    by_cases hkeyword : ∃ arg, kind = .keyword arg
    · obtain ⟨arg, rfl⟩ := hkeyword
      have hvalue : _ ↔ ∀ t ∈ children, IsPattern t :=
        bindAll_ok_iff children .pattern ht.inside
      rw [bindArguments, exists_ok_pair, isArgument_keyword_iff (beq_iff_eq.1 ht.count), ← hvalue]
      exact and_and_and_comm
    · have hkind : ∀ arg, (Tree.node kind span children).kind ≠ .keyword arg :=
        fun arg heq => hkeyword ⟨arg, heq⟩
      have hvalue : _ ↔ IsPattern (.node kind span children) := bind_ok_iff _ .pattern ht
      rw [bindArguments_positional hkind, exists_ok_pair, isArgument_iff hkind, ← hvalue]
      exact and_and_and_comm
termination_by structural ts => ts

/-- Entries are accepted if and only if they are those of a mapping. -/
theorem bindEntries_ok_iff : ∀ ts : List Tree, (∀ t ∈ ts, Counted t) → pairsUp ts = true →
    ((checkEntries ts = .ok () ∧ ∃ us, bindEntries ts = .ok us) ↔ AreEntries ts)
  | [], _, _ => ⟨fun _ => .nil, fun _ => ⟨rfl, [], rfl⟩⟩
  | [.node kind span children], h, hpairs => by
    have hkey := h _ (List.mem_singleton_self _)
    by_cases hkind : (Tree.node kind span children).kind = .dictUnpack
    · cases hkind
      rw [areEntries_unpack_iff (beq_iff_eq.1 hkey.count), ← checkEntries_unpack_iff]
      exact ⟨And.left, fun h => ⟨h, _, rfl⟩⟩
    · rw [pairsUp_key hkind] at hpairs
      cases hpairs
  | key :: value :: rest, h, hpairs => by
    obtain ⟨hkey, h⟩ := List.forall_mem_cons.1 h
    obtain ⟨hvalue, hrest⟩ := List.forall_mem_cons.1 h
    rw [areEntries_pair_iff]
    by_cases hkind : key.kind = .dictUnpack
    · obtain ⟨kind, span, children⟩ := key
      cases hkind
      exact ⟨fun hok => absurd hok.1 nofun, fun hpair => absurd hpair.1 (not_key_of_unpack rfl)⟩
    · rw [pairsUp_pair hkind] at hpairs
      have hrest := bindEntries_ok_iff rest hrest hpairs
      have hvalue : _ ↔ IsPattern value := bind_ok_iff value .pattern hvalue
      have hkey : _ ↔ IsKey key := bind_ok_iff key .mappingKey hkey
      rw [checkEntries_pair hkind, bindEntries_pair hkind, exists_ok_triple, ← hrest, ← hvalue,
        ← hkey]
      exact and_left_comm.trans (and_congr_right fun _ => and_left_comm)
termination_by structural ts => ts

end

end Recognition

/-! ## What the parser reads -/

section Shaped

variable {captures : Bool} {phrase : Phrase} {kind : NodeKind} {shape : Shape} {t : Tree}
  {ts rest children : List Tree}

/-- What is spread stands only for itself or for what remains of a mapping. -/
theorem not_dictUnpack_of_shaped (h : Shaped captures phrase t) (hspread : phrase ≠ .spread)
    (hremainder : phrase ≠ .remainder) : t.kind ≠ .dictUnpack := by
  obtain ⟨kind, span, children⟩ := t
  rintro rfl
  cases phrase with
  | spread => exact hspread rfl
  | remainder => exact hremainder rfl
  | pattern slot => cases slot <;> exact not_fits_zero (shaped_iff.1 h)
  | target action =>
    have hzero : ofTarget action .dictUnpack = 0 := ofTarget_eq_zero rfl
    exact not_fits_zero (hzero ▸ shaped_target.1 h)
  | _ => exact not_fits_zero (shaped_iff.1 h)

theorem pairsUp_star (step : ∀ us rest, Shapes.Fits captures shape us → pairsUp rest = true →
      pairsUp (us ++ rest) = true) (h : Shapes.Fits captures shape.star ts)
    (hrest : pairsUp rest = true) : pairsUp (ts ++ rest) = true := by
  induction hn : ts.length using Nat.strong_induction_on generalizing ts with
  | _ n ih =>
    subst hn
    cases ts with
    | nil => exact hrest
    | cons t ts =>
      obtain ⟨front, back, rfl, hfront, hback⟩ := fits_star_cons h
      have hshorter : back.length < (t :: (front ++ back)).length := by
        rw [List.length_cons, List.length_append]
        omega
      have hlater := ih back.length hshorter hback rfl
      rw [← List.cons_append, List.append_assoc]
      exact step _ _ hfront hlater

theorem pairsUp_of_pair {key other : Phrase} (h : Shapes.Fits captures (child key * child other) ts)
    (hspread : key ≠ .spread) (hremainder : key ≠ .remainder) (hrest : pairsUp rest = true) :
    pairsUp (ts ++ rest) = true := by
  obtain ⟨first, second, rfl, hfirst, _⟩ := fits_pair.1 h
  exact (pairsUp_pair (not_dictUnpack_of_shaped hfirst hspread hremainder)).trans hrest

theorem pairsUp_of_entries (h : Shapes.Fits captures entries ts) : pairsUp ts = true := by
  rw [← List.append_nil ts]
  refine pairsUp_star (fun us rest hword hrest => ?_) h rfl
  rcases fits_add.1 hword with hpair | hspread
  · exact pairsUp_of_pair hpair nofun nofun hrest
  · obtain ⟨t, rfl, ht⟩ := fits_child.1 hspread
    obtain ⟨span, children, rfl, _⟩ := cases_of_spread ht
    exact hrest

theorem pairsUp_of_dict (h : Shapes.Fits captures (shapeOf captures phrase .dict) ts) :
    pairsUp ts = true := by
  rcases keyed_cases h rfl with hvalue | hpattern
  · rcases fits_add.1 hvalue with hentries | hfrom
    · exact pairsUp_of_entries hentries
    · obtain ⟨key, _, rfl, hkey, hrest⟩ := fits_child_mul.1 hfrom
      obtain ⟨value, rest, rfl, _, hrest⟩ := fits_child_mul.1 hrest
      exact (pairsUp_pair (not_dictUnpack_of_shaped hkey nofun nofun)).trans
        (pairsUp_of_entries hrest)
  · obtain ⟨pairs, rest, rfl, hpairs, hrest⟩ := fits_mul.1 hpattern
    refine pairsUp_star (fun us rest hword hlater => ?_) hpairs ?_
    · exact pairsUp_of_pair hword nofun nofun hlater
    rcases fits_optional.1 hrest with rfl | hremainder
    · rfl
    · obtain ⟨⟨kind, span, children⟩, rfl, ht⟩ := fits_child.1 hremainder
      rw [shaped_iff] at ht
      cases kind <;> first | rfl | exact absurd ht not_fits_zero

/-- Kinds of one child. -/
def hasOneChild : NodeKind → Bool
  | .attribute _ _ | .matchAs _ | .starred _ | .keyword _ | .dictUnpack | .unaryOp _ => true
  | _ => false

/-- Whatever phrase they stand for, their shape is one child; or they cannot stand for it. -/
theorem shapeOf_hasOneChild (hkind : hasOneChild kind = true) :
    shapeOf captures phrase kind = 0 ∨ ∃ p, shapeOf captures phrase kind = child p := by
  cases kind with
  | «attribute» _ context | starred context =>
    cases phrase with
    | target action =>
      show ofTarget action _ = 0 ∨ ∃ p, ofTarget action _ = child p
      unfold ofTarget
      dsimp only
      repeat' split
      all_goals first | exact .inl rfl | exact .inr ⟨_, rfl⟩
    | pattern slot =>
      cases slot <;> cases context <;> first | exact .inl rfl | exact .inr ⟨_, rfl⟩
    | value | item | index | argument | patternArgument =>
      cases context <;> first | exact .inl rfl | exact .inr ⟨_, rfl⟩
    | _ => exact .inl rfl
  | unaryOp op =>
    cases phrase with
    | target => exact .inl (ofTarget_eq_zero rfl)
    | pattern slot => cases slot <;> cases op <;> first | exact .inl rfl | exact .inr ⟨_, rfl⟩
    | patternArgument => cases op <;> first | exact .inl rfl | exact .inr ⟨_, rfl⟩
    | _ => first | exact .inl rfl | exact .inr ⟨_, rfl⟩
  | keyword arg =>
    cases phrase with
    | target => exact .inl (ofTarget_eq_zero rfl)
    | pattern slot => cases slot <;> exact .inl rfl
    | argument => exact .inr ⟨_, rfl⟩
    | patternArgument => cases arg <;> first | exact .inl rfl | exact .inr ⟨_, rfl⟩
    | _ => exact .inl rfl
  | matchAs | dictUnpack =>
    cases phrase with
    | target => exact .inl (ofTarget_eq_zero rfl)
    | pattern slot => cases slot <;> first | exact .inl rfl | exact .inr ⟨_, rfl⟩
    | value | item | index | argument =>
      cases captures <;> first | exact .inl rfl | exact .inr ⟨_, rfl⟩
    | _ => first | exact .inl rfl | exact .inr ⟨_, rfl⟩
  | _ => cases hkind

theorem shapeOf_binOp (op : BinaryOp) : shapeOf captures phrase (.binOp op) = 0 ∨
    ∃ p q, shapeOf captures phrase (.binOp op) = child p * child q := by
  cases phrase with
  | target => exact .inl (ofTarget_eq_zero rfl)
  | pattern slot => cases slot <;> cases op <;> first | exact .inl rfl | exact .inr ⟨_, _, rfl⟩
  | patternArgument => cases op <;> first | exact .inl rfl | exact .inr ⟨_, _, rfl⟩
  | _ => first | exact .inl rfl | exact .inr ⟨_, _, rfl⟩

theorem shapeOf_call : shapeOf captures phrase .call = 0 ∨
    ∃ p shape, shapeOf captures phrase .call = child p * shape := by
  cases phrase with
  | target => exact .inl (ofTarget_eq_zero rfl)
  | pattern slot => cases slot <;> first | exact .inl rfl | exact .inr ⟨_, _, rfl⟩
  | _ => first | exact .inl rfl | exact .inr ⟨_, _, rfl⟩

theorem hasCount_of_fits (h : Shapes.Fits captures (shapeOf captures phrase kind) children) :
    hasCount kind children = true := by
  have hone : hasOneChild kind = true → (children.length == 1) = true := by
    intro hkind
    rcases shapeOf_hasOneChild hkind with hzero | ⟨p, hchild⟩
    · exact absurd (hzero ▸ h) not_fits_zero
    · obtain ⟨t, rfl, _⟩ := fits_child.1 (hchild ▸ h)
      rfl
  cases kind with
  | «attribute» | matchAs | starred | keyword | dictUnpack | unaryOp => exact hone rfl
  | binOp op =>
    rcases shapeOf_binOp op with hzero | ⟨p, q, hpair⟩
    · exact absurd (hzero ▸ h) not_fits_zero
    · obtain ⟨t, u, rfl, _⟩ := fits_pair.1 (hpair ▸ h)
      rfl
  | call =>
    rcases shapeOf_call with hzero | ⟨p, shape, hmore⟩
    · exact absurd (hzero ▸ h) not_fits_zero
    · obtain ⟨t, rest, rfl, _⟩ := fits_child_mul.1 (hmore ▸ h)
      rfl
  | dict => exact pairsUp_of_dict h
  | _ => rfl

/-- What the parser reads has the right counts. -/
theorem counted_of_shaped (h : Shaped captures phrase t) : Counted t := by
  intro part hpart
  obtain ⟨phrase, hshaped⟩ := h.part hpart
  obtain ⟨kind, span, children⟩ := part
  exact hasCount_of_fits (shaped_iff.1 hshaped)

/-- What the parser reads in the place of a pattern is accepted just if it is one. -/
theorem accepted_iff_isPattern (h : Shaped true .item t) :
    (∃ u, Pattern.bind .pattern t = .ok u) ↔ IsPattern t :=
  bind_ok_iff t .pattern (counted_of_shaped h)

end Shaped

end SnippetLint.CasePatterns
