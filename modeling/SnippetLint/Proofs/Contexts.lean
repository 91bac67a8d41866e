import Mathlib.Data.List.Induction
import SnippetLint.Proofs.DerivationStatement

/-!
Contexts tell what is bound and what is deleted. Every node of a tree has a role, which the kind of
its parent and its place there decide; the grammar reads each phrase for its role, and marking a
target passes the role on to the items of a group. Main statement: `contexts_follow_roles`.
-/

namespace SnippetLint.Contexts
open SnippetLint.Derivation

/-! ## Targets in a tree -/

/-- The context of a kind that has one. -/
def context? : NodeKind → Option Context
  | .name _ context | .attribute _ context | .subscript context | .starred context
  | .list context | .tuple context => some context
  | _ => none

/-- The part of a tree at an address: which child to take, from the root down. -/
def at? (t : Tree) : List Nat → Option Tree
  | [] => some t
  | i :: path => t.children[i]?.bind fun child => at? child path

/-- Whether a node with `n` children binds the one at place `i`. -/
def bindsChild (kind : NodeKind) (n i : Nat) : Bool :=
  match kind with
  | .assign => i + 1 < n
  | .augAssign _ | .annAssign | .forStmt _ | .comprehension _ | .namedExpr => i == 0
  | .withItem => i == 1
  | _ => false

/-- The addresses of binding targets. -/
inductive Binding (root : Tree) : List Nat → Prop
  | direct {path : List Nat} {parent : Tree} {i : Nat} (found : at? root path = some parent)
      (bound : bindsChild parent.kind parent.children.length i = true) : Binding root (path ++ [i])
  | grouped {path : List Nat} {parent : Tree} {i : Nat} (found : at? root path = some parent)
      (group : isGroup parent.kind = true) (target : Binding root path) : Binding root (path ++ [i])

/-- The addresses of delete targets. -/
inductive Deleted (root : Tree) : List Nat → Prop
  | direct {path : List Nat} {parent : Tree} {i : Nat} (found : at? root path = some parent)
      (deletes : parent.kind = .deleteStmt) : Deleted root (path ++ [i])
  | grouped {path : List Nat} {parent : Tree} {i : Nat} (found : at? root path = some parent)
      (group : isGroup parent.kind = true ∧ parent.kind.isStarred = false)
      (target : Deleted root path) : Deleted root (path ++ [i])

/-- The addresses inside case patterns: a pattern is the first child of its case. -/
def InPattern (root : Tree) (path : List Nat) : Prop :=
  ∃ before after parent, path = before ++ 0 :: after ∧ at? root before = some parent ∧
    parent.kind = .matchCase

/-! ## Roles -/

inductive Role where
  | read
  | target (action : TargetAction)
  | pattern
  deriving DecidableEq

def roleOf : Phrase → Role
  | .binding => .target .assign
  | .target action => .target action
  | .pattern _ => .pattern
  | _ => .read

/-- Kinds that give one of their children a role of its own. -/
def hasSlots : NodeKind → Bool
  | .assign | .augAssign _ | .annAssign | .forStmt _ | .comprehension _ | .namedExpr | .withItem
  | .deleteStmt | .matchCase => true
  | _ => false

/-- The role of the child at place `i` of a node with `n` children. -/
def childRole (role : Role) (kind : NodeKind) (n i : Nat) : Role :=
  if bindsChild kind n i then .target .assign
  else if kind = .deleteStmt then .target .delete
  else if kind = .matchCase ∧ i = 0 then .pattern
  else if isGroup kind ∨ role = .pattern then role
  else .read

/-- The kinds that may play a role. -/
def Allowed : Role → NodeKind → Prop
  | .read, kind => ∀ context, context? kind = some context → context = .load
  | .target action, kind =>
    context? kind = some (Target.contextOf action) ∧ (action = .delete → kind.isStarred = false)
  | .pattern, kind => hasSlots kind = false

/-- The number of children of the kinds that a pattern captures without a look at all of them. -/
def arity? : NodeKind → Option Nat
  | .name _ _ | .constant _ => some 0
  | .starred _ | .dictUnpack => some 1
  | _ => none

/-- A tree whose nodes all play the roles that their places give to them. -/
inductive Plays : Role → Tree → Prop
  | node {role : Role} {kind : NodeKind} {span : Span} {children : List Tree}
      (allowed : Allowed role kind) (arity : ∀ n, arity? kind = some n → children.length = n)
      (inside : ∀ i child, children[i]? = some child →
        Plays (childRole role kind children.length i) child) :
      Plays role (.node kind span children)

theorem bindsChild_of_not_hasSlots {kind : NodeKind} (h : hasSlots kind = false) (n i : Nat) :
    bindsChild kind n i = false := by
  revert h
  unfold hasSlots bindsChild
  split <;> simp

theorem childRole_of_not_hasSlots {kind : NodeKind} (h : hasSlots kind = false) (role : Role)
    (n i : Nat) :
    childRole role kind n i = if isGroup kind ∨ role = .pattern then role else .read := by
  have hdelete : kind ≠ .deleteStmt := by
    rintro rfl
    cases h
  have hcase : ¬ (kind = .matchCase ∧ i = 0) := by
    rintro ⟨rfl, _⟩
    cases h
  rw [childRole, bindsChild_of_not_hasSlots h, if_neg Bool.false_ne_true, if_neg hdelete,
    if_neg hcase]

/-! ## Productions -/

theorem read_of_entries {phrases : List Phrase} (h : Entries phrases) :
    ∀ phrase ∈ phrases, roleOf phrase = .read := by
  induction h with
  | nil => simp
  | pair _ ih => simpa [roleOf] using ih
  | spread _ ih => simpa [roleOf] using ih

theorem read_of_guards {phrases : List Phrase} (h : Guards phrases) :
    ∀ phrase ∈ phrases, roleOf phrase = .read := by
  induction h with
  | nil => simp
  | cons _ ih => simpa [roleOf] using ih

section Production

variable {captures : Bool} {phrase : Phrase} {kind : NodeKind} {phrases : List Phrase}

/-- Nodes that give no roles are made of phrases that are read. -/
theorem read_of_production (h : Production captures phrase kind phrases)
    (hslots : hasSlots kind = false) : ∀ phrase ∈ phrases, roleOf phrase = .read := by
  cases h with
  | dict ordered => exact read_of_entries ordered
  | dictFrom ordered => simpa [roleOf] using read_of_entries ordered
  | ifStmt hguards h =>
    intro phrase hphrase
    simp only [List.cons_append, List.mem_cons, List.mem_append, List.mem_replicate] at hphrase
    rcases hphrase with rfl | rfl | hphrase | ⟨_, rfl⟩
    · rfl
    · rfl
    · exact read_of_guards hguards phrase hphrase
    · rfl
  | _ =>
    first
    | exact Bool.noConfusion (show true = false from hslots)
    | simp [roleOf, or_imp, forall_and]

/-- No production is of a pattern, and no node of a group is read as a target. -/
theorem childRole_of_plain (h : Production captures phrase kind phrases)
    (hslots : hasSlots kind = false) (n i : Nat) : childRole (roleOf phrase) kind n i = .read := by
  rw [childRole_of_not_hasSlots hslots]
  cases h <;> rfl

/-- Where only the first child has a role of its own. -/
theorem childRole_cons {role : Role} {first inner : Phrase} {rest : List Phrase} {i : Nat}
    (hinner : (first :: rest)[i]? = some inner)
    (hfirst : roleOf first = childRole role kind (rest.length + 1) 0)
    (hrest : ∀ phrase ∈ rest, roleOf phrase = .read)
    (hlater : ∀ n i, childRole role kind n (i + 1) = .read) :
    roleOf inner = childRole role kind (first :: rest).length i := by
  cases i with
  | zero =>
    obtain rfl : first = inner := by simpa using hinner
    exact hfirst
  | succ i =>
    rw [List.getElem?_cons_succ] at hinner
    rw [hrest inner (List.mem_of_getElem? hinner), hlater]

/-- The phrases of a node are read for the roles that the node gives to its children. -/
theorem childRole_of_production (h : Production captures phrase kind phrases) {i : Nat}
    {inner : Phrase} (hinner : phrases[i]? = some inner) :
    roleOf inner = childRole (roleOf phrase) kind phrases.length i := by
  cases hslots : hasSlots kind with
  | false =>
    rw [read_of_production h hslots inner (List.mem_of_getElem? hinner),
      childRole_of_plain h hslots]
  | true =>
    cases h with
    | namedExpr | augAssign | declaration | annAssign | comprehension | forStmt =>
      exact childRole_cons hinner rfl (by simp [roleOf]) fun _ _ => rfl
    | matchCase =>
      exact childRole_cons hinner rfl (by simp [roleOf, or_imp, forall_and]) fun _ _ => rfl
    | context | deleteStmt =>
      cases i with
      | zero => cases hinner; rfl
      | succ i => cases hinner
    | boundContext =>
      match i, hinner with
      | 0, rfl => rfl
      | 1, rfl => rfl
    | assign n =>
      -- all but the last child are targets
      rw [List.length_append, List.length_replicate, List.length_singleton]
      generalize n + 1 = n at hinner ⊢
      by_cases hi : i < n
      · rw [List.getElem?_append_left (by simpa using hi), List.getElem?_replicate, if_pos hi]
          at hinner
        cases hinner
        simp [childRole, bindsChild, hi, roleOf]
      · have hread : roleOf inner = .read := by
          rw [List.getElem?_append_right (by simpa using hi)] at hinner
          rw [List.mem_singleton.1 (List.mem_of_getElem? hinner)]
          rfl
        rw [hread]
        simp [childRole, bindsChild, hi, isGroup, roleOf]
    | _ => exact absurd hslots Bool.false_ne_true

theorem allowed_of_production (h : Production captures phrase kind phrases) :
    Allowed (roleOf phrase) kind := by
  cases h with
  | boundName => exact ⟨rfl, nofun⟩
  | _ => simp [Allowed, roleOf, context?]

theorem arity_of_production (h : Production captures phrase kind phrases) :
    ∀ n, arity? kind = some n → phrases.length = n := by
  cases h <;> simp [arity?]

theorem plays_node {xs : List (Phrase × Tree)} {span : Span}
    (h : Production captures phrase kind (xs.map Prod.fst))
    (hxs : ∀ x ∈ xs, Plays (roleOf x.1) x.2) :
    Plays (roleOf phrase) (.node kind span (xs.map Prod.snd)) := by
  refine .node (allowed_of_production h) (fun n hn => ?_) fun i child hchild => ?_
  · rw [← arity_of_production h n hn, List.length_map, List.length_map]
  · rw [List.getElem?_map] at hchild
    obtain ⟨x, hx, rfl⟩ := Option.map_eq_some_iff.1 hchild
    have hphrase : (xs.map Prod.fst)[i]? = some x.1 := by rw [List.getElem?_map, hx]; rfl
    have hrole := childRole_of_production h hphrase
    rw [List.length_map] at hrole ⊢
    rw [← hrole]
    exact hxs x (List.mem_of_getElem? hx)

end Production

/-! ## Marking -/

section Marking

variable {action : TargetAction}

@[simp] theorem hasSlots_inContext (context : Context) (kind : NodeKind) :
    hasSlots (inContext context kind) = hasSlots kind := by
  cases kind <;> rfl

@[simp] theorem isGroup_inContext (context : Context) (kind : NodeKind) :
    isGroup (inContext context kind) = isGroup kind := by
  cases kind <;> rfl

@[simp] theorem isStarred_inContext (context : Context) (kind : NodeKind) :
    (inContext context kind).isStarred = kind.isStarred := by
  cases kind <;> rfl

@[simp] theorem arity?_inContext (context : Context) (kind : NodeKind) :
    arity? (inContext context kind) = arity? kind := by
  cases kind <;> rfl

theorem single_cases {kind : NodeKind} (h : Target.isSingle kind = true) (context : Context) :
    hasSlots kind = false ∧ isGroup kind = false ∧ kind.isStarred = false ∧
      context? (inContext context kind) = some context := by
  unfold Target.isSingle at h
  split at h
  · exact ⟨rfl, rfl, rfl, rfl⟩
  · exact ⟨rfl, rfl, rfl, rfl⟩
  · exact ⟨rfl, rfl, rfl, rfl⟩
  · cases h

theorem group_cases {kind : NodeKind} (h : isGroup kind = true) (context : Context) :
    hasSlots kind = false ∧ context? (inContext context kind) = some context := by
  unfold isGroup at h
  split at h
  · exact ⟨rfl, rfl⟩
  · exact ⟨rfl, rfl⟩
  · exact ⟨rfl, rfl⟩
  · cases h

theorem markAll_getElem? {ts us : List Tree} (h : Target.markAll action ts = .ok us) :
    us.length = ts.length ∧ ∀ (i : Nat) (u : Tree), us[i]? = some u →
      ∃ t, ts[i]? = some t ∧ Target.mark action t = .ok u := by
  induction ts generalizing us with
  | nil =>
    cases h
    exact ⟨rfl, by simp⟩
  | cons t ts ih =>
    obtain ⟨u, rest, hfirst, hrest, rfl⟩ := markAll_cons h
    obtain ⟨hlength, hall⟩ := ih hrest
    refine ⟨congrArg (· + 1) hlength, fun i v hv => ?_⟩
    cases i with
    | zero =>
      cases hv
      exact ⟨t, rfl, hfirst⟩
    | succ i => exact hall i v hv

/-- What was read becomes a target, with the items of a group. -/
theorem plays_mark {role : Role} {t u : Tree} (h : Plays role t) (hrole : role = .read)
    (hmark : Target.mark action t = .ok u) : Plays (.target action) u := by
  induction h generalizing u with
  | @node role kind span children allowed arity inside ih =>
    subst hrole
    obtain ⟨_, _, _, marked, heq, rfl, hcases⟩ := mark_cases hmark
    cases heq
    rcases hcases with ⟨hsingle, rfl⟩ | ⟨hgroup, hstarred, hmarked⟩
    · obtain ⟨hslots, hgroup, hstarred, hcontext⟩ := single_cases hsingle (Target.contextOf action)
      refine .node ⟨hcontext, fun _ => by rw [isStarred_inContext, hstarred]⟩ (by simpa using arity)
        fun i child hchild => ?_
      have hinside := inside i child hchild
      rw [childRole_of_not_hasSlots hslots] at hinside
      rw [childRole_of_not_hasSlots (by rw [hasSlots_inContext, hslots])]
      simpa [hgroup] using hinside
    · obtain ⟨hslots, hcontext⟩ := group_cases hgroup (Target.contextOf action)
      obtain ⟨hlength, hall⟩ := markAll_getElem? hmarked
      refine .node ⟨hcontext, fun hdelete => by rw [isStarred_inContext, hstarred hdelete]⟩
        (by simpa [hlength] using arity) fun i child hchild => ?_
      obtain ⟨t, ht, hmark⟩ := hall i child hchild
      rw [childRole_of_not_hasSlots (by rw [hasSlots_inContext, hslots])]
      have hitem := ih i t ht (by rw [childRole_of_not_hasSlots hslots]; simp) hmark
      simpa [hgroup] using hitem

end Marking

/-! ## Patterns -/

section Patterns

variable {kind : NodeKind} {span : Span} {children : List Tree}

theorem Plays.read_children (h : Plays .read (.node kind span children))
    (hslots : hasSlots kind = false) : ∀ child ∈ children, Plays .read child := by
  cases h with
  | node allowed arity inside =>
    intro child hchild
    obtain ⟨i, hi⟩ := List.mem_iff_getElem?.1 hchild
    have hinside := inside i child hi
    rw [childRole_of_not_hasSlots hslots] at hinside
    simpa using hinside

theorem Plays.arity {role : Role} (h : Plays role (.node kind span children)) :
    ∀ n, arity? kind = some n → children.length = n := by
  cases h with
  | node allowed arity inside => exact arity

theorem plays_pattern (hslots : hasSlots kind = false)
    (arity : ∀ n, arity? kind = some n → children.length = n)
    (h : ∀ child ∈ children, Plays .pattern child) : Plays .pattern (.node kind span children) := by
  refine .node hslots arity fun i child hchild => ?_
  rw [childRole_of_not_hasSlots hslots]
  simpa using h child (List.mem_of_getElem? hchild)

/-- A node without children holds no target. -/
theorem plays_leaf (hleaf : arity? kind = some 0) (h : Plays .read (.node kind span children)) :
    Plays .pattern (.node kind span children) := by
  have hnil : children = [] := List.eq_nil_of_length_eq_zero (h.arity 0 hleaf)
  have hslots : hasSlots kind = false := by
    unfold arity? at hleaf
    split at hleaf <;> first | rfl | cases hleaf
  exact plays_pattern hslots h.arity (by simp [hnil])

theorem plays_number {t : Tree} {text : String} (h : Plays .read t)
    (hnumber : Pattern.number? t = some text) : Plays .pattern t := by
  obtain ⟨kind, span, children⟩ := t
  unfold Pattern.number? at hnumber
  split at hnumber
  · next heq =>
    cases heq
    exact plays_leaf rfl h
  · cases hnumber

theorem plays_signed {t : Tree} {text : String} (h : Plays .read t)
    (hnumber : Pattern.signedNumber? t = some text) : Plays .pattern t := by
  obtain ⟨kind, span, children⟩ := t
  unfold Pattern.signedNumber? at hnumber
  split at hnumber
  · next operand hkind hchildren =>
    cases hkind
    cases hchildren
    have hoperand := h.read_children rfl operand (List.mem_singleton_self operand)
    exact plays_pattern rfl nofun (by simpa using plays_number hoperand hnumber)
  · exact plays_number h hnumber

theorem plays_literal {t : Tree} (h : Plays .read t) (hliteral : Pattern.isLiteral t = true) :
    Plays .pattern t := by
  obtain ⟨kind, span, children⟩ := t
  have hcomplex : ∀ {op real imaginary}, kind = .binOp op → children = [real, imaginary] →
      ((Pattern.signedNumber? real).any (!Pattern.isImaginary ·) &&
        (Pattern.number? imaginary).any Pattern.isImaginary) = true →
      Plays .pattern (.node kind span children) := by
    rintro op real imaginary rfl rfl hparts
    obtain ⟨hreal, himaginary⟩ := Bool.and_eq_true_iff.1 hparts
    obtain ⟨_, hreal, _⟩ := (Option.any_eq_true _ _).1 hreal
    obtain ⟨_, himaginary, _⟩ := (Option.any_eq_true _ _).1 himaginary
    have hchildren := h.read_children rfl
    refine plays_pattern rfl nofun ?_
    simpa using And.intro (plays_signed (hchildren real (by simp)) hreal)
      (plays_number (hchildren imaginary (by simp)) himaginary)
  unfold Pattern.isLiteral at hliteral
  split at hliteral
  · next hkind =>
    cases hkind
    exact plays_leaf rfl h
  · next hkind =>
    cases hkind
    obtain ⟨text, htext⟩ := Option.isSome_iff_exists.1 hliteral
    exact plays_signed h htext
  · next hkind hchildren => exact hcomplex hkind hchildren hliteral
  · next hkind hchildren => exact hcomplex hkind hchildren hliteral
  · cases hliteral

theorem plays_name (hname : kind.isName = true) (h : Plays .read (.node kind span children)) :
    Plays .pattern (.node kind span children) := by
  unfold NodeKind.isName at hname
  split at hname
  · exact plays_leaf rfl h
  · cases hname

theorem plays_capture {t : Tree} (hname : t.kind.isName = true) (h : Plays .read t) :
    Plays .pattern (Pattern.capture t) := by
  obtain ⟨kind, span, children⟩ := t
  have hname : kind.isName = true := hname
  unfold NodeKind.isName at hname
  split at hname
  · obtain hleaf : children.length = 0 := h.arity 0 rfl
    have hnil : children = [] := List.eq_nil_of_length_eq_zero hleaf
    exact plays_pattern rfl h.arity (by simp [hnil])
  · cases hname

/-- What holds one name and nothing else captures it. -/
theorem plays_captureFirst (hslots : hasSlots kind = false) (harity : arity? kind = some 1)
    (hname : Pattern.startsWithName children = true)
    (h : Plays .read (.node kind span children)) :
    Plays .pattern (.node kind span (Pattern.captureFirst children)) := by
  obtain ⟨child, rfl⟩ := List.length_eq_one_iff.1 (h.arity 1 harity)
  have hchild := h.read_children hslots child (List.mem_singleton_self child)
  refine plays_pattern hslots (fun n hn => ?_) ?_
  · rw [harity] at hn
    cases hn
    rfl
  · simpa [Pattern.captureFirst] using plays_capture hname hchild

mutual

/-- What has become of an expression that was read as a pattern holds no target. -/
theorem plays_bind {slot : Pattern.Slot} : ∀ {t u : Tree}, Pattern.bind slot t = .ok u →
    Plays .read t → Plays .pattern u
  | .node kind span children, u, h, hread => by
    have hall : ∀ {slot marked}, hasSlots kind = false → arity? kind = none →
        Pattern.bindAll slot children = .ok marked → Plays .pattern (.node kind span marked) := by
      intro slot marked hslots harity hmarked
      exact plays_pattern hslots (by simp [harity])
        (plays_bindAll hmarked (hread.read_children hslots))
    unfold Pattern.bind at h
    split at h
    · rw [if_pos rfl] at h
      obtain ⟨marked, hmarked, h⟩ := except_bind_eq_ok h
      cases h
      exact hall rfl rfl hmarked
    rw [if_neg Bool.false_ne_true] at h
    split at h
    · split at h
      · next hname =>
        cases h
        exact plays_name hname hread
      · cases h
    split at h
    · next hliteral =>
      cases h
      exact plays_literal hread hliteral
    split at h
    · cases h
    split at h
    · split at h
      · next hstar =>
        cases h
        exact plays_captureFirst rfl rfl (Bool.and_eq_true_iff.1 hstar).2 hread
      · cases h
    · cases h
      exact plays_capture rfl hread
    · obtain ⟨marked, hmarked, h⟩ := except_bind_eq_ok h
      cases h
      exact hall rfl rfl hmarked
    · split at h
      · cases h
      · obtain ⟨marked, hmarked, h⟩ := except_bind_eq_ok h
        cases h
        exact hall rfl rfl hmarked
    · obtain ⟨_, _, h⟩ := except_bind_eq_ok h
      obtain ⟨marked, hmarked, h⟩ := except_bind_eq_ok h
      cases h
      exact hall rfl rfl hmarked
    · obtain ⟨_, _, h⟩ := except_bind_eq_ok h
      obtain ⟨marked, hmarked, h⟩ := except_bind_eq_ok h
      cases h
      exact hall rfl rfl hmarked
    · obtain ⟨_, _, h⟩ := except_bind_eq_ok h
      obtain ⟨marked, hmarked, h⟩ := except_bind_eq_ok h
      cases h
      exact plays_pattern rfl nofun (plays_bindClass hmarked (hread.read_children rfl))
    · obtain ⟨_, hcheck, h⟩ := except_bind_eq_ok h
      obtain ⟨marked, hmarked, h⟩ := except_bind_eq_ok h
      cases h
      exact plays_pattern rfl nofun (plays_bindEntries hmarked hcheck (hread.read_children rfl))
    · cases h
termination_by structural t => t

theorem plays_bindAll {slot : Pattern.Slot} : ∀ {ts us : List Tree},
    Pattern.bindAll slot ts = .ok us → (∀ t ∈ ts, Plays .read t) → ∀ u ∈ us, Plays .pattern u
  | [], us, h, _ => by
    cases h
    simp
  | t :: ts, us, h, hread => by
    unfold Pattern.bindAll at h
    obtain ⟨rest, hrest, h⟩ := except_bind_eq_ok h
    obtain ⟨u, hfirst, h⟩ := except_bind_eq_ok h
    cases h
    obtain ⟨ht, hts⟩ := List.forall_mem_cons.1 hread
    exact List.forall_mem_cons.2 ⟨plays_bind hfirst ht, plays_bindAll hrest hts⟩
termination_by structural ts => ts

theorem plays_bindClass : ∀ {ts us : List Tree}, Pattern.bindClass ts = .ok us →
    (∀ t ∈ ts, Plays .read t) → ∀ u ∈ us, Plays .pattern u
  | [], us, h, _ => by
    cases h
    simp
  | t :: ts, us, h, hread => by
    unfold Pattern.bindClass at h
    obtain ⟨rest, hrest, h⟩ := except_bind_eq_ok h
    obtain ⟨u, hfirst, h⟩ := except_bind_eq_ok h
    cases h
    obtain ⟨ht, hts⟩ := List.forall_mem_cons.1 hread
    exact List.forall_mem_cons.2 ⟨plays_bind hfirst ht, plays_bindArguments hrest hts⟩
termination_by structural ts => ts

theorem plays_bindArguments : ∀ {ts us : List Tree}, Pattern.bindArguments ts = .ok us →
    (∀ t ∈ ts, Plays .read t) → ∀ u ∈ us, Plays .pattern u
  | [], us, h, _ => by
    unfold Pattern.bindArguments at h
    cases h
    simp
  | .node kind span children :: ts, us, h, hread => by
    obtain ⟨ht, hts⟩ := List.forall_mem_cons.1 hread
    unfold Pattern.bindArguments at h
    split at h <;> rename_i heq <;> cases heq
    · obtain ⟨rest, hrest, h⟩ := except_bind_eq_ok h
      obtain ⟨marked, hmarked, h⟩ := except_bind_eq_ok h
      cases h
      exact List.forall_mem_cons.2 ⟨plays_pattern rfl nofun
        (plays_bindAll hmarked (ht.read_children rfl)), plays_bindArguments hrest hts⟩
    · obtain ⟨rest, hrest, h⟩ := except_bind_eq_ok h
      obtain ⟨u, hfirst, h⟩ := except_bind_eq_ok h
      cases h
      exact List.forall_mem_cons.2 ⟨plays_bind hfirst ht, plays_bindArguments hrest hts⟩
termination_by structural ts => ts

theorem plays_bindEntries : ∀ {ts us : List Tree}, Pattern.bindEntries ts = .ok us →
    Pattern.checkEntries ts = .ok () → (∀ t ∈ ts, Plays .read t) → ∀ u ∈ us, Plays .pattern u
  | [], us, h, _, _ => by
    unfold Pattern.bindEntries at h
    cases h
    simp
  | [key], us, h, hcheck, hread => by
    have hkey := hread key (List.mem_singleton_self key)
    unfold Pattern.bindEntries at h
    split at h <;> rename_i heq <;> cases heq
    · obtain ⟨rest, hrest, h⟩ := except_bind_eq_ok h
      cases h
      cases hrest
      unfold Pattern.checkEntries at hcheck
      split at hcheck
      · next hname =>
        simp only [Bool.and_eq_true] at hname
        simpa using plays_captureFirst rfl rfl hname.1.2 hkey
      · cases hcheck
    · obtain ⟨u, hbind, h⟩ := except_bind_eq_ok h
      cases h
      simpa using plays_bind hbind hkey
  | key :: value :: rest, us, h, hcheck, hread => by
    obtain ⟨hkey, hread⟩ := List.forall_mem_cons.1 hread
    obtain ⟨hvalue, hrest⟩ := List.forall_mem_cons.1 hread
    unfold Pattern.bindEntries at h
    split at h <;> rename_i heq <;> cases heq
    · cases hcheck
    · obtain ⟨more, hmore, h⟩ := except_bind_eq_ok h
      obtain ⟨u, hvalued, h⟩ := except_bind_eq_ok h
      obtain ⟨w, hkeyed, h⟩ := except_bind_eq_ok h
      cases h
      have hcheck : Pattern.checkEntries rest = .ok () := by
        unfold Pattern.checkEntries at hcheck
        split at hcheck <;> rename_i heq <;> cases heq
        · contradiction
        · exact hcheck
      exact List.forall_mem_cons.2 ⟨plays_bind hkeyed hkey, List.forall_mem_cons.2
        ⟨plays_bind hvalued hvalue, plays_bindEntries hmore hcheck hrest⟩⟩
termination_by structural ts => ts

end

end Patterns

/-! ## Along a derivation -/

theorem roleOf_within {narrow wide : Phrase} (h : narrow.Within wide) :
    roleOf narrow = .read ∧ roleOf wide = .read := by
  cases h <;> exact ⟨rfl, rfl⟩

theorem plays_positionalOnly {t : Tree} (h : Plays .read t) :
    Plays .read (Expression.positionalOnly t) := by
  unfold Expression.positionalOnly
  split
  · next name kind span children =>
    refine .node nofun nofun fun i child hchild => ?_
    rw [childRole_of_not_hasSlots rfl]
    simpa [isGroup] using h.read_children rfl child (List.mem_of_getElem? hchild)
  · exact h

/-- What is read plays the role of its phrase. -/
theorem plays_of_reads {a b : ParserState} {xs : List (Phrase × Tree)} (h : Reads a xs b) :
    ∀ x ∈ xs, Plays (roleOf x.1) x.2 := by
  induction h with
  | skip => simp
  | append _ _ ihfirst ihsecond =>
    intro x hx
    rcases List.mem_append.1 hx with hx | hx
    · exact ihfirst x hx
    · exact ihsecond x hx
  | node _ production _ _ ih => simpa using plays_node production ih
  | widen within _ ih =>
    obtain ⟨hnarrow, hwide⟩ := roleOf_within within
    simpa [hnarrow, hwide] using ih
  | @mark a b before after ts us action _ marked ih =>
    intro x hx
    rw [List.append_assoc, List.mem_append, List.mem_append] at hx
    rcases hx with hx | hx | hx
    · exact ih x (by simp [hx])
    · obtain ⟨u, hu, rfl⟩ := List.mem_map.1 hx
      obtain ⟨i, hi⟩ := List.mem_iff_getElem?.1 hu
      obtain ⟨t, ht, hmark⟩ := (markAll_getElem? marked).2 i u hi
      have hread : Plays .read t := by
        refine ih (.item, t) ?_
        simp [all, List.mem_of_getElem? ht]
      exact plays_mark hread rfl hmark
    · exact ih x (by simp [hx])
  | @positional a b ts _ ih =>
    intro x hx
    obtain ⟨u, hu, rfl⟩ := List.mem_map.1 hx
    obtain ⟨t, ht, rfl⟩ := List.mem_map.1 hu
    exact plays_positionalOnly (ih (.parameter, t) (List.mem_map_of_mem ht))
  | @pattern a b t u _ bound ih =>
    have hread : Plays .read t := ih (.item, t) (List.mem_singleton_self _)
    simpa [roleOf] using plays_bind bound hread

theorem plays_of_parse {source : String} {t : Tree} (h : Module.parse source = .ok t) :
    Plays .read t := by
  obtain ⟨statements, last, hreads, rfl⟩ := reads_of_ofStream h
  refine .node nofun nofun fun i child hchild => ?_
  have hmem : (Phrase.statement, child) ∈ all .statement statements :=
    List.mem_map_of_mem (List.mem_of_getElem? hchild)
  exact plays_of_reads hreads _ hmem

/-! ## Addresses -/

theorem at?_concat (t : Tree) (path : List Nat) (i : Nat) :
    at? t (path ++ [i]) = (at? t path).bind fun parent => parent.children[i]? := by
  induction path generalizing t with
  | nil =>
    show (t.children[i]?.bind fun child => some child) = t.children[i]?
    cases t.children[i]? <;> rfl
  | cons j path ih =>
    show (t.children[j]?.bind fun child => at? child (path ++ [i])) = _
    cases hchild : t.children[j]? with
    | none => simp [at?, hchild]
    | some child => simpa [at?, hchild] using ih child

section Addresses

variable {root parent : Tree} {path : List Nat} {i : Nat}

theorem binding_concat (hparent : at? root path = some parent) :
    Binding root (path ++ [i]) ↔ bindsChild parent.kind parent.children.length i = true ∨
      isGroup parent.kind = true ∧ Binding root path := by
  constructor
  · intro h
    generalize hpath : path ++ [i] = whole at h
    cases h with
    | direct found bound =>
      obtain ⟨rfl, hi⟩ := List.append_inj' hpath rfl
      cases hi
      rw [hparent] at found
      cases found
      exact .inl bound
    | grouped found group target =>
      obtain ⟨rfl, _⟩ := List.append_inj' hpath rfl
      rw [hparent] at found
      cases found
      exact .inr ⟨group, target⟩
  · rintro (bound | ⟨group, target⟩)
    · exact .direct hparent bound
    · exact .grouped hparent group target

theorem deleted_concat (hparent : at? root path = some parent) :
    Deleted root (path ++ [i]) ↔ parent.kind = .deleteStmt ∨
      (isGroup parent.kind = true ∧ parent.kind.isStarred = false) ∧ Deleted root path := by
  constructor
  · intro h
    generalize hpath : path ++ [i] = whole at h
    cases h with
    | direct found deletes =>
      obtain ⟨rfl, _⟩ := List.append_inj' hpath rfl
      rw [hparent] at found
      cases found
      exact .inl deletes
    | grouped found group target =>
      obtain ⟨rfl, _⟩ := List.append_inj' hpath rfl
      rw [hparent] at found
      cases found
      exact .inr ⟨group, target⟩
  · rintro (deletes | ⟨group, target⟩)
    · exact .direct hparent deletes
    · exact .grouped hparent group target

theorem inPattern_concat (hparent : at? root path = some parent) :
    InPattern root (path ++ [i]) ↔ parent.kind = .matchCase ∧ i = 0 ∨ InPattern root path := by
  constructor
  · rintro ⟨before, after, case, hpath, hcase, hkind⟩
    rcases List.eq_nil_or_concat after with rfl | ⟨after, last, rfl⟩
    · obtain ⟨rfl, hi⟩ := List.append_inj' hpath rfl
      cases hi
      rw [hparent] at hcase
      cases hcase
      exact .inl ⟨hkind, rfl⟩
    · have hpath : path ++ [i] = (before ++ 0 :: after) ++ [last] := by simpa using hpath
      obtain ⟨rfl, _⟩ := List.append_inj' hpath rfl
      exact .inr ⟨before, after, case, rfl, hcase, hkind⟩
  · rintro (⟨hkind, rfl⟩ | ⟨before, after, case, rfl, hcase, hkind⟩)
    · exact ⟨path, [], parent, rfl, hparent, hkind⟩
    · exact ⟨before, after ++ [i], case, by simp, hcase, hkind⟩

end Addresses

/-! ## Roles of children -/

section ChildRoles

variable {role : Role} {kind : NodeKind} {n i : Nat}

theorem hasSlots_of_bindsChild (h : bindsChild kind n i = true) : hasSlots kind = true := by
  cases hslots : hasSlots kind with
  | true => rfl
  | false =>
    rw [bindsChild_of_not_hasSlots hslots] at h
    cases h

theorem isGroup_of_hasSlots (h : hasSlots kind = true) : isGroup kind = false := by
  cases hgroup : isGroup kind with
  | false => rfl
  | true =>
    rw [(group_cases hgroup .load).1] at h
    cases h

theorem ne_pattern_of_hasSlots (allowed : Allowed role kind) (h : hasSlots kind = true) :
    role ≠ .pattern := by
  rintro rfl
  rw [show hasSlots kind = false from allowed] at h
  cases h

theorem childRole_eq_assign :
    childRole role kind n i = .target .assign ↔
      bindsChild kind n i = true ∨ isGroup kind = true ∧ role = .target .assign := by
  unfold childRole
  split
  · next hbinds => simp [hbinds]
  next hbinds =>
  split
  · next hdelete => simp [hdelete, bindsChild, isGroup]
  split
  · next hcase => simp [hcase.1, bindsChild, isGroup]
  split
  · next hinherits =>
    rcases hinherits with hgroup | rfl
    · simp [hbinds, hgroup]
    · simp [hbinds]
  · next hfresh => simp [hbinds, (not_or.1 hfresh).1]

theorem childRole_eq_delete (allowed : Allowed role kind) :
    childRole role kind n i = .target .delete ↔ kind = .deleteStmt ∨
      (isGroup kind = true ∧ kind.isStarred = false) ∧ role = .target .delete := by
  unfold childRole
  split
  · next hbinds =>
    have hgroup := isGroup_of_hasSlots (hasSlots_of_bindsChild hbinds)
    have hdelete : kind ≠ .deleteStmt := by
      rintro rfl
      cases hbinds
    simp [hgroup, hdelete]
  split
  · next hdelete => simp [hdelete]
  next hdelete =>
  split
  · next hcase => simp [hcase.1, isGroup]
  split
  · next hinherits =>
    constructor
    · rintro rfl
      exact .inr ⟨⟨hinherits.resolve_right nofun, allowed.2 rfl⟩, rfl⟩
    · rintro (h | ⟨_, h⟩)
      · exact absurd h hdelete
      · exact h
  · next hfresh => simp [hdelete, (not_or.1 hfresh).1]

theorem childRole_eq_pattern (allowed : Allowed role kind) :
    childRole role kind n i = .pattern ↔ kind = .matchCase ∧ i = 0 ∨ role = .pattern := by
  unfold childRole
  split
  · next hbinds =>
    have hpattern := ne_pattern_of_hasSlots allowed (hasSlots_of_bindsChild hbinds)
    have hcase : kind ≠ .matchCase := by
      rintro rfl
      cases hbinds
    simp [hpattern, hcase]
  split
  · next hdelete =>
    have hpattern := ne_pattern_of_hasSlots allowed (by rw [hdelete]; rfl)
    simp [hpattern, hdelete]
  split
  · next hcase => simp [hcase]
  next hcase =>
  split
  · simp [hcase]
  · next hfresh => simp [hcase, (not_or.1 hfresh).2]

end ChildRoles

/-- Every node plays the role that its address gives to it. -/
theorem exists_role {root : Tree} (h : Plays .read root) (path : List Nat) {part : Tree}
    (hpart : at? root path = some part) :
    ∃ role, Plays role part ∧ (role = .target .assign ↔ Binding root path) ∧
      (role = .target .delete ↔ Deleted root path) ∧ (role = .pattern ↔ InPattern root path) := by
  induction path using List.reverseRecOn generalizing part with
  | nil =>
    cases hpart
    refine ⟨.read, h, ⟨nofun, ?_⟩, ⟨nofun, ?_⟩, ⟨nofun, ?_⟩⟩
    · intro hbinding
      generalize hpath : [] = path at hbinding
      cases hbinding <;> simp at hpath
    · intro hdeleted
      generalize hpath : [] = path at hdeleted
      cases hdeleted <;> simp at hpath
    · rintro ⟨before, after, _, hpath, _⟩
      simp at hpath
  | append_singleton path i ih =>
    rw [at?_concat] at hpart
    obtain ⟨parent, hparent, hchild⟩ := Option.bind_eq_some_iff.1 hpart
    obtain ⟨role, hplays, hbinding, hdeleted, hpattern⟩ := ih hparent
    rw [binding_concat hparent, deleted_concat hparent, inPattern_concat hparent, ← hbinding,
      ← hdeleted, ← hpattern]
    cases hplays with
    | node allowed arity inside =>
      exact ⟨_, inside i part hchild, childRole_eq_assign, childRole_eq_delete allowed,
        childRole_eq_pattern allowed⟩

/-- **Contexts.** Outside case patterns a context is that of the node's role: binding targets are
stored, delete targets are deleted, and all else is loaded. Every target has a context, and no
starred item is deleted. -/
theorem contexts_follow_roles {source : String} {root : Tree}
    (h : Module.parse source = .ok root) {path : List Nat} {part : Tree}
    (hpart : at? root path = some part) :
    (∀ context, context? part.kind = some context → ¬ InPattern root path →
      (context = .store ↔ Binding root path) ∧ (context = .del ↔ Deleted root path) ∧
      (context = .load ↔ ¬ Binding root path ∧ ¬ Deleted root path)) ∧
    (Binding root path → (context? part.kind).isSome = true) ∧
    (Deleted root path → (context? part.kind).isSome = true ∧ part.kind.isStarred = false) := by
  obtain ⟨role, hplays, hbinding, hdeleted, hpattern⟩ := exists_role (plays_of_parse h) path hpart
  rw [← hbinding, ← hdeleted, ← hpattern]
  cases hplays with
  | @node _ kind span children allowed _ _ =>
    cases role with
    | read =>
      refine ⟨fun context hcontext _ => ?_, nofun, nofun⟩
      rw [allowed context hcontext]
      simp
    | target action =>
      obtain ⟨hcontext, hstarred⟩ := allowed
      have hsome : (context? kind).isSome = true := by
        rw [hcontext]
        rfl
      refine ⟨fun context hfound _ => ?_, fun _ => hsome, fun hdelete => ?_⟩
      · obtain rfl : Target.contextOf action = context :=
          Option.some.inj (hcontext.symm.trans hfound)
        cases action <;> simp [Target.contextOf]
      · cases hdelete
        exact ⟨hsome, hstarred rfl⟩
    | pattern => exact ⟨fun _ _ houtside => absurd rfl houtside, nofun, nofun⟩

/-- The name before the sign of an assignment. -/
theorem assigned_name_binds : ∃ root part, Module.parse "x = y" = .ok root ∧
    at? root [0, 0] = some part ∧ part.kind = .name "x" .store ∧ Binding root [0, 0] := by
  have hkinds : ((Module.parse "x = y").map fun root =>
      (root.kind, (at? root [0]).map Tree.kind, (at? root [0, 0]).map Tree.kind)).toOption =
      some (.module, some .assign, some (.name "x" .store)) := by
    decide +kernel
  cases hparse : Module.parse "x = y" with
  | error error =>
    rw [hparse] at hkinds
    cases hkinds
  | ok root =>
    rw [hparse] at hkinds
    obtain ⟨hroot, hassign, hname⟩ : root.kind = .module ∧
        (at? root [0]).map Tree.kind = some .assign ∧
        (at? root [0, 0]).map Tree.kind = some (.name "x" .store) := by
      simpa [Except.map, Except.toOption] using hkinds
    obtain ⟨part, hpart, hkind⟩ := Option.map_eq_some_iff.1 hname
    obtain ⟨parent, hparent, hparentKind⟩ := Option.map_eq_some_iff.1 hassign
    refine ⟨root, part, rfl, hpart, hkind, ?_⟩
    have houtside : ¬ InPattern root [0, 0] := by
      rintro ⟨before, after, case, hpath, hcase, hcaseKind⟩
      match before, hpath with
      | [], _ =>
        cases hcase
        rw [hroot] at hcaseKind
        cases hcaseKind
      | [_], rfl =>
        rw [hparent] at hcase
        cases hcase
        rw [hparentKind] at hcaseKind
        cases hcaseKind
      | _ :: _ :: _, hpath => simp at hpath
    have hstore : context? part.kind = some .store := by
      rw [hkind]
      rfl
    exact ((contexts_follow_roles hparse hpart).1 .store hstore houtside).1.1 rfl

end SnippetLint.Contexts
