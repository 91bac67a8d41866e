import Mathlib.Data.List.Forall2
import SnippetLint.Proofs.Preorder
import SnippetLint.Proofs.Provenance

/-!
What two runs of the grammar have in common. A likeness says which places, lines, names and texts of
strings count as the same; everything else has to be equal. It is lifted to trees and to the other
values that parsers hand on. Marking targets and binding patterns keep to every likeness: of alike
trees both give alike trees, or both fail with alike errors. Main statements: `mark_like` and
`bind_like`.
-/

namespace SnippetLint

/-- What counts as the same in two runs. -/
structure Likeness where
  place : Position → Position → Prop
  line : Nat → Nat → Prop
  name : String → String → Prop
  /-- The texts of single string literals. -/
  literal : String → String → Prop
  /-- The texts of strings in trees. -/
  text : String → String → Prop
  /-- What is wrong with a text. -/
  lexical : LexicalFault → LexicalFault → Prop
  line_of_place : ∀ {p q}, place p q → line p.line q.line
  /-- The names that the grammar itself looks at. -/
  name_fixed : ∀ {a b}, name a b → ∀ word ∈ ["match", "case", "print", "_"], a = word ↔ b = word
  name_star : name "*" "*"
  name_dotted : ∀ {as bs}, List.Forall₂ name as bs → name (".".intercalate as) (".".intercalate bs)
  literal_isBytes : ∀ {a b}, literal a b → Quotation.isBytes a.toList = Quotation.isBytes b.toList
  text_joined : ∀ {as bs}, List.Forall₂ literal as bs →
    text (" ".intercalate as) (" ".intercalate bs)

namespace Likeness

/-! ## Trees -/

structure SpanLike (like : Likeness) (a b : Span) : Prop where
  start : like.place a.start b.start
  stop : like.place a.stop b.stop

structure AliasLike (like : Likeness) (a b : Alias) : Prop where
  name : like.name a.name b.name
  asName : Option.Rel like.name a.asName b.asName
  span : SpanLike like a.span b.span

/-- Kinds of node that store no name and no text of a string. -/
@[reducible] def isPlain : NodeKind → Bool
  | .functionDef _ _ | .classDef _ | .parameter _ _ | .typeParam _ | .matchAs _ | .exceptHandler _
  | .importStmt _ | .importFrom _ _ _ | .globalStmt _ | .nonlocalStmt _ | .keyword _
  | .constant (.str _) | .attribute _ _ | .name _ _ => false
  | _ => true

inductive KindLike (like : Likeness) : NodeKind → NodeKind → Prop
  | plain {kind : NodeKind} (h : isPlain kind = true) : KindLike like kind kind
  | functionDef {a b : String} (h : like.name a b) (isAsync : Bool) :
    KindLike like (.functionDef a isAsync) (.functionDef b isAsync)
  | classDef {a b : String} (h : like.name a b) : KindLike like (.classDef a) (.classDef b)
  | parameter {a b : String} (h : like.name a b) (kind : ParameterKind) :
    KindLike like (.parameter a kind) (.parameter b kind)
  | typeParam {a b : String} (h : like.name a b) : KindLike like (.typeParam a) (.typeParam b)
  | matchAs {a b : String} (h : like.name a b) : KindLike like (.matchAs a) (.matchAs b)
  | exceptHandler {a b : Option String} (h : Option.Rel like.name a b) :
    KindLike like (.exceptHandler a) (.exceptHandler b)
  | importStmt {as bs : List Alias} (h : List.Forall₂ (AliasLike like) as bs) :
    KindLike like (.importStmt as) (.importStmt bs)
  | importFrom {a b : Option String} (h : Option.Rel like.name a b) (level : Nat)
    {as bs : List Alias} (hall : List.Forall₂ (AliasLike like) as bs) :
    KindLike like (.importFrom a level as) (.importFrom b level bs)
  | globalStmt {as bs : List String} (h : List.Forall₂ like.name as bs) :
    KindLike like (.globalStmt as) (.globalStmt bs)
  | nonlocalStmt {as bs : List String} (h : List.Forall₂ like.name as bs) :
    KindLike like (.nonlocalStmt as) (.nonlocalStmt bs)
  | keyword {a b : Option String} (h : Option.Rel like.name a b) :
    KindLike like (.keyword a) (.keyword b)
  | string {a b : String} (h : like.text a b) :
    KindLike like (.constant (.str a)) (.constant (.str b))
  | attr {a b : String} (h : like.name a b) (context : Context) :
    KindLike like (.attribute a context) (.attribute b context)
  | name {a b : String} (h : like.name a b) (context : Context) :
    KindLike like (.name a context) (.name b context)

inductive TreeLike (like : Likeness) : Tree → Tree → Prop
  | node {kind kind' : NodeKind} {span span' : Span} {children children' : List Tree}
    (hkind : KindLike like kind kind') (hspan : SpanLike like span span')
    (hchildren : List.Forall₂ (TreeLike like) children children') :
    TreeLike like (.node kind span children) (.node kind' span' children')

/-! ## Errors -/

inductive FaultLike (like : Likeness) : GrammarFault → GrammarFault → Prop
  | same (fault : GrammarFault) : FaultLike like fault fault
  | missingIndentedBlock (construct : Construct) {m n : Nat} (h : like.line m n) :
    FaultLike like (.missingIndentedBlock construct m) (.missingIndentedBlock construct n)
  | lexical {a b : LexicalFault} (h : like.lexical a b) :
    FaultLike like (.lexical a) (.lexical b)

structure ErrorLike (like : Likeness) (a b : ParseError) : Prop where
  fault : FaultLike like a.fault b.fault
  position : like.place a.position b.position

/-- Two results that are both values or both errors. -/
inductive ResultLike (like : Likeness) (rel : α → β → Prop) :
    Except ParseError α → Except ParseError β → Prop
  | ok {a : α} {b : β} (h : rel a b) : ResultLike like rel (.ok a) (.ok b)
  | error {a b : ParseError} (h : ErrorLike like a b) : ResultLike like rel (.error a) (.error b)

theorem ResultLike.bind {like : Likeness} {rel : α → β → Prop} {rel' : γ → δ → Prop}
    {p : Except ParseError α} {q : Except ParseError β} {f : α → Except ParseError γ}
    {g : β → Except ParseError δ} (h : ResultLike like rel p q)
    (hf : ∀ a b, rel a b → ResultLike like rel' (f a) (g b)) :
    ResultLike like rel' (p >>= f) (q >>= g) := by
  cases h with
  | ok h => exact hf _ _ h
  | error h => exact .error h

theorem ResultLike.ite {like : Likeness} {rel : α → β → Prop} {b b' : Bool}
    {p p' : Except ParseError α} {q q' : Except ParseError β} (hb : b = b')
    (h : ResultLike like rel p q) (h' : ResultLike like rel p' q') :
    ResultLike like rel (if b = true then p else p') (if b' = true then q else q') := by
  subst hb
  split
  · exact h
  · exact h'

variable {like : Likeness} {t u : Tree} {ts us : List Tree} {k k' : NodeKind}

/-! ## What alike trees agree about -/

theorem TreeLike.kind (h : TreeLike like t u) : KindLike like t.kind u.kind := by
  cases h with
  | node hkind _ _ => exact hkind

theorem TreeLike.start (h : TreeLike like t u) : like.place t.start u.start := by
  cases h with
  | node _ hspan _ => exact hspan.start

theorem TreeLike.children (h : TreeLike like t u) :
    List.Forall₂ (TreeLike like) t.children u.children := by
  cases h with
  | node _ _ hchildren => exact hchildren

theorem KindLike.isStarred_eq (h : KindLike like k k') : k.isStarred = k'.isStarred := by
  cases h <;> rfl

theorem KindLike.isName_eq (h : KindLike like k k') : k.isName = k'.isName := by
  cases h <;> rfl

theorem KindLike.isSingle_eq (h : KindLike like k k') :
    Target.isSingle k = Target.isSingle k' := by
  cases h <;> rfl

theorem KindLike.describeAugmented_eq (h : KindLike like k k') :
    Target.describeAugmented k = Target.describeAugmented k' := by
  cases h <;> rfl

/-! ## Targets -/

mutual

theorem mark_like (action : TargetAction) : ∀ {t u : Tree}, TreeLike like t u →
    ResultLike like (TreeLike like) (Target.mark action t) (Target.mark action u)
  | .node kind span children, .node kind' span' children', h => by
    cases h with
    | node hkind hspan hchildren =>
      have hall := markAll_like action hchildren
      have hagain : ∀ {marked : NodeKind}, isPlain marked = true →
          ResultLike like (TreeLike like)
            (Target.markAll action children >>= fun ts => .ok (.node marked span ts))
            (Target.markAll action children' >>= fun ts => .ok (.node marked span' ts)) :=
        fun hplain => hall.bind fun _ _ h => .ok (.node (.plain hplain) hspan h)
      cases hkind with
      | name hname _ => exact .ok (.node (.name hname _) hspan hchildren)
      | attr hname _ => exact .ok (.node (.attr hname _) hspan hchildren)
      | plain hplain =>
        unfold Target.mark
        split
        next heq =>
          cases heq
          cases hplain
        next heq =>
          cases heq
          cases hplain
        next heq =>
          cases heq
          exact .ok (.node (.plain rfl) hspan hchildren)
        next heq =>
          cases heq
          simp only []
          split
          · exact .error ⟨.same _, hspan.start⟩
          · exact hagain rfl
        next heq =>
          cases heq
          exact hagain rfl
        next heq =>
          cases heq
          exact hagain rfl
        next heq =>
          cases heq
          simp only []
          exact .error ⟨.same _, hspan.start⟩
      | _ => exact .error ⟨.same _, hspan.start⟩

theorem markAll_like (action : TargetAction) : ∀ {ts us : List Tree},
    List.Forall₂ (TreeLike like) ts us → ResultLike like (List.Forall₂ (TreeLike like))
      (Target.markAll action ts) (Target.markAll action us)
  | [], [], _ => .ok .nil
  | t :: ts, u :: us, h => by
    cases h with
    | cons hfirst hrest =>
      exact (mark_like action hfirst).bind fun _ _ hfirst =>
        (markAll_like action hrest).bind fun _ _ hrest => .ok (.cons hfirst hrest)

end

theorem markAugmented_like (h : TreeLike like t u) :
    ResultLike like (TreeLike like) (Target.markAugmented t) (Target.markAugmented u) := by
  unfold Target.markAugmented
  rw [h.kind.isSingle_eq, h.kind.describeAugmented_eq]
  split
  · exact mark_like .assign h
  · exact .error ⟨.same _, h.start⟩

theorem markAnnotated_like (h : TreeLike like t u) :
    ResultLike like (TreeLike like) (Target.markAnnotated t) (Target.markAnnotated u) := by
  unfold Target.markAnnotated
  rw [h.kind.isSingle_eq]
  split
  · exact mark_like .assign h
  · exact .error ⟨.same _, h.start⟩

theorem positionalOnly_like (h : TreeLike like t u) :
    TreeLike like (Expression.positionalOnly t) (Expression.positionalOnly u) := by
  cases h with
  | @node kind _ _ _ _ _ hkind hspan hchildren =>
    cases hkind with
    | parameter hname kind => exact .node (.parameter hname .positionalOnly) hspan hchildren
    | plain hplain =>
      cases kind <;> exact .node (.plain hplain) hspan hchildren
    | functionDef hname isAsync => exact .node (.functionDef hname isAsync) hspan hchildren
    | classDef hname => exact .node (.classDef hname) hspan hchildren
    | typeParam hname => exact .node (.typeParam hname) hspan hchildren
    | matchAs hname => exact .node (.matchAs hname) hspan hchildren
    | exceptHandler hname => exact .node (.exceptHandler hname) hspan hchildren
    | importStmt hall => exact .node (.importStmt hall) hspan hchildren
    | importFrom hname level hall => exact .node (.importFrom hname level hall) hspan hchildren
    | globalStmt hall => exact .node (.globalStmt hall) hspan hchildren
    | nonlocalStmt hall => exact .node (.nonlocalStmt hall) hspan hchildren
    | keyword hname => exact .node (.keyword hname) hspan hchildren
    | string htext => exact .node (.string htext) hspan hchildren
    | attr hname context => exact .node (.attr hname context) hspan hchildren
    | name hname context => exact .node (.name hname context) hspan hchildren

/-! ## Patterns -/

theorem number?_eq (h : TreeLike like t u) : Pattern.number? t = Pattern.number? u := by
  unfold Pattern.number?
  have hkind := h.kind
  generalize t.kind = k at hkind
  generalize u.kind = k' at hkind
  cases hkind <;> rfl

theorem signedNumber?_eq (h : TreeLike like t u) :
    Pattern.signedNumber? t = Pattern.signedNumber? u := by
  have hnumber := number?_eq h
  cases h with
  | @node kind _ _ _ _ _ hkind hspan hchildren =>
    cases hkind with
    | plain hplain =>
      unfold Pattern.signedNumber?
      -- only a minus sign looks at the operand
      cases kind <;> try exact hnumber
      next op =>
        cases op <;> try exact hnumber
        rcases hchildren with _ | ⟨hfirst, _ | ⟨_, _⟩⟩
        · exact hnumber
        · exact number?_eq hfirst
        · exact hnumber
    | _ => exact hnumber

theorem isLiteral_eq (h : TreeLike like t u) : Pattern.isLiteral t = Pattern.isLiteral u := by
  have hsigned := signedNumber?_eq h
  cases h with
  | @node kind _ _ _ _ _ hkind hspan hchildren =>
    cases hkind with
    | plain hplain =>
      cases kind <;> try rfl
      next op =>
        cases op <;> try rfl
        all_goals
          rcases hchildren with _ | ⟨hfirst, _ | ⟨hsecond, _ | ⟨_, _⟩⟩⟩ <;> try rfl
          unfold Pattern.isLiteral
          simp only [Tree.kind, Tree.children, signedNumber?_eq hfirst, number?_eq hsecond]
      next op =>
        cases op <;> try rfl
        exact congrArg Option.isSome hsigned
    | _ => rfl

theorem isWildcard_eq (h : TreeLike like t u) : Pattern.isWildcard t = Pattern.isWildcard u := by
  have hkind := h.kind
  unfold Pattern.isWildcard
  generalize t.kind = k at hkind
  generalize u.kind = k' at hkind
  cases hkind with
  | name hname _ => exact Bool.eq_iff_iff.2 (by simpa using like.name_fixed hname "_" (by simp))
  | plain hplain => rfl
  | _ => rfl

theorem capture_like (h : TreeLike like t u) :
    TreeLike like (Pattern.capture t) (Pattern.capture u) := by
  cases h with
  | @node kind _ _ _ _ _ hkind hspan hchildren =>
    cases hkind with
    | name hname _ => exact .node (.name hname .store) hspan hchildren
    | plain hplain => cases kind <;> exact .node (.plain hplain) hspan hchildren
    | functionDef hname isAsync => exact .node (.functionDef hname isAsync) hspan hchildren
    | classDef hname => exact .node (.classDef hname) hspan hchildren
    | parameter hname kind => exact .node (.parameter hname kind) hspan hchildren
    | typeParam hname => exact .node (.typeParam hname) hspan hchildren
    | matchAs hname => exact .node (.matchAs hname) hspan hchildren
    | exceptHandler hname => exact .node (.exceptHandler hname) hspan hchildren
    | importStmt hall => exact .node (.importStmt hall) hspan hchildren
    | importFrom hname level hall => exact .node (.importFrom hname level hall) hspan hchildren
    | globalStmt hall => exact .node (.globalStmt hall) hspan hchildren
    | nonlocalStmt hall => exact .node (.nonlocalStmt hall) hspan hchildren
    | keyword hname => exact .node (.keyword hname) hspan hchildren
    | string htext => exact .node (.string htext) hspan hchildren
    | attr hname context => exact .node (.attr hname context) hspan hchildren

theorem captureFirst_like (h : List.Forall₂ (TreeLike like) ts us) :
    List.Forall₂ (TreeLike like) (Pattern.captureFirst ts) (Pattern.captureFirst us) := by
  cases h with
  | nil => exact .nil
  | cons hfirst hrest => exact .cons (capture_like hfirst) hrest

theorem startsWithName_eq (h : List.Forall₂ (TreeLike like) ts us) :
    Pattern.startsWithName ts = Pattern.startsWithName us := by
  cases h with
  | nil => rfl
  | cons hfirst _ => exact hfirst.kind.isName_eq

theorem invalid_like {rel : α → β → Prop} {p q : Position} (h : like.place p q) :
    ResultLike like rel (Pattern.invalid p) (Pattern.invalid q) := .error ⟨.same _, h⟩

theorem checkSequence_like (h : List.Forall₂ (TreeLike like) ts us) :
    ResultLike like Eq (Pattern.checkSequence ts) (Pattern.checkSequence us) := by
  have hstarred : List.Forall₂ (TreeLike like) (ts.filter (·.kind.isStarred))
      (us.filter (·.kind.isStarred)) :=
    List.rel_filter (fun _ _ h => iff_of_eq (congrArg (· = true) h.kind.isStarred_eq)) h
  unfold Pattern.checkSequence
  generalize ts.filter (·.kind.isStarred) = starred at hstarred
  generalize us.filter (·.kind.isStarred) = starred' at hstarred
  rcases hstarred with _ | ⟨_, _ | ⟨hsecond, _⟩⟩
  · exact .ok rfl
  · exact .ok rfl
  · exact invalid_like hsecond.start

theorem checkArguments_like (h : List.Forall₂ (TreeLike like) ts us) :
    ResultLike like Eq (Pattern.checkArguments ts) (Pattern.checkArguments us) := by
  induction h with
  | nil => exact .ok rfl
  | @cons t u ts us hfirst _ ih =>
    have hkind := hfirst.kind
    have hstart : ResultLike like Eq (Pattern.invalid t.start : Except ParseError Unit)
      (Pattern.invalid u.start) := invalid_like hfirst.start
    unfold Pattern.checkArguments
    generalize t.kind = k at hkind
    generalize u.kind = k' at hkind
    cases hkind with
    | keyword hname =>
      cases hname with
      | none => exact hstart
      | some _ => exact ih
    | plain hplain =>
      split
      · exact hstart
      · exact hstart
      · exact hstart
      · exact ih
    | _ => exact ih

theorem any_isWildcard_eq (h : List.Forall₂ (TreeLike like) ts us) :
    ts.head?.any Pattern.isWildcard = us.head?.any Pattern.isWildcard := by
  cases h with
  | nil => rfl
  | cons hfirst _ => exact isWildcard_eq hfirst

theorem dictUnpack_iff (h : KindLike like k k') : k = .dictUnpack ↔ k' = .dictUnpack := by
  cases h <;> simp

theorem isEmpty_eq {R : α → β → Prop} {as : List α} {bs : List β} (h : List.Forall₂ R as bs) :
    as.isEmpty = bs.isEmpty := by
  cases h with
  | nil => rfl
  | cons _ _ => rfl

theorem checkEntries_like (h : List.Forall₂ (TreeLike like) ts us) :
    ResultLike like Eq (Pattern.checkEntries ts) (Pattern.checkEntries us) := by
  fun_induction Pattern.checkEntries ts generalizing us with
  | case1 =>
    cases h
    exact .ok rfl
  | case2 span children rest hshape | case3 span children rest hshape =>
    obtain _ | ⟨⟨hkind, hspan, hall⟩, hrest⟩ := h
    obtain rfl := (dictUnpack_iff hkind).1 rfl
    rw [isEmpty_eq hrest, startsWithName_eq hall, any_isWildcard_eq hall] at hshape
    rw [Pattern.checkEntries]
    first
      | rw [if_pos hshape]; exact .ok rfl
      | rw [if_neg hshape]; exact invalid_like hspan.start
  | case4 t hplain =>
    obtain _ | ⟨⟨hkind, hspan, hall⟩, _ | _⟩ := h
    rw [Pattern.checkEntries]
    · exact .ok rfl
    · rintro _ _ heq
      obtain rfl := (dictUnpack_iff hkind).2 (Tree.node.inj heq).1
      exact hplain _ _ rfl
  | case5 t u rest hplain ih =>
    obtain _ | ⟨⟨hkind, hspan, hall⟩, _ | ⟨hsecond, hrest⟩⟩ := h
    rw [Pattern.checkEntries]
    · exact ih hrest
    · rintro _ _ heq
      obtain rfl := (dictUnpack_iff hkind).2 (Tree.node.inj heq).1
      exact hplain _ _ rfl

theorem isAttribute_eq : KindLike like k k' →
    (k matches .attribute _ _) = (k' matches .attribute _ _) := by
  intro h
  cases h <;> rfl

mutual

theorem bind_like (slot : Pattern.Slot) : ∀ {t u : Tree}, TreeLike like t u →
    ResultLike like (TreeLike like) (Pattern.bind slot t) (Pattern.bind slot u)
  | .node kind span children, .node kind' span' children', h => by
    have hliteral := isLiteral_eq h
    cases h with
    | node hkind hspan hchildren =>
      have hinvalid : ResultLike like (TreeLike like) (Pattern.invalid span.start)
        (Pattern.invalid span'.start) := invalid_like hspan.start
      have hall : ∀ slot, ResultLike like (TreeLike like)
          (Pattern.bindAll slot children >>= fun ts => .ok (.node kind span ts))
          (Pattern.bindAll slot children' >>= fun ts => .ok (.node kind' span' ts)) := fun slot =>
        (bindAll_like slot hchildren).bind fun _ _ h => .ok (.node hkind hspan h)
      have hsequence : ResultLike like (TreeLike like)
          (Pattern.checkSequence children >>= fun _ =>
            Pattern.bindAll .sequenceItem children >>= fun ts => .ok (.node kind span ts))
          (Pattern.checkSequence children' >>= fun _ =>
            Pattern.bindAll .sequenceItem children' >>= fun ts => .ok (.node kind' span' ts)) :=
        (checkSequence_like hchildren).bind fun _ _ _ => hall .sequenceItem
      unfold Pattern.bind
      refine .ite (isAttribute_eq hkind) (hall .dotted) ?_
      split
      · exact .ite hkind.isName_eq (.ok (.node hkind hspan hchildren)) hinvalid
      refine .ite hliteral (.ok (.node hkind hspan hchildren)) ?_
      split
      · exact hinvalid
      cases hkind with
      | name hname _ => exact .ok (.node (.name hname .store) hspan hchildren)
      | matchAs hname =>
        have hfixed := like.name_fixed hname "_" (by simp)
        simp only [hfixed]
        split
        · exact .error ⟨.same _, hspan.start⟩
        · exact hall .pattern
      | plain hplain =>
        cases kind with
        | binOp op =>
          cases op with
          | bitOr => exact hall .pattern
          | _ => exact hinvalid
        | dict =>
          exact (checkEntries_like hchildren).bind fun _ _ _ =>
            (bindEntries_like hchildren).bind fun _ _ h => .ok (.node (.plain rfl) hspan h)
        | call =>
          exact (checkArguments_like (List.forall₂_drop 1 hchildren)).bind fun _ _ _ =>
            (bindClass_like hchildren).bind fun _ _ h => .ok (.node (.plain rfl) hspan h)
        | starred _ =>
          simp only [startsWithName_eq hchildren]
          split
          · exact .ok (.node (.plain rfl) hspan (captureFirst_like hchildren))
          · exact hinvalid
        | tuple _ => exact hsequence
        | list _ => exact hsequence
        | matchAs _ => cases hplain
        | name _ _ => cases hplain
        | _ => exact hinvalid
      | _ => exact hinvalid
termination_by structural t => t

theorem bindAll_like (slot : Pattern.Slot) : ∀ {ts us : List Tree},
    List.Forall₂ (TreeLike like) ts us → ResultLike like (List.Forall₂ (TreeLike like))
      (Pattern.bindAll slot ts) (Pattern.bindAll slot us)
  | [], [], _ => .ok .nil
  | _ :: _, _ :: _, .cons hfirst hrest =>
    (bindAll_like slot hrest).bind fun _ _ hrest =>
      (bind_like slot hfirst).bind fun _ _ hfirst => .ok (.cons hfirst hrest)
termination_by structural ts => ts

theorem bindClass_like : ∀ {ts us : List Tree}, List.Forall₂ (TreeLike like) ts us →
    ResultLike like (List.Forall₂ (TreeLike like)) (Pattern.bindClass ts) (Pattern.bindClass us)
  | [], [], _ => .ok .nil
  | _ :: _, _ :: _, .cons hfirst hrest =>
    (bindArguments_like hrest).bind fun _ _ hrest =>
      (bind_like .dotted hfirst).bind fun _ _ hfirst => .ok (.cons hfirst hrest)
termination_by structural ts => ts

theorem bindArguments_like : ∀ {ts us : List Tree}, List.Forall₂ (TreeLike like) ts us →
    ResultLike like (List.Forall₂ (TreeLike like)) (Pattern.bindArguments ts)
      (Pattern.bindArguments us)
  | [], [], _ => .ok .nil
  | .node kind span children :: ts, .node kind' span' children' :: us,
      .cons (.node hkind hspan hchildren) hrest => by
    have hfirst : TreeLike like (.node kind span children) (.node kind' span' children') :=
      .node hkind hspan hchildren
    have hpattern : ResultLike like (List.Forall₂ (TreeLike like))
        (Pattern.bindArguments ts >>= fun ts =>
          Pattern.bind .pattern (.node kind span children) >>= fun t => .ok (t :: ts))
        (Pattern.bindArguments us >>= fun us =>
          Pattern.bind .pattern (.node kind' span' children') >>= fun u => .ok (u :: us)) :=
      (bindArguments_like hrest).bind fun _ _ hrest =>
        (bind_like .pattern hfirst).bind fun _ _ hfirst => .ok (.cons hfirst hrest)
    cases hkind with
    | keyword hname =>
      exact (bindArguments_like hrest).bind fun _ _ hrest =>
        (bindAll_like .pattern hchildren).bind fun _ _ h =>
          .ok (.cons (.node (.keyword hname) hspan h) hrest)
    | plain hplain =>
      cases kind <;> try exact hpattern
      cases hplain
    | _ => exact hpattern
termination_by structural ts => ts

theorem bindEntries_like : ∀ {ts us : List Tree}, List.Forall₂ (TreeLike like) ts us →
    ResultLike like (List.Forall₂ (TreeLike like)) (Pattern.bindEntries ts) (Pattern.bindEntries us)
  | [], [], _ => .ok .nil
  | [.node kind span children], [.node kind' span' children'],
      .cons (.node hkind hspan hchildren) _ => by
    have hfirst : TreeLike like (.node kind span children) (.node kind' span' children') :=
      .node hkind hspan hchildren
    have hkey : ResultLike like (List.Forall₂ (TreeLike like))
        (Pattern.bind .mappingKey (.node kind span children) >>= fun key => .ok [key])
        (Pattern.bind .mappingKey (.node kind' span' children') >>= fun key => .ok [key]) :=
      (bind_like .mappingKey hfirst).bind fun _ _ hkey => .ok (.cons hkey .nil)
    cases hkind with
    | plain hplain =>
      cases kind <;> try exact hkey
      exact .ok (.cons (.node (.plain rfl) hspan (captureFirst_like hchildren)) .nil)
    | _ => exact hkey
  | .node kind span children :: t :: ts, .node kind' span' children' :: u :: us,
      .cons (.node hkind hspan hchildren) (.cons hnext hrest) => by
    have hfirst : TreeLike like (.node kind span children) (.node kind' span' children') :=
      .node hkind hspan hchildren
    have hentry : ResultLike like (List.Forall₂ (TreeLike like))
        (Pattern.bindEntries ts >>= fun rest => Pattern.bind .pattern t >>= fun value =>
          Pattern.bind .mappingKey (.node kind span children) >>= fun key =>
            .ok (key :: value :: rest))
        (Pattern.bindEntries us >>= fun rest => Pattern.bind .pattern u >>= fun value =>
          Pattern.bind .mappingKey (.node kind' span' children') >>= fun key =>
            .ok (key :: value :: rest)) :=
      (bindEntries_like hrest).bind fun _ _ hrest =>
        (bind_like .pattern hnext).bind fun _ _ hvalue =>
          (bind_like .mappingKey hfirst).bind fun _ _ hkey =>
            .ok (.cons hkey (.cons hvalue hrest))
    cases hkind with
    | plain hplain =>
      cases kind <;> try exact hentry
      exact (bindEntries_like (.cons hnext hrest)).bind fun _ _ hrest =>
        .ok (.cons (.node (.plain rfl) hspan (captureFirst_like hchildren)) hrest)
    | _ => exact hentry
termination_by structural ts => ts

end

/-! ## Preorder -/

mutual

/-- The same kinds of node stand at the same depths. -/
theorem nodes_like (depth : Nat) : ∀ {t u : Tree}, TreeLike like t u →
    List.Forall₂ (fun m n => m.1 = n.1 ∧ KindLike like m.2 n.2) (Preorder.nodes depth t)
      (Preorder.nodes depth u)
  | _, _, .node hkind _ hchildren => .cons ⟨rfl, hkind⟩ (nodesAll_like (depth + 1) hchildren)

theorem nodesAll_like (depth : Nat) : ∀ {ts us : List Tree},
    List.Forall₂ (TreeLike like) ts us →
    List.Forall₂ (fun m n => m.1 = n.1 ∧ KindLike like m.2 n.2) (Preorder.nodesAll depth ts)
      (Preorder.nodesAll depth us)
  | _, _, .nil => .nil
  | _, _, .cons h hs => List.rel_append (nodes_like depth h) (nodesAll_like depth hs)

end

theorem within_like {ms ns : List (Nat × NodeKind)}
    (h : List.Forall₂ (fun m n => m.1 = n.1 ∧ KindLike like m.2 n.2) ms ns) (limit : Nat) :
    List.Forall₂ (fun m n => m.1 = n.1 ∧ KindLike like m.2 n.2) (Preorder.within limit ms)
      (Preorder.within limit ns) := by
  induction h with
  | nil => exact .nil
  | @cons m n _ _ hmn _ ih =>
    obtain ⟨depth, k⟩ := m
    obtain ⟨_, l⟩ := n
    obtain ⟨rfl, hkind⟩ := hmn
    by_cases hdepth : depth ≤ limit
    · rw [Preorder.within_cons_of_le hdepth, Preorder.within_cons_of_le hdepth]
      exact .cons ⟨rfl, hkind⟩ ih
    · rw [Preorder.within_cons_of_not_le hdepth, Preorder.within_cons_of_not_le hdepth]
      exact .nil

end Likeness

end SnippetLint
