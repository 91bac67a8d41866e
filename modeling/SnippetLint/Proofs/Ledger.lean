import Mathlib.Algebra.Order.Group.Multiset
import Mathlib.Tactic.Abel
import SnippetLint.Proofs.Progress
import SnippetLint.Proofs.Provenance

/-!
Keeping count of words. A name, a number and a run of string literals are entries, on the side of
the tokens as on the side of the tree. A parser settles its accounts if the entries of the value
that it gives are those that it was handed with its arguments together with those of the tokens that
it takes. That is a class, so that the search for instances goes along a rule: what has been read is
added to what is owed, and the value at the end has to pay for all of it. A token that is taken
without being looked at has to be known to hold no entry, so that the class also carries what is
known of the next tokens.
-/

namespace SnippetLint.Ledger
open SnippetLint.Parser SnippetLint.Derivation SnippetLint.Progress

/-! ## Entries -/

inductive Entry where
  | name (text : String)
  | number (text : String)
  /-- A run of string literals as one text. -/
  | string (text : String)
  | layout
  deriving DecidableEq

/-- The names between the dots of what is imported; a star is none. -/
def segments (name : String) : List String :=
  if name = "*" then [] else (name.toList.splitOn '.').map String.ofList

/-- The names in one entry of an import. -/
def aliasNames (entry : Alias) : List String := segments entry.name ++ entry.asName.toList

/-- The identifiers that a node stores itself. -/
def identifiers : NodeKind → List String
  | .name id _ => [id]
  | .attribute attr _ => [attr]
  | .functionDef name _ | .classDef name | .parameter name _ | .typeParam name | .matchAs name =>
    [name]
  | .exceptHandler name | .keyword name => name.toList
  | .globalStmt names | .nonlocalStmt names => names
  | .importStmt names => names.flatMap aliasNames
  | .importFrom module _ names => module.toList.flatMap segments ++ names.flatMap aliasNames
  | _ => []

/-- The word with which a node is written that is no keyword elsewhere. -/
def softKeywords : NodeKind → List String
  | .matchStmt => ["match"]
  | .matchCase => ["case"]
  | _ => []

def numbers : NodeKind → List String
  | .constant (.number text) => [text]
  | _ => []

def texts : NodeKind → List String
  | .constant (.str text) => [text]
  | _ => []

mutual

/-- What `f` finds at the nodes of a tree. -/
def gather (f : NodeKind → List β) : Tree → Multiset β
  | .node kind _ children => ↑(f kind) + gatherAll f children

def gatherAll (f : NodeKind → List β) : List Tree → Multiset β
  | [] => 0
  | t :: ts => gather f t + gatherAll f ts

end

/-- The entries of a node without its children. -/
def entriesOf (kind : NodeKind) : List Entry :=
  (identifiers kind ++ softKeywords kind).map .name ++ (numbers kind).map .number ++
    (texts kind).map .string

/-! ## Tokens -/

/-- The entries of a token that is no string. Marks of the layout count if `marks` says so. -/
def tally (marks : Bool) (token : Token) : Multiset Entry :=
  match token.kind with
  | .name => {.name token.lexeme}
  | .number => {.number token.lexeme}
  | kind => if kind.isLayout && marks then {.layout} else 0

/-- Tokens with these entries have been taken. No run of string literals is cut. -/
inductive Passes (marks : Bool) : List Token → Multiset Entry → List Token → Prop
  | refl (tokens : List Token) : Passes marks tokens 0 tokens
  | token {token : Token} {rest last : List Token} {entries : Multiset Entry}
      (single : token.kind ≠ .string) (later : Passes marks rest entries last) :
      Passes marks (token :: rest) (tally marks token + entries) last
  | strings {run rest last : List Token} {entries : Multiset Entry} (ne_nil : run ≠ [])
      (isRun : ∀ token ∈ run, token.kind = .string)
      (ended : ∀ token ∈ rest.head?, token.kind ≠ .string)
      (later : Passes marks rest entries last) : Passes marks (run ++ rest)
        ({.string (" ".intercalate (run.map Token.lexeme))} + entries) last

namespace Passes

variable {marks : Bool} {a b c : List Token} {x y : Multiset Entry}

theorem trans (h : Passes marks a x b) (k : Passes marks b y c) : Passes marks a (x + y) c := by
  induction h with
  | refl tokens => rwa [zero_add]
  | token single _ ih =>
    rw [add_assoc]
    exact .token single (ih k)
  | strings ne_nil isRun ended _ ih =>
    rw [add_assoc]
    exact .strings ne_nil isRun ended (ih k)

theorem suffix (h : Passes marks a x b) : b <:+ a := by
  induction h with
  | refl tokens => exact List.suffix_rfl
  | token _ _ ih => exact ih.trans (List.suffix_cons _ _)
  | strings _ _ _ _ ih => exact ih.trans (List.suffix_append _ _)

end Passes

/-- A text that, where something is imported, stands for just one name. -/
def IsSingle (name : String) : Prop := '.' ∉ name.toList ∧ name ≠ "*"

/-- Every name among the tokens is a single one. -/
def SingleNames (tokens : List Token) : Prop :=
  ∀ token ∈ tokens, token.kind = .name → IsSingle token.lexeme

theorem SingleNames.mono {a b : List Token} (h : SingleNames a) (hsuffix : b <:+ a) :
    SingleNames b := fun token htoken => h token (hsuffix.subset htoken)

/-! ## Values -/

/-- Types of values that parsers hand on, with the entries in them. -/
class Worth (α : Type) where
  worth : α → Multiset Entry

export Worth (worth)

/-- Values without entries. -/
class Worthless (α : Type) where

/-- Values that may hold entries. -/
class Worthy (α : Type) where

instance : Worthless Unit := ⟨⟩

instance : Worthless Bool := ⟨⟩

instance : Worthless Nat := ⟨⟩

instance : Worthless CompareOp := ⟨⟩

instance [Worthless α] : Worth α := ⟨fun _ => 0⟩

instance : Worth String := ⟨fun name => {.name name}⟩

instance : Worth Alias := ⟨fun entry => ↑((aliasNames entry).map Entry.name)⟩

instance : Worth Tree := ⟨gather entriesOf⟩

section

variable {α β : Type} [Worth α] [Worth β]

instance : Worth (List α) := ⟨fun as => (as.map worth).sum⟩

instance : Worth (Option α) := ⟨fun a? => (a?.map worth).getD 0⟩

instance : Worth (α × β) := ⟨fun pair => worth pair.1 + worth pair.2⟩

end

instance : Worth Expression.Parameters := ⟨fun parameters => worth parameters.list⟩

instance : Worth Expression.Arguments := ⟨fun arguments => worth arguments.list⟩

instance : Worth Compound.Handlers := ⟨fun handlers => worth handlers.list⟩

instance : Worthy String := ⟨⟩

instance : Worthy Alias := ⟨⟩

instance : Worthy Tree := ⟨⟩

instance : Worthy (List α) := ⟨⟩

instance : Worthy (Option α) := ⟨⟩

instance : Worthy Expression.Parameters := ⟨⟩

instance : Worthy Expression.Arguments := ⟨⟩

instance : Worthy Compound.Handlers := ⟨⟩

theorem gatherAll_eq (ts : List Tree) : gatherAll entriesOf ts = worth ts := by
  induction ts with
  | nil => rfl
  | cons t ts ih => exact congrArg (gather entriesOf t + ·) ih

/-- What a value is worth, put together from its parts. -/
class Total [Worth α] (a : α) (total : outParam (Multiset Entry)) : Prop where
  eq : worth a = total

section Total

variable {α β : Type} [Worth α] [Worth β]

instance (priority := low) (a : α) : Total a (worth a) := ⟨rfl⟩

instance [Worthless γ] (c : γ) : Total c 0 := ⟨rfl⟩

instance : Total ([] : List α) 0 := ⟨rfl⟩

instance (a : α) (as : List α) (x y : Multiset Entry) [ha : Total a x] [has : Total as y] :
    Total (a :: as) (x + y) := by
  constructor
  rw [← ha.eq, ← has.eq]
  rfl

theorem worth_append (as bs : List α) : worth (as ++ bs) = worth as + worth bs := by
  show ((as ++ bs).map worth).sum = _
  rw [List.map_append, List.sum_append]
  rfl

theorem worth_flatten (ass : List (List α)) : worth ass.flatten = worth ass := by
  induction ass with
  | nil => rfl
  | cons as ass ih =>
    rw [List.flatten_cons, worth_append, ih]
    rfl

instance (as bs : List α) (x y : Multiset Entry) [has : Total as x] [hbs : Total bs y] :
    Total (as ++ bs) (x + y) := by
  constructor
  rw [worth_append, has.eq, hbs.eq]

instance (ass : List (List α)) (x : Multiset Entry) [hass : Total ass x] :
    Total ass.flatten x := ⟨(worth_flatten ass).trans hass.eq⟩

instance : Total (none : Option α) 0 := ⟨rfl⟩

instance (a : α) (x : Multiset Entry) [ha : Total a x] : Total (some a) x := ⟨ha.eq⟩

instance (a : α) (b : β) (x y : Multiset Entry) [ha : Total a x] [hb : Total b y] :
    Total (a, b) (x + y) := by
  constructor
  rw [← ha.eq, ← hb.eq]
  rfl

end Total

/-- Kinds of node that hold no entry themselves. -/
@[reducible] def isBare : NodeKind → Bool
  | .name _ _ | .attribute _ _ | .functionDef _ _ | .classDef _ | .parameter _ _ | .typeParam _
  | .matchAs _ | .exceptHandler _ | .keyword _ | .globalStmt _ | .nonlocalStmt _ | .importStmt _
  | .importFrom _ _ _ | .matchStmt | .matchCase | .constant _ => false
  | _ => true

/-- What a node is worth besides its children. -/
class Stores (kind : NodeKind) (total : outParam (Multiset Entry)) : Prop where
  eq : ↑(entriesOf kind) = total

instance (priority := 10) (kind : NodeKind) : Stores kind ↑(entriesOf kind) := ⟨rfl⟩

instance (priority := low) (kind : NodeKind) [h : Provenance.IsTrue (isBare kind)] :
    Stores kind 0 := by
  have hbare := h.eq
  constructor
  cases kind <;> first | rfl | cases hbare

instance (id : String) (context : Context) : Stores (.name id context) (worth id) := ⟨rfl⟩

instance (attr : String) (context : Context) : Stores (.attribute attr context) (worth attr) :=
  ⟨rfl⟩

instance (name : String) (isAsync : Bool) : Stores (.functionDef name isAsync) (worth name) :=
  ⟨rfl⟩

instance (name : String) : Stores (.classDef name) (worth name) := ⟨rfl⟩

instance (name : String) (kind : ParameterKind) : Stores (.parameter name kind) (worth name) :=
  ⟨rfl⟩

instance (name : String) : Stores (.typeParam name) (worth name) := ⟨rfl⟩

instance (name : String) : Stores (.matchAs name) (worth name) := ⟨rfl⟩

instance (name : Option String) : Stores (.exceptHandler name) (worth name) := by
  constructor
  cases name <;> rfl

instance : Stores (.keyword none) 0 := ⟨rfl⟩

instance : Stores .matchStmt (worth "match") := ⟨rfl⟩

instance : Stores .matchCase (worth "case") := ⟨rfl⟩

instance (name : String) : Stores (.keyword (some name)) (worth name) := ⟨rfl⟩

instance storesPlainConstant (value : Constant)
    [h : Provenance.IsTrue (value matches .none | .true | .false | .ellipsis)] :
    Stores (.constant value) 0 := by
  have hvalue := h.eq
  constructor
  cases value <;> first | rfl | cases hvalue

instance (kind : NodeKind) (span : Span) (children : List Tree) (x y : Multiset Entry)
    [hkind : Stores kind x] [hchildren : Total children y] :
    Total (Tree.node kind span children) (x + y) := by
  constructor
  rw [← hkind.eq, ← hchildren.eq, ← gatherAll_eq]
  rfl

/-- What is owed pays for a total, and this is left. -/
class Pays (owed total : Multiset Entry) (left : outParam (Multiset Entry)) : Prop where
  eq : owed = total + left

namespace Pays

variable (owed x y left mid : Multiset Entry)

instance nothing : Pays owed 0 owed := ⟨(zero_add owed).symm⟩

instance [hx : Pays owed x mid] [hy : Pays mid y left] : Pays owed (x + y) left := by
  constructor
  rw [hx.eq, hy.eq, add_assoc]

instance self : Pays x x 0 := ⟨(add_zero x).symm⟩

instance : Pays (owed + x) x owed := ⟨add_comm owed x⟩

instance (priority := low) [h : Pays owed x left] : Pays (owed + y) x (left + y) := by
  constructor
  rw [h.eq, add_assoc]

end Pays

/-! ## Parsers -/

/-- Handed what is owed, a parser gives a value with that and what the tokens it takes hold. -/
class Settles (marks : Bool) (known : List TokenKind) (owed : Multiset Entry) [Worth α]
    (p : Parser α) : Prop where
  run : ∀ {ending before a after}, SingleNames before.rest → Knows known before.rest →
    p ending before = .ok a after →
    ∃ entries, Passes marks before.rest entries after.rest ∧ worth a = owed + entries

/-- As `Settles`, for a rule, which tells what it has to be handed. -/
class Rule (marks : Bool) (known : List TokenKind) [Worth α] (p : Parser α)
    (owed : outParam (Multiset Entry)) : Prop where
  settles : Settles marks known owed p

/-- A parser that takes no token. -/
class Looks (p : Parser α) : Prop where
  eq : ∀ {ending before a after}, p ending before = .ok a after → after = before

/-- A parser that takes no token and gives something of this worth. -/
class Makes [Worth α] (p : Parser α) (total : outParam (Multiset Entry)) : Prop where
  eq : ∀ {ending before a after}, p ending before = .ok a after → after = before ∧ worth a = total

/-- A kind of token without entries. -/
class Silent (marks : Bool) (kind : TokenKind) : Prop where
  tally_eq : ∀ token : Token, token.kind = kind → tally marks token = 0
  single : kind ≠ .string
  ne_end : kind ≠ .endMarker

section Parsers

variable (marks : Bool) (known : List TokenKind) (owed left : Multiset Entry)
  {α β σ : Type} [Worth α] [Worth β] [Worth σ]

instance (sign : Operator) : Silent marks (.op sign) :=
  ⟨fun token h => by simp [tally, h, TokenKind.isLayout], nofun, nofun⟩

instance (word : Keyword) : Silent marks (.keyword word) :=
  ⟨fun token h => by simp [tally, h, TokenKind.isLayout], nofun, nofun⟩

instance : Silent false .newline := ⟨fun token h => by simp [tally, h], nofun, nofun⟩

instance : Silent false .indent := ⟨fun token h => by simp [tally, h], nofun, nofun⟩

instance : Silent false .dedent := ⟨fun token h => by simp [tally, h], nofun, nofun⟩

variable {marks known owed left}

instance (p : Parser α) [h : Makes p owed] : Rule marks known p owed := by
  refine ⟨⟨fun {ending before a after} _ _ hok => ⟨0, ?_, ?_⟩⟩⟩
  · rw [(h.eq hok).1]
    exact .refl _
  · rw [(h.eq hok).2, add_zero]

theorem Settles.weaken {p : Parser α} (h : Settles marks [] owed p) :
    Settles marks known owed p := ⟨fun hnames _ hok => h.run hnames trivial hok⟩

theorem settles_of_eq {p : Parser α} {x : Multiset Entry} (h : Settles marks known x p)
    (heq : owed = x) : Settles marks known owed p := heq ▸ h

/-- What the first parser leaves is owed by the second one. -/
theorem settles_bind {p : Parser α} {f : α → Parser β} {x : Multiset Entry}
    (hp : Settles marks known x p) (hpays : Pays owed x left)
    (hf : ∀ a, Settles marks [] (left + worth a) (f a)) :
    Settles marks known owed (p >>= f) := by
  constructor
  intro ending before b after hnames hknown hok
  obtain ⟨a, mid, hfirst, hsecond⟩ := ParserLaw.bind_eq_ok hok
  obtain ⟨first, hpasses, hworth⟩ := hp.run hnames hknown hfirst
  obtain ⟨second, hmore, htotal⟩ := (hf a).run (hnames.mono hpasses.suffix) trivial hsecond
  refine ⟨first + second, hpasses.trans hmore, ?_⟩
  rw [htotal, hworth, hpays.eq]
  abel

theorem settles_bind_looks {p : Parser γ} {f : γ → Parser β} (hp : Looks p)
    (hf : ∀ c, Settles marks known owed (f c)) : Settles marks known owed (p >>= f) := by
  constructor
  intro ending before b after hnames hknown hok
  obtain ⟨c, mid, hfirst, hsecond⟩ := ParserLaw.bind_eq_ok hok
  obtain rfl := hp.eq hfirst
  exact (hf c).run hnames hknown hsecond

theorem settles_bind_worthless [Worthless γ] {p : Parser γ} {f : γ → Parser β}
    (hp : Settles marks known 0 p) (hf : ∀ c, Settles marks [] owed (f c)) :
    Settles marks known owed (p >>= f) :=
  settles_bind hp inferInstance fun c => settles_of_eq (hf c) (add_zero owed)

/-- Nothing that is known is lost where no token is taken. -/
theorem settles_bind_makes {p : Parser α} {f : α → Parser β} {x : Multiset Entry} (hp : Makes p x)
    (hpays : Pays owed x left) (hf : ∀ a, Settles marks known (left + worth a) (f a)) :
    Settles marks known owed (p >>= f) := by
  constructor
  intro ending before b after hnames hknown hok
  obtain ⟨a, mid, hfirst, hsecond⟩ := ParserLaw.bind_eq_ok hok
  obtain ⟨rfl, hworth⟩ := hp.eq hfirst
  obtain ⟨entries, hpasses, htotal⟩ := (hf a).run hnames hknown hsecond
  refine ⟨entries, hpasses, ?_⟩
  rw [htotal, hworth, hpays.eq, add_comm left]

/-- What the next token is said to be is known from there on. -/
theorem settles_bind_peek {f : TokenKind → Parser β}
    (hf : ∀ kind, Settles marks [kind] owed (f kind)) :
    Settles marks known owed (peek >>= f) := by
  constructor
  intro ending before b after hnames _ hok
  obtain ⟨kind, mid, hpeek, hsecond⟩ := ParserLaw.bind_eq_ok hok
  cases hpeek
  exact (hf _).run hnames ⟨rfl, trivial⟩ hsecond

/-- Looking at a token that is known tells nothing new. -/
theorem settles_bind_peek_known {kind : TokenKind} {f : TokenKind → Parser β}
    (hf : Settles marks (kind :: known) owed (f kind)) :
    Settles marks (kind :: known) owed (peek >>= f) := by
  constructor
  intro ending before b after hnames hknown hok
  obtain ⟨found, mid, hpeek, hsecond⟩ := ParserLaw.bind_eq_ok hok
  cases hpeek
  rw [hknown.1] at hsecond
  exact hf.run hnames hknown hsecond

/-- As `settles_bind_peek`, for the token after the one that is known. -/
theorem settles_bind_second {first : TokenKind} {f : TokenKind → Parser β}
    (hf : ∀ second, Settles marks [first, second] owed (f second)) :
    Settles marks (first :: known) owed (peekAt 1 >>= f) := by
  constructor
  intro ending before b after hnames hknown hok
  obtain ⟨second, mid, hpeek, hsecond⟩ := ParserLaw.bind_eq_ok hok
  cases hpeek
  refine (hf _).run hnames ⟨hknown.1, ?_, trivial⟩ hsecond
  rw [List.getElem?_tail]

theorem settles_bind_check {kind : TokenKind} {f : Bool → Parser β}
    (htrue : Settles marks [kind] owed (f true)) (hfalse : Settles marks known owed (f false)) :
    Settles marks known owed (check kind >>= f) := by
  constructor
  intro ending before b after hnames hknown hok
  obtain ⟨found, mid, hcheck, hsecond⟩ := ParserLaw.bind_eq_ok hok
  cases hcheck
  cases hfound : (before.rest[0]?.map Token.kind).getD .endMarker == kind with
  | true =>
    rw [hfound] at hsecond
    exact htrue.run hnames ⟨eq_of_beq hfound, trivial⟩ hsecond
  | false =>
    rw [hfound] at hsecond
    exact hfalse.run hnames hknown hsecond

instance (p : Parser α) [h : Rule marks known p left] [hpays : Pays owed left 0] :
    Settles marks known owed p := settles_of_eq h.settles (hpays.eq.trans (add_zero left))

instance (priority := low) (p : Parser α) [h : Settles marks known 0 p] : Rule marks known p 0 :=
  ⟨h⟩

instance (b : β) (x : Multiset Entry) [hb : Total b x] : Makes (pure b : Parser β) x := by
  constructor
  intro ending before a after hok
  cases hok
  exact ⟨rfl, hb.eq⟩

instance (p : Parser α) [Worthy α] (f : α → Parser β) (x : Multiset Entry)
    [hp : Rule marks known p x] [hpays : Pays owed x left]
    [hf : ∀ a, Settles marks [] (left + worth a) (f a)] : Settles marks known owed (p >>= f) :=
  settles_bind hp.settles hpays hf

instance (p : Parser γ) [Worthless γ] (f : γ → Parser β) [hp : Rule marks known p 0]
    [hf : ∀ c, Settles marks [] owed (f c)] : Settles marks known owed (p >>= f) :=
  settles_bind_worthless hp.settles hf

instance (priority := high) (p : Parser Unit) (f : Unit → Parser β) [hp : Rule marks known p 0]
    [hf : Settles marks [] owed (f ())] : Settles marks known owed (p >>= f) :=
  settles_bind_worthless hp.settles fun _ => hf

instance (priority := high) (p : Parser Bool) (q r : Parser β) [hp : Rule marks known p 0]
    [hq : Settles marks [] owed q] [hr : Settles marks [] owed r] :
    Settles marks known owed (p >>= fun found => if found = true then q else r) := by
  refine settles_bind_worthless hp.settles fun found => ?_
  split
  · exact hq
  · exact hr

instance (priority := high) (p : Parser γ) [hp : Looks p] (f : γ → Parser β)
    [hf : ∀ c, Settles marks known owed (f c)] : Settles marks known owed (p >>= f) :=
  settles_bind_looks hp hf

instance (priority := high) (p : Parser Bool) [hp : Looks p] (q r : Parser β)
    [hq : Settles marks known owed q] [hr : Settles marks known owed r] :
    Settles marks known owed (p >>= fun found => if found = true then q else r) := by
  refine settles_bind_looks hp fun found => ?_
  split
  · exact hq
  · exact hr

instance (priority := high) (p : Parser α) [Worthy α] (f : α → Parser β) (x : Multiset Entry)
    [hp : Makes p x] [hpays : Pays owed x left]
    [hf : ∀ a, Settles marks known (left + worth a) (f a)] : Settles marks known owed (p >>= f) :=
  settles_bind_makes hp hpays hf

instance (priority := high) (kind : TokenKind) (p q : Parser β)
    [hp : Settles marks [kind] owed p] [hq : Settles marks known owed q] :
    Settles marks known owed (check kind >>= fun found => if found = true then p else q) :=
  settles_bind_check hp hq

instance (c : Prop) [Decidable c] (p q : Parser α) [hp : Settles marks known owed p]
    [hq : Settles marks known owed q] : Settles marks known owed (if c then p else q) := by
  split
  · exact hp
  · exact hq

instance (p : Parser Bool) [Settles marks known owed (p >>= fun _ => pure ())] :
    Settles marks known owed (discard p) :=
  inferInstanceAs (Settles marks known owed (p >>= fun _ => pure ()))

/-! ## Looking at tokens -/

instance (a : γ) : Looks (pure a : Parser γ) := ⟨fun h => by cases h; rfl⟩

instance (p : Parser γ) (f : γ → Parser δ) [hp : Looks p] [hf : ∀ c, Looks (f c)] :
    Looks (p >>= f) := by
  constructor
  intro ending before b after hok
  obtain ⟨c, mid, hfirst, hsecond⟩ := ParserLaw.bind_eq_ok hok
  rw [(hf c).eq hsecond, hp.eq hfirst]

instance (c : Prop) [Decidable c] (p q : Parser γ) [hp : Looks p] [hq : Looks q] :
    Looks (if c then p else q) := by
  split
  · exact hp
  · exact hq

instance (n : Nat) : Looks (peekAt n) := ⟨fun h => by cases h; rfl⟩

instance : Looks peek := inferInstanceAs (Looks (peekAt 0))

instance (kind : TokenKind) : Looks (check kind) := ⟨fun h => by cases h; rfl⟩

instance (text : String) : Looks (checkWord text) := ⟨fun h => by cases h; rfl⟩

instance : Looks atEnd := ⟨fun h => by cases h; rfl⟩

instance : Looks here := ⟨fun h => by cases h; rfl⟩

instance : Looks Parser.inPattern := ⟨fun h => by cases h; rfl⟩

instance (start : Position) : Looks (spanFrom start) := ⟨fun h => by cases h; rfl⟩

/-! ## Faults and nodes -/

instance (fault : GrammarFault) (position : Position) :
    Settles marks known owed (failAt fault position : Parser α) :=
  ⟨fun _ _ hok => absurd hok failAt_ne_ok⟩

instance (fault : GrammarFault) : Settles marks known owed (failHere fault : Parser α) :=
  ⟨fun _ _ hok => absurd hok failHere_ne_ok⟩

/-- A node is paid for by what it stores and by its children. -/
instance (kind : NodeKind) (start : Position) (children : List Tree) (x y : Multiset Entry)
    [hkind : Stores kind x] [hchildren : Total children y] :
    Makes (node kind start children) (x + y) := by
  constructor
  intro ending before t after hok
  cases hok
  exact ⟨rfl, Total.eq⟩

/-! ## Taking tokens -/

theorem passes_one (marks : Bool) {token : Token} (single : token.kind ≠ .string)
    (rest : List Token) : Passes marks (token :: rest) (tally marks token) rest := by
  have hpasses : Passes marks (token :: rest) (tally marks token + 0) rest :=
    .token single (.refl rest)
  rwa [add_zero] at hpasses

/-- A token that holds no entry is taken; what comes after it is still known. -/
theorem settles_bind_advance {kind : TokenKind} [hkind : Silent marks kind] {f : Unit → Parser β}
    (hf : Settles marks known owed (f ())) :
    Settles marks (kind :: known) owed (advance >>= f) := by
  constructor
  intro ending before b after hnames hknown hok
  obtain ⟨token, rest, hrest, htoken, hlater⟩ := exists_token hknown hkind.ne_end
  obtain ⟨_, mid, hadvance, hsecond⟩ := ParserLaw.bind_eq_ok hok
  have hpasses := passes_one marks (htoken ▸ hkind.single) rest
  rw [← hrest, ← rest_of_advance hrest hadvance, hkind.tally_eq token htoken] at hpasses
  rw [← rest_of_advance hrest hadvance] at hlater
  obtain ⟨entries, hmore, htotal⟩ := hf.run (hnames.mono hpasses.suffix) hlater hsecond
  refine ⟨entries, ?_, htotal⟩
  have hboth := hpasses.trans hmore
  rwa [zero_add] at hboth

theorem settles_bind_word {f : String → Parser β}
    (hf : ∀ name, Settles marks known (owed + worth name) (f name)) :
    Settles marks (.name :: known) owed (word >>= f) := by
  constructor
  intro ending before b after hnames hknown hok
  obtain ⟨token, rest, hrest, htoken, hlater⟩ := exists_token hknown (by decide)
  obtain ⟨name, mid, hword, hsecond⟩ := ParserLaw.bind_eq_ok hok
  obtain ⟨_, _, hlexeme, hword⟩ := ParserLaw.bind_eq_ok hword
  cases hlexeme
  obtain ⟨_, _, hadvance, hword⟩ := ParserLaw.bind_eq_ok hword
  cases hword
  rw [hrest] at hsecond
  have hsingle : token.kind ≠ .string := by simp [htoken]
  have hpasses := passes_one marks hsingle rest
  rw [← hrest, ← rest_of_advance hrest hadvance] at hpasses
  rw [← rest_of_advance hrest hadvance] at hlater
  obtain ⟨entries, hmore, htotal⟩ := (hf _).run (hnames.mono hpasses.suffix) hlater hsecond
  have htally : tally marks token = worth token.lexeme := by simp [tally, htoken, worth]
  refine ⟨tally marks token + entries, hpasses.trans hmore, ?_⟩
  rw [htotal, htally, ← add_assoc]
  rfl

/-- What the next token is decides about the one that may be taken. -/
theorem settles_bind_eat {first kind : TokenKind} [hkind : Silent marks kind] {f : Bool → Parser β}
    (htrue : first = kind → Settles marks known owed (f true))
    (hfalse : first ≠ kind → Settles marks (first :: known) owed (f false)) :
    Settles marks (first :: known) owed (eat kind >>= f) := by
  constructor
  intro ending before b after hnames hknown hok
  rw [ParserLaw.bind_eq, eat_eq, hknown.1] at hok
  split at hok
  · next heat =>
    split at heat
    · next hfirst =>
      obtain rfl := eq_of_beq hfirst
      have hrun : Settles marks (first :: known) owed (advance >>= fun _ => f true) :=
        settles_bind_advance (htrue rfl)
      obtain ⟨_, mid, hadvance, heat⟩ := ParserLaw.bind_eq_ok heat
      cases heat
      have hboth : (advance >>= fun _ => f true) ending before = .ok b after := by
        rw [ParserLaw.bind_eq, hadvance]
        exact hok
      exact hrun.run hnames hknown hboth
    · next hfirst =>
      cases heat
      exact (hfalse fun h => hfirst (beq_iff_eq.2 h)).run hnames hknown hok
  · cases hok

instance (priority := high) (kind : TokenKind) [Silent marks kind] (f : Unit → Parser β)
    [hf : Settles marks known owed (f ())] :
    Settles marks (kind :: known) owed (advance >>= f) := settles_bind_advance hf

instance (priority := high) (f : String → Parser β)
    [hf : ∀ name, Settles marks known (owed + worth name) (f name)] :
    Settles marks (.name :: known) owed (word >>= f) := settles_bind_word hf

instance : Settles marks (.name :: known) 0 word := by
  have hword : Settles marks (.name :: known) 0 (word >>= pure) := inferInstance
  constructor
  intro ending before name after hnames hknown hok
  have hboth : (word >>= pure) ending before = .ok name after := by
    rw [ParserLaw.bind_eq, hok]
    rfl
  exact hword.run hnames hknown hboth

instance (kind : TokenKind) [Silent marks kind] : Settles marks known 0 (eat kind) := by
  unfold eat
  infer_instance

instance (kind : TokenKind) [Silent marks kind] : Settles marks known 0 (expect kind) := by
  unfold expect
  infer_instance

instance (kind : TokenKind) [Silent marks kind] : Settles marks known 0 (require kind) := by
  unfold require
  infer_instance

instance : Settles marks known 0 expectName := by
  unfold expectName
  infer_instance

/-! ## Control -/

instance (p : Parser α) [hp : Rule marks known p owed] : Rule marks known (nested p) owed := by
  refine ⟨⟨fun {ending before a after} hnames hknown hok => ?_⟩⟩
  unfold nested at hok
  split at hok
  · exact absurd hok failHere_ne_ok
  · split at hok
    · next hrun =>
      cases hok
      have hdeeper := fun hnames hknown => hp.settles.run hnames hknown hrun
      exact hdeeper hnames hknown
    · cases hok

instance (p : Parser α) [hp : Rule marks known p owed] :
    Rule marks known (withinPattern p) owed := by
  refine ⟨⟨fun {ending before a after} hnames hknown hok => ?_⟩⟩
  unfold withinPattern at hok
  split at hok
  · next hrun =>
    cases hok
    have hinside := fun hnames hknown => hp.settles.run hnames hknown hrun
    exact hinside hnames hknown
  · cases hok

/-- An attempt that comes to nothing takes nothing. -/
theorem settles_bind_speculate {p : Parser (Option α)} {f : Option α → Parser β}
    (hp : ∀ {ending before a after}, SingleNames before.rest → Knows known before.rest →
      p ending before = .ok (some a) after → Passes marks before.rest (worth a) after.rest)
    (hsome : ∀ a, Settles marks [] (owed + worth a) (f (some a)))
    (hnone : Settles marks known owed (f none)) :
    Settles marks known owed (speculate p >>= f) := by
  constructor
  intro ending before b after hnames hknown hok
  obtain ⟨found, mid, hspeculate, hsecond⟩ := ParserLaw.bind_eq_ok hok
  unfold speculate at hspeculate
  split at hspeculate
  · next a _ hrun =>
    cases hspeculate
    have hpasses := hp hnames hknown hrun
    obtain ⟨entries, hmore, htotal⟩ :=
      (hsome a).run (hnames.mono hpasses.suffix) trivial hsecond
    exact ⟨_, hpasses.trans hmore, by rw [htotal, add_assoc]⟩
  · cases hspeculate
    exact hnone.run hnames hknown hsecond

theorem settles_manyWithin {item : Parser (Option α)} (hitem : Settles marks [] 0 item)
    (fuel : Nat) : Settles marks [] 0 (manyWithin item fuel) := by
  induction fuel with
  | zero =>
    unfold manyWithin
    infer_instance
  | succ fuel ih =>
    unfold manyWithin
    refine settles_bind hitem inferInstance fun found => ?_
    cases found with
    | none => exact inferInstanceAs (Settles marks [] (0 + 0) (pure []))
    | some a =>
      exact inferInstanceAs (Settles marks [] (0 + worth a)
        (do return a :: (← manyWithin item fuel)))

instance (item : Parser (Option α)) [hitem : Settles marks [] 0 item] :
    Settles marks known 0 (many item) :=
  ⟨fun hnames _ hok => (settles_manyWithin hitem _).run hnames trivial hok⟩

theorem settles_iterateWithin {step : σ → Parser (σ × Bool)}
    (hstep : ∀ s, Settles marks [] (worth s) (step s)) (fuel : Nat) (s : σ) :
    Settles marks [] (worth s) (iterateWithin step fuel s) := by
  induction fuel generalizing s with
  | zero =>
    unfold iterateWithin
    infer_instance
  | succ fuel ih =>
    unfold iterateWithin
    refine settles_bind (hstep s) (Pays.self (worth s)) fun result => ?_
    obtain ⟨s, again⟩ := result
    have hworth : 0 + worth (s, again) = worth s := by
      rw [zero_add]
      exact add_zero _
    rw [hworth]
    have hrest := ih s
    exact inferInstanceAs
      (Settles marks [] (worth s) (if again then iterateWithin step fuel s else pure s))

instance (step : σ → Parser (σ × Bool)) (s : σ) (x : Multiset Entry) [hs : Total s x]
    [hstep : ∀ s, Settles marks [] (worth s) (step s)] :
    Rule marks known (iterate step s) x := by
  rw [← hs.eq]
  exact ⟨⟨fun hnames _ hok => (settles_iterateWithin hstep _ s).run hnames trivial hok⟩⟩

instance (stop : Parser Bool) [Looks stop] (item : Parser α) [Worthy α]
    [Settles marks [] 0 item] : Settles marks known 0 (commaTail stop item) := by
  unfold commaTail
  infer_instance

instance (stop : Parser Bool) [Looks stop] (item : Parser Tree) [Settles marks known 0 item]
    [Settles marks [] 0 item] : Settles marks known 0 (tupleOf stop item) := by
  unfold tupleOf
  infer_instance

end Parsers

end SnippetLint.Ledger
