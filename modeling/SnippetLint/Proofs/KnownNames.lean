import SnippetLint.Proofs.Preorder
import SnippetLint.Proofs.Reports

/-!
Names bound anywhere in a snippet are known everywhere in it. `Binds` says which names a node binds,
`collect_iff` that these are added for the nodes that the walk visits, and
`bound_names_known_everywhere` puts this together with the scan, for trees that are shallow enough
and for those that are not.
-/

namespace SnippetLint.KnownNames

/-- A segment is what stands before the first dot of a dotted name, or all of it. -/
def FirstSegment (name segment : String) : Prop :=
  ∃ rest, name.toList = segment.toList ++ rest ∧ '.' ∉ segment.toList ∧
    (rest = [] ∨ ∃ more, rest = '.' :: more)

/-- The names that a node binds. -/
inductive Binds : NodeKind → String → Prop
  | stored (id : String) : Binds (.name id .store) id
  | functionDef (name : String) (isAsync : Bool) : Binds (.functionDef name isAsync) name
  | classDef (name : String) : Binds (.classDef name) name
  | parameter (name : String) (kind : ParameterKind) : Binds (.parameter name kind) name
  | typeParam (name : String) : Binds (.typeParam name) name
  | matchAs (name : String) : Binds (.matchAs name) name
  | exceptHandler (name : String) : Binds (.exceptHandler (some name)) name
  | imported {names : List Alias} {entry : Alias} (mem : entry ∈ names) :
      Binds (.importStmt names) entry.name
  | importedSegment {names : List Alias} {entry : Alias} {segment : String} (mem : entry ∈ names)
      (first : FirstSegment entry.name segment) : Binds (.importStmt names) segment
  | importedAs {names : List Alias} {entry : Alias} {name : String} (mem : entry ∈ names)
      (given : entry.asName = some name) : Binds (.importStmt names) name
  | taken {module : Option String} {level : Nat} {names : List Alias} {entry : Alias}
      (mem : entry ∈ names) (single : entry.name ≠ "*") :
      Binds (.importFrom module level names) entry.name
  | takenAs {module : Option String} {level : Nat} {names : List Alias} {entry : Alias}
      {name : String} (mem : entry ∈ names) (single : entry.name ≠ "*")
      (given : entry.asName = some name) : Binds (.importFrom module level names) name

/-! ## The names of one node -/

theorem firstSegment_iff {name segment : String} :
    FirstSegment name segment ↔ segment = String.ofList (name.toList.takeWhile (· != '.')) := by
  constructor
  · rintro ⟨rest, hname, hdotless, hrest⟩
    have hall : ∀ c ∈ segment.toList, (c != '.') = true := by
      intro c hc
      rw [bne_iff_ne]
      exact fun hdot => hdotless (hdot ▸ hc)
    have hstop : rest.takeWhile (· != '.') = [] := by
      rcases hrest with rfl | ⟨more, rfl⟩
      · rfl
      · rfl
    rw [hname, List.takeWhile_append_of_pos hall, hstop, List.append_nil, String.ofList_toList]
  · rintro rfl
    rw [FirstSegment, String.toList_ofList]
    refine ⟨name.toList.dropWhile (· != '.'), List.takeWhile_append_dropWhile.symm, ?_, ?_⟩
    · intro hdot
      have hall : (name.toList.takeWhile (· != '.')).all (· != '.') = true := List.all_takeWhile
      simpa using List.all_eq_true.1 hall '.' hdot
    · have hhead := List.head?_dropWhile_not (· != '.') name.toList
      cases hrest : name.toList.dropWhile (· != '.') with
      | nil => exact .inl rfl
      | cons c more =>
        rw [hrest] at hhead
        have hdot : c = '.' := by simpa using hhead
        exact .inr ⟨more, by rw [hdot]⟩

/-- A name without a dot is its own first segment. -/
theorem firstSegment_iff_of_dotless {name segment : String} (h : '.' ∉ name.toList) :
    FirstSegment name segment ↔ segment = name := by
  have hself : FirstSegment name name := ⟨[], (List.append_nil _).symm, h, .inl rfl⟩
  rw [firstSegment_iff, ← firstSegment_iff.1 hself]

theorem mem_topPackage_or_iff {name other : String} :
    other ∈ (Bound.topPackage? name).toList ∨ other = name ↔
      other = name ∨ FirstSegment name other := by
  unfold Bound.topPackage?
  split
  · next h => simp [firstSegment_iff, or_comm, eq_comm]
  · next h => simp [firstSegment_iff_of_dotless h]

theorem mem_ofImport_iff {entry : Alias} {name : String} :
    name ∈ Bound.ofImport entry ↔
      name = entry.name ∨ FirstSegment entry.name name ∨ entry.asName = some name := by
  rw [Bound.ofImport, List.mem_append, List.mem_cons, ← or_assoc, mem_topPackage_or_iff,
    Option.mem_toList, or_assoc]

theorem mem_ofImportFrom_iff {entry : Alias} {name : String} :
    name ∈ Bound.ofImportFrom entry ↔
      entry.name ≠ "*" ∧ (name = entry.name ∨ entry.asName = some name) := by
  unfold Bound.ofImportFrom
  split
  · next h => simp [h]
  · next h => simp [h]

theorem mem_ofKind_iff {kind : NodeKind} {name : String} :
    name ∈ Bound.ofKind kind ↔ Binds kind name := by
  constructor
  · intro h
    unfold Bound.ofKind at h
    split at h
    · cases List.mem_singleton.1 h; exact .stored _
    · cases List.mem_singleton.1 h; exact .functionDef _ _
    · cases List.mem_singleton.1 h; exact .classDef _
    · cases List.mem_singleton.1 h; exact .parameter _ _
    · cases List.mem_singleton.1 h; exact .typeParam _
    · cases List.mem_singleton.1 h; exact .matchAs _
    · rw [Option.mem_toList] at h
      cases h
      exact .exceptHandler _
    · obtain ⟨entry, hentry, hname⟩ := List.mem_flatMap.1 h
      rcases mem_ofImport_iff.1 hname with rfl | hfirst | hgiven
      · exact .imported hentry
      · exact .importedSegment hentry hfirst
      · exact .importedAs hentry hgiven
    · obtain ⟨entry, hentry, hname⟩ := List.mem_flatMap.1 h
      obtain ⟨hsingle, rfl | hgiven⟩ := mem_ofImportFrom_iff.1 hname
      · exact .taken hentry hsingle
      · exact .takenAs hentry hsingle hgiven
    · cases h
  · intro h
    cases h with
    | imported mem => exact List.mem_flatMap.2 ⟨_, mem, mem_ofImport_iff.2 (.inl rfl)⟩
    | importedSegment mem first =>
      exact List.mem_flatMap.2 ⟨_, mem, mem_ofImport_iff.2 (.inr (.inl first))⟩
    | importedAs mem given =>
      exact List.mem_flatMap.2 ⟨_, mem, mem_ofImport_iff.2 (.inr (.inr given))⟩
    | taken mem single =>
      exact List.mem_flatMap.2 ⟨_, mem, mem_ofImportFrom_iff.2 ⟨single, .inl rfl⟩⟩
    | takenAs mem single given =>
      exact List.mem_flatMap.2 ⟨_, mem, mem_ofImportFrom_iff.2 ⟨single, .inr given⟩⟩
    | _ => simp [Bound.ofKind]

/-! ## The names of a tree -/

/-- The names known in every snippet under these settings. -/
def Seeded (settings : Settings) (name : String) : Prop :=
  name ∈ Seed.names .standard ∨ name ∈ settings.extraBuiltins

theorem mem_ofList_iff {names : List String} {name : String} :
    name ∈ NameSet.ofList names ↔ name ∈ names := by
  have hempty : name ∉ NameSet.empty := by simp [NameSet.mem_def, NameSet.empty]
  rw [NameSet.ofList, NameSet.mem_insertAll, or_iff_left hempty]

theorem mem_seed_iff {settings : Settings} {name : String} :
    name ∈ Seed.names settings ↔ Seeded settings name := by
  simp only [Seeded, Seed.names, mem_ofList_iff, Settings.standard, List.append_nil,
    List.mem_append]

/-- What the walk of a stored tree collects, read off the tree. -/
theorem ofWalk_ofTree (t : Tree) :
    Bound.ofWalk (RootedArena.ofTree t).walk =
      (Preorder.within RootedArena.maxDepth (Preorder.nodes 1 t)).flatMap
        fun node => Bound.ofKind node.2 := by
  have hkinds := List.flatMap_map Node.kind Bound.ofKind (RootedArena.ofTree t).walk.visited
  have hnodes := List.flatMap_map Prod.snd Bound.ofKind
    (Preorder.within RootedArena.maxDepth (Preorder.nodes 1 t))
  rw [Bound.ofWalk, ← hkinds, Preorder.walk_ofTree, hnodes]

theorem mem_knownNames_iff {settings : Settings} {t : Tree} {name : String} :
    name ∈ Analysis.knownNames settings t ↔ Seeded settings name ∨
      ∃ node ∈ Preorder.within RootedArena.maxDepth (Preorder.nodes 1 t), Binds node.2 name := by
  rw [Analysis.knownNames, Bound.collect, NameSet.mem_insertAll, mem_seed_iff, or_comm,
    ofWalk_ofTree, List.mem_flatMap]
  simp only [mem_ofKind_iff]

/-! ## Known names are not reported -/

/-- A name error names what the scan did not know when it started. -/
theorem not_mem_of_nameError {settings : Settings} {source : String} {t : Tree} {d : Diagnostic}
    (h : Module.parse source = .ok t) (hd : d ∈ Analysis.diagnostics settings source)
    (hkind : d.kind = .nameError) {name : String}
    (hmessage : d.message = "NameError: name '" ++ name ++ "' is not defined") :
    name ∉ Analysis.knownNames settings t := by
  cases Reports.mem_diagnostics h hd with
  | @undefinedName token unknown =>
    have hsame : token.lexeme = name :=
      String.append_right_inj _ |>.1 (String.append_left_inj _ |>.1 hmessage)
    exact hsame ▸ unknown
  | unexpectedIndent token expected => cases hkind
  | tokenError fails => cases hkind

/-- **Names bound anywhere are known everywhere.** The scan of a snippet starts with the seeded
names and those that its tree binds, in pre-order up to the first node that is too deep; none of
them is ever reported as undefined. -/
theorem bound_names_known_everywhere (settings : Settings) {source : String} {t : Tree}
    (h : Module.parse source = .ok t) :
    Analysis.diagnostics settings source =
      Diagnostic.aggregate settings.policy (Scan.source settings.indentWidth .window
        (Analysis.knownNames settings t) source).diagnostics ∧
    ((∀ node ∈ Preorder.nodes 1 t, node.1 ≤ 1000) → ∀ name,
      name ∈ Analysis.knownNames settings t ↔
        Seeded settings name ∨ ∃ node ∈ Preorder.nodes 1 t, Binds node.2 name) ∧
    (∀ before deep after, Preorder.nodes 1 t = before ++ deep :: after →
      (∀ node ∈ before, node.1 ≤ 1000) → 1000 < deep.1 → ∀ name,
        name ∈ Analysis.knownNames settings t ↔
          Seeded settings name ∨ ∃ node ∈ before, Binds node.2 name) ∧
    ∀ name ∈ Analysis.knownNames settings t, ∀ d ∈ Analysis.diagnostics settings source,
      d.kind = .nameError → d.message ≠ "NameError: name '" ++ name ++ "' is not defined" := by
  have hlimit : RootedArena.maxDepth = 1000 := rfl
  refine ⟨Reports.diagnostics_of_ok h, fun hshallow name => ?_, ?_, ?_⟩
  · rw [mem_knownNames_iff, hlimit, Preorder.within_eq_self hshallow]
  · intro before deep after hnodes hbefore hdeep name
    rw [mem_knownNames_iff, hlimit, hnodes, Preorder.within_append_deep hbefore hdeep]
  · intro name hname d hd hkind hmessage
    exact not_mem_of_nameError h hd hkind hmessage hname

/-- The import of a dotted module makes its package known, and no name error speaks of it. -/
theorem dotted_import_known :
    ∃ t, Module.parse "import a.b" = .ok t ∧ "a" ∈ Analysis.knownNames .standard t ∧
      ∀ d ∈ Analysis.diagnostics .standard "import a.b",
        d.kind = .nameError → d.message ≠ "NameError: name '" ++ "a" ++ "' is not defined" := by
  have hall : (Module.parse "import a.b").toOption.map (Preorder.nodes 1) =
      some [(1, .module), (2, .importStmt [⟨"a.b", none, ⟨⟨1, 7, 7⟩, ⟨1, 10, 10⟩⟩⟩])] := by
    decide +kernel
  cases hparse : Module.parse "import a.b" with
  | error error =>
    rw [hparse] at hall
    cases hall
  | ok t =>
    rw [hparse] at hall
    have hnodes := Option.some.inj hall
    obtain ⟨_, hshallow, _, hsilent⟩ := bound_names_known_everywhere .standard hparse
    have hsegment : FirstSegment "a.b" "a" :=
      ⟨['.', 'b'], by decide, by decide, .inr ⟨['b'], rfl⟩⟩
    have hknown : "a" ∈ Analysis.knownNames .standard t := by
      rw [hshallow (by rw [hnodes]; decide), hnodes]
      exact .inr ⟨_, .tail _ (.head _), .importedSegment (.head _) hsegment⟩
    exact ⟨t, rfl, hknown, hsilent "a" hknown⟩

end SnippetLint.KnownNames
