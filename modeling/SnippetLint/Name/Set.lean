/-!
Sets of names, as lists without repetition.
-/

namespace SnippetLint

structure NameSet where
  toList : List String
  nodup : toList.Nodup
  deriving DecidableEq

namespace NameSet

def empty : NameSet := ⟨[], List.nodup_nil⟩

instance : Inhabited NameSet := ⟨empty⟩

instance : Membership String NameSet := ⟨fun names name => name ∈ names.toList⟩

def contains (names : NameSet) (name : String) : Bool := names.toList.contains name

def size (names : NameSet) : Nat := names.toList.length

def isEmpty (names : NameSet) : Bool := names.toList.isEmpty

/-- Adds a name, unless it is there already. -/
def insert (names : NameSet) (name : String) : NameSet :=
  if h : name ∈ names.toList then names
  else ⟨name :: names.toList, List.nodup_cons.2 ⟨h, names.nodup⟩⟩

/-- Inserts all of a list. -/
def insertAll (names : NameSet) (more : List String) : NameSet := more.foldl insert names

def ofList (names : List String) : NameSet := empty.insertAll names

theorem mem_def {names : NameSet} {name : String} : name ∈ names ↔ name ∈ names.toList :=
  Iff.rfl

@[simp] theorem contains_iff {names : NameSet} {name : String} :
    names.contains name = true ↔ name ∈ names := by
  simp [contains, mem_def]

@[simp] theorem mem_insert {names : NameSet} {name other : String} :
    other ∈ names.insert name ↔ other = name ∨ other ∈ names := by
  unfold insert
  split
  · next h =>
    constructor
    · exact Or.inr
    · rintro (rfl | h')
      · exact h
      · exact h'
  · simp [mem_def]

@[simp] theorem mem_insertAll {names : NameSet} {more : List String} {other : String} :
    other ∈ names.insertAll more ↔ other ∈ more ∨ other ∈ names := by
  induction more generalizing names with
  | nil => simp [insertAll]
  | cons name more ih =>
    have h : names.insertAll (name :: more) = (names.insert name).insertAll more := rfl
    rw [h, ih, mem_insert, List.mem_cons, or_left_comm, or_assoc]

end NameSet

end SnippetLint
