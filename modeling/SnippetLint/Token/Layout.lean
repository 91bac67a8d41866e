/-!
Indentation. The white space in front of a line is measured twice, once with tab stops and once
with every tab as one column; a line is accepted only where the two measures agree on how it
stands to the blocks around it.
-/

namespace SnippetLint

/-- The width of the white space before a line: with tab stops, and with tabs of one column. -/
structure Indentation where
  width : Nat
  plainWidth : Nat
  deriving DecidableEq, Inhabited

namespace Indentation

def zero : Indentation := ⟨0, 0⟩

/-- White space inside a line. -/
def isGap (c : Char) : Bool := c == ' ' || c == '\t' || c == '\x0c'

/-- The width after one more character. A form feed starts the measure anew. -/
def extend (tabSize : Nat) (indentation : Indentation) (c : Char) : Indentation :=
  if c = ' ' then ⟨indentation.width + 1, indentation.plainWidth + 1⟩
  else if c = '\t' then
    ⟨(indentation.width / tabSize + 1) * tabSize, indentation.plainWidth + 1⟩
  else zero

def measure (tabSize : Nat) (gap : List Char) : Indentation :=
  gap.foldl (extend tabSize) zero

/-- How a line stands to the open blocks. -/
inductive Change where
  | same
  /-- One more block. -/
  | deeper
  /-- This many blocks end, and these stay open. -/
  | shallower (closed : Nat) (remaining : List Indentation)
  deriving DecidableEq, Inhabited

inductive Fault where
  | tabs
  | tooDeep
  | mismatch
  deriving DecidableEq, Inhabited

/-- Blocks nest at most this deep. -/
def maxBlocks : Nat := 100

/-- The indentation of the innermost of the open blocks. -/
def innermost (blocks : List Indentation) : Indentation := blocks.head?.getD zero

/-- Compares the indentation of a line with the open blocks, innermost first. -/
def compare (here : Indentation) (blocks : List Indentation) : Except Fault Change :=
  let top := innermost blocks
  if top.width < here.width then
    if here.plainWidth ≤ top.plainWidth then .error .tabs
    else if maxBlocks ≤ blocks.length then .error .tooDeep
    else .ok .deeper
  else if here.width < top.width then
    let remaining := blocks.dropWhile fun block => here.width < block.width
    let outer := innermost remaining
    if here.width ≠ outer.width then .error .mismatch
    else if here.plainWidth ≠ outer.plainWidth then .error .tabs
    else .ok (.shallower (blocks.length - remaining.length) remaining)
  else if here.plainWidth ≠ top.plainWidth then .error .tabs
  else .ok .same

end Indentation

end SnippetLint
