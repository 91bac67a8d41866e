/-!
Places in a snippet. A position counts lines from one, columns in characters from zero and
offsets in bytes from zero; a span runs from its first position up to its second.
-/

namespace SnippetLint

structure Position where
  line : Nat
  column : Nat
  offset : Nat
  deriving DecidableEq, Inhabited

namespace Position

/-- The place of the first character. -/
def start : Position := ⟨1, 0, 0⟩

def zero : Position := ⟨0, 0, 0⟩

/-- The place after `ch`, when `rest` follows it. A carriage return ends the line unless a line
feed follows, so that the pair counts as one break. -/
def after (p : Position) (ch : Char) (rest : List Char) : Position :=
  let offset := p.offset + ch.utf8Size
  if ch = '\n' then ⟨p.line + 1, 0, offset⟩
  else if ch = '\r' then
    if rest.head? = some '\n' then ⟨p.line, p.column, offset⟩ else ⟨p.line + 1, 0, offset⟩
  else ⟨p.line, p.column + 1, offset⟩

/-- Positions are ordered by line, then column, then offset. -/
def compare (p q : Position) : Ordering :=
  (Ord.compare p.line q.line).then
    ((Ord.compare p.column q.column).then (Ord.compare p.offset q.offset))

def text (p : Position) : String := s!"{p.line}:{p.column}"

end Position

/-- The stretch from `start` up to, and without, `stop`. -/
structure Span where
  start : Position
  stop : Position
  deriving DecidableEq, Inhabited

namespace Span

def zero : Span := ⟨.zero, .zero⟩

/-- The empty span at one place. -/
def point (p : Position) : Span := ⟨p, p⟩

/-- The least span around both; on equal offsets the receiver's own ends are kept. -/
def merge (a b : Span) : Span :=
  ⟨if a.start.offset ≤ b.start.offset then a.start else b.start,
   if b.stop.offset ≤ a.stop.offset then a.stop else b.stop⟩

def text (s : Span) : String := s!"{s.start.text}-{s.stop.text}"

end Span

end SnippetLint
