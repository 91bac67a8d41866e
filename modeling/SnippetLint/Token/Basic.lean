import SnippetLint.Text.Position
import SnippetLint.Text.Quoted
import SnippetLint.Token.Kind

/-!
A token is a kind, the text it was read from and the place of that text.
-/

namespace SnippetLint

structure Token where
  kind : TokenKind
  lexeme : String
  span : Span
  deriving DecidableEq, Inhabited

namespace Token

/-- The line on which the token starts. -/
def line (t : Token) : Nat := t.span.start.line

/-- The kind with the lexeme in quoted form. -/
def text (t : Token) : String := t.kind.label ++ "(" ++ Text.quote t.lexeme ++ ")"

end Token

end SnippetLint
