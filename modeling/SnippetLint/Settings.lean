/-!
What a user may choose: the width of a block's indentation, names to be taken as known, and what
to keep of several diagnostics on one line.
-/

namespace SnippetLint

inductive LinePolicy where
  | firstPerLine | keepAll
  deriving DecidableEq, Inhabited

namespace LinePolicy

def text : LinePolicy → String
  | firstPerLine => "first-per-line"
  | keepAll => "keep-all"

def ofText? : String → Option LinePolicy
  | "first-per-line" => some firstPerLine
  | "keep-all" => some keepAll
  | _ => none

end LinePolicy

structure Settings where
  indentWidth : Nat
  extraBuiltins : List String
  policy : LinePolicy
  deriving DecidableEq

namespace Settings

def standard : Settings := ⟨4, [], .firstPerLine⟩

instance : Inhabited Settings := ⟨standard⟩

end Settings

end SnippetLint
