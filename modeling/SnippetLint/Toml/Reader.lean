import SnippetLint.Toml.Value

/-!
Reading TOML. Each reader takes what it reads from the front of a text and gives the rest; a text
that breaks a rule, or holds a value that no setting has, gives nothing.
-/

namespace SnippetLint.Toml

/-! ## Space, line ends and comments -/

def isGap (c : Char) : Bool := c == ' ' || c == '\t'

def skipGap (cs : List Char) : List Char := cs.dropWhile isGap

def newline? : List Char → Option (List Char)
  | '\n' :: rest => some rest
  | '\r' :: '\n' :: rest => some rest
  | _ => none

/-- Characters that may stand in a comment or in a string: tabs and all that is no control. -/
def isPlain (c : Char) : Bool := c == '\t' || (32 ≤ c.toNat && c.toNat != 127)

/-- What follows a comment, if there is one. -/
def skipComment : List Char → List Char
  | '#' :: rest => rest.dropWhile isPlain
  | cs => cs

/-- The end of a line or of the text, after space and a comment. -/
def lineEnd (cs : List Char) : Option (List Char) :=
  match skipComment (skipGap cs) with
  | [] => some []
  | rest => newline? rest

/-- What follows space, line ends and comments; a comment must end with its line. -/
def skipLines : Nat → List Char → Option (List Char)
  | 0, cs => some cs
  | fuel + 1, cs =>
    match skipGap cs with
    | '#' :: rest => do
      let rest ← newline? (skipComment ('#' :: rest))
      skipLines fuel rest
    | rest =>
      match newline? rest with
      | some rest => skipLines fuel rest
      | none => some rest

/-! ## Strings -/

def hexDigit? (c : Char) : Option Nat :=
  if '0' ≤ c && c ≤ '9' then some (c.toNat - '0'.toNat)
  else if 'a' ≤ c && c ≤ 'f' then some (c.toNat - 'a'.toNat + 10)
  else if 'A' ≤ c && c ≤ 'F' then some (c.toNat - 'A'.toNat + 10)
  else none

/-- The character with this code point in hexadecimal. -/
def codePoint? (digits : List Char) : Option Char := do
  let n ← digits.foldlM (fun n c => (hexDigit? c).map (16 * n + ·)) 0
  if n.isValidChar then some (Char.ofNat n) else none

/-- The character that an escape stands for, after its backslash. -/
def escape? : List Char → Option (Char × List Char)
  | 'b' :: rest => some ('\x08', rest)
  | 't' :: rest => some ('\t', rest)
  | 'n' :: rest => some ('\n', rest)
  | 'f' :: rest => some ('\x0c', rest)
  | 'r' :: rest => some ('\r', rest)
  | '\x22' :: rest => some ('\x22', rest)
  | '\\' :: rest => some ('\\', rest)
  | 'u' :: rest =>
    if 4 ≤ rest.length then (codePoint? (rest.take 4)).map (·, rest.drop 4) else none
  | 'U' :: rest =>
    if 8 ≤ rest.length then (codePoint? (rest.take 8)).map (·, rest.drop 8) else none
  | _ => none

/-- A string in double quotes, after the opening one. -/
def basicString : Nat → List Char → Option (List Char × List Char)
  | fuel + 1, c :: cs =>
    if c = '\x22' then some ([], cs)
    else if c = '\\' then do
      let (escaped, rest) ← escape? cs
      let (text, rest) ← basicString fuel rest
      return (escaped :: text, rest)
    else if isPlain c then do
      let (text, rest) ← basicString fuel cs
      return (c :: text, rest)
    else none
  | _, _ => none

/-- A string in single quotes, after the opening one. -/
def literalString : List Char → Option (List Char × List Char)
  | c :: cs =>
    if c = '\x27' then some ([], cs)
    else if isPlain c then do
      let (text, rest) ← literalString cs
      return (c :: text, rest)
    else none
  | [] => none

/-- The quotes at the end of a string in triple quotes, of which two may belong to the text. -/
def closing? (quote : Char) (cs : List Char) : Option (List Char × List Char) :=
  let quotes := (cs.takeWhile (· == quote)).length
  if 3 ≤ quotes then
    let inside := min (quotes - 3) 2
    some (List.replicate inside quote, cs.drop (inside + 3))
  else none

/-- What follows space and line ends. -/
def skipBreaks : List Char → List Char
  | '\r' :: '\n' :: cs => skipBreaks cs
  | c :: cs => if isGap c || c == '\n' then skipBreaks cs else c :: cs
  | [] => []

/-- What follows a backslash at the end of a line, with all space and line ends after it. -/
def joinedLine? (cs : List Char) : Option (List Char) :=
  (newline? (skipGap cs)).map skipBreaks

/-- A string in triple quotes, after the opening ones; escapes count if `escapes` says so. -/
def longString (quote : Char) (escapes : Bool) :
    Nat → List Char → Option (List Char × List Char)
  | fuel + 1, c :: cs =>
    match closing? quote (c :: cs) with
    | some result => some result
    | none =>
      match newline? (c :: cs) with
      | some rest => do
        let (text, rest) ← longString quote escapes fuel rest
        return ('\n' :: text, rest)
      | none =>
        if escapes && c == '\\' then
          match joinedLine? cs with
          | some rest => longString quote escapes fuel rest
          | none => do
            let (escaped, rest) ← escape? cs
            let (text, rest) ← longString quote escapes fuel rest
            return (escaped :: text, rest)
        else if isPlain c then do
          let (text, rest) ← longString quote escapes fuel cs
          return (c :: text, rest)
        else none
  | _, _ => none

/-- A line end right after the opening quotes does not belong to the text. -/
def longText (quote : Char) (escapes : Bool) (cs : List Char) : Option (List Char × List Char) :=
  let body := (newline? cs).getD cs
  longString quote escapes (body.length + 1) body

/-- A string of any form. -/
def string? : List Char → Option (String × List Char)
  | '\x22' :: '\x22' :: '\x22' :: rest => do
    let (text, rest) ← longText '\x22' true rest
    return (String.ofList text, rest)
  | '\x27' :: '\x27' :: '\x27' :: rest => do
    let (text, rest) ← longText '\x27' false rest
    return (String.ofList text, rest)
  | '\x22' :: rest => do
    let (text, rest) ← basicString (rest.length + 1) rest
    return (String.ofList text, rest)
  | '\x27' :: rest => do
    let (text, rest) ← literalString rest
    return (String.ofList text, rest)
  | _ => none

/-! ## Whole numbers -/

/-- Digits of a base with single underscores between them, as a number. -/
def moreDigits (base : Nat) (n : Nat) : List Char → Nat × List Char
  | '_' :: c :: cs =>
    match hexDigit? c with
    | some digit =>
      if digit < base then moreDigits base (base * n + digit) cs else (n, '_' :: c :: cs)
    | none => (n, '_' :: c :: cs)
  | c :: cs =>
    match hexDigit? c with
    | some digit => if digit < base then moreDigits base (base * n + digit) cs else (n, c :: cs)
    | none => (n, c :: cs)
  | [] => (n, [])

def digits? (base : Nat) : List Char → Option (Nat × List Char)
  | c :: cs => do
    let digit ← hexDigit? c
    if digit < base then return moreDigits base digit cs else none
  | [] => none

/-- A decimal number, which has no leading zero. -/
def decimal? : List Char → Option (Nat × List Char)
  | '0' :: rest => some (0, rest)
  | cs => digits? 10 cs

def integer? : List Char → Option (Int × List Char)
  | '0' :: 'x' :: rest => (digits? 16 rest).map fun (n, rest) => (n, rest)
  | '0' :: 'o' :: rest => (digits? 8 rest).map fun (n, rest) => (n, rest)
  | '0' :: 'b' :: rest => (digits? 2 rest).map fun (n, rest) => (n, rest)
  | '+' :: rest => (decimal? rest).map fun (n, rest) => (n, rest)
  | '-' :: rest => (decimal? rest).map fun (n, rest) => (-n, rest)
  | cs => (decimal? cs).map fun (n, rest) => (n, rest)

/-! ## Keys -/

def isBare (c : Char) : Bool := c.isAlphanum || c == '-' || c == '_'

/-- One part of a key, bare or in quotes. -/
def simpleKey? : List Char → Option (String × List Char)
  | '\x22' :: rest => do
    let (text, rest) ← basicString (rest.length + 1) rest
    return (String.ofList text, rest)
  | '\x27' :: rest => do
    let (text, rest) ← literalString rest
    return (String.ofList text, rest)
  | cs =>
    let word := cs.takeWhile isBare
    if word.isEmpty then none else some (String.ofList word, cs.drop word.length)

/-- The parts of a key, with dots between them and space around each: those before the last, and
the last. -/
def key? : Nat → List Char → Option (List String × String × List Char)
  | 0, _ => none
  | fuel + 1, cs => do
    let (first, rest) ← simpleKey? (skipGap cs)
    match skipGap rest with
    | '.' :: rest => do
      let (path, last, rest) ← key? fuel rest
      return (first :: path, last, rest)
    | rest => return ([], first, rest)

/-! ## Values -/

mutual

def value? : Nat → List Char → Option (TomlValue × List Char)
  | 0, _ => none
  | fuel + 1, cs =>
    match cs with
    | '[' :: rest => do
      let (items, rest) ← items? fuel rest
      return (.array items, rest)
    | '\x7b' :: rest =>
      match skipGap rest with
      | '\x7d' :: rest => some (.table .inline [], rest)
      | rest => do
        let (entries, rest) ← entries? fuel [] rest
        return (.table .inline entries, rest)
    | c :: _ =>
      if c == '\x22' || c == '\x27' then do
        let (text, rest) ← string? cs
        return (.string text, rest)
      else do
        let (n, rest) ← integer? cs
        return (.integer n, rest)
    | [] => none

/-- The items of an array and its closing bracket; a comma may come after the last. -/
def items? : Nat → List Char → Option (List TomlValue × List Char)
  | 0, _ => none
  | fuel + 1, cs => do
    match ← skipLines cs.length cs with
    | ']' :: rest => return ([], rest)
    | rest => do
      let (item, rest) ← value? fuel rest
      match ← skipLines rest.length rest with
      | ',' :: rest => do
        let (items, rest) ← items? fuel rest
        return (item :: items, rest)
      | ']' :: rest => return ([item], rest)
      | _ => none

/-- The entries of an inline table, of which there is at least one, and its closing brace. -/
def entries? : Nat → TomlValue.Entries → List Char → Option (TomlValue.Entries × List Char)
  | 0, _, _ => none
  | fuel + 1, entries, cs => do
    let (path, key, rest) ← key? (cs.length + 1) cs
    match rest with
    | '=' :: rest => do
      let (value, rest) ← value? fuel (skipGap rest)
      let entries ← TomlValue.insertDotted path key value entries
      match skipGap rest with
      | ',' :: rest => entries? fuel entries rest
      | '\x7d' :: rest => return (entries, rest)
      | _ => none
    | _ => none

end

/-! ## Documents -/

/-- What has been read of a document: its entries, and the header under which it goes on. -/
structure Document where
  entries : TomlValue.Entries
  header : List String
  deriving Inhabited

/-- A header between brackets, after the opening one. -/
def header (document : Document) (cs : List Char) : Option (Document × List Char) := do
  let (path, key, rest) ← key? (cs.length + 1) cs
  match rest with
  | ']' :: rest => do
    let rest ← lineEnd rest
    let entries ← TomlValue.openHeader (path ++ [key]) document.entries
    return (⟨entries, path ++ [key]⟩, rest)
  | _ => none

/-- A key and its value. -/
def keyValue (document : Document) (cs : List Char) : Option (Document × List Char) := do
  let (path, key, rest) ← key? (cs.length + 1) cs
  match rest with
  | '=' :: rest => do
    let (value, rest) ← value? (rest.length + 1) (skipGap rest)
    let rest ← lineEnd rest
    let entries ← TomlValue.insertUnder document.header path key value document.entries
    return ({ document with entries }, rest)
  | _ => none

/-- Lines of a document. -/
def lines : Nat → Document → List Char → Option Document
  | 0, _, _ => none
  | fuel + 1, document, cs =>
    match skipGap cs with
    | [] => some document
    | '[' :: rest => do
      let (document, rest) ← header document rest
      lines fuel document rest
    | c :: rest =>
      if c == '#' || c == '\n' || c == '\r' then do
        let rest ← lineEnd (c :: rest)
        lines fuel document rest
      else do
        let (document, rest) ← keyValue document (c :: rest)
        lines fuel document rest

/-- The entries of a document; a byte order mark at its start is left out. -/
def parse? (s : String) : Option TomlValue.Entries :=
  let cs := match s.toList with
    | '\ufeff' :: rest => rest
    | cs => cs
  (lines (cs.length + 1) ⟨[], []⟩ cs).map (·.entries)

end SnippetLint.Toml
