import SnippetLint.Json.Value

/-!
Reading JSON. Each reader takes what it reads from the front of a text and gives the rest.
-/

namespace SnippetLint.JsonValue

def isSpace (c : Char) : Bool := c == ' ' || c == '\n' || c == '\t' || c == '\r'

def skipSpace (cs : List Char) : List Char := cs.dropWhile isSpace

/-- The value of a hexadecimal digit. -/
def hexDigit? (c : Char) : Option Nat :=
  if '0' ≤ c && c ≤ '9' then some (c.toNat - '0'.toNat)
  else if 'a' ≤ c && c ≤ 'f' then some (c.toNat - 'a'.toNat + 10)
  else if 'A' ≤ c && c ≤ 'F' then some (c.toNat - 'A'.toNat + 10)
  else none

/-- The number that hexadecimal digits stand for. -/
def hexNumber? (digits : List Char) : Option Nat :=
  digits.foldlM (fun n c => (hexDigit? c).map (16 * n + ·)) 0

/-- The character that a short escape stands for. -/
def shortEscape? (c : Char) : Option Char :=
  match c with
  | '\x22' | '\\' | '/' => some c
  | 'b' => some '\x08'
  | 'f' => some '\x0c'
  | 'n' => some '\n'
  | 'r' => some '\r'
  | 't' => some '\t'
  | _ => none

/-- The code units of a string after its opening quote; halves of surrogate pairs are units of
their own. -/
def units : List Char → Option (List Nat × List Char)
  | '\\' :: 'u' :: a :: b :: c :: d :: cs => do
    let unit ← hexNumber? [a, b, c, d]
    let (more, rest) ← units cs
    return (unit :: more, rest)
  | '\\' :: c :: cs => do
    let escaped ← shortEscape? c
    let (more, rest) ← units cs
    return (escaped.toNat :: more, rest)
  | c :: cs =>
    if c = '\x22' then some ([], cs)
    else if c = '\\' ∨ c.toNat < 32 then none
    else do
      let (more, rest) ← units cs
      return (c.toNat :: more, rest)
  | [] => none

/-- The characters of code units, with surrogate pairs joined. -/
def joinUnits : List Nat → Option (List Char)
  | high :: low :: units =>
    if 0xD800 ≤ high ∧ high ≤ 0xDBFF then
      if 0xDC00 ≤ low ∧ low ≤ 0xDFFF then
        let point := 0x10000 + (high - 0xD800) * 0x400 + (low - 0xDC00)
        (joinUnits units).map (Char.ofNat point :: ·)
      else none
    else if high.isValidChar then (joinUnits (low :: units)).map (Char.ofNat high :: ·)
    else none
  | [unit] => if unit.isValidChar then some [Char.ofNat unit] else none
  | [] => some []

/-- A string after its opening quote. -/
def readString (cs : List Char) : Option (Option String × List Char) := do
  let (units, rest) ← units cs
  return ((joinUnits units).map String.ofList, rest)

/-- Digits, of which there is at least one. -/
def digits1 (cs : List Char) : Option (List Char × List Char) :=
  let digits := cs.takeWhile Char.isDigit
  if digits.isEmpty then none else some (digits, cs.drop digits.length)

/-- Digits without a leading zero. -/
def wholePart : List Char → Option (List Char × List Char)
  | '0' :: cs => if cs.head?.any Char.isDigit then none else some (['0'], cs)
  | cs => digits1 cs

def fractionPart : List Char → Option (List Char × List Char)
  | '.' :: cs => do
    let (digits, rest) ← digits1 cs
    return ('.' :: digits, rest)
  | cs => some ([], cs)

def exponentPart : List Char → Option (List Char × List Char)
  | c :: cs =>
    if c == 'e' || c == 'E' then
      match cs with
      | sign :: rest =>
        if sign == '+' || sign == '-' then do
          let (digits, rest) ← digits1 rest
          return (c :: sign :: digits, rest)
        else do
          let (digits, rest) ← digits1 cs
          return (c :: digits, rest)
      | [] => none
    else some ([], c :: cs)
  | [] => some ([], [])

def readNumber (cs : List Char) : Option (String × List Char) := do
  let (sign, cs) := match cs with
    | '-' :: rest => (['-'], rest)
    | _ => ([], cs)
  let (whole, cs) ← wholePart cs
  let (fraction, cs) ← fractionPart cs
  let (exponent, cs) ← exponentPart cs
  return (String.ofList (sign ++ whole ++ fraction ++ exponent), cs)

mutual

/-- A value, after white space. -/
def readValue : Nat → List Char → Option (JsonValue × List Char)
  | 0, _ => none
  | fuel + 1, cs =>
    match skipSpace cs with
    | 'n' :: 'u' :: 'l' :: 'l' :: rest => some (.null, rest)
    | 't' :: 'r' :: 'u' :: 'e' :: rest => some (.bool true, rest)
    | 'f' :: 'a' :: 'l' :: 's' :: 'e' :: rest => some (.bool false, rest)
    | '\x22' :: rest => do
      let (text, rest) ← readString rest
      return (.string text, rest)
    | '[' :: rest =>
      match skipSpace rest with
      | ']' :: rest => some (.array [], rest)
      | rest => do
        let (items, rest) ← readItems fuel rest
        return (.array items, rest)
    | '\x7b' :: rest =>
      match skipSpace rest with
      | '\x7d' :: rest => some (.object [], rest)
      | rest => do
        let (members, rest) ← readMembers fuel rest
        return (.object members, rest)
    | rest => do
      let (text, rest) ← readNumber rest
      return (.number text, rest)

/-- The items of an array, of which there is at least one, and its closing bracket. -/
def readItems : Nat → List Char → Option (List JsonValue × List Char)
  | 0, _ => none
  | fuel + 1, cs => do
    let (item, rest) ← readValue fuel cs
    match skipSpace rest with
    | ',' :: rest => do
      let (items, rest) ← readItems fuel rest
      return (item :: items, rest)
    | ']' :: rest => return ([item], rest)
    | _ => none

/-- The members of an object, of which there is at least one, and its closing brace. -/
def readMembers : Nat → List Char → Option (List (Option String × JsonValue) × List Char)
  | 0, _ => none
  | fuel + 1, cs =>
    match skipSpace cs with
    | '\x22' :: rest => do
      let (name, rest) ← readString rest
      match skipSpace rest with
      | ':' :: rest => do
        let (value, rest) ← readValue fuel rest
        match skipSpace rest with
        | ',' :: rest => do
          let (members, rest) ← readMembers fuel rest
          return ((name, value) :: members, rest)
        | '\x7d' :: rest => return ([(name, value)], rest)
        | _ => none
      | _ => none
    | _ => none

end

/-- A text that is one value, with white space around it. -/
def ofText? (s : String) : Option JsonValue :=
  match readValue (s.length + 1) s.toList with
  | some (value, rest) => if (skipSpace rest).isEmpty then some value else none
  | none => none

end SnippetLint.JsonValue
