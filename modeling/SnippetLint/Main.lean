import SnippetLint.CommandLine

/-!
The program: it reads the file of settings if one is named, and prints the response.
-/

open SnippetLint CommandLine

/-- The content of a file, if it can be read. -/
def readFile? (path : String) : IO (Option String) := do
  try
    return some (← IO.FS.readFile path)
  catch _ => return none

/-- The lines of a diagnostic for a reader. -/
def SnippetLint.CommandLine.Shown.lines : Shown → List String
  | .located title place help => [title, "  at " ++ place, "  help: " ++ help]
  | .plain lines => lines

/-- Prints a response and gives the exit status. -/
def printResponse : Response → IO UInt32
  | .usage => do
    IO.eprintln "error: unexpected arguments"
    return 2
  | .failed line => do
    IO.eprintln line
    return 1
  | .printed text => do
    IO.print text
    return 0
  | .listed items => do
    for item in items do
      for line in item.lines do
        IO.println line
      IO.println ""
    return 0

def main (args : List String) : IO UInt32 := do
  let content ← match request args with
    | some (.run given) =>
      match given.config with
      | some path => readFile? path
      | none => pure none
    | _ => pure none
  printResponse (respond args fun _ => content)
