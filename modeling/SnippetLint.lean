import SnippetLint.Main
import SnippetLint.Proofs.Blocks
import SnippetLint.Proofs.Coverage
import SnippetLint.Proofs.Findings
import SnippetLint.Proofs.Preorder
import SnippetLint.Proofs.Reports
import SnippetLint.Proofs.KnownNames
import SnippetLint.Proofs.ParserLaw
import SnippetLint.Proofs.GrammarLaw
import SnippetLint.Proofs.Agreement
import SnippetLint.Proofs.Derivation
import SnippetLint.Proofs.Ownership
import SnippetLint.Proofs.DerivationExpression
import SnippetLint.Proofs.DerivationStatement
import SnippetLint.Proofs.Spans
import SnippetLint.Proofs.Contexts
import SnippetLint.Proofs.Formula
import SnippetLint.Proofs.Numerals
import SnippetLint.Proofs.Rendering
import SnippetLint.Proofs.FormulaLexing
import SnippetLint.Proofs.Cutoff
import SnippetLint.Proofs.Precedence
import SnippetLint.Proofs.Discipline
import SnippetLint.Proofs.EmptyBlocks
import SnippetLint.Builder.Basic
import SnippetLint.Builder.Check
import SnippetLint.Builder.Expression
import SnippetLint.Builder.Statement
import SnippetLint.Proofs.Backtracking
import SnippetLint.Proofs.ExtraNames
import SnippetLint.Proofs.LineEndings
import SnippetLint.Proofs.Conservation
import SnippetLint.Proofs.TabSize
import SnippetLint.Proofs.Shapes
import SnippetLint.Proofs.Lookahead
import SnippetLint.Proofs.Respelling
import SnippetLint.Proofs.Renaming
import SnippetLint.Proofs.Concatenation
import SnippetLint.Proofs.Composition
import SnippetLint.Proofs.Insertion
import SnippetLint.Proofs.Spacing
import SnippetLint.Proofs.BlankLines
import SnippetLint.Proofs.Program
import SnippetLint.Proofs.ProgramGrammar
import SnippetLint.Proofs.Termination
import SnippetLint.Proofs.Checked
import SnippetLint.Proofs.CheckedAnalysis
import SnippetLint.Proofs.ReportOrder
import SnippetLint.Proofs.Excerpts
import SnippetLint.Proofs.BoundedWalk
import SnippetLint.Proofs.CasePatterns
import SnippetLint.Proofs.PatternRounds
import SnippetLint.Proofs.NumberTokens
import SnippetLint.Proofs.Templates
import SnippetLint.Proofs.Settling
import SnippetLint.Proofs.CommaLists
import SnippetLint.Proofs.ParameterLists
import SnippetLint.Proofs.ArgumentLists
import SnippetLint.Proofs.Literals
import SnippetLint.Proofs.Identifiers
import SnippetLint.Proofs.OpenLiterals
import SnippetLint.Proofs.Script
import SnippetLint.Proofs.ScriptGrammar
import SnippetLint.Proofs.Nesting
import SnippetLint.Builder.Compound
import SnippetLint.Proofs.BuildingPatterns
import SnippetLint.Proofs.BuildingStatements
