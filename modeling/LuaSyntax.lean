import LuaSyntax.Command.Disk
import LuaSyntax.Descent
import LuaSyntax.Main
import LuaSyntax.Session
import LuaSyntax.Proofs.OperatorTree
import LuaSyntax.Proofs.Spine
import LuaSyntax.Proofs.Grammar
import LuaSyntax.Proofs.Runs
import LuaSyntax.Proofs.Runs.Expressions
import LuaSyntax.Proofs.Runs.Statements
import LuaSyntax.Proofs.Leads
import LuaSyntax.Proofs.Leads.Settle
import LuaSyntax.Proofs.Leads.Shift
import LuaSyntax.Proofs.Language
import LuaSyntax.Proofs.Quote
import LuaSyntax.Proofs.WellFormed
import LuaSyntax.Proofs.Spelling
import LuaSyntax.Proofs.Image
import LuaSyntax.Proofs.Completion
import LuaSyntax.Proofs.FirstError
import LuaSyntax.Proofs.StringBody
import LuaSyntax.Proofs.Scan
import LuaSyntax.Proofs.Lossless
import LuaSyntax.Proofs.OnDemand
import LuaSyntax.Proofs.Lines
import LuaSyntax.Proofs.ParseOnDemand
import LuaSyntax.Proofs.Leaves
import LuaSyntax.Proofs.LeafOrder
import LuaSyntax.Proofs.Lookahead
import LuaSyntax.Proofs.LineFeed
import LuaSyntax.Proofs.Relabeling
import LuaSyntax.Proofs.Respacing
import LuaSyntax.Proofs.Visits
import LuaSyntax.Proofs.Forest
import LuaSyntax.Proofs.Rebuild
import LuaSyntax.Proofs.Picture
import LuaSyntax.Proofs.SharedLog
import LuaSyntax.Proofs.GraphText
import LuaSyntax.Proofs.EscapedQuote
import LuaSyntax.Proofs.CommandOutcome
import LuaSyntax.Proofs.AssignedValue
import LuaSyntax.Proofs.Nearest
import LuaSyntax.Proofs.Digits
import LuaSyntax.Proofs.Hexadecimal
import LuaSyntax.Proofs.Lexeme
import LuaSyntax.Proofs.LongestLexeme
import LuaSyntax.Proofs.WrittenString
import LuaSyntax.Proofs.EscapeCheck
import LuaSyntax.Proofs.AssignmentError
import LuaSyntax.Proofs.Composition
import LuaSyntax.Proofs.Contents
import LuaSyntax.Proofs.Shorthand
import LuaSyntax.Proofs.Faults
import LuaSyntax.Proofs.Provenance
import LuaSyntax.Proofs.Identifiers
import LuaSyntax.Proofs.NotANumber
import LuaSyntax.Proofs.Listing
import LuaSyntax.Proofs.Paths
import LuaSyntax.Proofs.SourceKept
import LuaSyntax.Proofs.Descent.Progress
import LuaSyntax.Proofs.Descent.Agreement
import LuaSyntax.Proofs.Descent.Agreement.Expressions
import LuaSyntax.Proofs.Descent.Agreement.Statements
import LuaSyntax.Proofs.Descent.Calls
