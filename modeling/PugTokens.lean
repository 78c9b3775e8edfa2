import PugTokens.Context.Format
import PugTokens.Main
import PugTokens.Proofs.Outline.Lines
import PugTokens.Reading.Outline.Lines
import PugTokens.Reading.Reachable
import PugTokens.Scan.Reachable
import PugTokens.Tape
import PugTokens.Value.Grammar
import PugTokens.Value.Trace
import PugTokens.Proofs.Outline.ByLine
import PugTokens.Proofs.Context.RoundTrip
import PugTokens.Proofs.Value.Changes
import PugTokens.Proofs.Value.Reads
import PugTokens.Proofs.Context.Order
import PugTokens.Proofs.Value.Ternaries
import PugTokens.Proofs.Context.Reachable
import PugTokens.Proofs.Reading.Tokens
import PugTokens.Reading.Reader
import PugTokens.Proofs.Reader.Resumption
import PugTokens.Proofs.Value.Neutral
import PugTokens.Proofs.Value.Expressions
import PugTokens.Proofs.Value.Boundaries
import PugTokens.Proofs.Reading.Values
import PugTokens.Proofs.Context.Prefixes
import PugTokens.Proofs.Reading.Separation
import PugTokens.Proofs.Reader.Safety
import PugTokens.Proofs.Reading.Covering
import PugTokens.Proofs.Context.Loaded
import PugTokens.Lexer
import PugTokens.Proofs.Lexer.Lookahead
import PugTokens.Proofs.Lexer.Texts
import PugTokens.Proofs.Reading.Alike
import PugTokens.Proofs.Reading.Commas
import PugTokens.Proofs.Context.Accepted
import PugTokens.Proofs.Lexer.Endings
import PugTokens.Proofs.Reader.Scanning
import PugTokens.Proofs.Reading.Storing
import PugTokens.Proofs.Text.Quoted
import PugTokens.Proofs.Command.Printing
import PugTokens.Proofs.Context.Obstacles
import PugTokens.Proofs.Value.Absence
import PugTokens.Proofs.Lexer.Frames
import PugTokens.Proofs.Value.Shapes
import PugTokens.Proofs.Value.Strings
import PugTokens.Proofs.Reading.Literals
import PugTokens.Proofs.Reading.Rescanning
import PugTokens.Proofs.Reading.Progress
import PugTokens.Proofs.Outline.Levels
import PugTokens.Proofs.Outline.Merging
import PugTokens.Proofs.Outline.BlankLines
import PugTokens.Cursor.Calls
import PugTokens.Proofs.Cursor.Calls
import PugTokens.Value.Scan

