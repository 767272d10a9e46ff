import Offside.Alphabet
import Offside.Binary64.Basic
import Offside.Binary64.Shortest
import Offside.Content
import Offside.Decimal.Basic
import Offside.Decimal.Text
import Offside.Diagnostic
import Offside.Indentation
import Offside.Lexeme
import Offside.Line
import Offside.Listing
import Offside.Options
import Offside.Place
import Offside.Proofs.Content.Columns
import Offside.Proofs.Content.Cover
import Offside.Proofs.Content.Faults
import Offside.Proofs.Content.Positions
import Offside.Proofs.Content.Trailing
import Offside.Proofs.Layout.BlockStructure
import Offside.Proofs.Layout.Blocks
import Offside.Proofs.Layout.Brackets
import Offside.Proofs.Layout.Calls
import Offside.Proofs.Layout.Columns
import Offside.Proofs.Layout.Depth
import Offside.Proofs.Layout.History
import Offside.Proofs.Layout.Relayout
import Offside.Proofs.Layout.Strict
import Offside.Proofs.Layout.TabWidth
import Offside.Proofs.Layout.Unindent
import Offside.Proofs.Layout.WidthOrder
import Offside.Proofs.Layout.Words
import Offside.Proofs.Lexemes.Grammar
import Offside.Proofs.Lexemes.LongestMatch
import Offside.Proofs.Lexemes.Separation
import Offside.Proofs.Listings.Floats
import Offside.Proofs.Listings.Identity
import Offside.Proofs.Listings.Integers
import Offside.Proofs.Numbers.Digits
import Offside.Proofs.Numbers.Rounding
import Offside.Proofs.Numbers.ShortestDecimal
import Offside.Proofs.Numbers.Values
import Offside.Proofs.Numbers.WrittenDecimals
import Offside.Proofs.Numbers.WrittenNumbers
import Offside.Proofs.Reading.Account
import Offside.Proofs.Reading.Bounds
import Offside.Proofs.Reading.CodeLine
import Offside.Proofs.Reading.Concatenation
import Offside.Proofs.Reading.Cursor
import Offside.Proofs.Reading.Failure
import Offside.Proofs.Reading.InStep
import Offside.Proofs.Reading.LookAhead
import Offside.Proofs.Reading.Messages
import Offside.Proofs.Reading.MovedLines
import Offside.Proofs.Reading.Notes
import Offside.Proofs.Reading.Passage
import Offside.Proofs.Reading.Places
import Offside.Proofs.Reading.Portions
import Offside.Proofs.Reading.Restart
import Offside.Proofs.Reading.ShownPlaces
import Offside.Proofs.Reading.SideBySide
import Offside.Proofs.Reading.SingleLine
import Offside.Proofs.Reading.Steps
import Offside.Proofs.Reading.Stops
import Offside.Proofs.Reading.StrayReturns
import Offside.Proofs.Sessions.Isolation
import Offside.Proofs.Sessions.Scopes
import Offside.Proofs.Text.Boundary
import Offside.Proofs.Text.Front
import Offside.Proofs.Text.IdleLines
import Offside.Proofs.Text.LineEndings
import Offside.Proofs.Text.NumberedLines
import Offside.Proofs.Text.PhysicalLines
import Offside.Proofs.Text.Pieces
import Offside.Proofs.Text.Spots
import Offside.Proofs.Text.TrailingText
import Offside.Reader
import Offside.Run
import Offside.Session
import Offside.Text.Printable
import Offside.Text.Quoted
import Offside.Token.Basic
import Offside.Token.Kind
import Offside.Token.Literal
import Offside.Trace
