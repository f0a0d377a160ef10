import ReservoirDeck.Change
import ReservoirDeck.Decimal.Binary
import ReservoirDeck.Decimal.Read
import ReservoirDeck.Decimal.Shortest
import ReservoirDeck.Decimal.Text
import ReservoirDeck.Deck.Basic
import ReservoirDeck.Deck.Text
import ReservoirDeck.Defaulted
import ReservoirDeck.Error
import ReservoirDeck.Item
import ReservoirDeck.Keyword.Basic
import ReservoirDeck.Keyword.Date
import ReservoirDeck.Keyword.Gregorian
import ReservoirDeck.Keyword.Ignored
import ReservoirDeck.Keyword.Kind
import ReservoirDeck.Keyword.Layout
import ReservoirDeck.Keyword.View
import ReservoirDeck.Layout.Field
import ReservoirDeck.Layout.Record
import ReservoirDeck.Layout.Row
import ReservoirDeck.Proofs.Alike.Comments
import ReservoirDeck.Proofs.Alike.Decks
import ReservoirDeck.Proofs.Alike.Fronts
import ReservoirDeck.Proofs.Alike.Ignored
import ReservoirDeck.Proofs.Alike.Joined
import ReservoirDeck.Proofs.Alike.Layouts
import ReservoirDeck.Proofs.Alike.Lines
import ReservoirDeck.Proofs.Alike.NameLines
import ReservoirDeck.Proofs.Alike.Records
import ReservoirDeck.Proofs.Alike.Runs
import ReservoirDeck.Proofs.Conversion.Action
import ReservoirDeck.Proofs.Conversion.Changes
import ReservoirDeck.Proofs.Conversion.Checking
import ReservoirDeck.Proofs.Conversion.Controls
import ReservoirDeck.Proofs.Conversion.Images
import ReservoirDeck.Proofs.Conversion.Outline
import ReservoirDeck.Proofs.Conversion.Passes
import ReservoirDeck.Proofs.Conversion.Runs
import ReservoirDeck.Proofs.Conversion.Whole
import ReservoirDeck.Proofs.Conversion.Writing
import ReservoirDeck.Proofs.Decimal.Arithmetic
import ReservoirDeck.Proofs.Decimal.Characters
import ReservoirDeck.Proofs.Decimal.Difference
import ReservoirDeck.Proofs.Decimal.Digits
import ReservoirDeck.Proofs.Decimal.Intervals
import ReservoirDeck.Proofs.Decimal.Items
import ReservoirDeck.Proofs.Decimal.Overflow
import ReservoirDeck.Proofs.Decimal.Packing
import ReservoirDeck.Proofs.Decimal.Reals
import ReservoirDeck.Proofs.Decimal.Rounding
import ReservoirDeck.Proofs.Decimal.Spellings
import ReservoirDeck.Proofs.Decimal.Values
import ReservoirDeck.Proofs.Reading.Ahead
import ReservoirDeck.Proofs.Reading.Calls
import ReservoirDeck.Proofs.Reading.Deck
import ReservoirDeck.Proofs.Reading.Expansion
import ReservoirDeck.Proofs.Reading.Ignored
import ReservoirDeck.Proofs.Reading.Items
import ReservoirDeck.Proofs.Reading.Kept
import ReservoirDeck.Proofs.Reading.Keywords
import ReservoirDeck.Proofs.Reading.Layouts
import ReservoirDeck.Proofs.Reading.Lookahead
import ReservoirDeck.Proofs.Reading.Loops
import ReservoirDeck.Proofs.Reading.Orderly
import ReservoirDeck.Proofs.Reading.Progress
import ReservoirDeck.Proofs.Reading.Run
import ReservoirDeck.Proofs.Reading.Sound
import ReservoirDeck.Proofs.Reading.Termination
import ReservoirDeck.Proofs.Reading.Tokens
import ReservoirDeck.Proofs.Reading.Values
import ReservoirDeck.Proofs.Reading.Yields
import ReservoirDeck.Proofs.Record.Account
import ReservoirDeck.Proofs.Record.Calls
import ReservoirDeck.Proofs.Record.Extent
import ReservoirDeck.Proofs.Record.Numbers
import ReservoirDeck.Proofs.Record.OpenQuotes
import ReservoirDeck.Proofs.Record.Skipping
import ReservoirDeck.Proofs.Record.Splitting
import ReservoirDeck.Proofs.Record.Steps
import ReservoirDeck.Proofs.RoundTrip.Dates
import ReservoirDeck.Proofs.RoundTrip.Decks
import ReservoirDeck.Proofs.RoundTrip.Depth
import ReservoirDeck.Proofs.RoundTrip.Fields
import ReservoirDeck.Proofs.RoundTrip.Ignored
import ReservoirDeck.Proofs.RoundTrip.Keywords
import ReservoirDeck.Proofs.RoundTrip.Layouts
import ReservoirDeck.Proofs.RoundTrip.Lists
import ReservoirDeck.Proofs.RoundTrip.Names
import ReservoirDeck.Proofs.RoundTrip.OpenRuns
import ReservoirDeck.Proofs.RoundTrip.Records
import ReservoirDeck.Proofs.RoundTrip.Slots
import ReservoirDeck.Proofs.RoundTrip.Spelled
import ReservoirDeck.Proofs.RoundTrip.Stored
import ReservoirDeck.Proofs.RoundTrip.Tables
import ReservoirDeck.Proofs.RoundTrip.Written
import ReservoirDeck.Proofs.RoundTrip.WrittenTokens
import ReservoirDeck.Proofs.Rows.Bodies
import ReservoirDeck.Proofs.Rows.Entries
import ReservoirDeck.Proofs.Rows.Repetitions
import ReservoirDeck.Proofs.Rows.Slashes
import ReservoirDeck.Proofs.Table.Access
import ReservoirDeck.Proofs.Table.DepthRows
import ReservoirDeck.Proofs.Table.EndPoints
import ReservoirDeck.Proofs.Table.Fill
import ReservoirDeck.Proofs.Table.Interpolation
import ReservoirDeck.Proofs.Table.Neighbours
import ReservoirDeck.Proofs.Table.Records
import ReservoirDeck.Proofs.Table.Rows
import ReservoirDeck.Proofs.Table.Scaling
import ReservoirDeck.Proofs.Text.Encoding
import ReservoirDeck.Proofs.Text.Locations
import ReservoirDeck.Proofs.Text.Padded
import ReservoirDeck.Proofs.Text.Tiling
import ReservoirDeck.Proofs.Text.Trimming
import ReservoirDeck.Proofs.Text.Words
import ReservoirDeck.Reader
import ReservoirDeck.Record.Reader
import ReservoirDeck.Record.State
import ReservoirDeck.Slots
import ReservoirDeck.Table.Depth
import ReservoirDeck.Table.Fill
import ReservoirDeck.Table.Pvt
import ReservoirDeck.Table.Region
import ReservoirDeck.Text.Bytes
import ReservoirDeck.Text.CharLiteral
import ReservoirDeck.Text.Cursor
import ReservoirDeck.Text.Lookahead
import ReservoirDeck.Text.Padded
import ReservoirDeck.Text.Printable
import ReservoirDeck.Text.Token
import ReservoirDeck.Text.WhiteSpace
import ReservoirDeck.Units.Quantity
import ReservoirDeck.Units.System
import ReservoirDeck.Writer
