import DwarfOne.Bytes.Cursor
import DwarfOne.Bytes.Order
import DwarfOne.Command.Arguments
import DwarfOne.Command.Basic
import DwarfOne.Command.Options
import DwarfOne.Command.Run
import DwarfOne.Image.Basic
import DwarfOne.Image.Error
import DwarfOne.Image.Header
import DwarfOne.Image.Range
import DwarfOne.Image.Section
import DwarfOne.Image.Segment
import DwarfOne.Image.Symbol
import DwarfOne.LineTable
import DwarfOne.Main
import DwarfOne.Payload.Enumerator
import DwarfOne.Payload.Error
import DwarfOne.Payload.Location
import DwarfOne.Payload.Subscript
import DwarfOne.Payload.TypeRef
import DwarfOne.PowerPC.Disassembly
import DwarfOne.PowerPC.Instruction
import DwarfOne.Program.Basic
import DwarfOne.Program.Build
import DwarfOne.Program.Diagnostic
import DwarfOne.Program.Entity
import DwarfOne.Program.Language
import DwarfOne.Program.RangeMap
import DwarfOne.Program.Routines
import DwarfOne.Program.Types
import DwarfOne.Record.Attribute
import DwarfOne.Record.AttributeName
import DwarfOne.Record.DebugInfo
import DwarfOne.Record.Error
import DwarfOne.Record.Frame
import DwarfOne.Record.Links
import DwarfOne.Record.Tag
import DwarfOne.Report.HexDump
import DwarfOne.Report.ImageTables
import DwarfOne.Report.LineListing
import DwarfOne.Report.ProgramTables
import DwarfOne.Report.RecordTree
import DwarfOne.Report.Table
import DwarfOne.Source.Basic
import DwarfOne.Source.Body
import DwarfOne.Source.Declarator
import DwarfOne.Source.Fundamental
import DwarfOne.Source.Settings
import DwarfOne.Source.Signature
import DwarfOne.Source.SpecialName
import DwarfOne.Source.Token
import DwarfOne.Text.Case
import DwarfOne.Text.CaseIgnorable
import DwarfOne.Text.Cased
import DwarfOne.Text.CharClass
import DwarfOne.Text.EastAsian
import DwarfOne.Text.Emoji
import DwarfOne.Text.EmojiData
import DwarfOne.Text.Ligature
import DwarfOne.Text.Lines
import DwarfOne.Text.Numeral
import DwarfOne.Text.Style
import DwarfOne.Text.StyleSheet
import DwarfOne.Text.Utf8
import DwarfOne.Text.Width
import DwarfOne.Text.ZeroWidth
import DwarfOne.Proofs.Bytes.Format
import DwarfOne.Proofs.Bytes.Order
import DwarfOne.Proofs.Record.Assembly
import DwarfOne.Proofs.Record.Encoding
import DwarfOne.Proofs.Record.Forest
import DwarfOne.Proofs.Record.Framing
import DwarfOne.Proofs.Record.Layout
import DwarfOne.Proofs.Record.Links
import DwarfOne.Proofs.Record.Nesting
import DwarfOne.Proofs.Record.Survey
import DwarfOne.Proofs.Record.Walk
import DwarfOne.Proofs.Text.Utf8
import DwarfOne.Proofs.Bytes.Failure
import DwarfOne.Proofs.Record.Failure
import DwarfOne.Proofs.Program.Build
import DwarfOne.Proofs.Program.Entity
import DwarfOne.Proofs.Program.Passes
import DwarfOne.Proofs.Program.Store
import DwarfOne.Proofs.Program.References
import DwarfOne.Proofs.Program.Units
import DwarfOne.Proofs.Program.Lines
import DwarfOne.Proofs.Program.Warnings
import DwarfOne.Proofs.Program.Membership
import DwarfOne.Proofs.Program.LineTables
import DwarfOne.Proofs.Program.LineEntries
import DwarfOne.Proofs.Program.Padding
import DwarfOne.Proofs.Program.Visits
import DwarfOne.Proofs.Program.Accounts
import DwarfOne.Proofs.Source.Balance
import DwarfOne.Proofs.Source.Inlining
import DwarfOne.Proofs.Source.Reading
import DwarfOne.Proofs.Source.Merging
import DwarfOne.Proofs.Source.Printing
import DwarfOne.Proofs.Source.LineEnds
import DwarfOne.Proofs.Source.Toggles
import DwarfOne.Proofs.Image.Fields
import DwarfOne.Proofs.Image.Load
import DwarfOne.Proofs.Image.Addresses
import DwarfOne.Proofs.PowerPC.Disassembly
import DwarfOne.Proofs.Source.Declarators
import DwarfOne.Proofs.Source.Spelling
import DwarfOne.Proofs.Source.Derivation
import DwarfOne.Proofs.Source.Delimiters
import DwarfOne.Proofs.Source.MemberPointers
import DwarfOne.Proofs.Source.Signatures
import DwarfOne.Proofs.Image.Coverage
import DwarfOne.Proofs.Payload.Modifiers
import DwarfOne.Proofs.Payload.TypeEncoding
import DwarfOne.Proofs.LineTable
import DwarfOne.Proofs.Payload.Location
import DwarfOne.Proofs.Payload.Subscripts
import DwarfOne.Proofs.Source.Enumerators
import DwarfOne.Proofs.Source.AccessLabels
import DwarfOne.Proofs.Source.Canonical
import DwarfOne.Proofs.Record.Preorder
import DwarfOne.Proofs.Source.Instructions
import DwarfOne.Proofs.Source.TypeWords
import DwarfOne.Proofs.Program.Blocks
import DwarfOne.Proofs.Source.Markup
import DwarfOne.Proofs.Image.Symbols
import DwarfOne.Proofs.Program.Paths
import DwarfOne.Proofs.Report.RecordTree
import DwarfOne.Proofs.PowerPC.Branches
import DwarfOne.Proofs.Bytes.Reads
import DwarfOne.Proofs.Payload.Enumerators
import DwarfOne.Proofs.Report.HexDump
import DwarfOne.Proofs.Text.WordGrammar
