/-
# `Command.Basic` — what the program can be asked to do

Some commands need only the image, some its debug records, and some the
program those describe; each is carried out on just what it needs.
-/
import DwarfOne.Report.HexDump
import DwarfOne.Report.ImageTables
import DwarfOne.Report.LineListing
import DwarfOne.Report.ProgramTables
import DwarfOne.Report.RecordTree
import DwarfOne.Source.Basic

namespace DwarfOne

/-- What a command prints. -/
structure Output where
  text : String
  warnings : List String
  deriving DecidableEq, Repr

/-- A text without warnings. -/
def Output.ofText (text : String) : Output := ⟨text, []⟩

/-! ## Commands on an image -/

inductive ImageCommand
  | header (explain : Bool)
  | sections (options : TableOptions)
  | segments (options : TableOptions)
  | symbols (options : TableOptions)
  | hexdump (address : UInt32) (count : Nat) (labels : HexLabels)
  deriving DecidableEq, Repr

def ImageCommand.output (paint : Paint) (image : Image) : ImageCommand → Output
  | .header explain => .ofText (Item.listText paint image.headerItems explain)
  | .sections options => .ofText (image.sectionTable.text paint options)
  | .segments options => .ofText (image.segmentText paint options)
  | .symbols options => .ofText (image.symbolText paint options)
  | .hexdump address count labels =>
      let (text, warnings) := image.hexDump paint address count labels
      ⟨text, warnings⟩

/-! ## Commands on debug records -/

inductive RecordCommand
  | tree (offset : Option UInt32) (depth : Option Nat)
  | lines (offset : Option UInt32)
  deriving DecidableEq, Repr

def RecordCommand.output (paint : Paint) (debug : DebugInfo) : RecordCommand → Output
  | .tree offset depth => .ofText (debug.treeText paint offset depth)
  | .lines offset => .ofText (debug.linesText paint offset)

/-! ## Commands on a program -/

inductive SourceFormat
  | styled
  | plain
  | html
  deriving DecidableEq, Repr

def SourceFormat.text (paint : Paint) (code : Code) : SourceFormat → String
  | .styled => code.styled paint
  | .plain => code.plain
  | .html => code.html

structure RenderOptions where
  target : RenderTarget
  format : SourceFormat
  settings : SourceSettings
  deriving DecidableEq

inductive ProgramCommand
  | units (options : TableOptions)
  | functions (options : TableOptions)
  | vars (options : TableOptions)
  | types (options : TableOptions)
  | render (options : RenderOptions)
  deriving DecidableEq

/-- The image with the disassembler for its machine, or the warning that
there is none. -/
def Image.disassembly (image : Image) : Except DisassemblyError (Image × Disassembler) := do
  return (image, ← Disassembler.forMachine image.header.machine)

/-- What is said when nothing is found to render. -/
def RenderTarget.nothingFound : RenderTarget → List String
  | .all => []
  | .path name => ["no compile unit named " ++ name]
  | .entry offset => ["nothing to render at offset " ++ Numeral.offset offset.toNat]

def RenderOptions.output (paint : Paint) (image : Image) (program : Program)
    (o : RenderOptions) : Except RenderError Output := do
  let (disassembly, refused) :=
    if o.settings.disassembly then
      match image.disassembly with
      | .ok found => (some found, [])
      | .error e => (none, ["can't disassemble: " ++ e.message])
    else (none, [])
  let source : Source := { program, settings := o.settings, disassembly }
  let code ← source.render o.target
  let text := o.format.text paint code
  return {
    text := if text.isEmpty then "" else Text.trimEnd text ++ "\n"
    warnings := refused ++ if code.isEmpty then o.target.nothingFound else [] }

def ProgramCommand.output (paint : Paint) (image : Image) (program : Program) :
    ProgramCommand → Except RenderError Output
  | .units options => .ok (.ofText (program.unitTable.text paint options))
  | .functions options =>
      match program.functionTable with
      | .ok table => .ok (.ofText (table.text paint options))
      | .error e => .error (.dangling e)
  | .vars options => .ok (.ofText (program.variableTable.text paint options))
  | .types options => .ok (.ofText (program.typeTable.text paint options))
  | .render options => options.output paint image program

/-! ## All commands -/

inductive Command
  | onImage (command : ImageCommand)
  | onRecords (command : RecordCommand)
  | onProgram (command : ProgramCommand)
  deriving DecidableEq

/-- Why a command came to nothing. -/
inductive CommandError
  | debug (error : DebugError)
  | render (error : RenderError)
  deriving DecidableEq, Repr

/-- What the warnings come to when they are printed. -/
def Diagnostics.messages (d : Diagnostics) : List String :=
  let more :=
    if d.suppressed = 0 then []
    else [Numeral.decimal d.suppressed ++ " more warnings were suppressed"]
  d.reported.toList.map Diagnostic.message ++ more

/-- Carries out a command on a loaded image. -/
def Command.output [RangeMap UInt32] (paint : Paint) (settings : DiagnosticSettings) (image : Image)
    (c : Command) : Except CommandError Output :=
  match c with
  | .onImage command => .ok (command.output paint image)
  | .onRecords command =>
      match DebugInfo.ofImage image with
      | .error e => .error (.debug e)
      | .ok debug => .ok (command.output paint debug)
  | .onProgram command =>
      match DebugInfo.ofImage image with
      | .error e => .error (.debug e)
      | .ok debug =>
          match Program.build debug settings with
          | .error e => .error (.render (.dangling e))
          | .ok (program, diagnostics) =>
              match command.output paint image program with
              | .error e => .error (.render e)
              | .ok out => .ok { out with warnings := out.warnings ++ diagnostics.messages }

end DwarfOne
