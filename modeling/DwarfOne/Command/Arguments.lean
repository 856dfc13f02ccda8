/-
# `Command.Arguments` — the command line

The image comes first, then the name of a command, which may be cut short as
long as it stays unique, then what belongs to the command.  The options about
warnings may stand on either side of the name; the later ones count.
-/
import DwarfOne.Command.Basic
import DwarfOne.Command.Options

namespace DwarfOne

/-- What the program is asked to do. -/
structure Invocation where
  /-- The path of the image. -/
  image : String
  diagnostics : DiagnosticSettings
  command : Command
  deriving DecidableEq

namespace Arguments

def flag (long : String) : OptionSpec := ⟨long, none, .flag⟩

def letterFlag (long : String) (short : Char) : OptionSpec := ⟨long, some short, .flag⟩

def takes (long : String) (short : Option Char) (kind : ValueKind) : OptionSpec :=
  ⟨long, short, .takes kind⟩

def help : OptionSpec := ⟨"help", some 'h', .help⟩

def version : OptionSpec := ⟨"version", some 'V', .version⟩

/-! ## Options about warnings -/

def diagnosticOptions : List OptionSpec :=
  [flag "no-unknown-entries", flag "no-unknown-attributes", flag "no-unrecognized-locations",
   flag "no-unrecognized-lines", takes "max-warnings" none .count]

/-- The settings given; a limit of zero is none. -/
def diagnosticSettings (g : Given) : DiagnosticSettings where
  unknownEntries := !g.flag "no-unknown-entries"
  unknownAttributes := !g.flag "no-unknown-attributes"
  unrecognizedLocations := !g.flag "no-unrecognized-locations"
  unrecognizedLines := !g.flag "no-unrecognized-lines"
  limit :=
    match g.count? "max-warnings" with
    | some 0 => none
    | some n => some n
    | none => DiagnosticSettings.default.limit

/-! ## Commands -/

/-- A command as it is asked for. -/
structure CommandSpec where
  name : String
  summary : String
  options : List OptionSpec
  positional : Option Slot
  /-- The command with what was given; none if something is missing or does
  not go together. -/
  command? : Given → Option Command

namespace CommandSpec

def level (c : CommandSpec) : Level where
  options := c.options ++ diagnosticOptions ++ [help]
  positional := c.positional
  next := []

end CommandSpec

def explainOption : OptionSpec := letterFlag "explain" 'e'

/-- A command that prints a table. -/
def tableCommand (name summary : String) (command : TableOptions → Command) : CommandSpec where
  name := name
  summary := summary
  options := [explainOption, letterFlag "titles" 't']
  positional := none
  command? g := some (command { titles := g.flag "titles", explain := g.flag "explain" })

def headerCommand : CommandSpec where
  name := "header"
  summary := "Show the ELF header"
  options := [explainOption]
  positional := none
  command? g := some (.onImage (.header (g.flag "explain")))

def treeCommand : CommandSpec where
  name := "tree"
  summary := "Dump the raw debug records"
  options := [takes "offset" (some 'o') .word, takes "depth" (some 'd') .count]
  positional := none
  command? g := some (.onRecords (.tree (g.word? "offset") (g.count? "depth")))

def linesCommand : CommandSpec where
  name := "lines"
  summary := "Dump the raw line tables"
  options := [takes "offset" (some 'o') .word]
  positional := none
  command? g := some (.onRecords (.lines (g.word? "offset")))

/-- Labels are by address unless they are asked for by name. -/
def hexLabels (g : Given) : HexLabels :=
  match g.text? "labels" with
  | some "none" => .none
  | some "zero" => .zero
  | _ => .address

def hexdumpCommand : CommandSpec where
  name := "hexdump"
  summary := "Print memory range as hex and ascii"
  options :=
    [takes "count" (some 'c') .count, takes "labels" (some 'l') (.choice ["none", "addr", "zero"])]
  positional := some ⟨"addr", .word⟩
  command? g := do
    let address ← g.word? "addr"
    return .onImage (.hexdump address ((g.count? "count").getD 16) (hexLabels g))

/-! ### Rendering -/

def renderFlags : List OptionSpec :=
  [flag "no-comments", flag "no-classes", flag "no-enums", flag "no-arrays",
   flag "no-function-types", flag "no-pointer-to-member-types", flag "no-variables",
   flag "no-declarations", flag "no-definitions", flag "no-entry-offsets", flag "no-locations",
   flag "sort-types", flag "sort-functions", flag "no-inline-anonymous", flag "hex-enums",
   flag "explicit-enums", letterFlag "disassemble" 'd']

/-- The remarks left after those turned off. -/
def remarks (g : Given) : Remarks :=
  let start : Remarks := if g.flag "no-comments" then .none else .all
  { start with
    entryOffsets := start.entryOffsets && !g.flag "no-entry-offsets"
    variableLocations := start.variableLocations && !g.flag "no-locations" }

def sourceSettings (g : Given) : SourceSettings where
  classes := !g.flag "no-classes"
  enums := !g.flag "no-enums"
  arrays := !g.flag "no-arrays"
  routineTypes := !g.flag "no-function-types"
  memberPointers := !g.flag "no-pointer-to-member-types"
  vars := !g.flag "no-variables"
  declarations := !g.flag "no-declarations"
  definitions := !g.flag "no-definitions"
  remarks := remarks g
  sortTypes := g.flag "sort-types"
  sortFunctions := g.flag "sort-functions"
  inlineAnonymous := !g.flag "no-inline-anonymous"
  hexEnumerators := g.flag "hex-enums"
  explicitEnumerators := g.flag "explicit-enums"
  disassembly := g.flag "disassemble"
  fundamentals := .default

/-- What to render.  A file and an offset do not go together. -/
def renderTarget? (g : Given) : Option RenderTarget :=
  match g.text? "file", g.word? "offset" with
  | none, none => some .all
  | some path, none => some (.path path)
  | none, some offset => some (.entry offset)
  | some _, some _ => none

def sourceFormat (g : Given) : SourceFormat :=
  match g.text? "format" with
  | some "plain" => .plain
  | some "html" => .html
  | _ => .styled

def renderCommand : CommandSpec where
  name := "render"
  summary := "Write C++ for all files, one file, or one entity"
  options :=
    [takes "file" (some 'f') .text, takes "offset" (some 'o') .word,
     takes "format" none (.choice ["styled", "plain", "html"])] ++ renderFlags
  positional := none
  command? g := do
    let target ← renderTarget? g
    return .onProgram (.render { target, format := sourceFormat g, settings := sourceSettings g })

def commands : List CommandSpec :=
  [headerCommand,
   tableCommand "sections" "Show section headers" fun o => .onImage (.sections o),
   tableCommand "segments" "Show program headers" fun o => .onImage (.segments o),
   tableCommand "symbols" "Show the static symbol table" fun o => .onImage (.symbols o),
   tableCommand "units" "Show compile units" fun o => .onProgram (.units o),
   tableCommand "functions" "Show functions along with their address ranges"
     fun o => .onProgram (.functions o),
   tableCommand "variables" "Show global and file static variables"
     fun o => .onProgram (.vars o),
   tableCommand "types" "Show user defined types" fun o => .onProgram (.types o),
   treeCommand, linesCommand, renderCommand, hexdumpCommand]

/-! ## The whole line -/

/-- The names of the commands, and the one that calls for help. -/
def names : List String :=
  commands.map CommandSpec.name ++ ["help"]

def topLevel : Level where
  options := diagnosticOptions ++ [help, version]
  positional := some ⟨"image", .path⟩
  next := names

/-- What comes of calling for help on something: that must be one command at
most, by its full name. -/
def helpOn : List String → ArgumentFailure
  | [] => .help
  | [name] => if name ∈ names then .help else .usage
  | _ => .usage

/-- What the words after a command's name give. -/
def parseCommand (spec : CommandSpec) (words : List String) :
    Except ArgumentFailure (Given × Command) := do
  let (s, _) ← spec.level.scan false .start words
  let s ← s.settle
  match spec.command? s.settled with
  | some command => .ok (s.settled, command)
  | none => .error .usage

def parse (words : List String) : Except ArgumentFailure Invocation := do
  let (s, next) ← topLevel.scan false .start words
  match next with
  | none => .error .usage
  | some (name, rest) =>
      match commands.find? (·.name = name) with
      | none => .error (helpOn rest)
      | some spec =>
          let (given, command) ← parseCommand spec rest
          let s ← s.settle
          match s.settled.text? "image" with
          | none => .error .usage
          | some image =>
              .ok { image, command, diagnostics := diagnosticSettings (given ++ s.settled) }

end Arguments

end DwarfOne
