/-
# `Command.Run` — the program from start to end

A run reads the command line and the image and comes to an exit code, a text
and warnings.  Reading files and printing are left to the caller.
-/
import DwarfOne.Command.Arguments
import DwarfOne.Text.StyleSheet

namespace DwarfOne

/-- What a run leaves behind. -/
structure Outcome where
  exit : UInt8
  stdout : String
  warnings : List String
  deriving DecidableEq, Repr

/-- The warnings as they are printed, one to a line. -/
def Outcome.stderr (paint : Paint) (o : Outcome) : String :=
  String.join (o.warnings.map fun text => paint .warning text ++ "\n")

namespace Invocation

/-- Carries out the command on a loaded image. -/
def runOn [RangeMap UInt32] (paint : Paint) (i : Invocation) (image : Image) :
    Except RenderError Outcome :=
  let loading := image.warnings.map LoadWarning.message
  match i.command.output paint i.diagnostics image with
  | .ok out => .ok { exit := 0, stdout := out.text, warnings := loading ++ out.warnings }
  | .error (.debug (.sectionNotFound name)) =>
      .ok
        { exit := 0, stdout := "No debug info (" ++ name ++ " section is missing).\n"
          warnings := loading }
  | .error (.debug e) =>
      .ok
        { exit := 1, stdout := ""
          warnings := loading ++ ["Couldn't decode debug info: " ++ e.message] }
  | .error (.render e) => .error e

/-- Carries out the command on the bytes of the image, or on the reason there
are none. -/
def run [RangeMap UInt32] (paint : Paint) (i : Invocation) (file : Except String (Array UInt8)) :
    Except RenderError Outcome :=
  let loaded : Except ImageError Image :=
    match file with
    | .ok bytes => Image.load bytes
    | .error cause => .error (.openFailed i.image cause)
  match loaded with
  | .ok image => i.runOn paint image
  | .error e =>
      .ok
        { exit := 1, stdout := ""
          warnings := ["Couldn't load " ++ i.image ++ ": " ++ e.message] }

end Invocation

/-- The exit code of a run that met a reference to nothing. -/
def danglingExit : UInt8 := 101

/-! ## What is said when there is nothing to run -/

def versionText : String := "dwarfview 0.1.0\n"

def usageText : String :=
  "Usage: dwarfview [OPTIONS] <IMAGE> <COMMAND>\n\nFor more information, try '--help'.\n"

def helpText : String :=
  let entry (c : Arguments.CommandSpec) : String :=
    "  " ++ Numeral.padRight 11 c.name ++ c.summary ++ "\n"
  "Inspect DWARF v1 debug info and render it as C++\n\n" ++
    "Usage: dwarfview [OPTIONS] <IMAGE> <COMMAND>\n\nCommands:\n" ++
    String.join (Arguments.commands.map entry)

namespace ArgumentFailure

/-- The exit code with what is printed. -/
def exit : ArgumentFailure → UInt8
  | .help | .version => 0
  | .usage => 2

def stdout : ArgumentFailure → String
  | .help => helpText
  | .version => versionText
  | .usage => ""

def stderr : ArgumentFailure → String
  | .help | .version => ""
  | .usage => usageText

end ArgumentFailure

end DwarfOne
