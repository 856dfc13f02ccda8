/-
# `Program.Diagnostic` — warnings about what is not understood

None of these is fatal: whatever is not recognised is walked around.  The
user chooses which kinds to see and how many; what is over the limit is only
counted.
-/
namespace DwarfOne

inductive DiagnosticKind
  /-- A record that does not belong inside its parent. -/
  | unknownEntry
  /-- An attribute that does not belong on its record, or that cannot be
  decoded. -/
  | unknownAttribute
  /-- A location that folds to nothing simpler. -/
  | unrecognizedLocation
  /-- A line entry outside every function. -/
  | unrecognizedLine
  deriving DecidableEq, Repr

structure Diagnostic where
  kind : DiagnosticKind
  /-- The offset of what the warning is about, or the address of a line. -/
  offset : UInt32
  message : String
  deriving DecidableEq, Repr

structure DiagnosticSettings where
  unknownEntries : Bool
  unknownAttributes : Bool
  unrecognizedLocations : Bool
  unrecognizedLines : Bool
  /-- None for no limit. -/
  limit : Option Nat
  deriving DecidableEq, Repr

namespace DiagnosticSettings

def default : DiagnosticSettings :=
  { unknownEntries := true, unknownAttributes := true, unrecognizedLocations := true
    unrecognizedLines := true, limit := some 100 }

def enabled (s : DiagnosticSettings) : DiagnosticKind → Bool
  | .unknownEntry => s.unknownEntries
  | .unknownAttribute => s.unknownAttributes
  | .unrecognizedLocation => s.unrecognizedLocations
  | .unrecognizedLine => s.unrecognizedLines

end DiagnosticSettings

/-- The warnings kept so far. -/
structure Diagnostics where
  settings : DiagnosticSettings
  reported : Array Diagnostic
  /-- How many were dropped for being over the limit. -/
  suppressed : Nat
  deriving DecidableEq, Repr

namespace Diagnostics

def empty (settings : DiagnosticSettings) : Diagnostics :=
  { settings, reported := #[], suppressed := 0 }

def full (d : Diagnostics) : Bool :=
  match d.settings.limit with
  | some limit => limit ≤ d.reported.size
  | none => false

def report (d : Diagnostics) (new : Diagnostic) : Diagnostics :=
  if !d.settings.enabled new.kind then d
  else if d.full then { d with suppressed := d.suppressed + 1 }
  else { d with reported := d.reported.push new }

def count (d : Diagnostics) (kind : DiagnosticKind) : Nat :=
  d.reported.toList.countP (·.kind = kind)

end Diagnostics

end DwarfOne
