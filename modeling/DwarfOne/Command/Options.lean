/-
# `Command.Options` — the words of a command line

A word is a flag, an option with its value, a value on its own, or the name
of what to do next.  Options are spelled `--long` or with one letter; letters
without values may share a dash.  Nothing may be given twice.

Words are taken from left to right and the first that is wrong decides.  A
value is looked at when the next option or value comes, or at the end, so
that a call for help after the name of a command is heard in spite of a bad
value before it.
-/
import DwarfOne.Text.Numeral

namespace DwarfOne

/-- Why a command line is not carried out. -/
inductive ArgumentFailure
  /-- Help was called for. -/
  | help
  /-- The version was asked for. -/
  | version
  | usage
  deriving DecidableEq, Repr

/-- What values look like. -/
inductive ValueKind
  | text
  /-- Any text but the empty one. -/
  | path
  /-- An offset or address. -/
  | word
  | count
  | choice (among : List String)
  deriving DecidableEq, Repr

inductive Value
  | present
  | text (s : String)
  | word (n : UInt32)
  | count (n : Nat)
  deriving DecidableEq, Repr

def ValueKind.read? (kind : ValueKind) (s : String) : Option Value :=
  match kind with
  | .text => some (.text s)
  | .path => if s.isEmpty then none else some (.text s)
  | .word => (Numeral.readWord s).toOption.map .word
  | .count => (Numeral.count? s).map .count
  | .choice among => if s ∈ among then some (.text s) else none

/-- A place for one value. -/
structure Slot where
  name : String
  kind : ValueKind
  deriving DecidableEq, Repr

inductive OptionEffect
  | flag
  | takes (kind : ValueKind)
  | help
  | version
  deriving DecidableEq, Repr

structure OptionSpec where
  long : String
  short : Option Char
  effect : OptionEffect
  deriving DecidableEq, Repr

/-- What the words at one level may be. -/
structure Level where
  options : List OptionSpec
  /-- The one value that stands on its own. -/
  positional : Option Slot
  /-- The names of what may be done next. -/
  next : List String
  deriving DecidableEq, Repr

/-- Names with the values given for them. -/
abbrev Given := List (String × Value)

/-- The words taken so far. -/
structure Scan where
  settled : Given
  /-- A place still to be settled, with what is to go there once it has come. -/
  pending : Option (Slot × Option String)
  deriving DecidableEq, Repr

namespace Scan

def start : Scan := { settled := [], pending := none }

def has (s : Scan) (name : String) : Bool :=
  (s.settled.lookup name).isSome

/-- Puts a value in its place, unless there is one already. -/
def store (s : Scan) (name : String) (v : Value) : Except ArgumentFailure Scan :=
  if s.has name then .error .usage else .ok { s with settled := s.settled ++ [(name, v)] }

def storeText (s : Scan) (slot : Slot) (text : String) : Except ArgumentFailure Scan :=
  match slot.kind.read? text with
  | some v => s.store slot.name v
  | none => .error .usage

/-- Settles what is pending. -/
def settle (s : Scan) : Except ArgumentFailure Scan :=
  match s.pending with
  | none => .ok s
  | some (_, none) => .error .usage
  | some (slot, some text) => { s with pending := none }.storeText slot text

/-- Whether an option has yet to be given its value. -/
def isWaiting (s : Scan) : Bool :=
  match s.pending with
  | some (_, none) => true
  | _ => false

/-- A value that stands on its own. -/
def positional (level : Level) (s : Scan) (word : String) : Except ArgumentFailure Scan := do
  let s ← s.settle
  match level.positional with
  | none => .error .usage
  | some slot =>
      if s.has slot.name then .error .usage
      else .ok { s with pending := some (slot, some word) }

/-- An option, with its value if that is attached. -/
def option (s : Scan) (spec : OptionSpec) (attached : Option String) :
    Except ArgumentFailure Scan := do
  let s ← s.settle
  match spec.effect, attached with
  | .help, none => .error .help
  | .version, none => .error .version
  | .flag, none => s.store spec.long .present
  | .takes kind, some text => s.storeText ⟨spec.long, kind⟩ text
  | .takes kind, none => .ok { s with pending := some (⟨spec.long, kind⟩, none) }
  | _, some _ => .error .usage

/-- `--name` or `--name=value`, after the dashes. -/
def long (level : Level) (s : Scan) (word : List Char) : Except ArgumentFailure Scan :=
  let (name, rest) := word.span (· ≠ '=')
  let attached :=
    match rest with
    | _ :: value => some (String.ofList value)
    | [] => none
  match level.options.find? (·.long = String.ofList name) with
  | some spec => s.option spec attached
  | none => .error .usage

/-- Letters that share a dash.  What follows one that takes a value is the
value. -/
def letters (level : Level) (s : Scan) : List Char → Except ArgumentFailure Scan
  | [] => .ok s
  | c :: rest =>
      match level.options.find? (·.short = some c) with
      | none => .error .usage
      | some spec =>
          match spec.effect, rest with
          | .takes _, [] => s.option spec none
          | .takes _, '=' :: value => s.option spec (some (String.ofList value))
          | .takes _, value => s.option spec (some (String.ofList value))
          | _, rest => do letters level (← s.option spec none) rest

/-- A word that is not the name of what to do next. -/
def word (level : Level) (s : Scan) (w : String) : Except ArgumentFailure Scan :=
  match w.toList with
  | '-' :: '-' :: name => s.long level name
  | '-' :: c :: cs => s.letters level (c :: cs)
  | _ =>
      match s.pending with
      | some (slot, none) => .ok { s with pending := some (slot, some w) }
      | _ => s.positional level w

end Scan

/-- The name a word stands for: one it begins and no other does, or the one
it is. -/
def abbreviated? (names : List String) (word : String) : Option String :=
  match names.filter fun name => word.toList.isPrefixOf name.toList with
  | [name] => some name
  | _ => if word ∈ names then some word else none

namespace Level

/-- The name of what to do next, unless a value is due. -/
def next? (level : Level) (s : Scan) (word : String) : Option String :=
  if s.isWaiting then none else abbreviated? level.next word

/-- Takes words up to the name of what to do next, and gives that with the
words after it.  After `--` all words are values. -/
def scan (level : Level) (valuesOnly : Bool) (s : Scan) :
    List String → Except ArgumentFailure (Scan × Option (String × List String))
  | [] => .ok (s, none)
  | w :: rest =>
      if valuesOnly then do scan level true (← s.positional level w) rest
      else
        match level.next? s w with
        | some name => .ok (s, some (name, rest))
        | none =>
            if w = "--" then scan level true s rest
            else do scan level false (← s.word level w) rest

end Level

/-! ## What was given -/

namespace Given

def flag (g : Given) (name : String) : Bool :=
  g.lookup name = some .present

def text? (g : Given) (name : String) : Option String :=
  match g.lookup name with
  | some (.text s) => some s
  | _ => none

def word? (g : Given) (name : String) : Option UInt32 :=
  match g.lookup name with
  | some (.word n) => some n
  | _ => none

def count? (g : Given) (name : String) : Option Nat :=
  match g.lookup name with
  | some (.count n) => some n
  | _ => none

end Given

end DwarfOne
