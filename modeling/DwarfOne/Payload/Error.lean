/-
# `Payload.Error` — why a payload cannot be read

An attribute whose value is well framed may still hold something other than
what its name promises.  These failures are never fatal: whoever asked for
the payload reports them and goes on.
-/
import DwarfOne.Bytes.Cursor

namespace DwarfOne

inductive PayloadError
  /-- The payload ends too early. -/
  | truncated (cause : OutOfBounds)
  /-- An embedded attribute has a form that does not exist. -/
  | unknownForm (form : UInt16)
  | unknownSubscriptFormat (format : UInt8)
  /-- The value is of another kind than the attribute's name calls for. -/
  | wrongKind (expected found : String)
  deriving DecidableEq, Repr

def PayloadError.message : PayloadError → String
  | .truncated cause => cause.message
  | .unknownForm form => "unknown attribute form " ++ Numeral.decimal form.toNat
  | .unknownSubscriptFormat format =>
      "unknown subscript format " ++ Numeral.offset format.toNat
  | .wrongKind expected found =>
      "expected " ++ expected ++ " but found a " ++ found ++ " payload"

/-- A payload reader takes the plain reads as they are. -/
instance : MonadLift (Reader OutOfBounds) (Reader PayloadError) where
  monadLift r := r.mapError .truncated

end DwarfOne
