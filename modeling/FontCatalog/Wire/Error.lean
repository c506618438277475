import FontCatalog.Json.Shape
import FontCatalog.OsError

/-! What can go wrong on a connection. -/
namespace FontCatalog.Wire
set_option autoImplicit false

/-- Where the input ended too early, as the reader that met the end words it. -/
inductive Cut where
  /-- a reader that waits for the whole of what it needs -/
  | buffer
  /-- inside the length of a frame -/
  | header
  /-- inside the payload of a frame -/
  | payload
  deriving DecidableEq, Repr

def Cut.message : Cut → String
  | .buffer => "failed to fill whole buffer"
  | .header => "unexpected end of file"
  | .payload => "early eof"

inductive Error where
  | cut (c : Cut)
  | os (e : OsError)
  | frameTooLarge (length : Nat) (max : Nat)
  | malformed (t : Json.Trouble Json.Mismatch)
  | unwritablePath
  | unsupportedVersion (version : UInt32)
  deriving Repr

/-- The text of an error; for one in the form of JSON it ends where the place would be told. -/
def Error.message : Error → String
  | .cut c => "connection i/o: " ++ c.message
  | .os e => "connection i/o: " ++ e.message
  | .frameTooLarge length max =>
    "frame of " ++ toString length ++ " bytes exceeds the " ++ toString max ++ " byte limit"
  | .malformed (.meaning m) => "malformed message: " ++ m.message
  | .malformed (.text _) => "malformed message"
  | .unwritablePath => "malformed message: path contains invalid UTF-8 characters"
  | .unsupportedVersion version => "unsupported protocol version " ++ toString version.toNat

end FontCatalog.Wire
