import FontCatalog.Text.Alphanumeric
import FontCatalog.Text.Blank
import FontCatalog.Text.Casing
import FontCatalog.Text.Utf16

/-! Spellings of family names and the keys that make them comparable: the exact key forgets case,
the family key forgets case and the amount of white space, the loose key keeps letters and numbers
only. -/
namespace FontCatalog.Name
set_option autoImplicit false
open FontCatalog.Text

/-- Some renderers cut family names to this many UTF-16 units. -/
def truncatedUnits : Nat := 31

def normalizeBlanks (raw : String) : String := String.ofList (collapse raw.toList)

def exactKey (raw : String) : String := lowercase raw

def familyKey (raw : String) : String := lowercase (normalizeBlanks raw)

def looseKey (raw : String) : String :=
  String.ofList ((raw.toList.filter isAlphanumeric).flatMap lowerChar)

/-- The name without the leading `@` that asks for the vertical variant of a face. -/
def undecorate (raw : String) : String :=
  match raw.toList with
  | '@' :: rest => String.ofList rest
  | _ => raw

/-- Whether `raw` is just as long as a name that has been cut. -/
def isTruncated (raw : String) : Bool := units16 raw == truncatedUnits

end FontCatalog.Name
