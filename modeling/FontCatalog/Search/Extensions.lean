import FontCatalog.Path

/-! Which files are taken for fonts: those whose extension is in a list, whatever the case of its
ASCII letters. -/
namespace FontCatalog
set_option autoImplicit false

structure Extensions where
  allowed : List String
  deriving DecidableEq, Repr, Inhabited

namespace Extensions

/-- The extensions of the list without the dots in front of them; empty ones are left out. -/
def ofList (extensions : List String) : Extensions where
  allowed :=
    (extensions.map fun e => (String.ofList (e.toList.dropWhile (· == '.'))).map Char.toLower).filter
      fun e => !e.isEmpty

def standardList : List String := ["ttf", "otf", "ttc", "otc"]

def standard : Extensions := ofList standardList

/-- Whether a path has one of the extensions; one that is not UTF-8 is in no list. -/
def accepts (x : Extensions) (p : Path) : Bool :=
  match p.extension?.bind Text.decode? with
  | some e => x.allowed.contains (e.map Char.toLower)
  | none => false

end Extensions

end FontCatalog
