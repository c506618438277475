import FontCatalog.Catalog
import FontCatalog.Json.Writer

/-! How much is in a catalog. -/
namespace FontCatalog.Catalog
set_option autoImplicit false

structure Summary where
  faces : Nat
  files : Nat
  typographicFamilies : Nat
  win32Families : Nat
  /-- faces with outlines of the PostScript kind -/
  psFaces : Nat
  deriving DecidableEq, Repr

/-- How often the path changes from one face to the next, and once for the first. -/
def countFiles : List Face → Nat
  | [] => 0
  | [_] => 1
  | f :: g :: rest => (if f.path.same g.path then 0 else 1) + countFiles (g :: rest)

def summary (c : Catalog) : Summary where
  faces := c.size
  files := countFiles c.faces.toList
  typographicFamilies := c.typographicFamilies.length
  win32Families := c.win32Families.length
  psFaces := (c.faces.toList.filter (·.psOutline)).length

namespace Summary

def toText (s : Summary) : String :=
  "faces:                " ++ toString s.faces ++ "\n" ++
  "files:                " ++ toString s.files ++ "\n" ++
  "typographic families: " ++ toString s.typographicFamilies ++ "\n" ++
  "win32 families:       " ++ toString s.win32Families ++ "\n" ++
  "cff faces:            " ++ toString s.psFaces ++ "\n"

def toJson (s : Summary) : Json :=
  .object [("faces", .nat s.faces), ("files", .nat s.files),
    ("typographic_families", .nat s.typographicFamilies),
    ("win32_families", .nat s.win32Families), ("cff_faces", .nat s.psFaces)]

end Summary

end FontCatalog.Catalog
