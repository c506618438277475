import FontCatalog.Catalog.Document

/-! Faces printed for other programs: one indented JSON array, or one JSON object a line. A program that knows the shape
of a face reads them from either. -/
namespace FontCatalog.Catalog
set_option autoImplicit false

/-- The indented array and a new line, none if a path is not valid UTF-8. -/
def prettyListing? (faces : List Face) : Option String :=
  (facesToJson? faces).map fun vs => (Json.list vs).renderPretty ++ "\n"

/-- A line for each face up to the first one whose path is not valid UTF-8, and whether that is
all. -/
def lineListing : List Face → List String × Bool
  | [] => ([], true)
  | f :: rest =>
    match f.toJson? with
    | none => ([], false)
    | some v =>
      let (lines, complete) := lineListing rest
      ((v.render ++ "\n") :: lines, complete)

/-! ## Reading -/

/-- The face of one line. -/
def readLine (bs : Bytes) : Except (Json.Trouble Json.Mismatch) Face := (Face.shape.parse bs).map Face.ofJson

/-- The faces of an array. -/
def readListing (bs : Bytes) : Except (Json.Trouble Json.Mismatch) (List Face) :=
  ((Json.Shape.list Face.shape).parse bs).map fun v => v.toList.map Face.ofJson

end FontCatalog.Catalog
