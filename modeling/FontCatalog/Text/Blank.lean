import FontCatalog.Text.Ranges

/-! White space as Unicode defines it, and what is done with it: words, trimming. -/
namespace FontCatalog.Text
set_option autoImplicit false

def blankRanges : Ranges :=
  [(0x9, 0xD), (0x20, 0x20), (0x85, 0x85), (0xA0, 0xA0), (0x1680, 0x1680), (0x2000, 0x200A),
   (0x2028, 0x2029), (0x202F, 0x202F), (0x205F, 0x205F), (0x3000, 0x3000)]

/-- Whether `c` is white space (the property White_Space). -/
def isBlank (c : Char) : Bool := blankRanges.holds c.toNat

/-! ## Words -/

/-- One character read from the right: the word it belongs to, and the words after that one. -/
def wordStep (c : Char) (s : List Char × List (List Char)) : List Char × List (List Char) :=
  if isBlank c then ([], if s.1.isEmpty then s.2 else s.1 :: s.2) else (c :: s.1, s.2)

/-- The maximal runs of characters that are not blank. -/
def words (cs : List Char) : List (List Char) :=
  let s := cs.foldr wordStep ([], [])
  if s.1.isEmpty then s.2 else s.1 :: s.2

/-- Trimmed at both ends, each inner run of blanks made a single space. -/
def collapse (cs : List Char) : List Char := List.intercalate [' '] (words cs)

/-! ## Trimming -/

def trimStart (cs : List Char) : List Char := cs.dropWhile isBlank

def trimEnd (cs : List Char) : List Char := (cs.reverse.dropWhile isBlank).reverse

def trim (s : String) : String := String.ofList (trimEnd (trimStart s.toList))

/-- Whether nothing but white space is in `s`. -/
def isBlankText (s : String) : Bool := s.toList.all isBlank

end FontCatalog.Text
