/-! The character set Mac Roman. -/
namespace FontCatalog.Sfnt
set_option autoImplicit false

/-- The characters of the bytes from 0x80 on. -/
def macRomanUpper : Array Char :=
  ("ÄÅÇÉÑÖÜáàâäãåçéèêëíìîïñóòôöõúùûü" ++
   "†°¢£§•¶ß®©™´¨≠ÆØ∞±≤≥¥µ∂∑∏π∫ªºΩæø" ++
   "¿¡¬√ƒ≈∆«»…\u00a0ÀÃÕŒœ–—“”‘’÷◊ÿŸ⁄€‹›ﬁﬂ" ++
   "‡·‚„‰ÂÊÁËÈÍÎÏÌÓÔ\uf8ffÒÚÛÙıˆ˜¯˘˙˚¸˝˛ˇ").toList.toArray

def macRomanChar (b : UInt8) : Char :=
  if b < 0x80 then Char.ofNat b.toNat else macRomanUpper.getD (b.toNat - 0x80) '\ufffd'

end FontCatalog.Sfnt
