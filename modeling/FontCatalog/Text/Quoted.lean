import FontCatalog.Text.Printable

/-! A text in double quotes with everything that cannot be shown as it is escaped. -/
namespace FontCatalog.Text
set_option autoImplicit false

/-- The digits of `n` to base sixteen, lower case, without leading zeros. -/
def hex (n : Nat) : String := String.ofList (Nat.toDigits 16 n)

def quotedChar (c : Char) : String :=
  if c = '\x00' then "\\0"
  else if c = '\t' then "\\t"
  else if c = '\n' then "\\n"
  else if c = '\r' then "\\r"
  else if c = '"' then "\\\""
  else if c = '\\' then "\\\\"
  else if isStandalone c then c.toString
  else "\\u\x7b" ++ hex c.toNat ++ "\x7d"

def quoted (s : String) : String := "\"" ++ String.join (s.toList.map quotedChar) ++ "\""

end FontCatalog.Text
