import ImageAssembly.Text.Hexadecimal
import ImageAssembly.Text.Printable

/-! Texts in messages: in double quotes, with escapes for quotes, backslashes and whatever would not
show. -/

namespace ImageAssembly.Text

/-- A character inside quotes. -/
def quoteChar (c : Char) : List Char :=
  if c = '"' then ['\\', '"']
  else if c = '\\' then ['\\', '\\']
  else if c = '\n' then ['\\', 'n']
  else if c = '\r' then ['\\', 'r']
  else if c = '\t' then ['\\', 't']
  else if c = '\x00' then ['\\', '0']
  else if isPrintable c then [c]
  else '\\' :: 'u' :: '\x7b' :: (Hexadecimal.ofNat c.toNat ++ ['\x7d'])

/-- A text in quotes. -/
def quoted (s : String) : String :=
  String.ofList ('"' :: (s.toList.flatMap quoteChar ++ ['"']))

end ImageAssembly.Text
