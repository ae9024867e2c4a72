import Daedalus.Text.Invisible
import Daedalus.Text.Layout

/-! # Quoted texts

Texts in double quotes, as reports show them. Quotes, backslashes and invisible characters are
escaped, so the text can be read off its quoted form. -/

namespace Daedalus.Text

/-- The escape of a character in a quoted text, if it needs one. -/
def escape? (c : Char) : Option String :=
  if c = '\x00' then some "\\0"
  else if c = '\t' then some "\\t"
  else if c = '\n' then some "\\n"
  else if c = '\r' then some "\\r"
  else if c = '\x22' ∨ c = '\x5c' then some ("\\" ++ c.toString)
  else if isInvisible c then some ("\\u\x7b" ++ hex c.toNat ++ "\x7d")
  else none

/-- A text in quotes. -/
def quoted (text : String) : String :=
  "\"" ++ String.join (text.toList.map fun c => (escape? c).getD c.toString) ++ "\""

end Daedalus.Text
