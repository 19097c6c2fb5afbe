import FrameMachine.Text.Glyphless
import FrameMachine.Text.Numeral

/-!
# Quoted text

A text between double quotes on one line: quotes, backslashes, line ends, tabs and NUL are escaped
by a letter, other characters that would not show by their code.
-/

namespace FrameMachine.Text

/-- How a character is shown inside quotes. -/
def quotedChar : Char → String
  | '\x00' => "\\0"
  | '\t' => "\\t"
  | '\r' => "\\r"
  | '\n' => "\\n"
  | '"' => "\\\""
  | '\\' => "\\\\"
  | c => if isGlyphless c then "\\u\x7b" ++ hex c.toNat ++ "\x7d" else c.toString

/-- A text between double quotes. -/
def quoted (text : String) : String :=
  "\"" ++ String.join (text.toList.map quotedChar) ++ "\""

end FrameMachine.Text
