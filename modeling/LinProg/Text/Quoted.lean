import LinProg.Text.Extending
import LinProg.Text.Unprintable

/-!
# Quoted text

A text between double quotes in which every character can be told: quotes and backslashes are
escaped, and so are characters that show no mark or merge with the one before. -/

namespace LinProg.Text

/-- A number in hexadecimal digits. -/
def hexadecimal (n : Nat) : String :=
  String.ofList (Nat.toDigits 16 n)

/-- A character by its code point, as in `\u` and the hexadecimal number in braces. -/
def codePoint (c : Char) : String :=
  "\\u\x7b" ++ hexadecimal c.toNat ++ "\x7d"

/-- A character within quotes. -/
def escaped (c : Char) : String :=
  match c with
  | '\x00' => "\\0"
  | '\t' => "\\t"
  | '\n' => "\\n"
  | '\r' => "\\r"
  | '"' => "\\\""
  | '\\' => "\\\\"
  | c => if isExtending c || isUnprintable c then codePoint c else String.ofList [c]

/-- A text in double quotes. -/
def quoted (text : String) : String :=
  "\"" ++ String.join (text.toList.map escaped) ++ "\""

end LinProg.Text
