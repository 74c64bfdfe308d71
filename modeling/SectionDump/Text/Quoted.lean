import SectionDump.Text.Hidden
import SectionDump.Text
import SectionDump.Numeral

/-!
# Quoted text

Messages show a piece of input in double quotes. The quote, the backslash, tab,
the two line ends and NUL have short escapes; every other hidden character is
written by its code point, so that a message stays on one line and shows all.
-/
namespace SectionDump.Text

/-- A code point in hexadecimal between braces. -/
def codePoint (c : Char) : Text := "\\u\x7b".toList ++ Nat.toDigits 16 c.toNat ++ ['\x7d']

def escape (c : Char) : Text :=
  match c with
  | '"' => ['\\', '"']
  | '\\' => ['\\', '\\']
  | '\t' => ['\\', 't']
  | '\n' => ['\\', 'n']
  | '\r' => ['\\', 'r']
  | '\x00' => ['\\', '0']
  | c => if isHidden c then codePoint c else [c]

def quoted (s : Text) : Text := '"' :: s.flatMap escape ++ ['"']

@[simp] theorem quoted_nil : quoted [] = ['"', '"'] := rfl

end SectionDump.Text
