import RegIR.Text.Unprintable
/-!
# Quoted text

Text in double quotes, on one line.  Quotes, backslashes and the common control characters are
written with a backslash, and characters without a form of their own by number.
-/

namespace RegIR.Quoted

/-- The number of a character in braces. -/
def byNumber (c : Char) : List Char :=
  ['\\', 'u', '\x7b'] ++ Nat.toDigits 16 c.toNat ++ ['\x7d']

/-- The written form of one character. -/
def escape (c : Char) : List Char :=
  if c = '\x00' then ['\\', '0']
  else if c = '\t' then ['\\', 't']
  else if c = '\r' then ['\\', 'r']
  else if c = '\n' then ['\\', 'n']
  else if c = '\\' then ['\\', '\\']
  else if c = '"' then ['\\', '"']
  else if Unprintable.contains c then byNumber c
  else [c]

/-- The written form of a text. -/
def encode (s : String) : String :=
  String.ofList ('"' :: s.toList.flatMap escape ++ ['"'])

end RegIR.Quoted
