import TinyShell.Text.Unprintable

/-!
# Quoted text

How a list of words is shown to someone who has to see every character: each
word in double quotes, with escapes for quotes, backslashes and whatever
cannot be printed.
-/

set_option autoImplicit false

namespace TinyShell.Text

def escaped (c : Char) : Text :=
  if c = '\x00' then ['\\', '0']
  else if c = '\t' then ['\\', 't']
  else if c = '\r' then ['\\', 'r']
  else if c = '\n' then ['\\', 'n']
  else if c = '"' ∨ c = '\\' then ['\\', c]
  else if isPrintable c then [c]
  else ['\\', 'u', '\x7b'] ++ Nat.toDigits 16 c.toNat ++ ['\x7d']

def quoted (word : Text) : Text := '"' :: word.flatMap escaped ++ ['"']

def quotedList (words : List Text) : Text :=
  '[' :: List.intercalate [',', ' '] (words.map quoted) ++ [']']

end TinyShell.Text
