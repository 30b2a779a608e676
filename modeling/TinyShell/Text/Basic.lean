/-!
# Text

Words, messages and rendered statements are lists of characters; bytes appear
only where text meets a file or a pipe. A string literal stands for the list
of its characters.
-/

set_option autoImplicit false

namespace TinyShell

abbrev Text := List Char

abbrev Bytes := List UInt8

namespace Text

@[irreducible] def ofString (s : String) : Text := s.toList

instance : Coe String Text := ⟨ofString⟩

def ofNat (n : Nat) : Text := Nat.toDigits 10 n

def ofInt : Int → Text
  | .ofNat n => ofNat n
  | .negSucc n => '-' :: ofNat (n + 1)

def spaced (words : List Text) : Text := List.intercalate [' '] words

/-- Leftmost occurrences first, and inserted text is not searched again. The
counter says how many characters of the last occurrence are still to be
passed over. -/
def replaceFrom (pattern replacement : Text) : Nat → Text → Text
  | _, [] => []
  | skipped+1, _ :: rest => replaceFrom pattern replacement skipped rest
  | 0, c :: rest =>
    if pattern.isPrefixOf (c :: rest) then
      replacement ++ replaceFrom pattern replacement (pattern.length - 1) rest
    else c :: replaceFrom pattern replacement 0 rest

def replaceAll (pattern replacement text : Text) : Text :=
  replaceFrom pattern replacement 0 text

def value (digits : Text) : Nat :=
  digits.foldl (fun n c => 10*n + (c.toNat - '0'.toNat)) 0

def splitAll (separator : Char) : Text → List Text
  | [] => [[]]
  | c :: rest =>
    if c = separator then [] :: splitAll separator rest
    else match splitAll separator rest with
      | [] => [[c]]
      | piece :: pieces => (c :: piece) :: pieces

def hasNul (text : Text) : Bool := text.contains '\x00'

end Text

end TinyShell
