import TinyShell.Text.Utf8

/-!
# Lines of input

The input reaches the shell line by line. A line is never empty: it ends with
its newline, or it is the unfinished rest of the input.
-/

set_option autoImplicit false

namespace TinyShell

structure Line where
  first : Char
  others : Text
deriving DecidableEq, Repr

namespace Line

def text (line : Line) : Text := line.first :: line.others

def ofText : Text → Option Line
  | [] => none
  | c :: rest => some ⟨c, rest⟩

end Line

structure Input where
  lines : List Line
  fault : Option Text
deriving Repr

namespace Input

def newlineByte : UInt8 := 10

def splitLines : Bytes → List Bytes × Bytes
  | [] => ([], [])
  | b :: rest =>
    let (pieces, last) := splitLines rest
    if b = newlineByte then ([b] :: pieces, last)
    else match pieces with
      | [] => ([], b :: last)
      | piece :: others => ((b :: piece) :: others, last)

def extent (lines : Nat) (bytes : Bytes) : Nat :=
  let pieces := splitLines bytes
  ((pieces.1 ++ [pieces.2]).take lines).flatten.length

def decodeLines (pieces : List Bytes) : List Line :=
  pieces.filterMap fun piece => Line.ofText (Utf8.decode piece)

def ofBytes (bytes : Bytes) : Input :=
  let (pieces, last) := splitLines bytes
  ⟨decodeLines (pieces ++ [last]), none⟩

/-- An input whose reader fails after the given number of bytes. The bytes of
a line that is not finished by then are lost. -/
def failing (bytes : Bytes) (limit : Nat) (reason : Text) : Input :=
  ⟨decodeLines (splitLines (bytes.take limit)).1, some reason⟩

end Input

end TinyShell
