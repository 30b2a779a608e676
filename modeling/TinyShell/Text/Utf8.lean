import TinyShell.Text.Basic

/-!
# UTF-8

Decoding never fails. A character that breaks off, or a byte that cannot
start one, becomes the replacement character, and decoding goes on with the
byte that did not fit.
-/

set_option autoImplicit false

namespace TinyShell.Utf8

/-- A character whose first bytes have been read: how many bytes it still
owes, the range of the next one, and the bits collected so far. -/
structure Pending where
  owed : Nat
  low : Nat
  high : Nat
  bits : Nat

def replacement : Char := '\uFFFD'

def start (b : Nat) : Text × Option Pending :=
  if b < 0x80 then ([Char.ofNat b], none)
  else if 0xC2 ≤ b ∧ b ≤ 0xDF then ([], some ⟨1, 0x80, 0xBF, b - 0xC0⟩)
  else if b = 0xE0 then ([], some ⟨2, 0xA0, 0xBF, 0⟩)
  else if b = 0xED then ([], some ⟨2, 0x80, 0x9F, b - 0xE0⟩)
  else if 0xE1 ≤ b ∧ b ≤ 0xEF then ([], some ⟨2, 0x80, 0xBF, b - 0xE0⟩)
  else if b = 0xF0 then ([], some ⟨3, 0x90, 0xBF, 0⟩)
  else if b = 0xF4 then ([], some ⟨3, 0x80, 0x8F, b - 0xF0⟩)
  else if 0xF1 ≤ b ∧ b ≤ 0xF3 then ([], some ⟨3, 0x80, 0xBF, b - 0xF0⟩)
  else ([replacement], none)

def step : Option Pending → Nat → Text × Option Pending
  | none, b => start b
  | some p, b =>
    if p.low ≤ b ∧ b ≤ p.high then
      let bits := 64*p.bits + (b - 0x80)
      if p.owed ≤ 1 then ([Char.ofNat bits], none)
      else ([], some ⟨p.owed - 1, 0x80, 0xBF, bits⟩)
    else
      let (text, next) := start b
      (replacement :: text, next)

def decodeFrom : Option Pending → Bytes → Text
  | none, [] => []
  | some _, [] => [replacement]
  | state, b :: rest =>
    let (text, next) := step state b.toNat
    text ++ decodeFrom next rest

def decode (bytes : Bytes) : Text := decodeFrom none bytes

def encode (text : Text) : Bytes := text.flatMap String.utf8EncodeChar

def size (text : Text) : Nat := (encode text).length

end TinyShell.Utf8
