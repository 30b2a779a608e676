import TinyShell.Text.Utf8

/-!
# Limited outputs

An output may have room for some more bytes only. It takes what fits of a write
that is too long, and gives a reason why it does not take the rest.
-/

set_option autoImplicit false

namespace TinyShell

structure Limit (α : Type) where
  room : Nat
  reason : α
deriving DecidableEq, Repr

namespace Limit

variable {α β : Type}

def cut (limit : Option (Limit α)) (bytes : Bytes) : Bytes :=
  match limit with
  | none => bytes
  | some limit => bytes.take limit.room

def refusal (limit : Option (Limit α)) (bytes : Bytes) : Option α :=
  match limit with
  | none => none
  | some limit => if bytes.length ≤ limit.room then none else some limit.reason

def after (limit : Option (Limit α)) (bytes : Bytes) : Option (Limit α) :=
  limit.map fun limit => { limit with room := limit.room - bytes.length }

def map (f : α → β) (limit : Limit α) : Limit β := ⟨limit.room, f limit.reason⟩

end Limit

end TinyShell
