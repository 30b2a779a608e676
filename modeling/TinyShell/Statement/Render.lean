import TinyShell.Statement.Basic

/-!
# Rendered statements

Diagnostics show a statement in operator-first form: `(&& [a] (| [b x] [c]))`.
-/

set_option autoImplicit false

namespace TinyShell

namespace Expression

def renderWord (t : Token) : Text :=
  if t.kind = .string then '"' :: t.text ++ ['"'] else t.text

def render : Expression → Text
  | command i => '[' :: Text.spaced (i.words.map renderWord) ++ [']']
  | string i => '"' :: i.head.text ++ ['"']
  | value n => Text.ofInt n

end Expression

namespace Redirection

def digits : Option Expression → Text
  | some (.value n) => if n = unspecified then [] else Text.ofInt n
  | _ => []

def operator : Redirection → Text
  | overwrite fd _ => digits fd ++ ">"
  | append fd _ => digits fd ++ ">>"
  | mergeOutput _ => "&>"
  | mergeAppend _ => "&>>"
  | mergeStream source destination => digits (some source) ++ ">&" ++ digits (some destination)
  | input _ => "<"

def render (r : Redirection) (left : Text) : Text :=
  let shown := match r.target? with
    | some target => ' ' :: target.render
    | none => []
  '(' :: r.operator ++ " " ++ left ++ shown ++ ")"

end Redirection

namespace Statement

def render : Statement → Text
  | sequence left right => "(; " ++ left.render ++ " " ++ right.render ++ ")"
  | closed left => "(; " ++ left.render ++ ")"
  | and left right => "(&& " ++ left.render ++ " " ++ right.render ++ ")"
  | or left right => "(|| " ++ left.render ++ " " ++ right.render ++ ")"
  | not inner => "(! " ++ inner.render ++ ")"
  | pipeline left right => "(| " ++ left.render ++ " " ++ right.render ++ ")"
  | redirect redirection left => redirection.render left.render
  | bare redirection => redirection.render "_"
  | atom expression => expression.render

end Statement

end TinyShell
