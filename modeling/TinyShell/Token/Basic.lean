import TinyShell.Text.Basic

/-!
# Tokens

A token keeps the text it was read from, so that a redirection operator still
shows its digits; a string keeps its contents without the quotes.
-/

set_option autoImplicit false

namespace TinyShell

structure Position where
  line : Nat
  column : Nat
deriving DecidableEq, Repr, Inhabited

namespace Position

def message (p : Position) : Text := Text.ofNat p.line ++ ":" ++ Text.ofNat p.column

end Position

inductive TokenKind
  | command
  | string
  | and
  | or
  | not
  | pipe
  | overwrite
  | append
  | mergeOutput
  | mergeAppend
  | mergeStream
  | input
  | leftParen
  | rightParen
  | newline
  | semicolon
  | endOfInput
  | invalid
deriving DecidableEq, Repr

namespace TokenKind

def isRedirection : TokenKind → Bool
  | overwrite | append | mergeOutput | mergeAppend | mergeStream | input => true
  | _ => false

def isWord : TokenKind → Bool
  | command | string => true
  | _ => false

def description : TokenKind → Text
  | command => "command"
  | string => "string"
  | and => "'&&'"
  | or => "'||'"
  | not => "'!'"
  | pipe => "'|'"
  | overwrite => "'>'"
  | append => "'>>'"
  | mergeOutput => "'&>'"
  | mergeAppend => "'&>>'"
  | mergeStream => "'>&'"
  | input => "'<'"
  | leftParen => "'('"
  | rightParen => "')'"
  | newline => "newline"
  | semicolon => "';'"
  | endOfInput => "end of input"
  | invalid => "invalid token"

end TokenKind

structure Token where
  kind : TokenKind
  text : Text
  position : Position
deriving DecidableEq, Repr

end TinyShell
