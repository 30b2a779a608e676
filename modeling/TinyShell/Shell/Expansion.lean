import TinyShell.Shell.Settings
import TinyShell.Statement.Basic

/-!
# Expansion of words

A word that is `~`, or starts with `~/`, gets the home directory in front;
then every `$$` becomes the number of the process that expands it and every
`$VERSION` the version of the shell.
-/

set_option autoImplicit false

namespace TinyShell.Expansion

def pidMark : Text := ['$', '$']

def versionMark : Text := ['$', 'V', 'E', 'R', 'S', 'I', 'O', 'N']

def atHome (home : Option Text) (word : Text) : Text :=
  match home, word with
  | some home, ['~'] => home
  | some home, '~' :: '/' :: rest => home ++ '/' :: rest
  | _, _ => word

def expand (home : Option Text) (pid : Nat) (word : Text) : Text :=
  Text.replaceAll versionMark Settings.version
    (Text.replaceAll pidMark (Text.ofNat pid) (atHome home word))

end TinyShell.Expansion
