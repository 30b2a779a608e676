import TinyShell.Errno
import TinyShell.Token.Basic

/-!
# Failures

Every way in which reading or running a statement can fail, by cause. The
wording of all of them is in `Failure.message`.
-/

set_option autoImplicit false

namespace TinyShell

inductive Complaint
  | tooManyArguments (command : Text)
  | missingArgument (command : Text)
  | nulByte (command : Text)
  | noHome
  | cannotEnter (directory : Text) (reason : Errno)
  | nulInDirectory (directory : Text)
  | output (command reason : Text)
  | descriptorRange (value : Int)
  | notDescriptor (operand : Text)
  | notParent
  | other (message : Text)
deriving DecidableEq, Repr

namespace Complaint

def message : Complaint → Text
  | tooManyArguments command => command ++ ": too many arguments"
  | missingArgument command => command ++ ": missing argument"
  | nulByte command => command ++ ": argument contains a NUL byte"
  | noHome => "cd: no home directory"
  | cannotEnter directory reason =>
    "cd: " ++ directory ++ ": " ++ reason.report
  | nulInDirectory directory =>
    "cd: " ++ directory ++ ": file name contained an unexpected NUL byte"
  | output command reason => command ++ ": " ++ reason
  | descriptorRange value => Text.ofInt value ++ ": bad file descriptor"
  | notDescriptor operand => operand ++ ": not a file descriptor"
  | notParent => "only the parent can wait for a child"
  | other message => message

end Complaint

inductive Failure
  | character (position : Position) (found : Option Char) (expected : Text)
  | grammar (position : Position) (found : TokenKind) (expected : Text)
  | argument (complaint : Complaint)
  | systemCall (call : Text) (reason : Errno)
  | inputClosed
  | inputFault (reason : Text)
  | notFound (command : Text)
  | redirect (path reason : Text)
deriving DecidableEq, Repr

namespace Failure

def endsInput : Failure → Bool
  | inputClosed | inputFault _ => true
  | _ => false

def describe : Option Char → Text
  | none => "end of input"
  | some c => if c = '\n' then "newline" else ['\'', c, '\'']

def message : Failure → Text
  | character position found expected =>
    position.message ++ ": unexpected " ++ describe found ++ ", expected " ++ expected
  | grammar position found expected =>
    position.message ++ ": syntax error near " ++ found.description ++ ", expected " ++ expected
  | argument complaint => complaint.message
  | systemCall call reason => call ++ " failed: " ++ reason.message
  | inputClosed => "read past the end of input"
  | inputFault reason => "failed to read input: " ++ reason
  | notFound command => command ++ ": command not found"
  | redirect path reason => path ++ ": " ++ reason

end Failure

end TinyShell
