import TinyShell.Machine.Console
import TinyShell.Shell.CommandLine

/-!
# The shell as a program

Runs a script from the standard input on a machine of its own and prints what
the script wrote.
-/

set_option autoImplicit false

namespace TinyShell

partial def readAll (stream : IO.FS.Stream) (done : ByteArray) : IO ByteArray := do
  let more ← stream.read 65536
  if more.isEmpty then return done else readAll stream (done ++ more)

end TinyShell

open TinyShell

def main (arguments : List String) : IO UInt32 := do
  let stdin ← IO.getStdin
  let stdout ← IO.getStdout
  let stderr ← IO.getStderr
  let terminals : Terminals := ⟨← stdin.isTty, ← stdout.isTty, ← stderr.isTty⟩
  let home := Environment.homeOf none ((← IO.getEnv "HOME").map String.toList)
  let search := (← IO.getEnv "PATH").map String.toList
  let bytes := (← readAll stdin .empty).toList
  let world := Console.world World.standardTree bytes
  let start : ShellState := ⟨Console.process 1 [], world, 0⟩
  let (code, s) :=
    CommandLine.run (arguments.map String.toList) terminals home search Image.run start
  stdout.write ⟨(Console.written s.world Console.output).toArray⟩
  stderr.write ⟨(Console.written s.world Console.errors).toArray⟩
  return UInt32.ofNat code
