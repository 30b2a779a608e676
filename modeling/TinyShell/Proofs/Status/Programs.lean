import TinyShell.Machine.Installation
import TinyShell.Proofs.Status.Agreement

/-!
# Statuses of installed programs

Whatever the installed programs and the scripts do, they end with a code of
eight bits, or by one of the signals that there are, whose status has eight
bits too.
-/

set_option autoImplicit false

namespace TinyShell

namespace Interpreter

theorem act_ends {i : Interpreter} {step : Script.Step} {last : Nat} {w w' : World}
    {ending : Ending} (h : i.act step last w = (.ends ending, w')) : ending.status ≤ 255 := by
  unfold act at h
  split at h
  next => cases h; exact Ending.status_ofCode_le _
  next => cases h; exact Ending.status_ofCode_le _
  next signal _ =>
    split at h
    next he =>
      cases h
      have hs : signal ≤ 64 := by
        simp only [Signal.endsProgram, Bool.and_eq_true] at he
        exact of_decide_eq_true he.1.2
      simp only [Ending.status]
      omega
    next => cases h
  next => cases h
  next => cases h
  next => cases h

theorem steps_ends {i : Interpreter} {steps : List Script.Step} {last : Nat} {w w' : World}
    {ending : Ending} (h : i.steps steps last w = (.ends ending, w')) : ending.status ≤ 255 := by
  induction steps generalizing last w with
  | nil => cases h
  | cons step rest ih =>
    simp only [Interpreter.steps] at h
    split at h
    next he =>
      cases h
      exact act_ends (Prod.ext he rfl)
    next => exact ih h

theorem text_status_le (i : Interpreter) (script : Text) (w : World) :
    (i.text script w).1.status ≤ 255 := by
  unfold text conclude
  split
  next he => exact steps_ends (Prod.ext he rfl)
  next => exact Ending.status_ofCode_le _

theorem reading_status_le (i : Interpreter) (read : Nat → World → Bytes × World)
    (tries taken lines code : Nat) (w : World) :
    (i.reading read tries taken lines code w).1.status ≤ 255 := by
  induction tries generalizing taken lines code w with
  | zero => exact Ending.status_ofCode_le _
  | succ tries ih =>
    simp only [reading]
    split
    next => exact Ending.status_ofCode_le _
    next =>
      split
      next he => exact steps_ends (Prod.ext he rfl)
      next =>
        split
        next => exact ih _ _ _ _
        next => exact Ending.status_ofCode_le _

theorem run_status_le (launch : Launcher) (name : Text) (arguments : List Text) (p : Process)
    (w : World) : (run launch name arguments p w).1.status ≤ 255 := by
  unfold run
  split
  next => exact reading_status_le _ _ _ _ _ _ _
  next =>
    split
    next =>
      split
      next => exact Ending.status_ofCode_le _
      next => exact text_status_le _ _ _
    next =>
      split
      next => exact Ending.status_ofCode_le _
      next =>
        split
        next => exact Ending.status_ofCode_le _
        next => exact reading_status_le _ _ _ _ _ _ _

end Interpreter

theorem Program.run_status_le (program : Program) (launch : Launcher) (name : Text)
    (arguments : List Text) (p : Process) (w : World) :
    (program.run launch name arguments p w).1.status ≤ 255 := by
  cases program with
  | sh => exact Interpreter.run_status_le _ _ _ _ _
  | echo | cat | succeed | fail | pwd => exact Ending.status_ofCode_le _

theorem Image.run_fits : Executor.Fits Image.run := by
  intro image call p w
  cases image with
  | program it => exact Program.run_status_le it _ _ _ p w
  | script => exact Interpreter.run_status_le _ _ _ p w

end TinyShell
