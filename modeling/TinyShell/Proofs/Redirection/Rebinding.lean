import TinyShell.Machine.Console
import TinyShell.Proofs.Redirection.Files

/-!
# What a wiring rebinds

A wiring can be made exactly if its file can be opened, or its descriptor
copied, and its targets have numbers of descriptors. The process then differs
in its targets alone. The file is opened on a descriptor of its own, of which
nothing remains: it is closed again, unless it is itself a target.
-/

set_option autoImplicit false

namespace TinyShell

variable {p p' : Process} {w w' : World}

namespace Descriptors

variable {d : Descriptors} {source target : Int}

/-- What can be copied is open, and onto what has a number of a descriptor. -/
theorem exists_copy_iff : (∃ d', d.copy source target = .ok d') ↔
    valid source = true ∧ valid target = true ∧ (d.find? source.toNat).isSome = true := by
  unfold copy
  cases hs : valid source with
  | false => simp
  | true =>
    cases ht : valid target with
    | false => simp
    | true =>
      cases hf : d.find? source.toNat with
      | none => simp
      | some slot => by_cases he : source = target <;> simp [he]

theorem valid_of_lt {fd : Nat} (h : fd < limit) : valid (fd : Int) = true := by
  simp [valid, h]

end Descriptors

namespace Process

theorem exists_copy_iff {source target : Int} : (∃ p', p.copy source target = .ok p') ↔
    ∃ d, p.descriptors.copy source target = .ok d := by
  unfold copy
  cases p.descriptors.copy source target <;> simp

theorem copy_rest {source target : Int} (h : p.copy source target = .ok p') :
    p' = { p with descriptors := p'.descriptors } := by
  unfold copy at h
  split at h
  next => cases h
  next =>
    cases h
    rfl

theorem openPath_rest {path : Text} {mode : OpenMode} {fd : Nat}
    (h : p.openPath w path mode = .ok (fd, p', w')) :
    fd < Descriptors.limit ∧ p' = { p with descriptors := p'.descriptors } := by
  unfold openPath at h
  simp only at h
  split at h
  next => cases h
  next hlimit =>
    split at h
    next => cases h
    next =>
      cases h
      exact ⟨Nat.lt_of_not_le hlimit, rfl⟩

end Process

namespace Wiring

def targets : Wiring → List Int
  | file _ _ onto => onto
  | merge source _ => [source]

def Feasible (p : Process) (w : World) : Wiring → Prop
  | file path mode onto =>
    (∃ opened, p.openPath w path mode = .ok opened) ∧
      ∀ target ∈ onto, Descriptors.valid target = true
  | merge source destination =>
    Descriptors.valid destination = true ∧ Descriptors.valid source = true ∧
      (p.descriptors.find? destination.toNat).isSome = true

structure Rebinds (targets : List Int) (p p' : Process) : Prop where
  rest : p' = { p with descriptors := p'.descriptors }
  others : ∀ fd : Nat, (fd : Int) ∉ targets →
    p'.descriptors.find? fd = p.descriptors.find? fd

theorem copyOnto_rest {fd : Int} {onto : List Int} (h : copyOnto fd onto p = .ok p') :
    p' = { p with descriptors := p'.descriptors } := by
  induction onto generalizing p with
  | nil =>
    cases h
    rfl
  | cons target rest ih =>
    simp only [copyOnto] at h
    split at h
    next => cases h
    next p₁ hcopy =>
      rw [ih h, Process.copy_rest hcopy]

/-- An open descriptor stays open while it is copied, so only the numbers of
the targets matter. -/
theorem exists_copyOnto_iff {fd id : Nat} {onto : List Int} (hfd : fd < Descriptors.limit)
    (hopen : p.descriptors.find? fd = some ⟨id, false⟩) :
    (∃ p', copyOnto fd onto p = .ok p') ↔ ∀ target ∈ onto, Descriptors.valid target = true := by
  induction onto generalizing p with
  | nil => simp [copyOnto]
  | cons target rest ih =>
    have hcopy : (∃ p₁, p.copy fd target = .ok p₁) ↔ Descriptors.valid target = true := by
      rw [Process.exists_copy_iff, Descriptors.exists_copy_iff, Int.toNat_natCast, hopen]
      simp [Descriptors.valid_of_lt hfd]
    rw [List.forall_mem_cons, ← hcopy]
    cases hc : p.copy fd target with
    | error e => simp [copyOnto, hc]
    | ok p₁ =>
      have hone : copyOnto fd [target] p = .ok p₁ := by simp [copyOnto, hc]
      have hopen₁ : p₁.descriptors.find? fd = some ⟨id, false⟩ := by
        rw [(copyOnto_find? hopen hone).2 fd, hopen, ite_self]
      simp [copyOnto, hc, ih hopen₁]

theorem exists_wire_iff (wiring : Wiring) (p : Process) (w : World) :
    (∃ p' w', wiring.wire p w = (.ok p', w')) ↔ wiring.Feasible p w := by
  cases wiring with
  | merge source destination =>
    rw [Feasible, ← Descriptors.exists_copy_iff, ← Process.exists_copy_iff]
    cases hc : p.copy destination source <;> simp [wire, hc]
  | file path mode onto =>
    rw [Feasible]
    cases ho : p.openPath w path mode with
    | error e => simp [wire, ho]
    | ok opened =>
      obtain ⟨fd, p₁, w₁⟩ := opened
      obtain ⟨_, _, id, _, hfind⟩ := openPath_descriptors ho
      have hopen : p₁.descriptors.find? fd = some ⟨id, false⟩ := by rw [hfind, if_pos rfl]
      rw [← exists_copyOnto_iff (Process.openPath_rest ho).1 hopen]
      cases hc : copyOnto fd onto p₁ <;> simp [wire, ho, hc]

theorem wire_rebinds {wiring : Wiring} (h : wiring.wire p w = (.ok p', w')) :
    Rebinds wiring.targets p p' := by
  cases wiring with
  | merge source destination =>
    simp only [wire] at h
    split at h
    next p₁ hcopy =>
      cases h
      refine ⟨Process.copy_rest hcopy, fun fd hfd => ?_⟩
      rw [(Process.copy_find? hcopy).2 fd, if_neg (by simpa [targets] using hfd)]
    next => cases h
  | file path mode onto =>
    obtain ⟨_, _, _, hfind⟩ := wire_file h
    refine ⟨?_, fun fd hfd => (hfind fd).trans (if_neg hfd)⟩
    simp only [wire] at h
    split at h
    next => cases h
    next fd p₁ w₁ hopen =>
      split at h
      next => cases h
      next p₂ hcopy =>
        have hrest : p₂ = { p with descriptors := p₂.descriptors } := by
          rw [copyOnto_rest hcopy, (Process.openPath_rest hopen).2]
        cases h
        split
        next => exact hrest
        next => rw [Process.close, hrest]

/-- A wiring is made exactly if it is feasible, and of the process only what
the targets stand for changes. The targets of a file all stand for an opening
that was not there before, on whichever descriptor the file was opened; the
target of a copy stands for what was copied. -/
theorem wire_rebinds_targets (wiring : Wiring) (p : Process) (w : World) :
    ((∃ p' w', wiring.wire p w = (.ok p', w')) ↔ wiring.Feasible p w) ∧
    ∀ p' w', wiring.wire p w = (.ok p', w') →
      Rebinds wiring.targets p p' ∧
      match wiring with
      | file path mode onto =>
        (∃ l, w.Opened p.directory path mode w' w.openings.length l) ∧
          ∀ fd : Nat, (fd : Int) ∈ onto →
            p'.descriptors.find? fd = some ⟨w.openings.length, false⟩
      | merge source destination =>
        w' = w ∧ p'.descriptors.find? source.toNat =
          (p.descriptors.find? destination.toNat).map fun slot =>
            if source = destination then slot else { slot with closeOnExec := false } := by
  refine ⟨exists_wire_iff wiring p w, fun p' w' h => ⟨wire_rebinds h, ?_⟩⟩
  cases wiring with
  | file path mode onto =>
    obtain ⟨_, id, hopen, hfind⟩ := wire_file h
    obtain ⟨l, hopened⟩ := World.openPath_opened hopen
    have hid : id = w.openings.length := hopened.fresh
    subst hid
    exact ⟨⟨l, hopened⟩, fun fd hfd => (hfind fd).trans (if_pos hfd)⟩
  | merge source destination =>
    have hvalid : Descriptors.valid source = true :=
      ((exists_wire_iff _ p w).mp ⟨p', w', h⟩).2.1
    have hsource : (source.toNat : Int) = source := by
      simp only [Descriptors.valid, Bool.and_eq_true, decide_eq_true_eq] at hvalid
      omega
    simp only [wire] at h
    split at h
    next p₁ hcopy =>
      cases h
      refine ⟨rfl, ?_⟩
      rw [(Process.copy_find? hcopy).2, hsource, if_pos rfl]
      by_cases he : source = destination
      · simp [he]
      · simp [he]
    next => cases h

/-- With descriptor 1 closed, a file for 1 and 2 is opened on 1, and stays
there. -/
theorem wire_rebinds_targets_opened_on_target :
    ((Console.process 1 []).close 1).descriptors.lowestFree = 1 ∧
    ∃ p' w', (file ['f'] .overwrite [1, 2]).wire ((Console.process 1 []).close 1)
        (Console.world ⟨[]⟩ []) = (.ok p', w') ∧
      p'.descriptors.find? 0 = some ⟨0, false⟩ ∧ p'.descriptors.find? 1 = some ⟨3, false⟩ ∧
      p'.descriptors.find? 2 = some ⟨3, false⟩ ∧ p'.descriptors.find? 3 = none := by
  obtain ⟨hiff, hall⟩ := wire_rebinds_targets (file ['f'] .overwrite [1, 2])
    ((Console.process 1 []).close 1) (Console.world ⟨[]⟩ [])
  have hopens : (((Console.process 1 []).close 1).openPath (Console.world ⟨[]⟩ []) ['f']
      .overwrite).isOk = true := by
    decide +kernel
  have hfeasible : (file ['f'] .overwrite [1, 2]).Feasible ((Console.process 1 []).close 1)
      (Console.world ⟨[]⟩ []) := by
    refine ⟨?_, by decide +kernel⟩
    cases ho : ((Console.process 1 []).close 1).openPath (Console.world ⟨[]⟩ []) ['f']
        .overwrite with
    | error e =>
      rw [ho] at hopens
      cases hopens
    | ok opened => exact ⟨opened, rfl⟩
  obtain ⟨p', w', h⟩ := hiff.mpr hfeasible
  obtain ⟨hrebinds, _, htargets⟩ := hall p' w' h
  exact ⟨by decide +kernel, p', w', h, (hrebinds.others 0 (by decide)).trans (by decide +kernel),
    htargets 1 (by decide), htargets 2 (by decide),
    (hrebinds.others 3 (by decide)).trans (by decide +kernel)⟩

end Wiring

end TinyShell
