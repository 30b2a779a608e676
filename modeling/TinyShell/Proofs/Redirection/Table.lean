import TinyShell.Shell.Wiring

/-!
# What a redirection does to the descriptors

A redirection binds the descriptors it names and leaves all others alone. The
file is opened on some descriptor that is free, and of that one nothing
remains, unless it happens to be one of those that are named.
-/

set_option autoImplicit false

namespace TinyShell

abbrev Table := Nat → Option Slot

namespace Redirection

def named (standard : Int) : Option Expression → Int
  | some (.value n) => if n = unspecified then standard else n
  | _ => standard

def onto : Redirection → List Int
  | overwrite fd _ => [named 1 fd]
  | append fd _ => [named 1 fd]
  | mergeOutput _ => [1, 2]
  | mergeAppend _ => [1, 2]
  | input _ => [0]
  | mergeStream source _ => [named 2 (some source)]

def mode? : Redirection → Option OpenMode
  | overwrite _ _ => some .overwrite
  | append _ _ => some .append
  | mergeOutput _ => some .overwrite
  | mergeAppend _ => some .append
  | input _ => some .read
  | mergeStream _ _ => none

def copied? : Redirection → Option Int
  | mergeStream _ destination => some (named 1 (some destination))
  | _ => none

def rebound (r : Redirection) (opening : Nat) (table : Table) : Table := fun fd =>
  if (fd : Int) ∈ r.onto then
    match r.copied? with
    | none => some ⟨opening, false⟩
    | some source =>
      if (fd : Int) = source then table fd
      else (table source.toNat).map fun slot => { slot with closeOnExec := false }
  else table fd

section Expanded

variable (f : Expression → Expression) (r : Redirection)

theorem onto_mapTarget : (r.mapTarget f).onto = r.onto := by cases r <;> rfl

theorem mode?_mapTarget : (r.mapTarget f).mode? = r.mode? := by cases r <;> rfl

theorem copied?_mapTarget : (r.mapTarget f).copied? = r.copied? := by cases r <;> rfl

theorem target?_mapTarget : (r.mapTarget f).target? = r.target?.map f := by cases r <;> rfl

end Expanded

end Redirection

namespace Wiring

theorem descriptor_named {standard n : Int} {fd : Option Expression}
    (h : descriptor standard fd = .ok n) : n = Redirection.named standard fd := by
  unfold descriptor at h
  split at h
  next =>
    cases h
    rfl
  next value =>
    rw [Redirection.named]
    by_cases hu : value = unspecified
    · rw [if_pos hu] at h
      cases h
      rw [if_pos hu]
    · rw [if_neg hu] at h
      split at h
      · cases h
        rw [if_neg hu]
      · cases h
  next => cases h

inductive Serves (r : Redirection) : Wiring → Prop
  | file {target : Expression} {mode : OpenMode} (ht : r.target? = some target)
      (hm : r.mode? = some mode) (hc : r.copied? = none) :
      Serves r (.file target.text mode r.onto)
  | merge {source destination : Int} (ho : r.onto = [source]) (hm : r.mode? = none)
      (hc : r.copied? = some destination) : Serves r (.merge source destination)

theorem output_serves {r : Redirection} {fd : Option Expression} {target : Expression}
    {mode : OpenMode} {wiring : Wiring} (h : output target.text mode fd = .ok wiring)
    (ho : r.onto = [Redirection.named standardOutput fd]) (ht : r.target? = some target)
    (hm : r.mode? = some mode) (hc : r.copied? = none) : Serves r wiring := by
  unfold output at h
  split at h
  next n hd =>
    cases h
    rw [descriptor_named hd, ← ho]
    exact .file ht hm hc
  next => cases h

theorem ofRedirection_serves {r : Redirection} {wiring : Wiring}
    (h : ofRedirection r = .ok wiring) : Serves r wiring := by
  cases r with
  | overwrite fd target => exact output_serves h rfl rfl rfl rfl
  | append fd target => exact output_serves h rfl rfl rfl rfl
  | mergeOutput target =>
    cases h
    exact .file rfl rfl rfl
  | mergeAppend target =>
    cases h
    exact .file rfl rfl rfl
  | input target =>
    cases h
    exact .file rfl rfl rfl
  | mergeStream source destination =>
    simp only [ofRedirection] at h
    split at h
    next => cases h
    next hs =>
      split at h
      next => cases h
      next hd =>
        cases h
        rw [descriptor_named hs, descriptor_named hd]
        exact .merge rfl rfl rfl

end Wiring

structure Process.Alongside (p p' : Process) : Prop where
  pid : p'.pid = p.pid
  directory : p'.directory = p.directory

theorem Process.Alongside.trans {p p' p'' : Process} (h : p.Alongside p')
    (h' : p'.Alongside p'') : p.Alongside p'' :=
  ⟨h'.pid.trans h.pid, h'.directory.trans h.directory⟩

namespace Process

theorem copy_find? {p p' : Process} {source target : Int} (h : p.copy source target = .ok p') :
    p.Alongside p' ∧ ∀ n : Nat, p'.descriptors.find? n =
      if (n : Int) = target then
        if (n : Int) = source then p.descriptors.find? n
        else (p.descriptors.find? source.toNat).map fun slot =>
          { slot with closeOnExec := false }
      else p.descriptors.find? n := by
  unfold copy at h
  split at h
  next => cases h
  next d hd =>
    cases h
    unfold Descriptors.copy at hd
    split at hd
    next => cases hd
    next hvalid =>
      split at hd
      next => cases hd
      next slot hslot =>
        refine ⟨⟨rfl, rfl⟩, fun n => ?_⟩
        have hrange : 0 ≤ target := by
          simp [Descriptors.valid] at hvalid
          omega
        by_cases hst : source = target
        · rw [if_pos hst] at hd
          cases hd
          subst hst
          by_cases hn : (n : Int) = source <;> simp [hn]
        · rw [if_neg hst] at hd
          cases hd
          rw [Descriptors.find?_set]
          by_cases hn : (n : Int) = target
          · have hns : (n : Int) ≠ source := fun hs => hst (hs.symm.trans hn)
            have hnat : n = target.toNat := by omega
            rw [if_pos hnat, if_pos hn, if_neg hns, hslot]
            rfl
          · have hnat : n ≠ target.toNat := by omega
            rw [if_neg hnat, if_neg hn]

end Process

namespace Wiring

theorem copyOnto_find? {p p' : Process} {fd id : Nat} {onto : List Int}
    (hfd : p.descriptors.find? fd = some ⟨id, false⟩) (h : copyOnto fd onto p = .ok p') :
    p.Alongside p' ∧ ∀ n : Nat, p'.descriptors.find? n =
      if (n : Int) ∈ onto then some ⟨id, false⟩ else p.descriptors.find? n := by
  induction onto generalizing p with
  | nil =>
    cases h
    exact ⟨⟨rfl, rfl⟩, fun n => by simp⟩
  | cons target rest ih =>
    simp only [copyOnto] at h
    split at h
    next => cases h
    next p₁ hcopy =>
      obtain ⟨halong, hfind⟩ := Process.copy_find? hcopy
      have copied (n : Nat) : p₁.descriptors.find? n =
          if (n : Int) = target then some ⟨id, false⟩ else p.descriptors.find? n := by
        rw [hfind n, Int.toNat_natCast, hfd]
        by_cases hn : (n : Int) = target
        · by_cases hs : (n : Int) = fd
          · have hnat : n = fd := by omega
            rw [if_pos hn, if_pos hn, if_pos hs, hnat, hfd]
          · rw [if_pos hn, if_pos hn, if_neg hs]
            rfl
        · rw [if_neg hn, if_neg hn]
      have hfd₁ : p₁.descriptors.find? fd = some ⟨id, false⟩ := by
        rw [copied fd, hfd]
        split <;> rfl
      obtain ⟨halong', hrest⟩ := ih hfd₁ h
      refine ⟨halong.trans halong', fun n => ?_⟩
      rw [hrest n, copied n]
      by_cases hm : (n : Int) ∈ rest <;> by_cases hn : (n : Int) = target <;> simp [hm, hn]

theorem openPath_descriptors {p p' : Process} {w w' : World} {path : Text} {mode : OpenMode}
    {fd : Nat} (h : p.openPath w path mode = .ok (fd, p', w')) :
    fd = p.descriptors.lowestFree ∧ p.Alongside p' ∧
      ∃ id, w.openPath p.directory path mode = .ok (w', id) ∧
        ∀ n : Nat, p'.descriptors.find? n =
          if n = fd then some ⟨id, false⟩ else p.descriptors.find? n := by
  unfold Process.openPath at h
  simp only at h
  split at h
  next => cases h
  next =>
    split at h
    next => cases h
    next w₁ id hopen =>
      cases h
      exact ⟨rfl, ⟨rfl, rfl⟩, id, hopen, fun n => Descriptors.find?_set _ _ _ _⟩

theorem wire_file {p p' : Process} {w w' : World} {path : Text} {mode : OpenMode}
    {onto : List Int} (h : (file path mode onto).wire p w = (.ok p', w')) :
    p.Alongside p' ∧ ∃ id, w.openPath p.directory path mode = .ok (w', id) ∧
      ∀ n : Nat, p'.descriptors.find? n =
        if (n : Int) ∈ onto then some ⟨id, false⟩ else p.descriptors.find? n := by
  simp only [wire] at h
  split at h
  next => cases h
  next fd p₁ w₁ hopen =>
    obtain ⟨hfd, halong, id, hworld, hfind⟩ := openPath_descriptors hopen
    split at h
    next => cases h
    next p₂ hcopy =>
      have hid : p₁.descriptors.find? fd = some ⟨id, false⟩ := by rw [hfind, if_pos rfl]
      obtain ⟨halong', honto⟩ := copyOnto_find? hid hcopy
      cases h
      by_cases hc : onto.contains (fd : Int) = true
      · have hmem : (fd : Int) ∈ onto := by simpa using hc
        rw [if_pos hc]
        refine ⟨halong.trans halong', id, hworld, fun n => ?_⟩
        rw [honto n, hfind n]
        by_cases hn : n = fd
        · simp [hn, hmem]
        · rw [if_neg hn]
      · have hmem : (fd : Int) ∉ onto := by simpa using hc
        rw [if_neg hc]
        refine ⟨halong.trans (halong'.trans ⟨rfl, rfl⟩), id, hworld, fun n => ?_⟩
        have hfree : p.descriptors.find? fd = none := by
          rw [hfd]
          exact Descriptors.find?_lowestFree _
        rw [Process.close, Descriptors.find?_set, honto n, hfind n]
        by_cases hn : n = fd
        · simp [hn, hmem, hfree]
        · rw [if_neg hn, if_neg hn]

theorem wire_rebound {r : Redirection} {wiring : Wiring} {p p' : Process} {w w' : World}
    (hs : Serves r wiring) (h : wiring.wire p w = (.ok p', w')) :
    p.Alongside p' ∧
      ∃ id, p'.descriptors.find? = r.rebound id p.descriptors.find? ∧
        match wiring with
        | file path mode _ => w.openPath p.directory path mode = .ok (w', id)
        | merge _ _ => w' = w := by
  cases hs with
  | file ht hm hc =>
    obtain ⟨halong, id, hopen, hfind⟩ := wire_file h
    refine ⟨halong, id, funext fun n => ?_, hopen⟩
    rw [hfind n, Redirection.rebound, hc]
  | @merge source destination ho hm hc =>
    simp only [wire] at h
    split at h
    next p₁ hcopy =>
      cases h
      obtain ⟨halong, hfind⟩ := Process.copy_find? hcopy
      refine ⟨halong, 0, funext fun n => ?_, rfl⟩
      rw [hfind n, Redirection.rebound, hc, ho]
      simp only [List.mem_singleton]
    next => cases h

end Wiring

end TinyShell
