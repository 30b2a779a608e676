import TinyShell.Statement.Operator

/-!
# What the decoders of operators accept

An output operator is digits and one arrow or two, a merge has digits on both
sides, and nothing else is accepted. Of the texts that have this form, those
with a number that is too large are refused.
-/

set_option autoImplicit false

namespace TinyShell

namespace Operator

inductive Names : Text → Option Nat → Prop
  | nothing : Names [] none
  | number {digits : Text} (hn : digits ≠ []) (hd : ∀ d ∈ digits, d.isDigit = true)
      (hv : Text.value digits ≤ largest) : Names digits (some (Text.value digits))

example : largest = 9223372036854775807 := rfl

def arrows (append : Bool) : Text := if append then ['>', '>'] else ['>']

def Stops (rest : Text) : Prop := ∀ c others, rest = c :: others → c.isDigit = false

variable {text digits rest source target : Text} {c : Char} {fd : Option Nat} {append : Bool}

theorem stops_nil : Stops [] := nofun

theorem stops_cons (h : c.isDigit = false) : Stops (c :: rest) := by
  rintro _ _ ⟨⟩
  exact h

theorem arrows_stop (append : Bool) : Stops (arrows append) := by
  cases append <;> exact stops_cons rfl

theorem Names.isDigit (h : Names digits fd) : ∀ d ∈ digits, d.isDigit = true := by
  cases h with
  | nothing => nofun
  | number _ hd _ => exact hd

theorem names_of_le (hd : ∀ d ∈ digits, d.isDigit = true) (hv : Text.value digits ≤ largest) :
    ∃ fd, Names digits fd := by
  by_cases hn : digits = []
  · subst hn
    exact ⟨none, .nothing⟩
  · exact ⟨_, .number hn hd hv⟩

theorem descriptor?_append (hd : ∀ d ∈ digits, d.isDigit = true)
    (hr : Stops rest) :
    descriptor? (digits ++ rest) =
      if digits = [] then some (none, rest)
      else if Text.value digits ≤ largest then some (some (Text.value digits), rest)
      else none := by
  have hrest : rest.takeWhile Char.isDigit = [] ∧ rest.dropWhile Char.isDigit = rest := by
    cases rest with
    | nil => exact ⟨rfl, rfl⟩
    | cons c others => simp [hr c others rfl]
  rw [descriptor?, List.takeWhile_append_of_pos hd, List.dropWhile_append_of_pos hd, hrest.1,
    hrest.2, List.append_nil]
  simp only [List.isEmpty_iff]

theorem descriptor?_eq_some : descriptor? text = some (fd, rest) ↔
    ∃ digits, Names digits fd ∧ text = digits ++ rest ∧ Stops rest := by
  constructor
  · intro h
    have hd : ∀ d ∈ text.takeWhile Char.isDigit, d.isDigit = true :=
      List.all_eq_true.mp List.all_takeWhile
    have hr : Stops (text.dropWhile Char.isDigit) := by
      intro c others h
      have hhead := List.head?_dropWhile_not Char.isDigit text
      rw [h] at hhead
      simpa using hhead
    rw [← @List.takeWhile_append_dropWhile _ Char.isDigit text, descriptor?_append hd hr] at h
    refine ⟨text.takeWhile Char.isDigit, ?_⟩
    split at h
    next hn =>
      cases h
      exact ⟨by rw [hn]; exact .nothing, List.takeWhile_append_dropWhile.symm, hr⟩
    next hn =>
      split at h
      next hv =>
        cases h
        exact ⟨.number hn hd hv, List.takeWhile_append_dropWhile.symm, hr⟩
      next => cases h
  · rintro ⟨digits, hn, rfl, hr⟩
    rw [descriptor?_append hn.isDigit hr]
    cases hn with
    | nothing => rfl
    | number hn _ hv => rw [if_neg hn, if_pos hv]

/-- If the digits go on to something else, then only a number that is too large
is not read. -/
theorem descriptor?_eq_none (hd : ∀ d ∈ digits, d.isDigit = true)
    (hr : Stops rest) :
    descriptor? (digits ++ rest) = none ↔ largest < Text.value digits := by
  rw [descriptor?_append hd hr]
  by_cases hn : digits = []
  · subst hn
    simp [Text.value]
  · rw [if_neg hn]
    split <;> simp <;> omega

/-- An output operator is accepted if it is digits and one arrow or two. -/
theorem output?_eq_some : output? text = some (fd, append) ↔
    ∃ digits, Names digits fd ∧ text = digits ++ arrows append := by
  constructor
  · intro h
    unfold output? at h
    split at h
    next hfd =>
      cases h
      obtain ⟨digits, hn, heq, _⟩ := descriptor?_eq_some.mp hfd
      exact ⟨digits, hn, heq⟩
    next hfd =>
      cases h
      obtain ⟨digits, hn, heq, _⟩ := descriptor?_eq_some.mp hfd
      exact ⟨digits, hn, heq⟩
    next => cases h
  · rintro ⟨digits, hn, heq⟩
    rw [output?, descriptor?_eq_some.mpr ⟨digits, hn, heq, arrows_stop append⟩]
    cases append <;> rfl

theorem output?_eq_none (hd : ∀ d ∈ digits, d.isDigit = true) :
    output? (digits ++ arrows append) = none ↔ largest < Text.value digits := by
  constructor
  · intro h
    rw [← Nat.not_le]
    intro hv
    obtain ⟨fd, hn⟩ := names_of_le hd hv
    rw [output?_eq_some.mpr ⟨digits, hn, rfl⟩] at h
    cases h
  · intro hv
    rw [output?, (descriptor?_eq_none hd (arrows_stop append)).mpr hv]

/-- A merge is accepted if it is an arrow and an ampersand between digits. -/
theorem merge?_eq_some {a b : Option Nat} : merge? text = some (a, b) ↔
    ∃ before after, Names before a ∧ Names after b ∧ text = before ++ '>' :: '&' :: after := by
  constructor
  · intro h
    unfold merge? at h
    split at h
    next source rest hsource =>
      split at h
      next destination hdestination =>
        cases h
        obtain ⟨before, hb, htext, _⟩ := descriptor?_eq_some.mp hsource
        obtain ⟨after, ha, hrest, _⟩ := descriptor?_eq_some.mp hdestination
        rw [List.append_nil] at hrest
        subst hrest
        exact ⟨before, _, hb, ha, htext⟩
      next => cases h
    next => cases h
  · rintro ⟨before, after, hb, ha, rfl⟩
    have hsource : descriptor? (before ++ '>' :: '&' :: after) = some (a, '>' :: '&' :: after) :=
      descriptor?_eq_some.mpr ⟨before, hb, rfl, stops_cons rfl⟩
    have hdestination : descriptor? after = some (b, []) :=
      descriptor?_eq_some.mpr ⟨after, ha, by simp, stops_nil⟩
    simp only [merge?, hsource, hdestination]

theorem merge?_eq_none (hs : ∀ d ∈ source, d.isDigit = true) (ht : ∀ d ∈ target, d.isDigit = true) :
    merge? (source ++ '>' :: '&' :: target) = none ↔
      largest < Text.value source ∨ largest < Text.value target := by
  have hstop : Stops ('>' :: '&' :: target) := stops_cons rfl
  constructor
  · intro h
    refine Decidable.byContradiction fun hv => ?_
    obtain ⟨hvs, hvt⟩ := not_or.mp hv
    rw [Nat.not_lt] at hvs hvt
    obtain ⟨a, ha⟩ := names_of_le hs hvs
    obtain ⟨b, hb⟩ := names_of_le ht hvt
    rw [merge?_eq_some.mpr ⟨source, target, ha, hb, rfl⟩] at h
    cases h
  · intro hv
    by_cases hvs : largest < Text.value source
    · simp only [merge?, (descriptor?_eq_none hs hstop).mpr hvs]
    · obtain ⟨a, ha⟩ := names_of_le hs (Nat.le_of_not_lt hvs)
      have hsource := descriptor?_eq_some.mpr ⟨source, ha, rfl, hstop⟩
      have htarget : descriptor? target = none := by
        have := (@descriptor?_eq_none target [] ht stops_nil).mpr (hv.resolve_left hvs)
        rwa [List.append_nil] at this
      simp only [merge?, hsource, htarget]

end Operator

end TinyShell
