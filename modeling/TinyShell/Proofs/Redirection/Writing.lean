import TinyShell.Shell.State

/-!
# What a write changes

A write goes to the file that a descriptor leads to. No other file is changed by
it, and no opening leads anywhere else afterwards. What a file is given that is
written at its end is as much as its limit leaves room for.
-/

set_option autoImplicit false

namespace TinyShell

namespace World

def channels (w : World) : List Channel := w.openings.map Opening.channel

/-- A write changes the file that the opening leads to, and no opening leads
anywhere else afterwards. -/
theorem writeOpening_frame (w : World) (id : Nat) (bytes : Bytes) :
    (w.writeOpening id bytes).2.channels = w.channels ∧
      ∀ l, w.channels[id]? ≠ some (.file l) →
        (w.writeOpening id bytes).2.tree.find? l = w.tree.find? l := by
  have kept {w' : World} {opening opening' : Opening} (ho : w.openings[id]? = some opening)
      (hw : w'.openings = w.openings) (hc : opening'.channel = opening.channel) :
      (w'.setOpening id opening').channels = w.channels := by
    obtain ⟨hid, hget⟩ := List.getElem?_eq_some_iff.mp ho
    have hchannel : w.channels[id]? = some opening.channel := by
      rw [channels, List.getElem?_map, ho]
      rfl
    obtain ⟨hid, hget⟩ := List.getElem?_eq_some_iff.mp hchannel
    show (w'.openings.set id opening').map Opening.channel = w.channels
    rw [hw, List.map_set, hc, ← hget]
    exact List.set_getElem_self hid
  simp only [writeOpening]
  split
  next => exact ⟨rfl, fun _ _ => rfl⟩
  next opening ho =>
    split
    next => exact ⟨rfl, fun _ _ => rfl⟩
    next =>
      split
      next => exact ⟨kept ho rfl rfl, fun _ _ => rfl⟩
      next l hl =>
        split
        next bits content hf =>
          refine ⟨kept ho rfl rfl, fun l' hne => Tree.find?_put_of_ne _ _ ?_⟩
          rintro rfl
          apply hne
          rw [channels, List.getElem?_map, ho]
          exact congrArg some hl
        next => exact ⟨rfl, fun _ _ => rfl⟩

theorem splice_length (content bytes : Bytes) :
    splice content content.length bytes = content ++ bytes := by
  cases bytes with
  | nil => simp [splice]
  | cons byte bytes => simp [splice]

end World

namespace Process

def channel? (p : Process) (w : World) (fd : Nat) : Option Channel :=
  (p.opening? fd).bind fun id => w.channels[id]?

def Appends (p : Process) (w : World) (fd : Nat) (l : Location) (limit : Option (Limit Errno)) :
    Prop :=
  ∃ id opening, p.opening? fd = some id ∧ w.openings[id]? = some opening ∧
    opening.channel = .file l ∧ opening.writable = true ∧ opening.appends = true ∧
    opening.limit = limit

variable {p : Process} {w : World} {fd : Nat} {bytes : Bytes}

theorem say_frame :
    (p.say w fd bytes).channels = w.channels ∧
      ∀ l, p.channel? w fd ≠ some (.file l) →
        (p.say w fd bytes).tree.find? l = w.tree.find? l := by
  simp only [say, write]
  split
  next => exact ⟨rfl, fun _ _ => rfl⟩
  next id hid =>
    obtain ⟨hchannels, hfiles⟩ := w.writeOpening_frame id bytes
    refine ⟨hchannels, fun l hl => hfiles l ?_⟩
    rw [channel?, hid] at hl
    exact hl

theorem say_appends {l : Location} {bits : Nat} {content : Bytes} {limit : Option (Limit Errno)}
    (h : p.Appends w fd l limit) (hf : w.tree.find? l = some (.file bits content)) :
    (p.say w fd bytes).tree.find? l =
      some (.file bits (content ++ Limit.cut limit bytes)) := by
  obtain ⟨id, opening, hid, ho, hc, hw, ha, hl⟩ := h
  have hroot : l ≠ [] := by
    rintro rfl
    cases hf
  simp only [say, write, hid, World.writeOpening, ho, hw, hc, hf, ha, hl]
  simp only [Bool.not_true, Bool.false_eq_true, if_false, if_true,
    World.splice_length]
  exact Tree.find?_put_self _ _ _ hroot

end Process

end TinyShell
