import TinyShell.Proofs.Redirection.Table

/-!
# What a redirection does to the files

Checking and opening files makes missing ones and empties some. Nothing else
changes, so that a path leads where it led before, and a path that has been
opened leads to the file that was.
-/

set_option autoImplicit false

namespace TinyShell

namespace Tree

def Grows (t t' : Tree) : Prop := ∀ l node, t.find? l = some node →
  t'.find? l = some node ∨
    ∃ bits content, node = .file bits content ∧ t'.find? l = some (.file bits [])

def KeepsAt (l : Location) (t t' : Tree) : Prop :=
  ∀ node, t.find? l = some node → t'.find? l = some node

variable {t t' t'' : Tree} {l l' : Location}

theorem Grows.refl (t : Tree) : t.Grows t := fun _ _ h => .inl h

theorem Grows.trans (h : t.Grows t') (h' : t'.Grows t'') : t.Grows t'' := by
  intro l node hn
  rcases h l node hn with hk | ⟨bits, content, rfl, hk⟩
  · exact h' l node hk
  · rcases h' l _ hk with hk' | ⟨_, _, heq, hk'⟩
    · exact .inr ⟨bits, content, rfl, hk'⟩
    · cases heq
      exact .inr ⟨bits, content, rfl, hk'⟩

theorem Grows.isSome (h : t.Grows t') (hs : (t.find? l).isSome = true) :
    (t'.find? l).isSome = true := by
  obtain ⟨node, hn⟩ := Option.isSome_iff_exists.mp hs
  rcases h l node hn with hk | ⟨_, _, _, hk⟩ <;> simp [hk]

theorem find?_of_isDirectory (h : t.isDirectory l = true) : t.find? l = some .directory := by
  unfold isDirectory at h
  cases hf : t.find? l with
  | none => simp [hf] at h
  | some node =>
    rw [hf] at h
    cases node with
    | directory => rfl
    | file => cases h
    | program => cases h

theorem Grows.isDirectory (h : t.Grows t') (hd : t.isDirectory l = true) :
    t'.isDirectory l = true := by
  rcases h l _ (find?_of_isDirectory hd) with hk | ⟨_, _, heq, _⟩
  · simp [Tree.isDirectory, hk, Node.isDirectory]
  · cases heq

theorem Grows.file {bits : Nat} {content : Bytes} (h : t.Grows t')
    (hf : t.find? l = some (.file bits content)) :
    ∃ content', t'.find? l = some (.file bits content') ∧ (content = [] → content' = []) := by
  rcases h l _ hf with hk | ⟨_, _, heq, hk⟩
  · exact ⟨content, hk, id⟩
  · cases heq
    exact ⟨[], hk, fun _ => rfl⟩

theorem step_grows {name : Text} (h : t.Grows t') (hs : t.step l name = .ok l') :
    t'.step l name = .ok l' := by
  unfold step at hs ⊢
  split at hs
  next => cases hs
  next hd =>
    have hd' : t'.isDirectory l = true := h.isDirectory (by simpa using hd)
    rw [if_neg (by simp [hd'])]
    split at hs
    next hh => rw [if_pos hh, hs]
    next hh =>
      rw [if_neg hh]
      split at hs
      next ha => rw [if_pos ha, hs]
      next ha =>
        rw [if_neg ha]
        split at hs
        next => cases hs
        next hl =>
          rw [if_neg hl]
          split at hs
          next hf => rw [if_pos (h.isSome hf), hs]
          next => cases hs

theorem walk_grows {names : List Text} (h : t.Grows t') (hw : t.walk l names = .ok l') :
    t'.walk l names = .ok l' := by
  induction names generalizing l with
  | nil => exact hw
  | cons name rest ih =>
    simp only [walk] at hw ⊢
    split at hw
    next next hs =>
      rw [step_grows h hs]
      exact ih hw
    next => cases hw

theorem walk_append {names : List Text} (hw : t.walk l names = .ok l') (others : List Text) :
    t.walk l (names ++ others) = t.walk l' others := by
  induction names generalizing l with
  | nil =>
    cases hw
    rfl
  | cons name rest ih =>
    simp only [walk] at hw
    split at hw
    next next hs =>
      rw [List.cons_append, walk, hs]
      exact ih hw
    next => cases hw

theorem locate_ok {directory : Location} {path : Text} (h : t.locate directory path = .ok l) :
    Path.check path = .ok () ∧ t.walk (Path.start directory path) (Path.names path) = .ok l ∧
      (Path.endsWithSlash path = true → t.isDirectory l = true) := by
  unfold locate at h
  split at h
  next => cases h
  next hc =>
    split at h
    next => cases h
    next hw =>
      split at h
      next => cases h
      next hs =>
        cases h
        exact ⟨hc, hw, fun hslash => by simpa [hslash] using hs⟩

theorem locate_grows {directory : Location} {path : Text} (h : t.Grows t')
    (hl : t.locate directory path = .ok l) : t'.locate directory path = .ok l := by
  obtain ⟨hc, hw, hslash⟩ := locate_ok hl
  have hd : ¬ (Path.endsWithSlash path && !t'.isDirectory l) = true := by
    intro hn
    simp only [Bool.and_eq_true, Bool.not_eq_true'] at hn
    rw [h.isDirectory (hslash hn.1)] at hn
    cases hn.2
  simp only [locate, hc, walk_grows h hw, if_neg hd]

structure Places (t : Tree) (directory : Location) (path : Text) (l : Location) : Prop where
  ne_nil : l ≠ []
  vacant : t.find? l = none ∨ ∃ bits content, t.find? l = some (.file bits content)
  located : ∀ t', t.Grows t' → (t'.find? l).isSome = true → t'.locate directory path = .ok l

theorem placeName_ok {name : Text} {slash : Bool} (h : t.placeName l name slash = .ok l') :
    t.isDirectory l = true ∧ slash = false ∧ ¬ Path.longestName < Utf8.size name ∧
      l' = l ++ [name] ∧
      (t.find? l' = none ∨ ∃ bits content, t.find? l' = some (.file bits content)) := by
  unfold placeName at h
  split at h
  next => cases h
  next hd =>
    split at h
    next => cases h
    next hs =>
      split at h
      next => cases h
      next hn =>
        split at h
        next => cases h
        next => cases h
        next hfree hprogram =>
          cases h
          refine ⟨by simpa using hd, by simpa using hs, hn, rfl, ?_⟩
          cases hf : t.find? (l ++ [name]) with
          | none => exact .inl rfl
          | some node =>
            cases node with
            | directory => exact absurd hf hfree
            | file bits content => exact .inr ⟨bits, content, rfl⟩
            | program p => exact absurd hf (hprogram p)

theorem place_ok {directory : Location} {path : Text} (h : t.place directory path = .ok l) :
    t.Places directory path l := by
  unfold place at h
  split at h
  next => cases h
  next hc =>
    simp only at h
    split at h
    next => cases h
    next name hlast =>
      split at h
      next => split at h <;> cases h
      next hname =>
        split at h
        next => cases h
        next parent hw =>
          obtain ⟨hd, hs, hn, rfl, hvacant⟩ := placeName_ok h
          refine ⟨by simp, hvacant, fun t' hg hf => ?_⟩
          have hnames : Path.names path = (Path.names path).dropLast ++ [name] := by
            have hne : Path.names path ≠ [] := by
              intro hnil
              simp [hnil] at hlast
            have hget : (Path.names path).getLast hne = name := by
              rw [List.getLast?_eq_some_getLast hne] at hlast
              exact Option.some.inj hlast
            rw [← hget, List.dropLast_concat_getLast hne]
          have hstep : t'.step parent name = .ok (parent ++ [name]) := by
            unfold step
            rw [if_neg (by simp [hg.isDirectory hd]), if_neg (fun he => hname (.inl he)),
              if_neg (fun he => hname (.inr he)), if_neg hn, if_pos hf]
          have hwalk : t'.walk (Path.start directory path) (Path.names path) =
              .ok (parent ++ [name]) := by
            rw [hnames, walk_append (walk_grows hg hw), walk, hstep]
            rfl
          simp only [locate, hc, hwalk, hs, Bool.false_and, Bool.false_eq_true, if_false]

end Tree

namespace World

structure Grows (w w' : World) : Prop where
  tree : w.tree.Grows w'.tree
  openings : ∃ more, w'.openings = w.openings ++ more

variable {w w' w'' : World}

theorem Grows.refl (w : World) : w.Grows w := ⟨.refl _, [], by simp⟩

theorem Grows.trans (h : w.Grows w') (h' : w'.Grows w'') : w.Grows w'' := by
  obtain ⟨more, hm⟩ := h.openings
  obtain ⟨others, ho⟩ := h'.openings
  exact ⟨h.tree.trans h'.tree, more ++ others, by rw [ho, hm, List.append_assoc]⟩

theorem Grows.length (h : w.Grows w') : w.openings.length ≤ w'.openings.length := by
  obtain ⟨more, hm⟩ := h.openings
  rw [hm, List.length_append]
  exact Nat.le_add_right _ _

theorem Grows.opening {id : Nat} {opening : Opening} (h : w.Grows w')
    (ho : w.openings[id]? = some opening) : w'.openings[id]? = some opening := by
  obtain ⟨more, hm⟩ := h.openings
  have hlt : id < w.openings.length := (List.getElem?_eq_some_iff.mp ho).1
  rw [hm, List.getElem?_append_left hlt]
  exact ho

section Prepared

variable {t : Tree} {l : Location} {mode : OpenMode} {bits : Nat}

theorem prepared_of_ne {l' : Location} (h : l ≠ l') :
    (prepared t l mode bits).find? l' = t.find? l' := by
  unfold prepared
  split
  next =>
    split
    next => exact Tree.find?_put_of_ne t _ h
    next => rfl
  next => exact Tree.find?_put_of_ne t _ h

/-- A file that is opened for writing is there, and empty if it is written
anew. -/
theorem prepared_self (hl : l ≠ []) :
    ∃ mode' content, (prepared t l mode bits).find? l = some (.file mode' content) ∧
      (mode = .overwrite → content = []) := by
  unfold prepared
  split
  next old content hf =>
    by_cases hm : mode = .overwrite
    · rw [if_pos hm]
      exact ⟨old, [], Tree.find?_put_self t l _ hl, fun _ => rfl⟩
    · rw [if_neg hm]
      exact ⟨old, content, hf, fun h => absurd h hm⟩
  next => exact ⟨bits, [], Tree.find?_put_self t l _ hl, fun _ => rfl⟩

theorem prepared_grows (hl : l ≠ [])
    (hv : t.find? l = none ∨ ∃ mode' content, t.find? l = some (.file mode' content)) :
    t.Grows (prepared t l mode bits) := by
  intro l' node hn
  by_cases he : l = l'
  · subst he
    rcases hv with hv | ⟨old, content, hv⟩
    · rw [hv] at hn
      cases hn
    · rw [hv] at hn
      cases hn
      unfold prepared
      rw [hv]
      by_cases hm : mode = .overwrite
      · simp only [hm, if_true]
        exact .inr ⟨old, content, rfl, Tree.find?_put_self t l _ hl⟩
      · simp only [hm, if_false]
        exact .inl hv
  · rw [prepared_of_ne he]
    exact .inl hn

theorem prepared_located {directory : Location} {path : Text} (h : t.Places directory path l) :
    (prepared t l mode bits).locate directory path = .ok l := by
  obtain ⟨bits, content, hf, _⟩ := @prepared_self t l mode bits h.ne_nil
  exact h.located _ (prepared_grows h.ne_nil h.vacant) (by simp [hf])

theorem prepared_keepsAt {l' : Location}
    (hv : t.find? l = none ∨ ∃ mode' content, t.find? l = some (.file mode' content))
    (hm : mode = .overwrite → l ≠ l') : Tree.KeepsAt l' t (prepared t l mode bits) := by
  intro node hn
  by_cases he : l = l'
  · subst he
    have hm' : mode ≠ .overwrite := fun h => hm h rfl
    rcases hv with hv | ⟨bits, content, hv⟩
    · rw [hv] at hn
      cases hn
    · rw [hv] at hn
      cases hn
      simp only [prepared, hv, hm', if_false]
  · rw [prepared_of_ne he]
    exact hn

end Prepared

structure Opened (w : World) (directory : Location) (path : Text) (mode : OpenMode)
    (w' : World) (id : Nat) (l : Location) : Prop where
  grows : w.Grows w'
  fresh : id = w.openings.length
  opening : w'.openings[id]? =
    some ⟨.file l, 0, mode == .read, mode != .read, mode == .append, none⟩
  located : w'.tree.locate directory path = .ok l
  written : mode ≠ .read → ∃ bits content, w'.tree.find? l = some (.file bits content) ∧
    (mode = .overwrite → content = [])
  kept : ∀ l', (mode = .overwrite → l ≠ l') → Tree.KeepsAt l' w.tree w'.tree

theorem openPath_opened {directory : Location} {path : Text} {mode : OpenMode} {id : Nat}
    (h : w.openPath directory path mode = .ok (w', id)) :
    ∃ l, w.Opened directory path mode w' id l := by
  unfold openPath at h
  split at h
  next hm =>
    split at h
    next => cases h
    next l hl =>
      split at h
      next => cases h
      next =>
        cases h
        exact ⟨l, ⟨.refl _, _, rfl⟩, rfl, by simp, hl, fun hr => absurd hm hr,
          fun _ _ _ hn => hn⟩
  next hm =>
    split at h
    next => cases h
    next l hl =>
      split at h
      next => cases h
      next =>
        have hplaces := Tree.place_ok hl
        cases h
        exact ⟨l, ⟨prepared_grows hplaces.ne_nil hplaces.vacant, _, rfl⟩, rfl, by simp [prepare],
          prepared_located hplaces, fun _ => prepared_self hplaces.ne_nil,
          fun _ => prepared_keepsAt hplaces.vacant⟩

end World

namespace Wiring

variable {path : Text} {mode : OpenMode} {asked : Permission} {p : Process} {w w' : World}

def Made (path : Text) (p : Process) (w w' : World) : Prop :=
  w.access p.directory path none ≠ .ok () ∧
    ∃ fd p', p.openPath w path .create = .ok (fd, p', w')

theorem present_ok (h : present path p w = .ok w') : w' = w ∨ Made path p w w' := by
  unfold present at h
  split at h
  next =>
    cases h
    exact .inl rfl
  next hn =>
    cases ho : p.openPath w path .create with
    | error e =>
      rw [ho] at h
      cases h
    | ok opened =>
      rw [ho] at h
      cases h
      exact .inr ⟨by simp [hn], _, _, ho⟩

theorem permitted_ok :
    permitted asked path p w = .ok w' ↔
      w.access p.directory path (some asked) = .ok () ∧ w' = w := by
  unfold permitted
  cases w.access p.directory path (some asked) with
  | ok => simp [eq_comm]
  | error e => simp

theorem permitted_error {e : Errno} :
    permitted asked path p w = .error (e, w') ↔
      w.access p.directory path (some asked) = .error e ∧ w' = w := by
  unfold permitted
  cases w.access p.directory path (some asked) with
  | ok => simp
  | error e' => simp [eq_comm]

theorem verifyFile_made
    (h : verifyFile path mode p w = .ok w' ∨ ∃ e, verifyFile path mode p w = .error (e, w')) :
    w' = w ∨ Made path p w w' := by
  unfold verifyFile at h
  split at h
  next =>
    rcases h with h | ⟨e, h⟩
    · exact .inl (permitted_ok.mp h).2
    · exact .inl (permitted_error.mp h).2
  next =>
    split at h
    next made hmade =>
      rcases h with h | ⟨e, h⟩
      · obtain ⟨_, rfl⟩ := permitted_ok.mp h
        exact present_ok hmade
      · obtain ⟨_, rfl⟩ := permitted_error.mp h
        exact present_ok hmade
    next =>
      rcases h with h | ⟨e, h⟩
      · cases h
      · cases h
        exact .inl rfl

theorem Made.opened (h : Made path p w w') :
    ∃ id l, w.Opened p.directory path .create w' id l := by
  obtain ⟨_, fd, p', hopen⟩ := h
  obtain ⟨_, _, id, hworld, _⟩ := openPath_descriptors hopen
  exact ⟨id, World.openPath_opened hworld⟩

theorem verifyFile_grows (h : verifyFile path mode p w = .ok w') :
    w.Grows w' ∧ ∀ l, Tree.KeepsAt l w.tree w'.tree := by
  rcases verifyFile_made (.inl h) with rfl | hmade
  · exact ⟨.refl _, fun _ _ hn => hn⟩
  · obtain ⟨id, l, hl⟩ := hmade.opened
    exact ⟨hl.grows, fun l' => hl.kept l' (by simp)⟩

theorem verify_grows {wiring : Wiring}
    (h : wiring.verify p w = .ok w') :
    w.Grows w' ∧ ∀ l, Tree.KeepsAt l w.tree w'.tree := by
  cases wiring with
  | merge source destination =>
    cases h
    exact ⟨.refl _, fun _ _ hn => hn⟩
  | file path mode onto =>
    simp only [verify] at h
    split at h
    next hv =>
      cases h
      exact verifyFile_grows hv
    next => cases h

end Wiring

end TinyShell
