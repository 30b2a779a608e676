import TinyShell.Machine.Console
import TinyShell.Proofs.Grammar.Derivation
import TinyShell.Proofs.Redirection.Files
import TinyShell.Shell.Evaluation

/-!
# Chains of redirections

Each redirection of a chain wraps what stands to its left, so the last one is
done first, by the shell itself, and each other one by a child of the one to
its right. The operand runs in the innermost child, once, with its descriptors
bound in that order: of two redirections that name a descriptor, the left one
has the last word, but the files of both have been made.
-/

set_option autoImplicit false

namespace TinyShell

def Redirection.chained (operand : Option Statement) (rs : List Redirection) :
    Option Statement :=
  rs.foldl (fun left r => some (r.around left)) operand

def Redirection.Written : List Redirection → List Token → Prop
  | [], ts => ts = []
  | r :: rs, ts => ∃ us vs, ts = us ++ vs ∧ Grammar.Redirects us r ∧ Written rs vs

def Statement.Written : Option Statement → List Token → Prop
  | none, ts => ts = []
  | some t, ts => Grammar.Derives .operand ts t

namespace Redirection

theorem derives_chained_some {t tree : Statement} {ts us : List Token} {rs : List Redirection}
    (h : Grammar.Derives .chain ts t) (hw : Written rs us) (hc : chained (some t) rs = some tree) :
    Grammar.Derives .chain (ts ++ us) tree := by
  induction rs generalizing t ts us with
  | nil =>
    obtain rfl : us = [] := hw
    cases hc
    simpa using h
  | cons r rs ih =>
    obtain ⟨vs, ws, rfl, hr, hw⟩ := hw
    rw [← List.append_assoc]
    exact ih (.redirect h hr) hw hc

/-- The redirections stand in the tree in the order in which they are written,
the first one innermost. -/
theorem derives_chained {operand : Option Statement} {tree : Statement} {ts us : List Token}
    {rs : List Redirection} (h : Statement.Written operand ts) (hw : Written rs us)
    (hc : chained operand rs = some tree) : Grammar.Derives .chain (ts ++ us) tree := by
  cases operand with
  | some t => exact derives_chained_some (.plain h) hw hc
  | none =>
    obtain rfl : ts = [] := h
    cases rs with
    | nil => cases hc
    | cons r rs =>
      obtain ⟨vs, ws, rfl, hr, hw⟩ := hw
      rw [List.nil_append]
      exact derives_chained_some (.bare hr) hw hc

end Redirection

namespace ShellState

/-- The child in which what a redirection wraps is evaluated, if the file can
be used and all descriptors can be bound. -/
def entered (env : Environment) (r : Redirection) (s : ShellState) : Option ShellState :=
  match Wiring.ofRedirection (r.expand env s) with
  | .error _ => none
  | .ok wiring =>
    match wiring.verify s.process s.world with
    | .error _ => none
    | .ok world =>
      match wiring.wire s.process.forked world with
      | (.error _, _) => none
      | (.ok process, world) => some { s with process := process, world := world }

def concluded (env : Environment) (r : Redirection) (done : Outcome × ShellState)
    (s : ShellState) : Outcome × ShellState :=
  let ended := done.1.conclude env done.2
  (s.noted env ended.2).await env
    (Guard.ofParent s.process ended.1) [] fun status s =>
      (s.log env .debug (r.operator ++ " finished with " ++ Text.ofNat status)).finish status

def descend (env : Environment) (s : ShellState) : List Redirection → Option ShellState
  | [] => some s
  | r :: outer =>
    match descend env s outer with
    | none => none
    | some state => state.entered env r

def ascend (env : Environment) (s : ShellState) :
    List Redirection → Outcome × ShellState → Outcome × ShellState
  | [], done => done
  | r :: outer, done =>
    match descend env s outer with
    | none => done
    | some state => ascend env s outer (state.concluded env (r.expand env state) done)

def evaluateOperand (env : Environment) : Option Statement → ShellState → Outcome × ShellState
  | some t, s => (t.evaluate env s).effect
  | none, s => s.idle

variable {env : Environment} {r : Redirection} {rs : List Redirection} {s child : ShellState}

theorem entered_steps (h : s.entered env r = some child) :
    ∃ wiring world, Wiring.ofRedirection (r.expand env s) = .ok wiring ∧
      wiring.verify s.process s.world = .ok world ∧
      wiring.wire s.process.forked world = (.ok child.process, child.world) ∧
      child.status = s.status := by
  unfold entered at h
  split at h
  next => cases h
  next wiring hw =>
    split at h
    next => cases h
    next world hv =>
      split at h
      next => cases h
      next process world' hd =>
        cases h
        exact ⟨wiring, world, hw, hv, hd, rfl⟩

theorem runRedirected_entered (h : s.entered env r = some child)
    (body : ShellState → Outcome × ShellState) :
    s.runRedirected env (r.expand env s) body =
      s.concluded env (r.expand env s) (body child) := by
  obtain ⟨wiring, world, hw, hv, hd, hs⟩ := entered_steps h
  obtain ⟨process, childWorld, status⟩ := child
  simp only at hd hs
  subst hs
  simp only [runRedirected_reliable, hw, hv, forkNoted, fork, rewired, onProcess, hd, finishChild,
    concluded, noted, forkNote]

theorem evaluateOperand_around (left : Option Statement) (s : ShellState) :
    evaluateOperand env (some (r.around left)) s =
      s.runRedirected env (r.expand env s) (evaluateOperand env left) := by
  cases left <;> rfl

theorem descend_cons (h : descend env s (r :: rs) = some child) :
    ∃ state, descend env s rs = some state ∧ state.entered env r = some child := by
  simp only [descend] at h
  split at h
  next => cases h
  next state hs => exact ⟨state, hs, h⟩

/-- If the whole chain can be entered, all that is done for it depends on the
operand through one evaluation, in the innermost child. -/
theorem evaluate_chained (operand : Option Statement) (h : descend env s rs = some child) :
    evaluateOperand env (Redirection.chained operand rs) s =
      ascend env s rs (evaluateOperand env operand child) := by
  induction rs generalizing operand child with
  | nil =>
    cases h
    rfl
  | cons r outer ih =>
    obtain ⟨state, hs, he⟩ := descend_cons h
    have houter := ih (some (r.around operand)) hs
    rw [evaluateOperand_around, runRedirected_entered he] at houter
    simp only [ascend, hs]
    exact houter

end ShellState

/-- A redirection that was done: the path it was given and, unless it is a
merge, the opening made for it and where that leads. -/
structure Binding where
  redirection : Redirection
  path : Text
  opening : Nat
  location : Location

namespace Binding

structure Stands (b : Binding) (mode : OpenMode) (s : ShellState) : Prop where
  opening : s.world.openings[b.opening]? =
    some ⟨.file b.location, 0, mode == .read, mode != .read, mode == .append, none⟩
  located : s.world.tree.locate s.process.directory b.path = .ok b.location
  written : mode ≠ .read → ∃ bits content,
    s.world.tree.find? b.location = some (.file bits content) ∧ (mode = .overwrite → content = [])

structure Made (env : Environment) (b : Binding) (s child : ShellState) : Prop where
  pid : child.process.pid = s.process.pid + 1
  directory : child.process.directory = s.process.directory
  grows : s.world.Grows child.world
  table : child.process.descriptors.find? =
    b.redirection.rebound b.opening s.process.descriptors.find?
  path : ∀ target, b.redirection.target? = some target →
    b.path = (target.mapWords (Expansion.expand env.home s.process.pid)).text
  fresh : ∀ mode, b.redirection.mode? = some mode → s.world.openings.length ≤ b.opening
  stands : ∀ mode, b.redirection.mode? = some mode → b.Stands mode child
  kept : ∀ l, (b.redirection.mode? = some .overwrite → b.location ≠ l) →
    Tree.KeepsAt l s.world.tree child.world.tree

variable {env : Environment} {b : Binding} {mode : OpenMode} {s child : ShellState}

theorem Stands.grows (h : b.Stands mode s) (hg : s.world.Grows child.world)
    (hd : child.process.directory = s.process.directory) : b.Stands mode child where
  opening := hg.opening h.opening
  located := by
    rw [hd]
    exact Tree.locate_grows hg.tree h.located
  written := by
    intro hm
    obtain ⟨bits, content, hf, hempty⟩ := h.written hm
    obtain ⟨content', hf', hempty'⟩ := hg.tree.file hf
    exact ⟨bits, content', hf', fun ho => hempty' (hempty ho)⟩

theorem made_of_entered {r : Redirection} (h : s.entered env r = some child) :
    ∃ b : Binding, b.redirection = r ∧ b.Made env s child := by
  obtain ⟨wiring, world, hw, hv, hd, _⟩ := ShellState.entered_steps h
  have hserves := Wiring.ofRedirection_serves hw
  obtain ⟨hgrows, hkept⟩ := Wiring.verify_grows hv
  obtain ⟨halong, id, htable, hopen⟩ := Wiring.wire_rebound hserves hd
  have hrebound : (r.expand env s).rebound id = r.rebound id := by
    funext table fd
    simp only [Redirection.rebound, Redirection.expand, Redirection.onto_mapTarget,
      Redirection.copied?_mapTarget]
  rw [hrebound] at htable
  cases hserves with
  | @file target mode ht hm hc =>
    obtain ⟨l, hl⟩ := World.openPath_opened hopen
    rw [Redirection.expand, Redirection.mode?_mapTarget] at hm
    refine ⟨⟨r, target.text, id, l⟩, rfl, halong.pid, halong.directory, hgrows.trans hl.grows,
      htable, ?_, ?_, ?_, ?_⟩
    · intro original ho
      rw [Redirection.expand, Redirection.target?_mapTarget, ho] at ht
      cases ht
      rfl
    · intro _ _
      rw [hl.fresh]
      exact hgrows.length
    · intro other hother
      rw [hm] at hother
      cases hother
      refine ⟨hl.opening, ?_, hl.written⟩
      rw [halong.directory]
      exact hl.located
    · intro l' hne node hn
      refine hl.kept l' (fun ho => hne ?_) node (hkept l' node hn)
      rw [hm, ho]
  | merge ho hm hc =>
    obtain rfl : child.world = world := hopen
    rw [Redirection.expand, Redirection.mode?_mapTarget] at hm
    refine ⟨⟨r, [], id, []⟩, rfl, halong.pid, halong.directory, hgrows, htable, ?_, ?_, ?_, ?_⟩
    · intro target ht
      cases r with
      | mergeStream => cases ht
      | _ => cases hm
    · intro mode hmode
      rw [hm] at hmode
      cases hmode
    · intro mode hmode
      rw [hm] at hmode
      cases hmode
    · exact fun l _ => hkept l

def Linked (env : Environment) (s : ShellState) : List Binding → ShellState → Prop
  | [], child => child = s
  | b :: outer, child => ∃ state, Linked env s outer state ∧ b.Made env state child

theorem linked_of_descend {rs : List Redirection}
    (h : ShellState.descend env s rs = some child) :
    ∃ bs : List Binding, bs.map redirection = rs ∧ Linked env s bs child := by
  induction rs generalizing child with
  | nil =>
    cases h
    exact ⟨[], rfl, rfl⟩
  | cons r outer ih =>
    obtain ⟨state, hs, he⟩ := ShellState.descend_cons h
    obtain ⟨bs, hbs, hlinked⟩ := ih hs
    obtain ⟨b, hb, hmade⟩ := made_of_entered he
    exact ⟨b :: bs, by rw [List.map_cons, hb, hbs], state, hlinked, hmade⟩

def rebind (bs : List Binding) (table : Table) : Table :=
  bs.foldr (fun b => b.redirection.rebound b.opening) table

variable {bs : List Binding}

theorem linked_frame (h : Linked env s bs child) :
    child.process.pid = s.process.pid + bs.length ∧
      child.process.directory = s.process.directory ∧ s.world.Grows child.world ∧
      child.process.descriptors.find? = rebind bs s.process.descriptors.find? := by
  induction bs generalizing child with
  | nil =>
    obtain rfl : child = s := h
    exact ⟨rfl, rfl, .refl _, rfl⟩
  | cons b outer ih =>
    obtain ⟨state, hl, hm⟩ := h
    obtain ⟨hpid, hdirectory, hgrows, htable⟩ := ih hl
    refine ⟨?_, hm.directory.trans hdirectory, hgrows.trans hm.grows, ?_⟩
    · rw [hm.pid, hpid, List.length_cons, Nat.add_assoc]
    · rw [hm.table, htable]
      rfl

/-- What was made for a redirection is still there when the operand runs. -/
theorem linked_stands (h : Linked env s bs child) {b : Binding} (hb : b ∈ bs)
    (hm : b.redirection.mode? = some mode) :
    b.Stands mode child ∧ s.world.openings.length ≤ b.opening := by
  induction bs generalizing child with
  | nil => cases hb
  | cons b' outer ih =>
    obtain ⟨state, hl, hmade⟩ := h
    rcases List.mem_cons.mp hb with rfl | hb
    · have hlength := (linked_frame hl).2.2.1.length
      exact ⟨hmade.stands mode hm, Nat.le_trans hlength (hmade.fresh mode hm)⟩
    · obtain ⟨hstands, hfresh⟩ := ih hl hb
      exact ⟨hstands.grows hmade.grows hmade.directory, hfresh⟩

/-- A target is expanded by the process that does its redirection, which is as
many forks away as redirections stand to the right. -/
theorem linked_path {before after : List Binding} {b : Binding} {target : Expression}
    (h : Linked env s (before ++ b :: after) child)
    (ht : b.redirection.target? = some target) :
    b.path = (target.mapWords
      (Expansion.expand env.home (s.process.pid + after.length))).text := by
  induction before generalizing child with
  | nil =>
    obtain ⟨state, hl, hm⟩ := h
    rw [hm.path target ht, (linked_frame hl).1]
  | cons b' before ih =>
    obtain ⟨state, hl, _⟩ := h
    exact ih hl

theorem linked_distinct {before after : List Binding} {b b' : Binding} {mode' : OpenMode}
    (h : Linked env s (before ++ b :: after) child) (hb : b' ∈ after)
    (hm : b.redirection.mode? = some mode) (hm' : b'.redirection.mode? = some mode') :
    b'.opening < b.opening := by
  induction before generalizing child with
  | nil =>
    obtain ⟨state, hl, hmade⟩ := h
    have hopening := (linked_stands hl hb hm').1.opening
    have hlt : b'.opening < state.world.openings.length :=
      (List.getElem?_eq_some_iff.mp hopening).1
    exact Nat.lt_of_lt_of_le hlt (hmade.fresh mode hm)
  | cons b'' before ih =>
    obtain ⟨state, hl, _⟩ := h
    exact ih hl

theorem linked_kept (h : Linked env s bs child) {l : Location}
    (hl : ∀ b ∈ bs, b.redirection.mode? = some .overwrite → b.location ≠ l) :
    Tree.KeepsAt l s.world.tree child.world.tree := by
  induction bs generalizing child with
  | nil =>
    obtain rfl : child = s := h
    exact fun _ hn => hn
  | cons b outer ih =>
    obtain ⟨state, hlinked, hmade⟩ := h
    intro node hn
    have houter := ih hlinked (fun b' hb => hl b' (by simp [hb])) node hn
    exact hmade.kept l (hl b (by simp)) node houter

def leftmost (bs : List Binding) (fd : Nat) : Option Binding :=
  bs.find? fun b => b.redirection.onto.contains (fd : Int)

theorem rebind_leftmost (h : ∀ b ∈ bs, b.redirection.copied? = none) (table : Table) (fd : Nat) :
    rebind bs table fd = match leftmost bs fd with
      | some b => some ⟨b.opening, false⟩
      | none => table fd := by
  induction bs with
  | nil => rfl
  | cons b outer ih =>
    have hb := h b (by simp)
    have houter := ih fun b' hb' => h b' (by simp [hb'])
    by_cases hn : (fd : Int) ∈ b.redirection.onto
    · simp [rebind, leftmost, Redirection.rebound, hn, hb]
    · have hrebind : rebind (b :: outer) table fd = rebind outer table fd := by
        simp [rebind, Redirection.rebound, hn]
      have hleftmost : leftmost (b :: outer) fd = leftmost outer fd := by
        simp [leftmost, hn]
      rw [hrebind, hleftmost, houter]

end Binding

/-- Of a chain that can be entered, the operand is evaluated once, and with the
descriptors that the redirections make of those of the shell, from the last one
to the first. Every file of the chain has been opened anew then, and every file
to be written is there. Without merges, a descriptor is bound to the file of
the leftmost redirection that names it. -/
theorem redirections_from_the_last {env : Environment} {operand : Option Statement}
    {rs : List Redirection} {tree : Statement} {s child : ShellState}
    (ht : Redirection.chained operand rs = some tree)
    (hd : ShellState.descend env s rs = some child) :
    (∀ ts us, Statement.Written operand ts → Redirection.Written rs us →
      Grammar.Derives .chain (ts ++ us) tree) ∧
    (tree.evaluate env s).effect =
      ShellState.ascend env s rs (ShellState.evaluateOperand env operand child) ∧
    ∃ bs : List Binding, bs.map Binding.redirection = rs ∧
      child.process.descriptors.find? = Binding.rebind bs s.process.descriptors.find? ∧
      (∀ before b after target mode, bs = before ++ b :: after →
        b.redirection.target? = some target → b.redirection.mode? = some mode →
        b.path = (target.mapWords
          (Expansion.expand env.home (s.process.pid + after.length))).text ∧
        b.Stands mode child ∧ s.world.openings.length ≤ b.opening ∧
        ∀ b' ∈ after, b'.redirection.mode?.isSome → b'.opening < b.opening) ∧
      ((∀ r ∈ rs, r.copied? = none) → ∀ fd, child.process.descriptors.find? fd =
        match Binding.leftmost bs fd with
        | some b => some ⟨b.opening, false⟩
        | none => s.process.descriptors.find? fd) ∧
      ∀ l, (∀ b ∈ bs, b.redirection.mode? = some .overwrite → b.location ≠ l) →
        Tree.KeepsAt l s.world.tree child.world.tree := by
  refine ⟨fun ts us ho hw => Redirection.derives_chained ho hw ht, ?_, ?_⟩
  · have heval := ShellState.evaluate_chained operand hd
    rw [ht] at heval
    exact heval
  · obtain ⟨bs, hbs, hlinked⟩ := Binding.linked_of_descend hd
    have htable := (Binding.linked_frame hlinked).2.2.2
    refine ⟨bs, hbs, htable, ?_, ?_, fun l => Binding.linked_kept hlinked⟩
    · rintro before b after target mode rfl htarget hmode
      obtain ⟨hstands, hfresh⟩ := Binding.linked_stands hlinked (by simp) hmode
      refine ⟨Binding.linked_path hlinked htarget, hstands, hfresh, fun b' hb' hsome => ?_⟩
      obtain ⟨mode', hmode'⟩ := Option.isSome_iff_exists.mp hsome
      exact Binding.linked_distinct hlinked hb' hmode hmode'
    · intro hmerges fd
      have hcopied : ∀ b ∈ bs, b.redirection.copied? = none := by
        intro b hb
        exact hmerges b.redirection (hbs ▸ List.mem_map_of_mem hb)
      rw [htable, Binding.rebind_leftmost hcopied]

def merging : List Redirection :=
  [.overwrite none (.word ⟨.command, ['a'], ⟨1, 3⟩⟩), .mergeStream (.value (-1)) (.value (-1)),
    .mergeAppend (.word ⟨.command, ['b'], ⟨1, 12⟩⟩)]

/-- The output goes to `a`, and the errors to `b`, which came first. -/
theorem redirections_from_the_last_merging :
    ∃ child a b, ShellState.descend ⟨none, none, Image.run, false, ⟨[], false, none⟩⟩
        ⟨Console.process 1 [], Console.world World.standardTree [], 0⟩ merging = some child ∧
      child.process.descriptors.find? 1 = some ⟨a, false⟩ ∧
      child.process.descriptors.find? 2 = some ⟨b, false⟩ ∧ b < a := by
  have hsome : (ShellState.descend ⟨none, none, Image.run, false, ⟨[], false, none⟩⟩
      ⟨Console.process 1 [], Console.world World.standardTree [], 0⟩ merging).isSome = true := by
    decide +kernel
  obtain ⟨child, hchild⟩ := Option.isSome_iff_exists.mp hsome
  have htree : Redirection.chained none merging = some _ := rfl
  obtain ⟨_, _, bs, hbs, htable, hopened, _⟩ := redirections_from_the_last htree hchild
  obtain ⟨first, bs, rfl, hfirst, hbs⟩ := List.map_eq_cons_iff.mp hbs
  obtain ⟨second, bs, rfl, hsecond, hbs⟩ := List.map_eq_cons_iff.mp hbs
  obtain ⟨third, bs, rfl, hthird, hbs⟩ := List.map_eq_cons_iff.mp hbs
  obtain rfl := List.map_eq_nil_iff.mp hbs
  have hlater := (hopened [] first _ _ _ rfl (by rw [hfirst]; rfl) (by rw [hfirst]; rfl)).2.2.2
  refine ⟨child, first.opening, third.opening, hchild, ?_, ?_, ?_⟩
  · rw [htable]
    simp [Binding.rebind, hfirst, Redirection.rebound, Redirection.onto, Redirection.named,
      Redirection.copied?]
  · rw [htable]
    simp [Binding.rebind, hfirst, hsecond, hthird, Redirection.rebound, Redirection.onto,
      Redirection.named, Redirection.copied?, unspecified]
  · exact hlater third (by simp) (by rw [hthird]; rfl)

end TinyShell
