import TinyShell.Proofs.Forks.Restored
import TinyShell.Proofs.Forks.Turns

/-!
# What the descriptors of a program stand for

Every pipe is made by a shell that has its standard descriptors open, so the
ends are others than these. A side of a pipeline keeps one copy of one end, on
a standard descriptor, and a redirection binds what it names. Whatever else was
opened on the way, ends of pipes and files, is closed in the process itself, or
closes itself when the program is executed.
-/

set_option autoImplicit false

namespace TinyShell

/-- Where what a descriptor stands for comes from: from the shell that began,
from a file that was opened for a redirection, or from a pipe. -/
inductive Origin
  | inherited (fd : Nat)
  | file (opening : Nat)
  | pipe (opening : Nat)
deriving DecidableEq, Repr

def Origin.slot (table : Table) : Origin → Option Slot
  | inherited fd => table fd
  | file opening | pipe opening => some ⟨opening, false⟩

namespace Frame

def Binds (fd : Nat) : Frame → Prop
  | writes _ => fd = 1
  | reads _ => fd = 0
  | redirects r _ => (fd : Int) ∈ r.onto

/-- Where a descriptor comes from that is seen through frames, the innermost
first: one that a merge binds comes from where the other one does. -/
def origin : List Frame → Nat → Origin
  | [], fd => .inherited fd
  | writes opening :: outer, fd => if fd = 1 then .pipe opening else origin outer fd
  | reads opening :: outer, fd => if fd = 0 then .pipe opening else origin outer fd
  | redirects r opening :: outer, fd =>
    if (fd : Int) ∈ r.onto then
      match r.copied? with
      | none => .file opening
      | some source => origin outer source.toNat
    else origin outer fd

structure Seen (frames : List Frame) (base table : Table) : Prop where
  origin : ∀ fd, table fd = (origin frames fd).slot base
  isSome : ∀ fd, (table fd).isSome = true ↔ (base fd).isSome = true ∨ ∃ f ∈ frames, f.Binds fd

end Frame

structure Table.Ready (table : Table) : Prop where
  standard : ∀ fd, fd ≤ 2 → (table fd).isSome = true
  plain : ∀ fd slot, table fd = some slot → slot.closeOnExec = false

namespace Frame

variable {f : Frame} {inner outer frames : List Frame} {base table table' : Table} {fd : Nat}

theorem origin_append (inner outer : List Frame) (fd : Nat) :
    origin (inner ++ outer) fd =
      match origin inner fd with
      | .inherited n => origin outer n
      | o => o := by
  induction inner generalizing fd with
  | nil => rfl
  | cons f inner ih =>
    cases f with
    | writes opening | reads opening =>
      simp only [List.cons_append, origin]
      split
      next => rfl
      next => exact ih fd
    | redirects r opening =>
      simp only [List.cons_append, origin]
      split
      next =>
        split
        next => rfl
        next source _ => exact ih source.toNat
      next => exact ih fd

theorem Seen.refl (base : Table) : Seen [] base base := ⟨fun _ => rfl, fun _ => by simp⟩

/-- A process may come through some frames first, and then through others. -/
theorem Seen.append (h : Seen inner table table') (h' : Seen outer base table) :
    Seen (inner ++ outer) base table' where
  origin fd := by
    rw [h.origin fd, origin_append]
    cases Frame.origin inner fd with
    | inherited n => exact h'.origin n
    | file | pipe => rfl
  isSome fd := by
    rw [h.isSome fd, h'.isSome fd]
    simp only [List.mem_append]
    grind

theorem Seen.ready (h : Seen frames base table) (hb : base.Ready) : table.Ready where
  standard fd hf := (h.isSome fd).mpr (.inl (hb.standard fd hf))
  plain fd slot hs := by
    rw [h.origin fd] at hs
    cases ho : Frame.origin frames fd with
    | inherited n =>
      rw [ho] at hs
      exact hb.plain n slot hs
    | file | pipe =>
      rw [ho] at hs
      cases hs
      rfl

end Frame

namespace Redirection

theorem rebound_mapTarget (f : Expression → Expression) (r : Redirection) :
    (r.mapTarget f).rebound = r.rebound := by
  cases r <;> rfl

theorem rebound_seen {r : Redirection} {opening : Nat} {base : Table} (hb : base.Ready)
    (hc : ∀ source, r.copied? = some source → (base source.toNat).isSome = true) :
    Frame.Seen [.redirects r opening] base (r.rebound opening base) where
  origin fd := by
    by_cases ho : (fd : Int) ∈ r.onto
    · cases hs : r.copied? with
      | none => simp only [rebound, Frame.origin, ho, hs, ↓reduceIte, Origin.slot]
      | some source =>
        simp only [rebound, Frame.origin, ho, hs, ↓reduceIte, Origin.slot]
        split
        next he => rw [← he, Int.toNat_natCast]
        next =>
          cases hslot : base source.toNat with
          | none => rfl
          | some slot =>
            have hplain := hb.plain _ slot hslot
            cases slot
            cases hplain
            rfl
    · simp only [rebound, Frame.origin, ho, ↓reduceIte, Origin.slot]
  isSome fd := by
    simp only [List.mem_singleton, exists_eq_left, Frame.Binds]
    by_cases ho : (fd : Int) ∈ r.onto
    · cases hs : r.copied? with
      | none => simp [rebound, ho, hs]
      | some source =>
        have hsource := hc source hs
        simp only [rebound, ho, hs, ↓reduceIte, or_true, iff_true]
        split
        next he => rwa [← he, Int.toNat_natCast] at hsource
        next => rwa [Option.isSome_map]
    · simp only [rebound, ho, ↓reduceIte, or_false]

end Redirection

theorem World.openPath_latest {w w' : World} {directory : Location} {path : Text}
    {mode : OpenMode} {id : Nat} (h : w.openPath directory path mode = .ok (w', id)) :
    w'.openings.length - 1 = id := by
  unfold openPath at h
  split at h
  next =>
    split at h
    next => cases h
    next =>
      split at h <;> cases h
      simp
  next =>
    split at h
    next => cases h
    next =>
      split at h <;> cases h
      simp [prepare]

theorem Process.copy_source {p p' : Process} {source target : Int}
    (h : p.copy source target = .ok p') : (p.descriptors.find? source.toNat).isSome = true := by
  unfold copy at h
  split at h
  next => cases h
  next d hd =>
    unfold Descriptors.copy at hd
    split at hd
    next => cases hd
    next =>
      split at hd
      next => cases hd
      next slot hslot => rw [hslot]; rfl

namespace ShellState

variable {env : Environment} {s s' child : ShellState}

theorem openPipe_table (s : ShellState) (n : Nat) :
    s.openPipe.2.table n =
      if s.openPipe.1.writer = some n then some ⟨s.world.openings.length + 1, true⟩
      else if s.openPipe.1.reader = some n then some ⟨s.world.openings.length, true⟩
      else s.table n := Pipe.create_find? ..

/-- On a side of a pipeline, a standard descriptor stands for an end of the
pipe, and all others stand for what they did. -/
theorem beside_table {fd target id : Nat} (hr : s.table.Ready) (ht : target ≤ 2)
    (hd : s'.process.descriptors = s.openPipe.2.process.descriptors)
    (hend : s.openPipe.1.reader = some fd ∨ s.openPipe.1.writer = some fd)
    (hfd : s.openPipe.2.table fd = some ⟨id, true⟩)
    (h : s'.beside s.openPipe.1 (Pipe.redirectEnd (some fd) target) = .ok child) (n : Nat) :
    child.table n = if n = target then some ⟨id, false⟩ else s.table n := by
  have hopened (n : Nat) : s'.process.forked.descriptors.find? n = s.openPipe.2.table n := by
    show s'.process.descriptors.find? n = _
    rw [hd]
    rfl
  have hfree (he : s.openPipe.1.reader = some n ∨ s.openPipe.1.writer = some n) :
      s.table n = none := Pipe.create_free he
  simp only [beside, Pipe.redirectEnd, onProcess] at h
  cases hcopy : s'.process.forked.copy fd target with
  | error e =>
    rw [hcopy] at h
    cases h
  | ok p =>
    rw [hcopy] at h
    cases h
    obtain ⟨_, hfind⟩ := Process.copy_find? hcopy
    have hclosed : (s.openPipe.1.close p).2.descriptors.find? n =
        if s.openPipe.1.writer = some n then none
        else if s.openPipe.1.reader = some n then none
        else p.descriptors.find? n := by
      show (Pipe.closeEnd s.openPipe.1.writer
        (Pipe.closeEnd s.openPipe.1.reader p)).descriptors.find? n = _
      rw [Pipe.closeEnd_find?, Pipe.closeEnd_find?]
    refine hclosed.trans ?_
    by_cases he : s.openPipe.1.reader = some n ∨ s.openPipe.1.writer = some n
    · have hn : n ≠ target := by
        rintro rfl
        have hopen := hr.standard n ht
        rw [hfree he] at hopen
        cases hopen
      rw [if_neg hn, hfree he]
      rcases he with he | he <;> simp [he]
    · obtain ⟨hreader, hwriter⟩ := not_or.mp he
      rw [if_neg hwriter, if_neg hreader, hfind, hopened, hopened, Int.toNat_natCast, hfd]
      by_cases hn : n = target
      · have hnfd : (n : Int) ≠ fd := by
          intro hc
          obtain rfl : n = fd := by omega
          exact he hend
        rw [if_pos (by omega), if_neg hnfd, if_pos hn]
        rfl
      · rw [if_neg (by omega), if_neg hn]
        rw [openPipe_table, if_neg hwriter, if_neg hreader]

/-- The ends of a new pipe, by the openings that were made for them. -/
theorem openPipe_ends (s : ShellState) :
    ∃ reader writer, s.openPipe.1 = ⟨some reader, some writer⟩ ∧
      s.openPipe.2.table reader = some ⟨s.world.openings.length, true⟩ ∧
      s.openPipe.2.table writer = some ⟨s.world.openings.length + 1, true⟩ := by
  obtain ⟨reader, writer, hpipe, hne⟩ : ∃ reader writer,
      s.openPipe.1 = ⟨some reader, some writer⟩ ∧ writer ≠ reader := by
    refine ⟨_, _, rfl, fun he => ?_⟩
    have hfree := Descriptors.find?_lowestFree (s.process.descriptors.set
      s.process.descriptors.lowestFree (some ⟨s.world.openings.length, true⟩))
    rw [Descriptors.find?_set, if_pos he] at hfree
    cases hfree
  refine ⟨reader, writer, hpipe, ?_, ?_⟩
  · rw [openPipe_table, hpipe, if_neg (by simpa using hne), if_pos rfl]
  · rw [openPipe_table, hpipe, if_pos rfl]

theorem seen_end {f : Frame} {fd id : Nat} (hf : f = .writes id ∧ fd = 1 ∨ f = .reads id ∧ fd = 0)
    (h : ∀ n, child.table n = if n = fd then some ⟨id, false⟩ else s.table n) :
    Frame.Seen [f] s.table child.table where
  origin n := by
    rw [h n]
    rcases hf with ⟨rfl, rfl⟩ | ⟨rfl, rfl⟩ <;> simp only [Frame.origin] <;> split <;> rfl
  isSome n := by
    rw [h n]
    rcases hf with ⟨rfl, rfl⟩ | ⟨rfl, rfl⟩ <;>
      simp only [List.mem_singleton, exists_eq_left, Frame.Binds] <;> split <;> simp_all

theorem writer_seen (hr : s.table.Ready) (h : s.writer.toOption = some child) :
    Frame.Seen [.writes (s.world.openings.length + 1)] s.table child.table := by
  obtain ⟨reader, writer, hpipe, _, hwriter⟩ := s.openPipe_ends
  refine seen_end (.inl ⟨rfl, rfl⟩)
    (beside_table hr (by decide) rfl (.inr (by rw [hpipe])) hwriter ?_)
  cases hw : s.writer with
  | error done =>
    rw [hw] at h
    cases h
  | ok child' =>
    rw [hw] at h
    cases h
    rw [← hw]
    simp only [ShellState.writer, hpipe]
    rfl

theorem reader_seen {world : World} (hr : s.table.Ready)
    (h : (s.reader env world).toOption = some child) :
    Frame.Seen [.reads s.world.openings.length] s.table child.table := by
  obtain ⟨reader, writer, hpipe, hreader, _⟩ := s.openPipe_ends
  have hparent := @noted_process env s.openPipe.2 world
  refine seen_end (.inr ⟨rfl, rfl⟩) (@beside_table s (s.openPipe.2.noted env world) child reader 0 _
    hr (by decide) (by rw [hparent]; rfl) (.inl (by rw [hpipe])) hreader ?_)
  cases hw : s.reader env world with
  | error done =>
    rw [hw] at h
    cases h
  | ok child' =>
    rw [hw] at h
    cases h
    rw [← hw]
    simp only [ShellState.reader, hpipe]
    rfl

theorem entered_seen {r : Redirection} (hr : s.table.Ready) (h : s.entered env r = some child) :
    Frame.Seen [.redirects r (child.world.openings.length - 1)] s.table child.table := by
  obtain ⟨wiring, world, hw, hv, hd, _⟩ := entered_steps h
  have hserves := Wiring.ofRedirection_serves hw
  obtain ⟨_, id, htable, hworld⟩ := Wiring.wire_rebound hserves hd
  have htable : child.table = r.rebound id s.table := by
    rw [Redirection.expand, Redirection.rebound_mapTarget] at htable
    exact htable
  cases hserves with
  | file _ _ hc =>
    rw [Redirection.expand, Redirection.copied?_mapTarget] at hc
    rw [htable, World.openPath_latest hworld]
    exact Redirection.rebound_seen hr (by simp [hc])
  | @merge source destination _ _ hc =>
    rw [Redirection.expand, Redirection.copied?_mapTarget] at hc
    have hany (opening : Nat) : r.rebound opening s.table = r.rebound id s.table := by
      funext fd
      simp only [Redirection.rebound, hc]
    rw [htable, ← hany (child.world.openings.length - 1)]
    refine Redirection.rebound_seen hr fun source' hs => ?_
    obtain rfl : destination = source' := Option.some.inj (hc.symm.trans hs)
    simp only [Wiring.wire] at hd
    split at hd
    next hcopy =>
      have hsource := Process.copy_source hcopy
      exact hsource
    next => cases hd

/-- Of the pipe that would give notice of a failure, a program that is executed
has nothing. -/
theorem start_table {command : Text} {arguments : List Text} {start : Start} (hr : s.table.Ready)
    (h : s.start? env command arguments = some start) :
    start.process.descriptors.find? = s.table := by
  have hkept {p : Process} {w : World} {name : Text} {arguments : List Text}
      (h : Execution.start? env.search p w name arguments = some start) :
      start.process.descriptors.find? = fun n =>
        (p.descriptors.find? n).filter fun slot => !slot.closeOnExec := by
    obtain ⟨found, _, rfl⟩ := Option.map_eq_some_iff.mp h
    exact funext fun n => Descriptors.find?_kept _ _
  have hplain (n : Nat) : (s.table n).filter (fun slot => !slot.closeOnExec) = s.table n := by
    cases hn : s.table n with
    | none => rfl
    | some slot => simp [Option.filter, hr.plain n slot hn]
  have hannounced : (s.announced env (command :: arguments)).table = s.table := by
    rw [table, announced_process]
    rfl
  simp only [start?] at h
  generalize s.announced env (command :: arguments) = a at h hannounced
  split at h
  next =>
    split at h
    next => cases h
    next =>
      refine (hkept h).trans (funext fun n => ?_)
      show ((Pipe.closeEnd a.openPipe.1.reader a.openPipe.2.process.forked).descriptors.find?
        n).filter _ = _
      rw [Pipe.closeEnd_find?, ← hannounced]
      by_cases hreader : a.openPipe.1.reader = some n
      · rw [if_pos hreader]
        exact (Pipe.create_free (.inl hreader)).symm
      · rw [if_neg hreader]
        show (a.openPipe.2.table n).filter _ = _
        by_cases hwriter : a.openPipe.1.writer = some n
        · rw [openPipe_table, if_pos hwriter]
          exact (Pipe.create_free (.inr hwriter)).symm
        · rw [openPipe_table, if_neg hwriter, if_neg hreader, hannounced, hplain]
  next =>
    split at h
    next => cases h
    next =>
      split at h
      next => cases h
      next =>
        refine (hkept h).trans (funext fun n => ?_)
        rw [← hplain n, ← hannounced]
        rfl
  next => cases h

end ShellState

namespace Turn

variable {env : Environment} {turn : Turn} {base : Table}

theorem within_seen {frame : ShellState → Frame} {turns : ShellState → List Turn}
    {child : Option ShellState}
    (hf : ∀ c, child = some c → Frame.Seen [frame c] base c.table)
    (h : ∀ c, child = some c → ∀ turn ∈ turns c,
      Frame.Seen turn.frames c.table turn.process.descriptors.find?)
    (ht : turn ∈ within frame turns child) :
    Frame.Seen turn.frames base turn.process.descriptors.find? := by
  cases child with
  | none => cases ht
  | some c =>
    obtain ⟨inner, hi, rfl⟩ := List.mem_map.mp ht
    exact (h c rfl inner hi).append (hf c rfl)

end Turn

namespace Statement

variable {env : Environment}

/-- Each command sees, through the frames around it, what the shell had open. -/
theorem turns_seen {t : Statement} {s : ShellState} {turn : Turn} (hr : s.table.Ready)
    (h : turn ∈ t.turns env s) : Frame.Seen turn.frames s.table turn.process.descriptors.find? := by
  -- What follows in the same process finds the table as it was.
  have after {first next : Statement} {s : ShellState} {turn : Turn} (hr : s.table.Ready)
      (ih : ∀ {s : ShellState} {turn : Turn}, s.table.Ready → turn ∈ next.turns env s →
        Frame.Seen turn.frames s.table turn.process.descriptors.find?)
      (h : turn ∈ next.turns env (first.evaluate env s).state) :
      Frame.Seen turn.frames s.table turn.process.descriptors.find? := by
    rw [← @evaluate_table env first s] at hr ⊢
    exact ih hr h
  induction t generalizing s turn with
  | sequence left right ihl ihr =>
    rcases List.mem_append.mp h with h | h
    · exact ihl hr h
    · split at h
      next => exact after hr ihr h
      next => cases h
  | and left right ihl ihr =>
    rcases List.mem_append.mp h with h | h
    · exact ihl hr h
    · split at h
      next =>
        split at h
        next => exact after hr ihr h
        next => cases h
      next => cases h
  | or left right ihl ihr =>
    rcases List.mem_append.mp h with h | h
    · exact ihl hr h
    · split at h
      next =>
        split at h
        next => cases h
        next => exact after hr ihr h
      next => cases h
  | closed inner ih | not inner ih => exact ih hr h
  | pipeline left right ihl ihr =>
    rcases List.mem_append.mp h with h | h
    · have hseen {c : ShellState} (hc : s.writer.toOption = some c) := ShellState.writer_seen hr hc
      exact Turn.within_seen (fun c hc => hseen hc)
        (fun c hc turn ht => ihl ((hseen hc).ready hr) ht) h
    · have hseen {world : World} {c : ShellState} (hc : (s.reader env world).toOption = some c) :=
        ShellState.reader_seen hr hc
      exact Turn.within_seen (fun c hc => hseen hc)
        (fun c hc turn ht => ihr ((hseen hc).ready hr) ht) h
  | redirect r inner ih =>
    have hseen {c : ShellState} (hc : s.entered env r = some c) := ShellState.entered_seen hr hc
    exact Turn.within_seen (fun c hc => hseen hc)
      (fun c hc turn ht => ih ((hseen hc).ready hr) ht) h
  | bare r => cases h
  | atom e =>
    obtain rfl := List.mem_singleton.mp h
    exact .refl _

end Statement

theorem Turn.start_table {env : Environment} {turn : Turn} {start : Start}
    (hr : Table.Ready turn.process.descriptors.find?) (h : turn.start? env = some start) :
    start.process.descriptors.find? = turn.process.descriptors.find? := by
  cases hc : turn.command with
  | command i | string i =>
    simp only [start?, hc] at h
    split at h
    next => cases h
    next => exact ShellState.start_table (s := ⟨turn.process, turn.world, 0⟩) hr h
  | value n => simp [start?, hc] at h

/-- The end of a pipe gets to a descriptor other than the first two only by a
merge, from a descriptor that stands for it outside of the merge. -/
theorem Frame.pipe_origin {frames : List Frame} {fd opening : Nat}
    (h : origin frames fd = .pipe opening) :
    fd ≤ 1 ∨ ∃ inner r id outer source, frames = inner ++ redirects r id :: outer ∧
      (fd : Int) ∈ r.onto ∧ r.copied? = some source ∧
      origin outer source.toNat = .pipe opening := by
  have further {f : Frame} {frames : List Frame}
      (h : fd ≤ 1 ∨ ∃ inner r id outer source, frames = inner ++ redirects r id :: outer ∧
        (fd : Int) ∈ r.onto ∧ r.copied? = some source ∧
        origin outer source.toNat = .pipe opening) :
      fd ≤ 1 ∨ ∃ inner r id outer source, f :: frames = inner ++ redirects r id :: outer ∧
        (fd : Int) ∈ r.onto ∧ r.copied? = some source ∧
        origin outer source.toNat = .pipe opening := by
    rcases h with hle | ⟨inner, r, id, outer, source, rfl, hmerge⟩
    · exact .inl hle
    · exact .inr ⟨f :: inner, r, id, outer, source, rfl, hmerge⟩
  induction frames with
  | nil => cases h
  | cons f outer ih =>
    cases f with
    | writes id | reads id =>
      simp only [origin] at h
      split at h
      next => omega
      next => exact further (ih h)
    | redirects r id =>
      simp only [origin] at h
      split at h
      next ho =>
        split at h
        next => cases h
        next source hc => exact .inr ⟨[], r, id, outer, source, rfl, ho, hc, h⟩
      next => exact further (ih h)

theorem Turn.binds_iff {turn : Turn} {fd : Nat} :
    (fd ≤ 2 ∨ ∃ f ∈ turn.frames, f.Binds fd) ↔
      fd ≤ 2 ∨ ∃ r ∈ turn.redirections, (fd : Int) ∈ r.onto := by
  constructor
  · rintro (hle | ⟨f, hf, hb⟩)
    · exact .inl hle
    · cases f with
      | writes | reads =>
        simp only [Frame.Binds] at hb
        omega
      | redirects r id => exact .inr ⟨r, List.mem_filterMap.mpr ⟨_, hf, rfl⟩, hb⟩
  · rintro (hle | ⟨r, hr, hb⟩)
    · exact .inl hle
    · obtain ⟨f, hf, hfr⟩ := List.mem_filterMap.mp hr
      cases f with
      | writes | reads => cases hfr
      | redirects r' id =>
        cases hfr
        exact .inr ⟨_, hf, hb⟩

/-- A shell has its three standard descriptors open, and as it was executed with
them itself, none of them closes itself. All that is executed for a statement,
in whatever process, is started in the turns of its commands, and with nothing
open but the standard descriptors and those that the redirections around the
command bind: each stands for what it stood for in the shell, for a file of
these redirections, or for the end of a pipe that a side of a pipeline was
given, in place of the standard input or output. What gets such an end besides
is bound by a merge. The shell itself has in the end what it had in the
beginning. -/
theorem programs_see_enclosed (env : Environment) (t : Statement) (s : ShellState)
    (hopen : ∀ fd, (s.table fd).isSome = true ↔ fd ≤ 2)
    (hplain : ∀ fd slot, s.table fd = some slot → slot.closeOnExec = false) :
    (∀ execute, Turn.SameExecution env execute (t.turns env s) →
      t.evaluate (env.withExecutor execute) s = t.evaluate env s) ∧
    ((t.turns env s).map Turn.place).Sublist t.enclosed ∧
    (∀ turn ∈ t.turns env s, ∀ start, turn.start? env = some start →
      (∀ fd, start.process.descriptors.find? fd = (Frame.origin turn.frames fd).slot s.table) ∧
      (∀ fd, (start.process.descriptors.find? fd).isSome = true ↔
        fd ≤ 2 ∨ ∃ r ∈ turn.redirections, (fd : Int) ∈ r.onto) ∧
      ∀ fd opening, Frame.origin turn.frames fd = .pipe opening →
        fd ≤ 1 ∨ ∃ inner r id outer source, turn.frames = inner ++ .redirects r id :: outer ∧
          (fd : Int) ∈ r.onto ∧ r.copied? = some source ∧
          Frame.origin outer source.toNat = .pipe opening) ∧
    (t.evaluate env s).state.table = s.table := by
  have hready : s.table.Ready := ⟨fun fd hf => (hopen fd).mpr hf, hplain⟩
  refine ⟨fun _ => t.evaluate_withExecutor, t.turns_enclosed s, fun turn ht start hs => ?_,
    t.evaluate_table s⟩
  have hseen := Statement.turns_seen hready ht
  rw [Turn.start_table (hseen.ready hready) hs]
  refine ⟨hseen.origin, fun fd => ?_, fun fd opening => Frame.pipe_origin⟩
  rw [hseen.isSome, hopen, Turn.binds_iff]

/-- In `true 2>&1 | true` the first program has the end of the pipe twice, and
nothing besides the standard descriptors. -/
theorem programs_see_enclosed_merged :
    (∀ fd, (Console.shell.table fd).isSome = true ↔ fd ≤ 2) ∧
    (∀ fd slot, Console.shell.table fd = some slot → slot.closeOnExec = false) ∧
    ∃ (turn : Turn) (start : Start), turn.start? Console.environment = some start ∧
      turn.frames = [.redirects (.mergeStream (.value 2) (.value 1)) 4, .writes 4] ∧
      start.process.descriptors.find? 1 = some ⟨4, false⟩ ∧
      start.process.descriptors.find? 2 = some ⟨4, false⟩ ∧
      ∀ fd, (start.process.descriptors.find? fd).isSome = true ↔ fd ≤ 2 := by
  have hopen (fd : Nat) : (Console.shell.table fd).isSome = true ↔ fd ≤ 2 := by
    rcases fd with _ | _ | _ | fd <;>
      simp [ShellState.table, Console.shell, Console.process, Descriptors.find?]
  have hplain (fd : Nat) (slot : Slot) (h : Console.shell.table fd = some slot) :
      slot.closeOnExec = false := by
    rcases fd with _ | _ | _ | fd <;> cases h <;> rfl
  let t : Statement := .pipeline (.redirect (.mergeStream (.value 2) (.value 1))
    (.plain "true" [])) (.plain "true" [])
  obtain ⟨_, _, hstarted, _⟩ :=
    programs_see_enclosed Console.environment t Console.shell hopen hplain
  have hframes : ((t.turns Console.environment Console.shell).head?.map Turn.frames) =
      some [.redirects (.mergeStream (.value 2) (.value 1)) 4, .writes 4] := by decide +kernel
  have hstarts : ((t.turns Console.environment Console.shell).head?.bind
      (Turn.start? Console.environment)).isSome = true := by decide +kernel
  obtain ⟨turn, hturn, hframes⟩ := Option.map_eq_some_iff.mp hframes
  rw [hturn] at hstarts
  obtain ⟨start, hstart⟩ := Option.isSome_iff_exists.mp hstarts
  obtain ⟨horigin, hbound, _⟩ := hstarted turn (List.mem_of_head? hturn) start hstart
  refine ⟨hopen, hplain, turn, start, hstart, hframes, ?_, ?_, fun fd => ?_⟩
  · rw [horigin, hframes]
    rfl
  · rw [horigin, hframes]
    rfl
  · rw [hbound, Turn.redirections, hframes]
    simp [Frame.redirection?, Redirection.onto, Redirection.named, unspecified]
    omega

end TinyShell
