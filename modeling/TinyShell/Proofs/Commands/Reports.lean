import TinyShell.Machine.Console
import TinyShell.Proofs.Forks.Containment
import TinyShell.Proofs.Redirection.Writing

/-!
# What `type` tells

Each name gets a line that says how a command of that name would be run. The
lines go to an output that may be full before the last of them, within a line as
well as between two: what has been written is then the beginning of the whole
account, and the command has failed. A builtin is what the shell carries out
without asking its system for anything.
-/

set_option autoImplicit false

namespace TinyShell

namespace Sink

variable {sink : Sink} {bytes : Bytes}

def writeAll : List Bytes → Sink → Option Text × Sink
  | [], sink => (none, sink)
  | bytes :: rest, sink =>
    match sink.write bytes with
    | (none, sink) => writeAll rest sink
    | (some reason, sink) => (some reason, sink)

theorem write_nil (sink : Sink) : sink.write [] = (none, sink) := by
  obtain ⟨limit, written⟩ := sink
  cases limit <;> simp [write, Limit.refusal, Limit.after, Limit.cut]

theorem write_append (sink : Sink) (front back : Bytes) : sink.write (front ++ back) =
    match sink.write front with
    | (none, sink) => sink.write back
    | (some reason, sink) => (some reason, sink) := by
  obtain ⟨limit, written⟩ := sink
  cases limit with
  | none => simp [write, Limit.refusal, Limit.after, Limit.cut]
  | some limit =>
    obtain ⟨room, reason⟩ := limit
    by_cases hfits : front.length ≤ room
    · have hroom : room - (front.length + back.length) = room - front.length - back.length := by
        omega
      have hboth : (front.length + back.length ≤ room) = (back.length ≤ room - front.length) := by
        rw [eq_iff_iff]
        omega
      simp [write, Limit.refusal, Limit.after, Limit.cut, hfits, hroom, hboth, List.take_append,
        List.take_of_length_le]
    · have hroom : room - (front.length + back.length) = 0 := by omega
      have hfront : room - front.length = 0 := by omega
      have hboth : ¬ front.length + back.length ≤ room := by omega
      simp [write, Limit.refusal, Limit.after, Limit.cut, hfits, hroom, hfront, hboth,
        List.take_append]

theorem writeAll_flatten (pieces : List Bytes) (sink : Sink) :
    sink.writeAll pieces = sink.write pieces.flatten := by
  induction pieces generalizing sink with
  | nil => exact (write_nil sink).symm
  | cons bytes rest ih =>
    cases h : sink.write bytes with
    | mk refused sink' => cases refused <;> simp [writeAll, write_append, h, ih]

end Sink

namespace Builtin

def Missing (env : Environment) (s : ShellState) (name : Text) : Prop :=
  name ∉ all.map Builtin.name ∧ env.resolve s.world.tree s.process.directory name = none

instance (env : Environment) (s : ShellState) (name : Text) : Decidable (Missing env s name) :=
  inferInstanceAs (Decidable (_ ∧ _))

def line (env : Environment) (s : ShellState) (name : Text) : Text :=
  if name ∈ all.map Builtin.name then name ++ " is a shell builtin" ++ ['\n']
  else
    match env.resolve s.world.tree s.process.directory name with
    | some path => name ++ " is " ++ path ++ ['\n']
    | none => name ++ ": not found" ++ ['\n']

def account (env : Environment) (s : ShellState) (names : List Text) : Bytes :=
  Utf8.encode (names.flatMap (line env s))

variable {env : Environment} {s : ShellState} {names : List Text}

theorem isSome_ofName? (name : Text) :
    (ofName? name).isSome = true ↔ name ∈ all.map Builtin.name := by
  simp [ofName?, List.find?_isSome]

theorem describe_line (env : Environment) (s : ShellState) (name : Text) :
    (describe env s name).1 = line env s name ∧
      ((describe env s name).2 = false ↔ Missing env s name) := by
  have hbuiltin : (" is a shell builtin\n" : Text) = " is a shell builtin" ++ ['\n'] := by
    decide +kernel
  have hmissing : (": not found\n" : Text) = ": not found" ++ ['\n'] := by decide +kernel
  have hend : ("\n" : Text) = ['\n'] := by decide +kernel
  unfold describe line Missing
  by_cases hb : name ∈ all.map Builtin.name
  · simp [(isSome_ofName? name).mpr hb, hb, hbuiltin]
  · have hnone : ¬ (ofName? name).isSome = true := mt (isSome_ofName? name).mp hb
    cases env.resolve s.world.tree s.process.directory name <;>
      simp [hnone, hb, hmissing, hend]

theorem account_cons (name : Text) (names : List Text) :
    account env s (name :: names) = Utf8.encode (line env s name) ++ account env s names := by
  simp [account, Utf8.encode]

/-- The account is written as if it were one piece, and a name that is missing
makes a failure of what follows. -/
theorem report_account (names : List Text) (result : Result) (sink : Sink) :
    report env s names result sink =
      match sink.write (account env s names) with
      | (none, sink) =>
        (.value (if ∃ name ∈ names, Missing env s name then .failure else result), sink)
      | (some reason, sink) => (complain (.output type.name reason), sink) := by
  induction names generalizing result sink with
  | nil =>
    have hempty : account env s [] = [] := rfl
    simp [report, hempty, Sink.write_nil]
  | cons name names ih =>
    obtain ⟨hline, hmissing⟩ := describe_line env s name
    rw [account_cons, Sink.write_append, ← hline]
    simp only [report]
    cases hw : sink.write (Utf8.encode (describe env s name).1) with
    | mk refused sink' =>
      cases refused with
      | some reason => rfl
      | none =>
        simp only [ih]
        by_cases hm : Missing env s name
        · simp [hmissing.mpr hm, hm]
        · have hfound : (describe env s name).2 = true := by simpa using mt hmissing.mp hm
          simp [hfound, hm]

theorem run_type {names : List Text} (hn : names ≠ []) (limit : Limit Text) (before : Bytes) :
    type.run env names ⟨some limit, before⟩ s =
      (if (account env s names).length ≤ limit.room then
          .value (if ∃ name ∈ names, Missing env s name then .failure else .success)
        else complain (.output type.name limit.reason),
        ⟨some ⟨limit.room - (account env s names).length, limit.reason⟩,
          before ++ (account env s names).take limit.room⟩, s) := by
  have hempty : names.isEmpty = false := by simpa using hn
  simp only [run, runType, hempty, report_account, Sink.write, Limit.refusal, Limit.cut,
    Limit.after]
  by_cases hfits : (account env s names).length ≤ limit.room <;> simp [hfits]

theorem message_output (reason : Text) :
    (Complaint.output type.name reason).message = "type: " ++ reason := by
  have hcolon : (": " : Text) = [':', ' '] := by decide +kernel
  have htype : ("type: " : Text) = type.name ++ [':', ' '] := by decide +kernel
  simp [Complaint.message, hcolon, htype]

end Builtin

def Kernel.pipeless : Kernel :=
  ⟨fun request _ => if request = .pipe then some .tooManyOpen else none⟩

namespace ShellState

/-- Commands of the name are carried out without asking the system for anything:
it does not matter what the system would refuse. -/
def AsksNothing (env : Environment) (name : Text) : Prop :=
  ∀ (kernel : Kernel) (arguments : List Text) (s : ShellState),
    s.runCommand ⟨env, kernel⟩ name arguments = s.runCommand env name arguments

variable {env : Environment} {host : Host} {s : ShellState} {name : Text} {names : List Text}
  {limit : Limit Errno}

/-- A program needs a pipe, and if it cannot be had, that is what the command
comes to; no command comes to this without being refused. -/
theorem asksNothing_iff (s : ShellState) :
    name ∈ Builtin.all.map Builtin.name ↔
      Text.hasNul name = false ∧ AsksNothing env name := by
  constructor
  · intro hname
    obtain ⟨b, _, rfl⟩ := List.mem_map.mp hname
    refine ⟨by cases b <;> decide +kernel, fun kernel arguments s => ?_⟩
    simp only [runCommand, Builtin.ofName?_eq_some.mpr rfl]
  · rintro ⟨hnul, hasks⟩
    refine Decidable.byContradiction fun hname => ?_
    have hnone : Builtin.ofName? name = none :=
      Option.not_isSome_iff_eq_none.mp (mt (Builtin.isSome_ofName? name).mp hname)
    have hrefused : (s.runCommand ⟨env, .pipeless⟩ name []).1 =
        .failed (.systemCall "pipe" .tooManyOpen) := by
      simp only [runCommand, hnone, runProgram, List.any_cons, hnul, List.any_nil, Bool.or_self]
      rfl
    have hran := @runCommand_ran env s name []
    rw [← hasks, hrefused] at hran
    cases hran with
    | kept h =>
      rcases h with ⟨r, h⟩ | ⟨h, _⟩
      · cases h
      · revert h
        decide +kernel

/-- Where `type` is run, its output takes what its limit has room for. -/
theorem runCommand_type {told : ShellState}
    (ht : told = s.announced host.toEnvironment (Builtin.type.name :: names)) (hn : names ≠ [])
    (hl : told.process.limit told.world 1 = some limit) :
    s.runCommand host Builtin.type.name names =
      let full := Builtin.account host.toEnvironment told names
      let wrote := { told with world := told.process.say told.world 1 (full.take limit.room) }
      if full.length ≤ limit.room then
        wrote.finish
          (if ∃ name ∈ names, Builtin.Missing host.toEnvironment told name then 1 else 0)
      else
        (wrote.log host.toEnvironment .error ("type: " ++ limit.reason.report)).finish 1 := by
  have hname : Builtin.ofName? Builtin.type.name = some .type := Builtin.ofName?_eq_some.mpr rfl
  have hlog : s.log host.toEnvironment .trace
      ("invoking " ++ Text.quotedList (Builtin.type.name :: names)) = told := ht.symm
  have hsink : Sink.ofDescriptor 1 told =
      ⟨some (⟨limit.room, limit.reason.report⟩ : Limit Text), []⟩ := by
    rw [Sink.ofDescriptor, hl]
    rfl
  simp only [runCommand, hname, hlog, runBuiltin, hsink, Builtin.run_type hn, List.nil_append]
  by_cases hfits : (Builtin.account host.toEnvironment told names).length ≤ limit.room
  · simp only [hfits, if_true]
    by_cases hmissing : ∃ name ∈ names, Builtin.Missing host.toEnvironment told name
    · simp only [hmissing, if_true]
      rfl
    · simp only [hmissing, if_false]
      rfl
  · simp only [hfits, if_false, Builtin.complain, settle, Builtin.message_output]

end ShellState

namespace Builtin

/-- What `type` writes is the beginning of its account, which has a line for
each name and calls a builtin what the shell carries out itself; it does not
matter how the bytes are broken into pieces. If there is room for all of it, only
a name that is missing makes a failure. If not, `type` complains about its output,
and the shell that was to run it reports the complaint and goes on with status
1. -/
theorem report_cut_at_room (host : Host) (s : ShellState) {names : List Text} (hn : names ≠ []) :
    (∀ name ∈ names, name ∈ all.map Builtin.name ↔
      Text.hasNul name = false ∧ ShellState.AsksNothing host.toEnvironment name) ∧
    (∀ (limit : Limit Text) (before : Bytes),
      let full := account host.toEnvironment s names
      let ran := type.run host.toEnvironment names ⟨some limit, before⟩ s
      ran.2.1.written = before ++ full.take (min limit.room full.length) ∧
      (∀ pieces, pieces.flatten = full →
        (Sink.writeAll pieces ⟨some limit, before⟩).2 = ran.2.1) ∧
      ran.2.2 = s ∧
      (full.length ≤ limit.room → ran.1 =
        .value (if ∃ name ∈ names, Missing host.toEnvironment s name then .failure else .success)) ∧
      (limit.room < full.length →
        ∃ complaint, ran.1 = .failed (.argument complaint) ∧
          complaint.message = "type: " ++ limit.reason)) ∧
    (∀ (e : Expression) (limit : Limit Errno),
      e.Runs host.toEnvironment s (type.name :: names) →
      let told := s.announced host.toEnvironment (type.name :: names)
      let full := account host.toEnvironment told names
      let wrote := { told with world := told.process.say told.world 1 (full.take limit.room) }
      told.process.limit told.world 1 = some limit →
      (full.length ≤ limit.room → (e.evaluate host s).effect = wrote.finish
        (if ∃ name ∈ names, Missing host.toEnvironment told name then 1 else 0)) ∧
      (limit.room < full.length → (e.evaluate host s).effect =
        (wrote.log host.toEnvironment .error ("type: " ++ limit.reason.report)).finish 1) ∧
      ∀ l bits content, told.process.Appends told.world 1 l (some limit) →
        told.world.tree.find? l = some (.file bits content) →
        wrote.world.tree.find? l =
          some (.file bits (content ++ full.take (min limit.room full.length)))) := by
  refine ⟨fun name _ => ShellState.asksNothing_iff s, ?_, ?_⟩
  · intro limit before full ran
    have hran : ran = _ := run_type hn limit before
    refine ⟨?_, ?_, ?_, ?_, ?_⟩
    · rw [hran, List.take_eq_take_min]
    · intro pieces hpieces
      rw [hran, Sink.writeAll_flatten, hpieces]
      rfl
    · rw [hran]
    · intro hfits
      rw [hran]
      exact if_pos hfits
    · intro hcut
      refine ⟨.output type.name limit.reason, ?_, ?_⟩
      · rw [hran]
        exact if_neg (Nat.not_le_of_lt hcut)
      · exact message_output limit.reason
  · intro e limit hruns told full wrote hl
    have hran := (Expression.evaluate_runs hruns).trans (ShellState.runCommand_type rfl hn hl)
    refine ⟨fun hfits => hran.trans (if_pos hfits),
      fun hcut => hran.trans (if_neg (Nat.not_le_of_lt hcut)), ?_⟩
    intro l bits content hl hf
    have hcut : Limit.cut (some limit) (full.take limit.room) = full.take limit.room := by
      simp [Limit.cut, List.take_take]
    rw [← List.take_eq_take_min, ← hcut]
    exact Process.say_appends hl hf

/-- An output with room for 38 bytes cuts the account of `cd`, `true` and `x` in
its second line, and the shell goes on with status 1; with room for 60 the
account is whole, and it is `x` that makes a failure. -/
theorem report_cut_at_room_within_line :
    let env : Environment :=
      ⟨none, some "/bin", Image.run, false, ⟨"parsnip", false, some .error⟩⟩
    let console (room : Nat) : ShellState :=
      ⟨Console.process 1 [], { Console.world World.standardTree [] with
        openings := [⟨.file Console.input, 0, true, false, false, none⟩,
          ⟨.file Console.output, 0, false, true, true, some ⟨room, .noSpace⟩⟩,
          ⟨.file Console.errors, 0, false, true, true, none⟩] }, 0⟩
    let word (text : Text) : Token := ⟨.string, text, ⟨1, 1⟩⟩
    let i : Invocation := ⟨word "type", [word "cd", word "true", word "x"], none⟩
    let ran (room : Nat) := ((Expression.command i).evaluate env (console room)).effect
    (ran 38).1 = .value .failure ∧ (ran 38).2.status = 1 ∧
    Console.written (ran 38).2.world Console.output =
      Utf8.encode (("cd is a shell builtin\ntrue is /bin/tru" : String) : Text) ∧
    Console.written (ran 38).2.world Console.errors = Utf8.encode
      (("parsnip: type: No space left on device (os error 28)\n" : String) : Text) ∧
    (ran 60).1 = .value .failure ∧ Console.written (ran 60).2.world Console.output = Utf8.encode
      (("cd is a shell builtin\ntrue is /bin/true\nx: not found\n" : String) : Text) := by
  intro env console word i ran
  have hwords : (i.mapWords (Expansion.expand none 1)).words.map Token.text =
      type.name :: ["cd", "true", "x"] := by decide +kernel
  have hruns (room : Nat) : (Expression.command i).Runs env (console room)
      (type.name :: ["cd", "true", "x"]) := ⟨i, .inl rfl, rfl, hwords⟩
  have hnames : (["cd", "true", "x"] : List Text) ≠ [] := List.cons_ne_nil _ _
  obtain ⟨_, _, hcut⟩ := report_cut_at_room env (console 38) hnames
  obtain ⟨_, hfailed, _⟩ := hcut _ ⟨38, .noSpace⟩ (hruns 38) rfl
  obtain ⟨_, _, hwhole⟩ := report_cut_at_room env (console 60) hnames
  obtain ⟨hcame, _, _⟩ := hwhole _ ⟨60, .noSpace⟩ (hruns 60) rfl
  have h38 : ran 38 = _ := hfailed (by decide +kernel)
  have h60 : ran 60 = _ := hcame (by decide +kernel)
  refine ⟨congrArg Prod.fst h38, congrArg (fun ended => ended.2.status) h38, ?_, ?_,
    (congrArg Prod.fst h60).trans (by decide +kernel), ?_⟩
  · rw [h38]
    decide +kernel
  · rw [h38]
    decide +kernel
  · rw [h60]
    decide +kernel

end Builtin

end TinyShell
