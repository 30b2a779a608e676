import TinyShell.Proofs.Lines.Ending

/-!
# What a cursor delivers

A cursor may be asked anything in any order. The characters it passes, with
those it drops at the end of a line, are the input from its beginning on, though
the input was decoded line by line. The end is shown once, and after the fault
of a reader that fails; from then on every look is refused.
-/

set_option autoImplicit false

namespace TinyShell

namespace Input

def complete (bytes : Bytes) : Bytes :=
  (bytes.reverse.dropWhile (· ≠ newlineByte)).reverse

def legible (bytes : Bytes) : Option (Nat × Text) → Text
  | none => Utf8.decode bytes
  | some (limit, _) => Utf8.decode (complete (bytes.take limit))

theorem flatten_pieces_getLast {pieces : List Bytes} (h : ∀ piece ∈ pieces, IsPiece piece)
    (hne : pieces.flatten ≠ []) : pieces.flatten.getLast? = some newlineByte := by
  induction pieces with
  | nil => exact absurd rfl hne
  | cons piece pieces ih =>
    obtain ⟨init, rfl, _⟩ := h piece (by simp)
    by_cases hrest : pieces.flatten = []
    · simp [hrest]
    · have hlast := ih (fun other hm => h other (by simp [hm])) hrest
      rw [List.flatten_cons, List.getLast?_append, hlast]
      rfl

theorem flatten_splitLines (bytes : Bytes) : (splitLines bytes).1.flatten = complete bytes := by
  obtain ⟨hjoin, hpieces, hlast⟩ := splitLines_join bytes
  generalize hfront : (splitLines bytes).1.flatten = front at hjoin ⊢
  have hrest : ∀ b ∈ (splitLines bytes).2.reverse, decide (b ≠ newlineByte) = true := by
    intro b hb
    apply decide_eq_true
    rintro rfl
    exact hlast (List.mem_reverse.mp hb)
  rw [complete, ← hjoin, List.reverse_append, List.dropWhile_append_of_pos hrest]
  cases hr : front.reverse with
  | nil => simpa using hr
  | cons b others =>
    have hne : front ≠ [] := by
      rintro rfl
      cases hr
    have hend : front.getLast? = some newlineByte := by
      rw [← hfront] at hne ⊢
      exact flatten_pieces_getLast hpieces hne
    rw [← List.head?_reverse, hr] at hend
    obtain rfl : b = newlineByte := Option.some.inj hend
    rw [List.dropWhile_cons_of_neg (by simp), ← hr, List.reverse_reverse]

theorem text_delivered (bytes : Bytes) (fault : Option (Nat × Text)) :
    (delivered bytes fault).text = legible bytes fault := by
  cases fault with
  | none => exact text_ofBytes bytes
  | some fault =>
    obtain ⟨_, hpieces, _⟩ := splitLines_join (bytes.take fault.1)
    have hdecode := decode_pieces hpieces []
    rw [List.append_nil, flatten_splitLines] at hdecode
    show (failing bytes fault.1 fault.2).text = Utf8.decode (complete (bytes.take fault.1))
    rw [hdecode, text, failing, decodeLines_text]
    simp [Utf8.decode, Utf8.decodeFrom]

theorem legible_prefix (bytes : Bytes) (fault : Option (Nat × Text)) :
    legible bytes fault <+: Utf8.decode bytes := by
  cases fault with
  | none => exact List.prefix_refl _
  | some fault =>
    rw [← text_delivered]
    exact text_failing bytes fault.1 fault.2

end Input

namespace Cursor

inductive Request
  | peek
  | advance
  | clear
  | position
deriving DecidableEq, Repr

def act : Request → Cursor → Cursor
  | .peek, c => c.peek.2
  | .advance, c => c.advance
  | .clear, c => c.clear
  | .position, c => c

def passing : Request → Cursor → Text
  | .advance, c => c.rest.take 1
  | .clear, c => c.rest
  | .peek, _ | .position, _ => []

def after : List Request → Cursor → Cursor
  | [], c => c
  | q :: rest, c => after rest (c.act q)

def passed : List Request → Cursor → Text
  | [], _ => []
  | q :: rest, c => c.passing q ++ passed rest (c.act q)

def shown : List Request → Cursor → List (Except Failure (Option Char))
  | [], _ => []
  | .peek :: rest, c => c.peek.1 :: shown rest c.peek.2
  | q :: rest, c => shown rest (c.act q)

def closing (fault : Option Text) (looks : Nat) : Phase → List (Except Failure (Option Char))
  | .reading => (fault.map fun reason => .error (.inputFault reason)).toList ++
      .ok none :: List.replicate looks (.error .inputClosed)
  | .ended => .ok none :: List.replicate looks (.error .inputClosed)
  | .closed => List.replicate looks (.error .inputClosed)

structure Sound (fault : Option Text) (c : Cursor) : Prop where
  fault : c.fault = fault
  spent : c.phase ≠ .reading → c.rest = [] ∧ c.upcoming = []

variable {fault : Option Text} {c c' : Cursor} {r : Except Failure (Option Char)} {x : Char}

theorem ofInput_sound (input : Input) : (ofInput input).Sound input.fault :=
  ⟨rfl, fun h => absurd rfl h⟩

/-- A look shows the next character and goes on showing it; or no character is
left, and it shows what closes the input. -/
theorem peek_cases (h : c.Sound fault) :
    c.peek.2.Sound fault ∧ c.peek.2.ahead = c.ahead ∧
      ((∃ x rest, c.ahead = x :: rest ∧ c.peek.1 = .ok (some x) ∧ c.peek.2.peek = c.peek ∧
        c.phase = .reading ∧ c.peek.2.phase = .reading) ∨
      c.ahead = [] ∧ c.peek.2.phase ≠ .reading ∧ (∀ x, c.peek.1 ≠ .ok (some x)) ∧
        ∀ looks, ∃ looks', c.peek.1 :: closing fault looks c.peek.2.phase =
          closing fault looks' c.phase) := by
  obtain ⟨upcoming, reported, rest, column, lineNumber, asked, phase⟩ := c
  obtain ⟨hfault, hspent⟩ := h
  simp only at hfault hspent
  subst hfault
  cases phase with
  | closed =>
    obtain ⟨rfl, rfl⟩ := hspent (by simp)
    exact ⟨⟨rfl, hspent⟩, rfl,
      .inr ⟨rfl, by simp [peek], by simp [peek], fun looks => ⟨looks + 1, rfl⟩⟩⟩
  | ended =>
    obtain ⟨rfl, rfl⟩ := hspent (by simp)
    exact ⟨⟨rfl, fun _ => ⟨rfl, rfl⟩⟩, rfl,
      .inr ⟨rfl, by simp [peek], by simp [peek], fun looks => ⟨looks, rfl⟩⟩⟩
  | reading =>
    cases rest with
    | cons x rest => exact ⟨⟨rfl, hspent⟩, rfl, .inl ⟨x, _, rfl, rfl, rfl, rfl, rfl⟩⟩
    | nil =>
      cases upcoming with
      | cons line lines =>
        exact ⟨⟨rfl, fun hne => absurd rfl hne⟩, rfl,
          .inl ⟨line.first, _, rfl, rfl, rfl, rfl, rfl⟩⟩
      | nil =>
        cases reported with
        | none =>
          exact ⟨⟨rfl, fun _ => ⟨rfl, rfl⟩⟩, rfl,
            .inr ⟨rfl, by simp [peek], by simp [peek], fun looks => ⟨looks, rfl⟩⟩⟩
        | some reason =>
          exact ⟨⟨rfl, fun _ => ⟨rfl, rfl⟩⟩, rfl,
            .inr ⟨rfl, by simp [peek], by simp [peek], fun looks => ⟨looks, rfl⟩⟩⟩

theorem passing_ahead (h : c.Sound fault) (q : Request) :
    c.passing q ++ (c.act q).ahead = c.ahead := by
  cases q with
  | peek => exact (peek_cases h).2.1
  | advance =>
    cases hr : c.rest with
    | nil => simp [passing, act, advance, hr]
    | cons x rest => simp [passing, act, advance, ahead, hr]
  | clear => simp [passing, act, clear, ahead]
  | position => rfl

theorem act_sound (h : c.Sound fault) (q : Request) : (c.act q).Sound fault := by
  cases q with
  | peek => exact (peek_cases h).1
  | advance =>
    simp only [act, advance]
    split
    next => exact h
    next x rest hr =>
      refine ⟨h.fault, fun hp => ?_⟩
      have hnil := (h.spent hp).1
      rw [hr] at hnil
      cases hnil
  | clear => exact ⟨h.fault, fun hp => ⟨rfl, (h.spent hp).2⟩⟩
  | position => exact h

theorem passed_ahead (h : c.Sound fault) (calls : List Request) :
    (after calls c).Sound fault ∧ passed calls c ++ (after calls c).ahead = c.ahead := by
  induction calls generalizing c with
  | nil => exact ⟨h, rfl⟩
  | cons q calls ih =>
    obtain ⟨hsound, hrest⟩ := ih (act_sound h q)
    refine ⟨hsound, ?_⟩
    rw [passed, after, List.append_assoc, hrest, passing_ahead h]

theorem phase_act {q : Request} (hq : q ≠ .peek) (c : Cursor) : (c.act q).phase = c.phase := by
  cases q with
  | peek => exact absurd rfl hq
  | advance => exact phase_advance
  | clear => rfl
  | position => rfl

theorem shown_cons {q : Request} (hq : q ≠ .peek) (calls : List Request) (c : Cursor) :
    shown (q :: calls) c = shown calls (c.act q) := by
  cases q with
  | peek => exact absurd rfl hq
  | advance | clear | position => rfl

/-- Looks show characters first and then what closes the input; a cursor that
does not read any more shows no characters. -/
theorem shown_closing (h : c.Sound fault) (calls : List Request) :
    ∃ chars looks, (c.phase ≠ .reading → chars = []) ∧
      shown calls c <+: chars.map (fun x => .ok (some x)) ++ closing fault looks c.phase := by
  induction calls generalizing c with
  | nil => exact ⟨[], 0, fun _ => rfl, List.nil_prefix⟩
  | cons q calls ih =>
    obtain ⟨chars, looks, hchars, hshown⟩ := ih (act_sound h q)
    by_cases hq : q = .peek
    · subst hq
      rcases (peek_cases h).2.2 with ⟨x, _, _, hx, _, hphase, hphase'⟩ | ⟨_, hspent, _, hclosing⟩
      · refine ⟨x :: chars, looks, fun hp => absurd hphase hp, ?_⟩
        simp only [shown, hx, List.map_cons, List.cons_append, hphase]
        simp only [act, hphase'] at hshown
        exact List.cons_prefix_cons.mpr ⟨rfl, hshown⟩
      · obtain ⟨looks', hlooks⟩ := hclosing looks
        obtain rfl : chars = [] := hchars hspent
        refine ⟨[], looks', fun _ => rfl, ?_⟩
        rw [List.map_nil, List.nil_append, ← hlooks]
        exact List.cons_prefix_cons.mpr ⟨rfl, hshown⟩
    · rw [phase_act hq] at hchars hshown
      exact ⟨chars, looks, hchars, by rw [shown_cons hq]; exact hshown⟩

theorem peek_again (h : c.peek.2.peek = c.peek) (looks : Nat) :
    (after (List.replicate looks .peek) c).peek.1 = c.peek.1 := by
  induction looks generalizing c with
  | zero => rfl
  | succ looks ih =>
    have hagain := ih (c := c.peek.2) (by rw [h]; exact h)
    rw [h] at hagain
    exact hagain

/-- Whatever is asked, and in whatever order: the characters that are passed or
dropped begin what there is to read, and what there is to read begins what all
bytes are decoded to at once; without a fault it is all of that. A look shows
the character that comes next and goes on showing it. It shows none only when
all have been passed: then the fault once, if there is one, then the end once,
and then every look is refused. -/
theorem requests_deliver_input (bytes : Bytes) (fault : Option (Nat × Text))
    (calls : List Request) :
    let start := ofInput (Input.delivered bytes fault)
    let now := after calls start
    passed calls start <+: Input.legible bytes fault ∧
    Input.legible bytes fault <+: Utf8.decode bytes ∧
    (∀ x, now.peek.1 = .ok (some x) →
      passed calls start ++ [x] <+: Input.legible bytes fault ∧
      ∀ looks, (after (List.replicate looks .peek) now).peek.1 = .ok (some x)) ∧
    ((∀ x, now.peek.1 ≠ .ok (some x)) → passed calls start = Input.legible bytes fault) ∧
    ∃ (chars : Text) (looks : Nat), shown calls start <+: chars.map (fun x => .ok (some x)) ++
      ((fault.map fun f => .error (.inputFault f.2)).toList ++
      .ok none :: List.replicate looks (.error .inputClosed)) := by
  intro start now
  have hfault : (Input.delivered bytes fault).fault = fault.map Prod.snd := by
    cases fault <;> rfl
  have hsound : start.Sound (fault.map Prod.snd) := hfault ▸ ofInput_sound _
  obtain ⟨hnow, hpassed⟩ := passed_ahead hsound calls
  have hstart : start.ahead = Input.legible bytes fault := Input.text_delivered bytes fault
  rw [hstart] at hpassed
  refine ⟨⟨_, hpassed⟩, Input.legible_prefix bytes fault, ?_, ?_, ?_⟩
  · intro x hx
    obtain ⟨_, _, ⟨y, rest, hahead, hy, hagain, _, _⟩ | ⟨_, _, hnone, _⟩⟩ := peek_cases hnow
    · rw [hy] at hx
      cases hx
      refine ⟨⟨rest, ?_⟩, fun looks => (peek_again hagain looks).trans hy⟩
      rw [List.append_assoc, ← hpassed, hahead]
      rfl
    · exact absurd hx (hnone x)
  · intro hx
    obtain ⟨_, _, ⟨y, _, _, hy, _⟩ | ⟨hahead, _⟩⟩ := peek_cases hnow
    · exact absurd hy (hx y)
    · rw [← hpassed, hahead, List.append_nil]
  · obtain ⟨chars, looks, _, hshown⟩ := shown_closing hsound calls
    have hreading : start.phase = .reading := rfl
    rw [hreading, closing, Option.map_map] at hshown
    exact ⟨chars, looks, hshown⟩

end Cursor

end TinyShell
