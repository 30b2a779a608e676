import TinyShell.Input.Line

/-!
# Where lines end

Every line of an input but the last ends with a newline, and the last one does
so too if the input does. The lines of such an input and those of whatever
comes after it are the lines of both together.
-/

set_option autoImplicit false

namespace TinyShell

def Text.Finished (text : Text) : Prop := text.getLast? = some '\n'

theorem Text.finished_ne_nil {text : Text} (h : text.Finished) : text ≠ [] := by
  rintro rfl
  cases h

/-- A character other than the newline is not the last one of a finished text. -/
theorem Text.finished_tail {c : Char} {rest : Text} (h : Text.Finished (c :: rest))
    (hc : c ≠ '\n') : Text.Finished rest := by
  cases rest with
  | nil =>
    have hl : c = '\n' := by simpa [Text.Finished] using h
    exact absurd hl hc
  | cons d rest => simpa [Text.Finished] using h

def Parted (terminated : Bool) : List Line → Prop
  | [] => True
  | line :: lines =>
    (terminated = true ∨ lines ≠ [] → Text.Finished line.text) ∧ Parted terminated lines

namespace Utf8

def Pending.Continues (p : Pending) : Prop := 0x80 ≤ p.low

theorem start_continues {b : Nat} {p : Pending} (h : (start b).2 = some p) : p.Continues := by
  unfold start at h
  repeat' split at h
  all_goals cases h
  all_goals exact Nat.le_of_ble_eq_true rfl

theorem step_continues {state : Option Pending} {b : Nat} {p : Pending}
    (h : (step state b).2 = some p) : p.Continues := by
  cases state with
  | none => exact start_continues h
  | some q =>
    simp only [step] at h
    split at h
    · split at h
      · cases h
      · cases h
        exact Nat.le_refl _
    · exact start_continues h

theorem step_newline {state : Option Pending} (h : ∀ p, state = some p → p.Continues) :
    ∃ text, step state Input.newlineByte.toNat = (text ++ ['\n'], none) := by
  have hs : start Input.newlineByte.toNat = (['\n'], none) := rfl
  cases state with
  | none => exact ⟨[], hs⟩
  | some p =>
    have hlow : 0x80 ≤ p.low := h p rfl
    have hnot : ¬ (p.low ≤ Input.newlineByte.toNat ∧ Input.newlineByte.toNat ≤ p.high) := by
      have hb : Input.newlineByte.toNat = 10 := rfl
      omega
    exact ⟨[replacement], by simp only [step, if_neg hnot, hs]; rfl⟩

theorem decodeFrom_finished {state : Option Pending} (h : ∀ p, state = some p → p.Continues)
    (bytes : Bytes) : Text.Finished (decodeFrom state (bytes ++ [Input.newlineByte])) := by
  induction bytes generalizing state with
  | nil =>
    obtain ⟨text, ht⟩ := step_newline h
    cases state <;> simp [decodeFrom, ht, Text.Finished]
  | cons b bytes ih =>
    have hn : ∀ p, (step state b.toNat).2 = some p → p.Continues := fun p => step_continues
    have hrest := ih hn
    have happ : Text.Finished ((step state b.toNat).1 ++
        decodeFrom (step state b.toNat).2 (bytes ++ [Input.newlineByte])) := by
      rw [Text.Finished, List.getLast?_append, hrest]
      rfl
    cases state <;> exact happ

theorem decodeFrom_ne_nil (p : Pending) (bytes : Bytes) : decodeFrom (some p) bytes ≠ [] := by
  induction bytes generalizing p with
  | nil => simp [decodeFrom]
  | cons b bytes ih =>
    simp only [decodeFrom, step]
    split
    · split
      · simp
      · exact ih _
    · simp

theorem decode_ne_nil {bytes : Bytes} (h : bytes ≠ []) : decode bytes ≠ [] := by
  cases bytes with
  | nil => exact absurd rfl h
  | cons b bytes =>
    have hstart : (start b.toNat).1 ≠ [] ∨ ∃ p, (start b.toNat).2 = some p := by
      unfold start
      repeat' split
      all_goals simp
    simp only [decode, decodeFrom, step]
    rcases hstart with h | ⟨p, h⟩
    · simp [h]
    · rw [h]
      simp [decodeFrom_ne_nil]

end Utf8

namespace Input

theorem splitLines_append {b₁ : Bytes} (h : b₁ = [] ∨ b₁.getLast? = some newlineByte)
    (b₂ : Bytes) : splitLines (b₁ ++ b₂) =
      ((splitLines b₁).1 ++ (splitLines b₂).1, (splitLines b₂).2) ∧ (splitLines b₁).2 = [] ∧
      (b₁ ≠ [] → (splitLines b₁).1 ≠ []) := by
  induction b₁ with
  | nil => simp [splitLines]
  | cons b b₁ ih =>
    have hlast : b₁ = [] ∧ b = newlineByte ∨ b₁ ≠ [] ∧ b₁.getLast? = some newlineByte := by
      cases b₁ with
      | nil => simpa using h
      | cons b' b₁ => simpa using h
    rcases hlast with ⟨rfl, rfl⟩ | ⟨hne, hl⟩
    · simp [splitLines]
    · obtain ⟨happ, hrest, hsome⟩ := ih (.inr hl)
      obtain ⟨piece, pieces, hp⟩ := List.exists_cons_of_ne_nil (hsome hne)
      have hfirst : splitLines b₁ = (piece :: pieces, []) := Prod.ext hp hrest
      simp only [List.cons_append, splitLines, happ, hfirst]
      split <;> simp

theorem splitLines_pieces (bytes : Bytes) :
    (∀ piece ∈ (splitLines bytes).1, ∃ init, piece = init ++ [newlineByte]) ∧
      (splitLines bytes).1.length = bytes.count newlineByte := by
  induction bytes with
  | nil => simp [splitLines]
  | cons b bytes ih =>
    obtain ⟨hends, hcount⟩ := ih
    simp only [splitLines]
    by_cases hb : b = newlineByte
    · subst hb
      simp only [if_true, List.mem_cons, List.length_cons, List.count_cons_self, hcount]
      refine ⟨?_, trivial⟩
      rintro piece (rfl | hm)
      · exact ⟨[], rfl⟩
      · exact hends piece hm
    · rw [if_neg hb, List.count_cons_of_ne hb]
      cases hp : (splitLines bytes).1 with
      | nil => simpa [hp] using hcount
      | cons piece pieces =>
        rw [hp] at hends hcount
        refine ⟨?_, hcount⟩
        intro other hm
        rcases List.mem_cons.mp hm with rfl | hm
        · obtain ⟨init, rfl⟩ := hends piece (by simp)
          exact ⟨b :: init, rfl⟩
        · exact hends other (by simp [hm])

theorem decodeLines_append (pieces others : List Bytes) :
    decodeLines (pieces ++ others) = decodeLines pieces ++ decodeLines others :=
  List.filterMap_append

theorem decodeLines_cons (piece : Bytes) (others : List Bytes) (h : piece ≠ []) :
    ∃ line, line.text = Utf8.decode piece ∧
      decodeLines (piece :: others) = line :: decodeLines others := by
  cases hd : Utf8.decode piece with
  | nil => exact absurd hd (Utf8.decode_ne_nil h)
  | cons c rest =>
    refine ⟨⟨c, rest⟩, rfl, ?_⟩
    simp [decodeLines, hd, Line.ofText]

theorem decodeLines_pieces {pieces : List Bytes}
    (h : ∀ piece ∈ pieces, ∃ init, piece = init ++ [newlineByte]) :
    (decodeLines pieces).length = pieces.length ∧
      ∀ line ∈ decodeLines pieces, Text.Finished line.text := by
  induction pieces with
  | nil => exact ⟨rfl, by simp [decodeLines]⟩
  | cons piece pieces ih =>
    obtain ⟨hlength, hlines⟩ := ih fun other hm => h other (by simp [hm])
    obtain ⟨init, rfl⟩ := h piece (by simp)
    obtain ⟨line, htext, heq⟩ := decodeLines_cons (init ++ [newlineByte]) pieces (by simp)
    rw [heq]
    refine ⟨by simp [hlength], ?_⟩
    intro other hm
    rcases List.mem_cons.mp hm with rfl | hm
    · have fresh : ∀ p, (none : Option Utf8.Pending) = some p → p.Continues := by simp
      rw [htext]
      exact Utf8.decodeFrom_finished fresh init
    · exact hlines other hm

theorem decodeLines_last (last : Bytes) :
    ∃ line : Option Line, decodeLines [last] = line.toList := by
  cases last with
  | nil => exact ⟨none, rfl⟩
  | cons b last =>
    obtain ⟨line, _, heq⟩ := decodeLines_cons (b :: last) [] (by simp)
    exact ⟨some line, heq⟩

end Input

theorem parted_of_finished {lines : List Line} (h : ∀ line ∈ lines, Text.Finished line.text)
    (terminated : Bool) (last : Option Line) (hl : terminated = true → last = none) :
    Parted terminated (lines ++ last.toList) := by
  induction lines with
  | nil =>
    cases last with
    | none => trivial
    | some line => cases terminated <;> simp_all [Parted]
  | cons line lines ih =>
    exact ⟨fun _ => h line (by simp), ih fun other hm => h other (by simp [hm])⟩

namespace Input

variable {b₁ : Bytes}

theorem lines_append (h : b₁ = [] ∨ b₁.getLast? = some newlineByte) (b₂ : Bytes) :
    (ofBytes (b₁ ++ b₂)).lines = (ofBytes b₁).lines ++ (ofBytes b₂).lines := by
  obtain ⟨happ, hrest, _⟩ := splitLines_append h b₂
  have hnil : decodeLines [[]] = [] := rfl
  simp only [ofBytes, happ, hrest, List.append_assoc, decodeLines_append, hnil, List.append_nil]

theorem length_lines (h : b₁ = [] ∨ b₁.getLast? = some newlineByte) :
    (ofBytes b₁).lines.length = b₁.count newlineByte := by
  obtain ⟨hends, hcount⟩ := splitLines_pieces b₁
  obtain ⟨_, hrest, _⟩ := splitLines_append h []
  have hnil : decodeLines [[]] = [] := rfl
  simp only [ofBytes, hrest, decodeLines_append, hnil, List.append_nil]
  rw [(decodeLines_pieces hends).1, hcount]

theorem lines_parted (bytes : Bytes) : Parted false (ofBytes bytes).lines := by
  obtain ⟨hends, _⟩ := splitLines_pieces bytes
  obtain ⟨line, hline⟩ := decodeLines_last (splitLines bytes).2
  simp only [ofBytes, decodeLines_append, hline]
  exact parted_of_finished (decodeLines_pieces hends).2 false line (by simp)

theorem lines_terminated (h : b₁ = [] ∨ b₁.getLast? = some newlineByte) :
    Parted true (ofBytes b₁).lines := by
  obtain ⟨hends, _⟩ := splitLines_pieces b₁
  obtain ⟨_, hrest, _⟩ := splitLines_append h []
  simp only [ofBytes, hrest, decodeLines_append]
  exact parted_of_finished (decodeLines_pieces hends).2 true none fun _ => rfl

end Input

end TinyShell
