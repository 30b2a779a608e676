import TinyShell.Proofs.Lines.Splitting

/-!
# What is decoded

Decoding undoes encoding. The lines of an input, decoded one by one, are
together what its bytes are decoded to at once, and a newline stands only at
the end of a line.
-/

set_option autoImplicit false

namespace TinyShell

namespace Utf8

theorem decodeFrom_cons (state : Option Pending) (b : UInt8) (rest : Bytes) :
    decodeFrom state (b :: rest) =
      (step state b.toNat).1 ++ decodeFrom (step state b.toNat).2 rest := by
  cases state <;> rfl

theorem toNat_byte {n : Nat} (h : n < 256) : (UInt8.ofNat n).toNat = n := by
  rw [UInt8.toNat_ofNat']
  exact Nat.mod_eq_of_lt h

theorem decodeFrom_start {n : Nat} (rest : Bytes) (hn : n < 256) :
    decodeFrom none (UInt8.ofNat n :: rest) = (start n).1 ++ decodeFrom (start n).2 rest := by
  rw [decodeFrom_cons, toNat_byte hn]
  rfl

/-- A byte in its range is the last one of a character, or one of those before. -/
theorem decodeFrom_continue {owed low high bits n : Nat} (rest : Bytes) (hn : n < 256)
    (hl : low ≤ n) (hh : n ≤ high) :
    decodeFrom (some ⟨owed, low, high, bits⟩) (UInt8.ofNat n :: rest) =
      if owed ≤ 1 then Char.ofNat (64*bits + (n - 0x80)) :: decodeFrom none rest
      else decodeFrom (some ⟨owed - 1, 0x80, 0xBF, 64*bits + (n - 0x80)⟩) rest := by
  rw [decodeFrom_cons, toNat_byte hn]
  by_cases ho : owed ≤ 1 <;> simp [step, hl, hh, ho]

theorem start_one {n : Nat} (h : n < 0x80) : start n = ([Char.ofNat n], none) := by
  rw [start, if_pos h]

theorem start_two {n : Nat} (hl : 2 ≤ n) (hh : n < 32) :
    start (n + 0xC0) = ([], some ⟨1, 0x80, 0xBF, n⟩) := by
  rw [start, if_neg (by omega), if_pos (by omega), Nat.add_sub_cancel]

/-- The first of three bytes, and the range it leaves to the second. -/
theorem start_three {n : Nat} (h : n < 16) : start (n + 0xE0) =
    ([], some ⟨2, if n = 0 then 0xA0 else 0x80, if n = 13 then 0x9F else 0xBF, n⟩) := by
  by_cases h0 : n = 0
  · subst h0
    rfl
  by_cases h13 : n = 13
  · subst h13
    rfl
  · rw [start, if_neg (by omega), if_neg (by omega), if_neg (by omega), if_neg (by omega),
      if_pos (by omega), if_neg h0, if_neg h13, Nat.add_sub_cancel]

/-- The first of four bytes, and the range it leaves to the second. -/
theorem start_four {n : Nat} (h : n ≤ 4) : start (n + 0xF0) =
    ([], some ⟨3, if n = 0 then 0x90 else 0x80, if n = 4 then 0x8F else 0xBF, n⟩) := by
  by_cases h0 : n = 0
  · subst h0
    rfl
  by_cases h4 : n = 4
  · subst h4
    rfl
  · rw [start, if_neg (by omega), if_neg (by omega), if_neg (by omega), if_neg (by omega),
      if_neg (by omega), if_neg (by omega), if_neg (by omega), if_pos (by omega), if_neg h0,
      if_neg h4, Nat.add_sub_cancel]

theorem decodeFrom_encodeChar (c : Char) (rest : Bytes) :
    decodeFrom none (String.utf8EncodeChar c ++ rest) = c :: decodeFrom none rest := by
  have hc : Char.ofNat c.val.toNat = c := Char.ofNat_toNat c
  have hvalid : c.val.toNat < 0xD800 ∨ 0xDFFF < c.val.toNat ∧ c.val.toNat < 0x110000 := c.valid
  unfold String.utf8EncodeChar
  generalize c.val.toNat = v at hc hvalid ⊢
  simp only
  -- One case for each number of bytes; `hv` puts their bits together again.
  split
  next h1 =>
    rw [List.cons_append, List.nil_append, decodeFrom_start _ (by omega), start_one (by omega), hc]
    rfl
  split
  next h1 h2 =>
    have hv : 64 * (v / 64 % 32) + (v % 64 + 128 - 0x80) = v := by omega
    rw [List.cons_append, List.cons_append, List.nil_append, decodeFrom_start _ (by omega),
      start_two (by omega) (by omega), List.nil_append,
      decodeFrom_continue _ (by omega) (by omega) (by omega), if_pos (by omega), hv, hc]
  split
  next h1 h2 h3 =>
    -- The second byte stays in its range since `v` is not a surrogate.
    have hv : 64 * (64 * (v / 4096 % 16) + (v / 64 % 64 + 128 - 0x80)) +
        (v % 64 + 128 - 0x80) = v := by
      omega
    rw [List.cons_append, List.cons_append, List.cons_append, List.nil_append,
      decodeFrom_start _ (by omega), start_three (by omega), List.nil_append,
      decodeFrom_continue _ (by omega) (by split <;> omega) (by split <;> omega),
      if_neg (by omega), decodeFrom_continue _ (by omega) (by omega) (by omega),
      if_pos (by omega), hv, hc]
  next h1 h2 h3 =>
    have hv : 64 * (64 * (64 * (v / 262144 % 8) + (v / 4096 % 64 + 128 - 0x80)) +
        (v / 64 % 64 + 128 - 0x80)) + (v % 64 + 128 - 0x80) = v := by
      omega
    rw [List.cons_append, List.cons_append, List.cons_append, List.cons_append, List.nil_append,
      decodeFrom_start _ (by omega), start_four (by omega), List.nil_append,
      decodeFrom_continue _ (by omega) (by split <;> omega) (by split <;> omega),
      if_neg (by omega), decodeFrom_continue _ (by omega) (by omega) (by omega),
      if_neg (by omega), decodeFrom_continue _ (by omega) (by omega) (by omega),
      if_pos (by omega), hv, hc]

theorem decode_encode (text : Text) : decode (encode text) = text := by
  unfold decode encode
  induction text with
  | nil => rfl
  | cons c text ih => rw [List.flatMap_cons, decodeFrom_encodeChar, ih]

def Pending.Large (p : Pending) : Prop := 0 < p.bits ∨ 0x90 ≤ p.low

theorem start_large {b : Nat} {p : Pending} (h : (start b).2 = some p) : p.Large := by
  unfold start at h
  repeat' split at h
  all_goals cases h
  all_goals simp only [Pending.Large]
  all_goals omega

theorem ofNat_ne_newline {n : Nat} (h : n ≠ 10) : Char.ofNat n ≠ '\n' := by
  intro hn
  by_cases hv : n.isValidChar
  · rw [Char.ofNat, dif_pos hv] at hn
    exact h (congrArg Char.toNat hn)
  · rw [Char.ofNat, dif_neg hv] at hn
    exact absurd (congrArg Char.toNat hn) (by decide)

theorem start_newline {b : Nat} (hb : b ≠ 10) : '\n' ∉ (start b).1 := by
  have hne := ofNat_ne_newline hb
  unfold start
  repeat' split
  all_goals simp [replacement, hne.symm]

theorem step_large {state : Option Pending} (h : ∀ p, state = some p → p.Large) {b : Nat}
    (hb : b ≠ 10) :
    '\n' ∉ (step state b).1 ∧ ∀ p, (step state b).2 = some p → p.Large := by
  cases state with
  | none => exact ⟨start_newline hb, fun p => start_large⟩
  | some q =>
    have hq : q.Large := h q rfl
    simp only [step]
    split
    next hr =>
      have hbits : 10 < 64*q.bits + (b - 0x80) := by
        unfold Pending.Large at hq
        omega
      split
      next => exact ⟨by simp [(ofNat_ne_newline (Nat.ne_of_gt hbits)).symm], by simp⟩
      next =>
        refine ⟨by simp, ?_⟩
        intro p hp
        cases hp
        exact .inl (Nat.lt_of_le_of_lt (Nat.zero_le _) hbits)
    next => exact ⟨by simp [replacement, start_newline hb], fun p => start_large⟩

theorem decodeFrom_newline {state : Option Pending} (h : ∀ p, state = some p → p.Large)
    {bytes : Bytes} (hb : Input.newlineByte ∉ bytes) : '\n' ∉ decodeFrom state bytes := by
  induction bytes generalizing state with
  | nil => cases state <;> simp [decodeFrom, replacement]
  | cons b bytes ih =>
    have hne : b.toNat ≠ 10 := by
      intro hn
      exact hb (by simp [show b = Input.newlineByte from UInt8.toNat_inj.mp hn])
    obtain ⟨htext, hnext⟩ := step_large h hne
    rw [decodeFrom_cons, List.mem_append]
    rintro (hm | hm)
    · exact htext hm
    · exact ih hnext (fun hm => hb (by simp [hm])) hm

theorem decodeFrom_append {state : Option Pending} (h : ∀ p, state = some p → p.Continues)
    (bytes rest : Bytes) : decodeFrom state (bytes ++ Input.newlineByte :: rest) =
      decodeFrom state (bytes ++ [Input.newlineByte]) ++ decode rest := by
  induction bytes generalizing state with
  | nil =>
    obtain ⟨text, ht⟩ := step_newline h
    rw [List.nil_append, List.nil_append, decodeFrom_cons, decodeFrom_cons, ht]
    simp [decodeFrom, decode]
  | cons b bytes ih =>
    rw [List.cons_append, List.cons_append, decodeFrom_cons, decodeFrom_cons,
      ih fun p => step_continues, List.append_assoc]

theorem decodeFrom_dropLast {state : Option Pending}
    (h : ∀ p, state = some p → p.Large ∧ p.Continues) {bytes : Bytes}
    (hb : Input.newlineByte ∉ bytes) :
    '\n' ∉ (decodeFrom state (bytes ++ [Input.newlineByte])).dropLast := by
  induction bytes generalizing state with
  | nil =>
    cases state with
    | none => exact List.not_mem_nil
    | some p =>
      have hnot : ¬ (p.low ≤ Input.newlineByte.toNat ∧ Input.newlineByte.toNat ≤ p.high) := by
        have hlow : 0x80 ≤ p.low := (h p rfl).2
        have hb : Input.newlineByte.toNat = 10 := rfl
        omega
      rw [List.nil_append, decodeFrom_cons]
      simp only [step, if_neg hnot]
      decide
  | cons b bytes ih =>
    have hne : b.toNat ≠ 10 := by
      intro hn
      exact hb (by simp [show b = Input.newlineByte from UInt8.toNat_inj.mp hn])
    obtain ⟨htext, hnext⟩ := step_large (fun p hp => (h p hp).1) hne
    have hrest : decodeFrom (step state b.toNat).2 (bytes ++ [Input.newlineByte]) ≠ [] :=
      Text.finished_ne_nil (decodeFrom_finished (fun p => step_continues) bytes)
    rw [List.cons_append, decodeFrom_cons, List.dropLast_append_of_ne_nil hrest,
      List.mem_append]
    rintro (hm | hm)
    · exact htext hm
    · exact ih (fun p hp => ⟨hnext p hp, step_continues hp⟩) (fun hm => hb (by simp [hm])) hm

theorem between (P : Pending → Prop) : ∀ p, (none : Option Pending) = some p → P p := by simp

end Utf8

namespace Input

def IsPiece (piece : Bytes) : Prop := ∃ init, piece = init ++ [newlineByte] ∧ newlineByte ∉ init

theorem splitLines_join (bytes : Bytes) :
    (splitLines bytes).1.flatten ++ (splitLines bytes).2 = bytes ∧
      (∀ piece ∈ (splitLines bytes).1, IsPiece piece) ∧ newlineByte ∉ (splitLines bytes).2 := by
  induction bytes with
  | nil => simp [splitLines]
  | cons b bytes ih =>
    obtain ⟨hjoin, hpieces, hlast⟩ := ih
    simp only [splitLines]
    by_cases hb : b = newlineByte
    · subst hb
      simp only [if_true]
      refine ⟨by simp [hjoin], ?_, hlast⟩
      intro piece hm
      rcases List.mem_cons.mp hm with rfl | hm
      · exact ⟨[], rfl, by simp⟩
      · exact hpieces piece hm
    · rw [if_neg hb]
      cases hp : (splitLines bytes).1 with
      | nil =>
        rw [hp] at hjoin
        exact ⟨by simpa using hjoin, by simp, by simp [Ne.symm hb, hlast]⟩
      | cons piece pieces =>
        rw [hp] at hjoin hpieces
        refine ⟨by simpa using hjoin, ?_, hlast⟩
        intro other hm
        rcases List.mem_cons.mp hm with rfl | hm
        · obtain ⟨init, rfl, hinit⟩ := hpieces piece (by simp)
          exact ⟨b :: init, rfl, by simp [Ne.symm hb, hinit]⟩
        · exact hpieces other (by simp [hm])

theorem decode_pieces {pieces : List Bytes} (h : ∀ piece ∈ pieces, IsPiece piece)
    (rest : Bytes) :
    Utf8.decode (pieces.flatten ++ rest) = pieces.flatMap Utf8.decode ++ Utf8.decode rest := by
  induction pieces with
  | nil => rfl
  | cons piece pieces ih =>
    obtain ⟨init, rfl, _⟩ := h piece (by simp)
    have hsplit := Utf8.decodeFrom_append (Utf8.between Utf8.Pending.Continues) init
      (pieces.flatten ++ rest)
    rw [List.flatten_cons, List.append_assoc, List.append_assoc, List.flatMap_cons,
      List.append_assoc, ← ih fun other hm => h other (by simp [hm])]
    exact hsplit

theorem decodeLines_text (pieces : List Bytes) :
    (decodeLines pieces).flatMap Line.text = pieces.flatMap Utf8.decode := by
  induction pieces with
  | nil => rfl
  | cons piece pieces ih =>
    cases hd : Utf8.decode piece with
    | nil => simpa [decodeLines, hd, Line.ofText] using ih
    | cons c text => simpa [decodeLines, hd, Line.ofText, Line.text] using ih

def text (input : Input) : Text := input.lines.flatMap Line.text

theorem text_ofBytes (bytes : Bytes) : (ofBytes bytes).text = Utf8.decode bytes := by
  obtain ⟨hjoin, hpieces, _⟩ := splitLines_join bytes
  have hdecode := decode_pieces hpieces (splitLines bytes).2
  rw [hjoin] at hdecode
  rw [text, ofBytes, decodeLines_text, hdecode]
  simp

/-- What is read before a fault is the beginning of what would have been read
without it. -/
theorem text_failing (bytes : Bytes) (limit : Nat) (reason : Text) :
    (failing bytes limit reason).text <+: Utf8.decode bytes := by
  obtain ⟨hjoin, hpieces, _⟩ := splitLines_join (bytes.take limit)
  have hdecode := decode_pieces hpieces ((splitLines (bytes.take limit)).2 ++ bytes.drop limit)
  rw [← List.append_assoc, hjoin, List.take_append_drop] at hdecode
  rw [text, failing, decodeLines_text, hdecode]
  exact List.prefix_append _ _

end Input

def Text.Unbroken (text : Text) : Prop := '\n' ∉ text.dropLast

namespace Input

theorem decode_piece_unbroken {piece : Bytes} (h : IsPiece piece) :
    Text.Unbroken (Utf8.decode piece) := by
  obtain ⟨init, rfl, hinit⟩ := h
  exact Utf8.decodeFrom_dropLast (Utf8.between fun p => p.Large ∧ p.Continues) hinit

theorem decode_last_unbroken {bytes : Bytes} (h : newlineByte ∉ bytes) :
    Text.Unbroken (Utf8.decode bytes) := by
  intro hm
  exact Utf8.decodeFrom_newline (Utf8.between Utf8.Pending.Large) h (List.dropLast_subset _ hm)

theorem lines_unbroken (bytes : Bytes) : ∀ line ∈ (ofBytes bytes).lines, line.text.Unbroken := by
  obtain ⟨_, hpieces, hlast⟩ := splitLines_join bytes
  intro line hm
  obtain ⟨piece, hp, hline⟩ := List.mem_filterMap.mp hm
  have htext : line.text = Utf8.decode piece := by
    cases hd : Utf8.decode piece with
    | nil => simp [hd, Line.ofText] at hline
    | cons c text =>
      simp only [hd, Line.ofText, Option.some.injEq] at hline
      rw [← hline]
      rfl
  rw [htext]
  rcases List.mem_append.mp hp with hp | hp
  · exact decode_piece_unbroken (hpieces piece hp)
  · rw [List.mem_singleton.mp hp]
    exact decode_last_unbroken hlast

end Input

end TinyShell
