import Mathlib.Data.List.Forall2
import TinyShell.Proofs.Grammar.Rejection
import TinyShell.Proofs.Commands.Substitution
import TinyShell.Statement.Render

/-!
# Operators that are decoded and written again

The automaton makes no output operators and no merges but those that the
decoders accept, apart from numbers that are too large. The redirection that is
made of an operator is written with the numbers that were decoded, so what is
written is decoded as the token was.
-/

set_option autoImplicit false

namespace TinyShell

def Statement.written : Statement → List Redirection
  | sequence left right | and left right | or left right | pipeline left right =>
    left.written ++ right.written
  | closed inner | not inner => inner.written
  | redirect r left => left.written ++ [r]
  | bare r => [r]
  | atom _ => []

def operators (ts : List Token) : List Token := ts.filter (·.kind.isRedirection)

section Operators

variable {ts us : List Token} {t : Token}

theorem operators_append (ts us : List Token) :
    operators (ts ++ us) = operators ts ++ operators us :=
  List.filter_append ..

theorem operators_redirection (h : t.kind.isRedirection = true) :
    operators (t :: ts) = t :: operators ts :=
  List.filter_cons_of_pos (p := fun t : Token => t.kind.isRedirection) h

theorem operators_cons (h : t.kind.isRedirection = false) : operators (t :: ts) = operators ts :=
  List.filter_cons_of_neg (by simp [h])

theorem operators_none (h : ∀ t ∈ ts, t.kind.isRedirection = false) : operators ts = [] :=
  List.filter_eq_nil_iff.mpr fun t ht => by simp [h t ht]

end Operators

namespace Grammar

variable {p : Phrase} {ts : List Token} {t : Token} {s : Statement} {r : Redirection}

def Makes (t : Token) (r : Redirection) : Prop := ∃ rest, Redirects (t :: rest) r

theorem operators_newlines (h : Newlines ts) : operators ts = [] :=
  operators_none fun t ht => by rw [h t ht]; rfl

theorem operators_words (h : ∀ t ∈ ts, t.kind.isWord = true) : operators ts = [] :=
  operators_none fun t ht => not_redirection_of_word (h t ht)

theorem operators_leading (h : ∀ t ∈ ts, leads t = true) : operators ts = [] := by
  refine operators_none fun t ht => ?_
  rcases by simpa [leads] using h t ht with hk | hk <;> rw [hk] <;> rfl

theorem redirects_makes (h : Redirects ts r) : List.Forall₂ Makes (operators ts) [r] := by
  have hone {op : Token} {rest : List Token} (hop : op.kind.isRedirection = true)
      (hrest : operators rest = []) (h : Redirects (op :: rest) r) :
      List.Forall₂ Makes (operators (op :: rest)) [r] := by
    rw [operators_redirection hop, hrest]
    exact .cons ⟨rest, h⟩ .nil
  cases h with
  | file ho hn =>
    exact hone (opens_redirection ho) (operators_words (List.forall_mem_singleton.mpr hn))
      (.file ho hn)
  | merge hk ho => exact hone (by rw [hk]; rfl) rfl (.merge hk ho)

/-- Every operator of a phrase makes one redirection of its statement, and each
redirection comes from one operator. -/
theorem derives_makes (h : Derives p ts s) : List.Forall₂ Makes (operators ts) s.written := by
  have separates {t : Token} (h : IsSeparator t) : t.kind.isRedirection = false := by
    rcases h with hk | hk <;> rw [hk] <;> rfl
  have ends {t : Token} (h : IsEnd t) : t.kind.isRedirection = false := by
    rcases h with hk | hk <;> rw [hk] <;> rfl
  induction h with
  | word hh =>
    rw [operators_words (List.forall_mem_singleton.mpr hh)]
    exact .nil
  | words hh _ ha =>
    rw [operators_words (List.forall_mem_cons.mpr ⟨hh, ha⟩)]
    exact .nil
  | not hb _ ih =>
    rw [operators_cons (by rw [hb]; rfl)]
    exact ih
  | group hl _ hr ih =>
    rw [operators_cons (by rw [hl]; rfl), operators_append, operators_cons (by rw [hr]; rfl)]
    simpa [operators] using ih
  | plain _ ih | single _ ih | alone _ ih => exact ih
  | bare hr => exact redirects_makes hr
  | redirect _ hr ih =>
    rw [operators_append]
    exact List.rel_append ih (redirects_makes hr)
  | pipe _ hk hn _ ihl ihr | and _ hk hn _ ihl ihr | or _ hk hn _ ihl ihr =>
    rw [operators_append, operators_cons (by rw [hk]; rfl), operators_append,
      operators_newlines hn]
    exact List.rel_append ihl ihr
  | inner hn _ ih =>
    rw [operators_append, operators_newlines hn]
    exact ih
  | innerClosed hn _ hs hm ih =>
    rw [operators_append, operators_newlines hn, operators_append, operators_cons (separates hs),
      operators_newlines hm, List.append_nil]
    exact ih
  | innerSequence hn _ hs hm _ ihl ihr =>
    rw [operators_append, operators_newlines hn, operators_append, operators_cons (separates hs),
      operators_append, operators_newlines hm]
    exact List.rel_append ihl ihr
  | ended _ he ih =>
    rw [operators_append, operators_none (List.forall_mem_singleton.mpr (ends he)),
      List.append_nil]
    exact ih
  | closed _ hs he ih =>
    rw [operators_append, operators_cons (by rw [hs]; rfl),
      operators_none (List.forall_mem_singleton.mpr (ends he)), List.append_nil]
    exact ih
  | sequence _ hs _ ihl ihr =>
    rw [operators_append, operators_cons (by rw [hs]; rfl)]
    exact List.rel_append ihl ihr

/-- The redirections that are read are made of the operators among the tokens,
one by one, and these have been scanned. -/
theorem makes_of_read {input : Input} {q q' : TokenQueue}
    (hl : (TokenQueue.ofInput input).Later q) (h : q.read = (.ok (some s), q')) :
    ∃ ts, q.Hands ts q' ∧
      List.Forall₂ (fun t r => t.Scanned ∧ Makes t r) (operators ts) s.written := by
  obtain ⟨lead, body, hh, hlead, hd⟩ := handed_of_read h
  have hscanned := TokenQueue.hands_genuine
    (TokenQueue.genuine_invariant.later (TokenQueue.genuine_ofInput input) hl) hh
  refine ⟨lead ++ body, hh, (List.forall₂_and_left ..).mpr ⟨?_, ?_⟩⟩
  · intro t ht
    exact hscanned t (List.mem_of_mem_filter ht)
  · rw [operators_append, operators_leading hlead]
    exact derives_makes hd

end Grammar

namespace Operator

variable {digits : Text} {fd : Option Nat} {t : Token} {r : Redirection}

structure Decodes (t : Token) : Prop where
  output : t.kind = .overwrite ∨ t.kind = .append → ∃ digits, (∀ d ∈ digits, d.isDigit = true) ∧
    t.text = digits ++ arrows (t.kind == .append) ∧
    (output? t.text = none ↔ largest < Text.value digits) ∧
    ∀ fd append, output? t.text = some (fd, append) →
      Names digits fd ∧ (append = true ↔ t.kind = .append)
  merge : t.kind = .mergeStream → ∃ before after, (∀ d ∈ before, d.isDigit = true) ∧
    (∀ d ∈ after, d.isDigit = true) ∧ t.text = before ++ '>' :: '&' :: after ∧
    (merge? t.text = none ↔ largest < Text.value before ∨ largest < Text.value after) ∧
    ∀ a b, merge? t.text = some (a, b) → Names before a ∧ Names after b

theorem decodes_of_scanned (h : t.Scanned) : Decodes t where
  output := by
    intro hk
    obtain ⟨digits, hd, htext⟩ := h.output_text hk
    refine ⟨digits, hd, htext, by rw [htext]; exact output?_eq_none hd, fun fd append ho => ?_⟩
    have hv : Text.value digits ≤ largest := by
      rw [← Nat.not_lt, ← @output?_eq_none digits (t.kind == .append) hd, ← htext, ho]
      simp
    obtain ⟨fd', hn⟩ := names_of_le hd hv
    rw [output?_eq_some.mpr ⟨digits, hn, htext⟩] at ho
    cases ho
    exact ⟨hn, by simp⟩
  merge := by
    intro hk
    obtain ⟨before, after, hb, ha, htext⟩ := h.merge_text hk
    refine ⟨before, after, hb, ha, htext, by rw [htext]; exact merge?_eq_none hb ha,
      fun a b ho => ?_⟩
    have hv : ¬ (largest < Text.value before ∨ largest < Text.value after) := by
      rw [← merge?_eq_none hb ha, ← htext, ho]
      simp
    obtain ⟨hvb, hva⟩ := not_or.mp hv
    obtain ⟨a', hna⟩ := names_of_le hb (Nat.le_of_not_lt hvb)
    obtain ⟨b', hnb⟩ := names_of_le ha (Nat.le_of_not_lt hva)
    rw [merge?_eq_some.mpr ⟨before, after, hna, hnb, htext⟩] at ho
    cases ho
    exact ⟨hna, hnb⟩

theorem names_ofNat {n : Nat} (h : n ≤ largest) : Names (Text.ofNat n) (some n) := by
  have hvalue : Text.value (Text.ofNat n) = n := Nat.ofDigitChars_toDigits (by decide) (by decide)
  have hn := @Names.number (Text.ofNat n) Nat.toDigits_ne_nil (Expansion.ofNat_digits n)
    (by rwa [hvalue])
  rwa [hvalue] at hn

theorem names_written (h : Names digits fd) :
    Names (Redirection.digits (fd.map Arrow.value)) fd := by
  cases h with
  | nothing => exact .nothing
  | number _ _ hv => exact names_ofNat hv

theorem digits_given (fd : Option Nat) :
    Redirection.digits (some (Grammar.given fd)) = Redirection.digits (fd.map Arrow.value) := by
  cases fd <;> rfl

/-- An operator, and a redirection that has the descriptors that were read from
it and is written so that they are read again. -/
structure Reencoded (t : Token) (r : Redirection) : Prop where
  output : t.kind = .overwrite ∨ t.kind = .append → ∃ fd target,
    output? t.text = some (fd, t.kind == .append) ∧
    output? r.operator = some (fd, t.kind == .append) ∧
    r = if t.kind == .append then .append (fd.map Arrow.value) target
      else .overwrite (fd.map Arrow.value) target
  merge : t.kind = .mergeStream → ∃ source destination,
    merge? t.text = some (source, destination) ∧
    merge? r.operator = some (source, destination) ∧ r = .mergeOf source destination

theorem operator_output (append : Bool) (fd : Option Expression) (target : Expression) :
    (if append then Redirection.append fd target else .overwrite fd target).operator =
      Redirection.digits fd ++ arrows append := by
  unfold Redirection.operator Text.ofString
  cases append <;> rfl

theorem operator_mergeOf (source destination : Option Nat) :
    (Redirection.mergeOf source destination).operator =
      Redirection.digits (source.map Arrow.value) ++
        '>' :: '&' :: Redirection.digits (destination.map Arrow.value) := by
  rw [Grammar.mergeOf_given, ← digits_given, ← digits_given]
  unfold Redirection.operator Text.ofString
  exact List.append_assoc ..

theorem reencoded_output {append : Bool} (hs : t.Scanned)
    (hk : t.kind = .overwrite ∨ t.kind = .append) (ho : output? t.text = some (fd, append))
    (target : Expression) :
    Reencoded t (if append then .append (fd.map Arrow.value) target
      else .overwrite (fd.map Arrow.value) target) := by
  obtain ⟨digits, _, _, _, hall⟩ := (decodes_of_scanned hs).output hk
  obtain ⟨hnames, hflag⟩ := hall fd append ho
  obtain rfl : append = (t.kind == .append) := Bool.eq_iff_iff.mpr (by simpa using hflag)
  refine ⟨fun _ => ⟨fd, target, ho, ?_, rfl⟩, fun hm => ?_⟩
  · rw [operator_output]
    exact output?_eq_some.mpr ⟨_, names_written hnames, rfl⟩
  · rw [hm] at hk
    simp at hk

theorem reencoded_merge {source destination : Option Nat} (hs : t.Scanned)
    (hk : t.kind = .mergeStream) (ho : merge? t.text = some (source, destination)) :
    Reencoded t (.mergeOf source destination) := by
  obtain ⟨_, _, _, _, _, _, hall⟩ := (decodes_of_scanned hs).merge hk
  obtain ⟨hsource, hdestination⟩ := hall source destination ho
  refine ⟨by rw [hk]; simp, fun _ => ⟨source, destination, ho, ?_, rfl⟩⟩
  rw [operator_mergeOf]
  exact merge?_eq_some.mpr ⟨_, _, names_written hsource, names_written hdestination, rfl⟩

theorem reencoded_of_makes (hs : t.Scanned) (h : Grammar.Makes t r) : Reencoded t r := by
  obtain ⟨rest, h⟩ := h
  cases h with
  | file ho hn =>
    cases ho with
    | overwrite hk ho | append hk ho => exact reencoded_output hs hk ho _
    | mergeOutput hk | mergeAppend hk | input hk => constructor <;> rw [hk] <;> simp
  | merge hk ho =>
    rw [← Grammar.mergeOf_given]
    exact reencoded_merge hs hk ho

/-- The decoders accept digits around arrows, and nothing else; no number may be
larger than the largest one. Every operator that a scanner gives them has this
form, so only a number that is too large is refused, and two arrows are those of
the kind that appends. Whatever was called before: the redirections of a
statement that is read are made of its operators one by one, and are written as
operators from which the same descriptors are read. -/
theorem operators_reencoded :
    (∀ text fd append, output? text = some (fd, append) ↔
      ∃ digits, Names digits fd ∧ text = digits ++ arrows append) ∧
    (∀ text source destination, merge? text = some (source, destination) ↔
      ∃ before after, Names before source ∧ Names after destination ∧
        text = before ++ '>' :: '&' :: after) ∧
    (∀ (s s' : Scanner) (t : Token), s.next = (.ok t, s') → Decodes t) ∧
    ∀ (input : Input) (q q' : TokenQueue) (s : Statement), (TokenQueue.ofInput input).Later q →
      q.read = (.ok (some s), q') →
      ∃ ts, q.Hands ts q' ∧ List.Forall₂ Reencoded (operators ts) s.written := by
  refine ⟨fun _ _ _ => output?_eq_some, fun _ _ _ => merge?_eq_some,
    fun _ _ _ h => decodes_of_scanned (Scanner.next_scanned h), fun input q q' s hl h => ?_⟩
  obtain ⟨ts, hh, hmakes⟩ := Grammar.makes_of_read hl h
  exact ⟨ts, hh, hmakes.imp fun _ _ ht => reencoded_of_makes ht.1 ht.2⟩

theorem written_of_read {q : TokenQueue} {texts : List Text}
    (h : (match q.read.1 with
      | .ok (some s) => s.written.map Redirection.operator == texts
      | _ => false) = true) :
    ∃ s q', q.read = (.ok (some s), q') ∧ s.written.map Redirection.operator = texts := by
  cases hread : q.read with
  | mk answer q' =>
    rw [hread] at h
    split at h
    next s hanswer =>
      obtain rfl : answer = .ok (some s) := hanswer
      exact ⟨s, q', rfl, eq_of_beq h⟩
    next => cases h

/-- The text `a 007>>f 2>&`: zeros in front are not written again, and a number
that was left out is left out again. -/
theorem operators_reencoded_zeros : ∃ (ts : List Token) (s : Statement) (q' : TokenQueue),
    (TokenQueue.ofInput (.ofBytes
      [97, 32, 48, 48, 55, 62, 62, 102, 32, 50, 62, 38, 10])).read = (.ok (some s), q') ∧
    s.written.map Redirection.operator = [['7', '>', '>'], ['2', '>', '&']] ∧
    List.Forall₂ Reencoded (operators ts) s.written := by
  obtain ⟨s, q', hread, hwritten⟩ := @written_of_read
    (.ofInput (.ofBytes [97, 32, 48, 48, 55, 62, 62, 102, 32, 50, 62, 38, 10]))
    [['7', '>', '>'], ['2', '>', '&']] (by decide +kernel)
  obtain ⟨ts, _, hts⟩ := operators_reencoded.2.2.2 _ _ q' s .now hread
  exact ⟨ts, s, q', hread, hwritten, hts⟩

end Operator

end TinyShell
