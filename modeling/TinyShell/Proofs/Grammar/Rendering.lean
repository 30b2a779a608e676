import TinyShell.Proofs.Lines.Relocation
import TinyShell.Proofs.Redirection.Operators

/-!
# What a rendered statement tells

Where a word, an operator or a whole statement ends can be told from what is
shown of it: words end at a blank, a quote or a bracket, operators at a blank,
and everything else at a parenthesis. So no rendered statement goes on as
another one, and the text tells the tree, all but the positions of its words.
-/

set_option autoImplicit false

namespace TinyShell

def Position.nowhere : Position → Position := fun _ => ⟨0, 0⟩

def Token.Clear (t : Token) : Prop :=
  (t.kind = .string ∧ '"' ∉ t.text) ∨
    t.kind = .command ∧ t.text ≠ [] ∧ ' ' ∉ t.text ∧ '"' ∉ t.text ∧ ']' ∉ t.text

namespace Expression

inductive MadeOf (P : Token → Prop) : Expression → Prop
  | word {t : Token} (h : P t) : MadeOf P (.word t)
  | words {head : Token} {arguments : List Token} (h : ∀ t ∈ head :: arguments, P t) :
      MadeOf P (.command ⟨head, arguments, none⟩)

def words : Expression → List Token
  | command i | string i => i.words
  | value _ => []

end Expression

namespace Redirection

inductive MadeOf (P : Token → Prop) : Redirection → Prop
  | file {op name : Token} {make : Expression → Redirection} (ho : Grammar.Opens op make)
      (h : P name) : MadeOf P (make (.word name))
  | merge (source destination : Option Nat) :
      MadeOf P (.mergeStream (Grammar.given source) (Grammar.given destination))

def words (r : Redirection) : List Token := (r.target?.map Expression.words).getD []

end Redirection

namespace Statement

def MadeOf (P : Token → Prop) : Statement → Prop
  | sequence left right | and left right | or left right | pipeline left right =>
    left.MadeOf P ∧ right.MadeOf P
  | closed inner | not inner => inner.MadeOf P
  | redirect r left => r.MadeOf P ∧ left.MadeOf P
  | bare r => r.MadeOf P
  | atom e => e.MadeOf P

def words : Statement → List Token
  | sequence left right | and left right | or left right | pipeline left right =>
    left.words ++ right.words
  | closed inner | not inner => inner.words
  | redirect r left => left.words ++ r.words
  | bare r => r.words
  | atom e => e.words

end Statement

section Words

variable {P Q : Token → Prop}

theorem Expression.words_word (t : Token) : (word t).words = [t] := by
  unfold word
  split <;> rfl

theorem Expression.MadeOf.imp {e : Expression} (h : e.MadeOf P) (hq : ∀ t ∈ e.words, P t → Q t) :
    e.MadeOf Q := by
  cases h with
  | word h => exact .word (hq _ (by simp [words_word]) h)
  | words h => exact .words fun t ht => hq t ht (h t ht)

theorem Redirection.words_opens {op name : Token} {make : Expression → Redirection}
    (h : Grammar.Opens op make) : (make (.word name)).words = [name] := by
  cases h <;> exact Expression.words_word name

theorem Redirection.MadeOf.imp {r : Redirection} (h : r.MadeOf P)
    (hq : ∀ t ∈ r.words, P t → Q t) : r.MadeOf Q := by
  cases h with
  | file ho h => exact .file ho (hq _ (by simp [words_opens ho]) h)
  | merge => exact .merge _ _

theorem Statement.MadeOf.imp {s : Statement} (h : s.MadeOf P) (hq : ∀ t ∈ s.words, P t → Q t) :
    s.MadeOf Q := by
  induction s with
  | sequence left right ihl ihr | and left right ihl ihr | or left right ihl ihr
  | pipeline left right ihl ihr =>
    exact ⟨ihl h.1 fun t ht => hq t (List.mem_append_left _ ht),
      ihr h.2 fun t ht => hq t (List.mem_append_right _ ht)⟩
  | closed inner ih | not inner ih => exact ih h hq
  | redirect r left ih =>
    exact ⟨h.1.imp fun t ht => hq t (List.mem_append_right _ ht),
      ih h.2 fun t ht => hq t (List.mem_append_left _ ht)⟩
  | bare r => exact Redirection.MadeOf.imp h hq
  | atom e => exact Expression.MadeOf.imp h hq

theorem Grammar.derives_madeOf {p : Phrase} {ts : List Token} {s : Statement} (h : Derives p ts s)
    (hp : ∀ t ∈ ts, t.kind.isWord = true → P t) : s.MadeOf P := by
  have redirects {ts : List Token} {r : Redirection} (h : Redirects ts r)
      (hp : ∀ t ∈ ts, t.kind.isWord = true → P t) : r.MadeOf P := by
    cases h with
    | file ho hn => exact .file ho (hp _ (by simp) hn)
    | merge => exact .merge _ _
  induction h with
  | word hh => exact .word (hp _ (by simp) hh)
  | words hh _ ha =>
    refine .words fun t ht => hp t ht ?_
    rcases List.mem_cons.mp ht with rfl | ht
    · exact hh
    · exact ha t ht
  | plain _ ih | single _ ih | alone _ ih => exact ih hp
  | bare hr => exact redirects hr hp
  | redirect _ hr ih =>
    exact ⟨redirects hr fun t ht => hp t (by simp [ht]), ih fun t ht => hp t (by simp [ht])⟩
  | not _ _ ih | group _ _ _ ih | inner _ _ ih | innerClosed _ _ _ _ ih | ended _ _ ih
  | closed _ _ _ ih => exact ih fun t ht => hp t (by simp [ht])
  | pipe _ _ _ _ ihl ihr | and _ _ _ _ ihl ihr | or _ _ _ _ ihl ihr
  | innerSequence _ _ _ _ _ ihl ihr | sequence _ _ _ ihl ihr =>
    exact ⟨ihl fun t ht => hp t (by simp [ht]), ihr fun t ht => hp t (by simp [ht])⟩

end Words

/-- A word that was scanned is clear, unless it is a command word with a closing
bracket in it. -/
theorem Token.Scanned.clear {t : Token} (h : t.Scanned) (hw : t.kind.isWord = true)
    (hb : t.kind = .command → ']' ∉ t.text) : t.Clear := by
  obtain ⟨kind, text, position⟩ := t
  dsimp only [Scanned] at h hw hb
  rcases h with rfl | hs
  · cases hw
  have absent {text : Text} (ht : ∀ c ∈ text, isCommandChar c = true) {c : Char}
      (hc : isCommandChar c = false) : c ∉ text := by
    intro hm
    rw [ht c hm] at hc
    cases hc
  cases hs with
  | command hn ht =>
    exact .inr ⟨rfl, hn, absent ht (by decide), absent ht (by decide), hb rfl⟩
  | string hq _ => exact .inl ⟨rfl, hq⟩
  | mergeStream => cases hw
  | numbered _ hm =>
    exfalso
    simp only [numberedOperators, List.mem_cons, Prod.mk.injEq, List.not_mem_nil, or_false] at hm
    grind [TokenKind.isWord]
  | plain hm =>
    exfalso
    simp only [plainOperators, List.mem_cons, Prod.mk.injEq, List.not_mem_nil, or_false] at hm
    grind [TokenKind.isWord]

/-- The first of two characters ends both texts before it, if neither text has
the one that ends the other. -/
theorem Text.append_cons_inj {a b rest rest' : Text} {c d : Char} (hd : d ∉ a) (hc : c ∉ b)
    (h : a ++ c :: rest = b ++ d :: rest') : a = b ∧ c = d ∧ rest = rest' := by
  induction a generalizing b with
  | nil =>
    cases b with
    | nil =>
      obtain ⟨hcd, hrest⟩ := List.cons.inj h
      exact ⟨rfl, hcd, hrest⟩
    | cons x b =>
      obtain ⟨rfl, _⟩ := List.cons.inj h
      exact absurd List.mem_cons_self hc
  | cons x a ih =>
    cases b with
    | nil =>
      obtain ⟨rfl, _⟩ := List.cons.inj h
      exact absurd List.mem_cons_self hd
    | cons y b =>
      obtain ⟨rfl, htail⟩ := List.cons.inj h
      obtain ⟨rfl, hcd, hrest⟩ := ih (fun hm => hd (List.mem_cons_of_mem _ hm))
        (fun hm => hc (List.mem_cons_of_mem _ hm)) htail
      exact ⟨rfl, hcd, hrest⟩

open Position (nowhere)

section Expressions

variable {t t' : Token} {c d : Char} {rest rest' : Text}

theorem Token.relocate_nowhere_eq (hk : t.kind = t'.kind) (ht : t.text = t'.text) :
    t.relocate nowhere = t'.relocate nowhere := by
  simp [relocate, hk, ht, nowhere]

theorem quoted_inj {text text' : Text} (ht : '"' ∉ text) (ht' : '"' ∉ text')
    (h : text ++ '"' :: rest = text' ++ '"' :: rest') : text = text' ∧ rest = rest' := by
  obtain ⟨htext, _, hrest⟩ := Text.append_cons_inj ht ht' h
  exact ⟨htext, hrest⟩

/-- A word is told by its text as far as a blank or a closing bracket. -/
theorem renderWord_inj (h : t.Clear) (h' : t'.Clear) (hc : c = ' ' ∨ c = ']')
    (hd : d = ' ' ∨ d = ']')
    (he : Expression.renderWord t ++ c :: rest = Expression.renderWord t' ++ d :: rest') :
    t.relocate nowhere = t'.relocate nowhere ∧ c = d ∧ rest = rest' := by
  have plain {t : Token} (hk : t.kind = .command) : Expression.renderWord t = t.text := by
    simp [Expression.renderWord, hk]
  have quoted {t : Token} (hk : t.kind = .string) :
      Expression.renderWord t = '"' :: (t.text ++ ['"']) := by
    simp [Expression.renderWord, hk]
  have first {t : Token} (hn : t.text ≠ []) (hq : '"' ∉ t.text) (rest u : Text) :
      t.text ++ rest ≠ '"' :: u := by
    obtain ⟨x, xs, hx⟩ := List.exists_cons_of_ne_nil hn
    rw [hx] at hq ⊢
    intro h
    exact hq (by simp [(List.cons.inj h).1])
  rcases h with ⟨hk, hq⟩ | ⟨hk, hn, hb, hq, hp⟩ <;>
    rcases h' with ⟨hk', hq'⟩ | ⟨hk', hn', hb', hq', hp'⟩
  · rw [quoted hk, quoted hk'] at he
    obtain ⟨htext, hrest⟩ := quoted_inj hq hq' (by simpa using he)
    obtain ⟨hcd, hrest⟩ := List.cons.inj hrest
    exact ⟨Token.relocate_nowhere_eq (hk.trans hk'.symm) htext, hcd, hrest⟩
  · rw [quoted hk, plain hk'] at he
    exact absurd he.symm (first hn' hq' _ _)
  · rw [plain hk, quoted hk'] at he
    exact absurd he (first hn hq _ _)
  · rw [plain hk, plain hk'] at he
    have absent {x : Char} {text : Text} (hx : x = ' ' ∨ x = ']') (hb : ' ' ∉ text)
        (hp : ']' ∉ text) : x ∉ text := by
      rcases hx with rfl | rfl <;> assumption
    obtain ⟨htext, hcd, hrest⟩ :=
      Text.append_cons_inj (absent hd hb hp) (absent hc hb' hp') he
    exact ⟨Token.relocate_nowhere_eq (hk.trans hk'.symm) htext, hcd, hrest⟩

theorem words_inj {head head' : Token} {ts ts' : List Token} (h : ∀ t ∈ head :: ts, t.Clear)
    (h' : ∀ t ∈ head' :: ts', t.Clear)
    (he : Text.spaced ((head :: ts).map Expression.renderWord) ++ ']' :: rest =
      Text.spaced ((head' :: ts').map Expression.renderWord) ++ ']' :: rest') :
    (head :: ts).map (Token.relocate nowhere) = (head' :: ts').map (Token.relocate nowhere) ∧
      rest = rest' := by
  have single (t : Token) : Text.spaced ([t].map Expression.renderWord) =
      Expression.renderWord t := by
    simp [Text.spaced, List.intercalate]
  have several (t u : Token) (us : List Token) :
      Text.spaced ((t :: u :: us).map Expression.renderWord) =
        Expression.renderWord t ++ ' ' :: Text.spaced ((u :: us).map Expression.renderWord) := by
    simp [Text.spaced, List.intercalate]
  induction ts generalizing head head' ts' with
  | nil =>
    cases ts' with
    | nil =>
      rw [single, single] at he
      obtain ⟨hw, _, hrest⟩ :=
        renderWord_inj (h head (by simp)) (h' head' (by simp)) (.inr rfl) (.inr rfl) he
      exact ⟨by simp [hw], hrest⟩
    | cons u us =>
      rw [single, several, List.append_assoc] at he
      obtain ⟨_, hcd, _⟩ :=
        renderWord_inj (h head (by simp)) (h' head' (by simp)) (.inr rfl) (.inl rfl) he
      cases hcd
  | cons u us ih =>
    cases ts' with
    | nil =>
      rw [single, several, List.append_assoc] at he
      obtain ⟨_, hcd, _⟩ :=
        renderWord_inj (h head (by simp)) (h' head' (by simp)) (.inl rfl) (.inr rfl) he
      cases hcd
    | cons u' us' =>
      rw [several, several, List.append_assoc, List.append_assoc] at he
      obtain ⟨hw, _, hrest⟩ :=
        renderWord_inj (h head (by simp)) (h' head' (by simp)) (.inl rfl) (.inl rfl) he
      obtain ⟨hws, hrest⟩ := ih (fun t ht => h t (List.mem_cons_of_mem _ ht))
        (fun t ht => h' t (List.mem_cons_of_mem _ ht)) hrest
      exact ⟨by rw [List.map_cons, hws, List.map_cons (l := u' :: us'), hw], hrest⟩

namespace Expression

variable {e e' : Expression}

theorem MadeOf.clear (h : e.MadeOf Token.Clear) :
    (∃ t, e = .string ⟨t, [], none⟩ ∧ t.kind = .string ∧ '"' ∉ t.text) ∨
      ∃ head arguments, e = .command ⟨head, arguments, none⟩ ∧
        ∀ t ∈ head :: arguments, t.Clear := by
  cases h with
  | @word t h =>
    by_cases hk : t.kind = .string
    · refine .inl ⟨t, by simp [Expression.word, hk], hk, ?_⟩
      rcases h with ⟨_, hq⟩ | ⟨_, _, _, hq, _⟩ <;> exact hq
    · exact .inr ⟨t, [], by simp [Expression.word, hk], by simpa using h⟩
  | words h => exact .inr ⟨_, _, rfl, h⟩

theorem render_inj (h : e.MadeOf Token.Clear) (h' : e'.MadeOf Token.Clear)
    (he : e.render ++ rest = e'.render ++ rest') :
    e.relocate nowhere = e'.relocate nowhere ∧ rest = rest' := by
  rcases h.clear with ⟨t, rfl, hk, hq⟩ | ⟨head, ts, rfl, hts⟩ <;>
    rcases h'.clear with ⟨t', rfl, hk', hq'⟩ | ⟨head', ts', rfl, hts'⟩
  · obtain ⟨htext, hrest⟩ := quoted_inj hq hq' (by simpa [render] using he)
    have ht := Token.relocate_nowhere_eq (hk.trans hk'.symm) htext
    exact ⟨by simp [relocate, Invocation.relocate, ht], hrest⟩
  · simp [render] at he
  · simp [render] at he
  · have hbody : Text.spaced ((head :: ts).map renderWord) ++ ']' :: rest =
        Text.spaced ((head' :: ts').map renderWord) ++ ']' :: rest' := by
      simpa [render, Invocation.words] using he
    obtain ⟨hwords, hrest⟩ := words_inj hts hts' hbody
    obtain ⟨hhead, htail⟩ := List.cons.inj hwords
    exact ⟨by simp [relocate, Invocation.relocate, hhead, htail], hrest⟩

end Expression

end Expressions

namespace Redirection

variable {P : Token → Prop} {r r' : Redirection}

def lead : Redirection → Text
  | overwrite fd _ | append fd _ => digits fd
  | mergeStream source _ => digits (some source)
  | mergeOutput _ | mergeAppend _ | input _ => []

def arrow : Redirection → Text
  | overwrite _ _ => ['>']
  | append _ _ => ['>', '>']
  | mergeOutput _ => ['&', '>']
  | mergeAppend _ => ['&', '>', '>']
  | mergeStream _ destination => '>' :: '&' :: digits (some destination)
  | input _ => ['<']

theorem operator_eq (r : Redirection) : r.operator = r.lead ++ r.arrow := by
  unfold operator Text.ofString
  cases r <;> simp [lead, arrow]

theorem digits_ofNat (n : Nat) : digits (some (.value n)) = Text.ofNat n := by
  have hn : (n : Int) ≠ unspecified := by
    unfold unspecified
    omega
  rw [digits, if_neg hn]
  rfl

theorem ofNat_inj {n m : Nat} (h : Text.ofNat n = Text.ofNat m) : n = m := by
  have hvalue (k : Nat) : Text.value (Text.ofNat k) = k :=
    Nat.ofDigitChars_toDigits (by decide) (by decide)
  rw [← hvalue n, h, hvalue m]

theorem given_inj {fd fd' : Option Nat}
    (h : digits (some (Grammar.given fd)) = digits (some (Grammar.given fd'))) : fd = fd' := by
  have hnone : digits (some (Grammar.given none)) = [] := rfl
  have hsome (n : Nat) : digits (some (Grammar.given (some n))) = Text.ofNat n := digits_ofNat n
  have hne (n : Nat) : Text.ofNat n ≠ [] := Nat.toDigits_ne_nil
  cases fd with
  | none =>
    cases fd' with
    | none => rfl
    | some m =>
      rw [hnone, hsome] at h
      exact absurd h.symm (hne m)
  | some n =>
    cases fd' with
    | none =>
      rw [hsome, hnone] at h
      exact absurd h (hne n)
    | some m =>
      rw [hsome, hsome] at h
      rw [ofNat_inj h]

theorem isDigit_given (fd : Option Nat) : ∀ c ∈ digits (some (Grammar.given fd)),
    c.isDigit = true := by
  cases fd with
  | none => nofun
  | some n =>
    rw [show Grammar.given (some n) = .value n from rfl, digits_ofNat]
    exact Expansion.ofNat_digits n

theorem MadeOf.lead_isDigit (h : r.MadeOf P) : ∀ c ∈ r.lead, c.isDigit = true := by
  cases h with
  | file ho =>
    cases ho with
    | @overwrite fd | @append fd =>
      have hfd := isDigit_given fd
      rwa [Operator.digits_given] at hfd
    | mergeOutput | mergeAppend | input => nofun
  | merge source _ => exact isDigit_given source

theorem arrow_first (r : Redirection) : ∃ c rest, r.arrow = c :: rest ∧ c.isDigit = false := by
  cases r <;> exact ⟨_, _, rfl, by decide⟩

theorem operator_inj (h : r.MadeOf P) (h' : r'.MadeOf P) (ho : r.operator = r'.operator)
    (e : Expression) : (r.mapTarget fun _ => e) = r'.mapTarget fun _ => e := by
  obtain ⟨c, rest, hr, hc⟩ := r.arrow_first
  obtain ⟨c', rest', hr', hc'⟩ := r'.arrow_first
  rw [operator_eq, operator_eq, hr, hr'] at ho
  obtain ⟨hlead, hfirst, hrest⟩ := Text.append_cons_inj
    (fun hm => by simp [h.lead_isDigit _ hm] at hc')
    (fun hm => by simp [h'.lead_isDigit _ hm] at hc) ho
  have harrow : r.arrow = r'.arrow := by rw [hr, hr', hfirst, hrest]
  have hfd {fd fd' : Option Nat}
      (h : digits (fd.map Arrow.value) = digits (fd'.map Arrow.value)) : fd = fd' := by
    apply given_inj
    rw [Operator.digits_given, Operator.digits_given]
    exact h
  cases h with
  | file hop =>
    cases h' with
    | file hop' =>
      cases hop <;> cases hop'
      case overwrite.overwrite => rw [hfd hlead]; rfl
      case append.append => rw [hfd hlead]; rfl
      all_goals first | rfl | simp [arrow] at harrow
    | merge => cases hop <;> simp [arrow] at harrow
  | merge source destination =>
    cases h' with
    | file hop' => cases hop' <;> simp [arrow] at harrow
    | merge source' destination' =>
      have hd : digits (some (Grammar.given destination)) =
          digits (some (Grammar.given destination')) := by simpa [arrow] using harrow
      rw [given_inj hlead, given_inj hd]

theorem MadeOf.target {e : Expression} (h : r.MadeOf P) (ht : r.target? = some e) :
    e.MadeOf P := by
  cases h with
  | file ho h =>
    cases ho <;>
    · obtain rfl := Option.some.inj ht
      exact .word h
  | merge => cases ht

theorem MadeOf.relocate_eq (h : r.MadeOf P) (f : Position → Position) :
    r.relocate f = r.mapTarget (Expression.relocate f) := by
  have hfd (fd : Option Nat) : (fd.map fun n : Nat => Expression.value n).map
      (Expression.relocate f) = fd.map fun n : Nat => .value n := by
    cases fd <;> rfl
  have hgiven (fd : Option Nat) : (Grammar.given fd).relocate f = Grammar.given fd := by
    cases fd <;> rfl
  cases h with
  | file ho => cases ho <;> simp [relocate, mapTarget, hfd]
  | merge => simp [relocate, mapTarget, hgiven]

def shown (r : Redirection) : Text :=
  match r.target? with
  | some target => ' ' :: target.render
  | none => []

theorem shown_inj (h : r.MadeOf Token.Clear) (h' : r'.MadeOf Token.Clear) {rest rest' : Text}
    (ho : r.operator = r'.operator)
    (he : r.shown ++ ')' :: rest = r'.shown ++ ')' :: rest') :
    r.relocate nowhere = r'.relocate nowhere ∧ rest = rest' := by
  have hmap {r : Redirection} {e : Expression} (ht : r.target? = some e) :
      r.mapTarget (Expression.relocate nowhere) = r.mapTarget fun _ => e.relocate nowhere := by
    cases r <;> first | (obtain rfl := Option.some.inj ht; rfl) | cases ht
  have hplain {r : Redirection} (e : Expression) (ht : r.target? = none) :
      r.mapTarget (Expression.relocate nowhere) = r.mapTarget fun _ => e := by
    cases r <;> first | rfl | cases ht
  rw [h.relocate_eq, h'.relocate_eq]
  unfold shown at he
  cases ht : r.target? with
  | none =>
    cases ht' : r'.target? with
    | none =>
      simp only [ht, ht', List.nil_append] at he
      rw [hplain (.value 0) ht, hplain (.value 0) ht', operator_inj h h' ho]
      exact ⟨rfl, (List.cons.inj he).2⟩
    | some target' => simp [ht, ht'] at he
  | some target =>
    cases ht' : r'.target? with
    | none => simp [ht, ht'] at he
    | some target' =>
      simp only [ht, ht', List.cons_append] at he
      obtain ⟨htarget, hrest⟩ :=
        Expression.render_inj (h.target ht) (h'.target ht') (List.cons.inj he).2
      rw [hmap ht, hmap ht', htarget, operator_inj h h' ho]
      exact ⟨rfl, (List.cons.inj hrest).2⟩

theorem operator_ne (r : Redirection) {text : Text} (hr : '>' ∉ text) (hl : '<' ∉ text) :
    r.operator ≠ text := by
  rintro rfl
  rw [operator_eq] at hr hl
  cases r with
  | input => exact hl (by simp [arrow])
  | overwrite | append | mergeOutput | mergeAppend | mergeStream => exact hr (by simp [arrow])

theorem MadeOf.operator_blank (h : r.MadeOf P) : ' ' ∉ r.operator := by
  have hdigits {text : Text} (ht : ∀ c ∈ text, c.isDigit = true) : ' ' ∉ text := by
    intro hm
    cases ht _ hm
  have harrow : ' ' ∉ r.arrow := by
    cases h with
    | file ho => cases ho <;> simp [arrow]
    | merge _ destination => simpa [arrow] using hdigits (isDigit_given destination)
  rw [operator_eq, List.mem_append]
  exact not_or.mpr ⟨hdigits h.lead_isDigit, harrow⟩

end Redirection

namespace Statement

variable {t t' : Statement} {rest rest' : Text}

def mark : Statement → Text
  | sequence _ _ | closed _ => [';']
  | and _ _ => ['&', '&']
  | or _ _ => ['|', '|']
  | not _ => ['!']
  | pipeline _ _ => ['|']
  | redirect r _ | bare r => r.operator
  | atom _ => []

def operands : Statement → Text
  | sequence left right | and left right | or left right | pipeline left right =>
    left.render ++ ' ' :: (right.render ++ [')'])
  | closed inner | not inner => inner.render ++ [')']
  | redirect r left => left.render ++ (r.shown ++ [')'])
  | bare r => '_' :: (r.shown ++ [')'])
  | atom _ => []

theorem render_eq (h : ∀ e, t ≠ atom e) : t.render = '(' :: (t.mark ++ ' ' :: t.operands) := by
  cases t with
  | atom e => exact absurd rfl (h e)
  | redirect r left | bare r =>
    unfold render Redirection.render Text.ofString
    cases ht : r.target? <;> simp [mark, operands, Redirection.shown, ht]
  | sequence | closed | and | or | not | pipeline =>
    unfold render Text.ofString
    simp [mark, operands]

theorem MadeOf.mark_blank {P : Token → Prop} (h : t.MadeOf P) : ' ' ∉ t.mark := by
  cases t with
  | redirect => exact h.1.operator_blank
  | bare => exact Redirection.MadeOf.operator_blank h
  | sequence | closed | and | or | not | pipeline | atom => simp [mark]

theorem render_atom {e : Expression} (h : e.MadeOf Token.Clear) :
    ∃ c text, (atom e).render = c :: text ∧ (c = '"' ∨ c = '[') := by
  rcases h.clear with ⟨t, rfl, _⟩ | ⟨head, ts, rfl, _⟩
  · exact ⟨_, _, rfl, .inl rfl⟩
  · exact ⟨_, _, rfl, .inr rfl⟩

theorem render_first (h : t.MadeOf Token.Clear) (text : Text) : t.render ++ rest ≠ '_' :: text := by
  intro he
  by_cases hn : ∃ e, t = atom e
  · obtain ⟨e, rfl⟩ := hn
    obtain ⟨c, others, hr, hc⟩ := render_atom h
    rw [hr] at he
    obtain ⟨rfl, _⟩ := List.cons.inj he
    rcases hc with hc | hc <;> cases hc
  · rw [render_eq fun e hs => hn ⟨e, hs⟩] at he
    cases he

theorem mark_inj (h : t.MadeOf Token.Clear) (h' : t'.MadeOf Token.Clear) (hn : ∀ e, t ≠ atom e)
    (he : t.render ++ rest = t'.render ++ rest') :
    (∀ e, t' ≠ atom e) ∧ t.mark = t'.mark ∧ t.operands ++ rest = t'.operands ++ rest' := by
  have hn' : ∀ e, t' ≠ atom e := by
    rintro e rfl
    obtain ⟨c, text, hr, hc⟩ := render_atom h'
    rw [render_eq hn, hr] at he
    obtain ⟨rfl, _⟩ := List.cons.inj he
    rcases hc with hc | hc <;> cases hc
  rw [render_eq hn, render_eq hn'] at he
  obtain ⟨hmark, _, hrest⟩ := Text.append_cons_inj h.mark_blank h'.mark_blank
    (by simpa using he)
  exact ⟨hn', hmark, hrest⟩

inductive SameMark : Statement → Statement → Prop
  | sequence (left right left' right' : Statement) :
      SameMark (sequence left right) (sequence left' right')
  | closed (left left' : Statement) : SameMark (closed left) (closed left')
  | closing (left right left' : Statement) : SameMark (sequence left right) (closed left')
  | continuing (left left' right' : Statement) : SameMark (closed left) (sequence left' right')
  | and (left right left' right' : Statement) : SameMark (and left right) (and left' right')
  | or (left right left' right' : Statement) : SameMark (or left right) (or left' right')
  | not (inner inner' : Statement) : SameMark (not inner) (not inner')
  | pipeline (left right left' right' : Statement) :
      SameMark (pipeline left right) (pipeline left' right')
  | redirect (r r' : Redirection) (left left' : Statement) (h : r.operator = r'.operator) :
      SameMark (redirect r left) (redirect r' left')
  | bare (r r' : Redirection) (h : r.operator = r'.operator) : SameMark (bare r) (bare r')
  | emptying (r r' : Redirection) (left : Statement) : SameMark (redirect r left) (bare r')
  | filling (r r' : Redirection) (left' : Statement) : SameMark (bare r) (redirect r' left')

theorem sameMark_of_eq (hn : ∀ e, t ≠ atom e) (hn' : ∀ e, t' ≠ atom e) (hm : t.mark = t'.mark) :
    SameMark t t' := by
  cases t with
  | atom e => exact absurd rfl (hn e)
  | redirect r left =>
    cases t' with
    | redirect r' left' => exact .redirect r r' left left' hm
    | bare r' => exact .emptying r r' left
    | atom e => exact absurd rfl (hn' e)
    | _ => exact absurd hm (r.operator_ne (by simp [mark]) (by simp [mark]))
  | bare r =>
    cases t' with
    | redirect r' left' => exact .filling r r' left'
    | bare r' => exact .bare r r' hm
    | atom e => exact absurd rfl (hn' e)
    | _ => exact absurd hm (r.operator_ne (by simp [mark]) (by simp [mark]))
  | _ =>
    cases t' with
    | atom e => exact absurd rfl (hn' e)
    | redirect r' _ | bare r' =>
      exact absurd hm.symm (r'.operator_ne (by simp [mark]) (by simp [mark]))
    | _ => first | constructor | simp [mark] at hm

theorem sameMark_of_render (h : t.MadeOf Token.Clear) (h' : t'.MadeOf Token.Clear)
    (hn : ∀ e, t ≠ atom e) (he : t.render ++ rest = t'.render ++ rest') :
    SameMark t t' ∧ t.operands ++ rest = t'.operands ++ rest' := by
  obtain ⟨hn', hm, ho⟩ := mark_inj h h' hn he
  exact ⟨sameMark_of_eq hn hn' hm, ho⟩

theorem both_inj {left left' right right' : Statement}
    (hl : ∀ {u u' : Text}, left.render ++ u = left'.render ++ u' →
      left.relocate nowhere = left'.relocate nowhere ∧ u = u')
    (hr : ∀ {u u' : Text}, right.render ++ u = right'.render ++ u' →
      right.relocate nowhere = right'.relocate nowhere ∧ u = u')
    (he : left.render ++ ' ' :: (right.render ++ [')']) ++ rest =
      left'.render ++ ' ' :: (right'.render ++ [')']) ++ rest') :
    left.relocate nowhere = left'.relocate nowhere ∧
      right.relocate nowhere = right'.relocate nowhere ∧ rest = rest' := by
  have hfirst : left.render ++ ' ' :: (right.render ++ ')' :: rest) =
      left'.render ++ ' ' :: (right'.render ++ ')' :: rest') := by simpa using he
  obtain ⟨hleft, hrest⟩ := hl hfirst
  obtain ⟨hright, hrest⟩ := hr (List.cons.inj hrest).2
  exact ⟨hleft, hright, (List.cons.inj hrest).2⟩

/-- What is shown of a statement is not the beginning of what is shown of any
other. -/
theorem render_inj (h : t.MadeOf Token.Clear) (h' : t'.MadeOf Token.Clear)
    (he : t.render ++ rest = t'.render ++ rest') :
    t.relocate nowhere = t'.relocate nowhere ∧ rest = rest' := by
  induction t generalizing t' rest rest' with
  | sequence left right ihl ihr =>
    obtain ⟨hs, ho⟩ := sameMark_of_render h h' (by simp) he
    cases hs with
    | sequence _ _ left' right' =>
      obtain ⟨hl, hr, hrest⟩ := both_inj (ihl h.1 h'.1) (ihr h.2 h'.2) ho
      exact ⟨by simp [relocate, hl, hr], hrest⟩
    | closing _ _ left' =>
      obtain ⟨_, hrest⟩ := @ihl left' _ _ h.1 h' (by simpa [operands] using ho)
      cases hrest
  | closed inner ih =>
    obtain ⟨hs, ho⟩ := sameMark_of_render h h' (by simp) he
    cases hs with
    | continuing _ left' right' =>
      obtain ⟨_, hrest⟩ := ih h h'.1 (by simpa [operands] using ho)
      cases hrest
    | closed _ inner' =>
      obtain ⟨hi, hrest⟩ := @ih inner' _ _ h h' (by simpa [operands] using ho)
      exact ⟨by simp [relocate, hi], (List.cons.inj hrest).2⟩
  | and left right ihl ihr =>
    obtain ⟨⟨⟩, ho⟩ := sameMark_of_render h h' (by simp) he
    obtain ⟨hl, hr, hrest⟩ := both_inj (ihl h.1 h'.1) (ihr h.2 h'.2) ho
    exact ⟨by simp [relocate, hl, hr], hrest⟩
  | or left right ihl ihr =>
    obtain ⟨⟨⟩, ho⟩ := sameMark_of_render h h' (by simp) he
    obtain ⟨hl, hr, hrest⟩ := both_inj (ihl h.1 h'.1) (ihr h.2 h'.2) ho
    exact ⟨by simp [relocate, hl, hr], hrest⟩
  | pipeline left right ihl ihr =>
    obtain ⟨⟨⟩, ho⟩ := sameMark_of_render h h' (by simp) he
    obtain ⟨hl, hr, hrest⟩ := both_inj (ihl h.1 h'.1) (ihr h.2 h'.2) ho
    exact ⟨by simp [relocate, hl, hr], hrest⟩
  | not inner ih =>
    obtain ⟨hs, ho⟩ := sameMark_of_render h h' (by simp) he
    cases hs with
    | not _ inner' =>
      obtain ⟨hi, hrest⟩ := @ih inner' _ _ h h' (by simpa [operands] using ho)
      exact ⟨by simp [relocate, hi], (List.cons.inj hrest).2⟩
  | redirect r left ih =>
    obtain ⟨hs, ho⟩ := sameMark_of_render h h' (by simp) he
    cases hs with
    | redirect _ r' _ left' hm =>
      obtain ⟨hl, hrest⟩ := ih h.2 h'.2 (by simpa [operands] using ho)
      obtain ⟨hr, hrest⟩ := Redirection.shown_inj h.1 h'.1 hm hrest
      exact ⟨by simp [relocate, hl, hr], hrest⟩
    | emptying _ r' _ => exact absurd (by simpa [operands] using ho) (render_first h.2 _)
  | bare r =>
    obtain ⟨hs, ho⟩ := sameMark_of_render h h' (by simp) he
    cases hs with
    | filling _ r' left' =>
      exact absurd (by simpa [operands] using ho.symm) (render_first h'.2 _)
    | bare _ r' hm =>
      obtain ⟨hr, hrest⟩ := Redirection.shown_inj h h' hm (by simpa [operands] using ho)
      exact ⟨by simp [relocate, hr], hrest⟩
  | atom e =>
    by_cases hn : ∃ e', t' = atom e'
    · obtain ⟨e', rfl⟩ := hn
      obtain ⟨hs, hrest⟩ := Expression.render_inj h h' he
      exact ⟨by simp [relocate, hs], hrest⟩
    · exact absurd rfl ((mark_inj h' h (fun e' hs => hn ⟨e', hs⟩) he.symm).1 e)

theorem render_relocate (f : Position → Position) (t : Statement) :
    (t.relocate f).render = t.render := by
  have word (w : Token) : Expression.renderWord (w.relocate f) = Expression.renderWord w := rfl
  have expression (e : Expression) : (e.relocate f).render = e.render := by
    have several (ws : List Token) :
        (ws.map (Token.relocate f)).map Expression.renderWord = ws.map Expression.renderWord := by
      simp [word]
    cases e with
    | value n => rfl
    | string i => rfl
    | command i =>
      simp only [Expression.relocate, Expression.render, Invocation.words, Invocation.relocate,
        List.map_cons, several, word]
  have number (fd : Option Expression) :
      Redirection.digits (fd.map (Expression.relocate f)) = Redirection.digits fd := by
    rcases fd with _ | _ | _ | _ <;> rfl
  have redirection (r : Redirection) (left : Text) :
      (r.relocate f).render left = r.render left := by
    cases r with
    | overwrite fd target | append fd target =>
      simp [Redirection.relocate, Redirection.render, Redirection.operator, Redirection.target?,
        number fd, expression target]
    | mergeStream source destination =>
      have hs := number (some source)
      have hd := number (some destination)
      simp only [Option.map_some] at hs hd
      simp [Redirection.relocate, Redirection.render, Redirection.operator, Redirection.target?,
        hs, hd]
    | mergeOutput target | mergeAppend target | input target =>
      simp [Redirection.relocate, Redirection.render, Redirection.operator, Redirection.target?,
        expression target]
  induction t with
  | sequence left right ihl ihr | and left right ihl ihr | or left right ihl ihr
  | pipeline left right ihl ihr => simp [relocate, render, ihl, ihr]
  | closed inner ih | not inner ih => simp [relocate, render, ih]
  | redirect r left ih => simp [relocate, render, ih, redirection]
  | bare r => simp [relocate, render, redirection]
  | atom e => simp [relocate, render, expression]

end Statement

namespace TokenQueue

variable {q q' : TokenQueue} {s : Statement}

/-- The words that are read are clear, but for brackets in words of commands. -/
theorem madeOf_of_read {input : Input} (hl : (ofInput input).Later q)
    (h : q.read = (.ok (some s), q'))
    (hb : ∀ t ∈ s.words, t.kind = .command → ']' ∉ t.text) : s.MadeOf Token.Clear := by
  obtain ⟨lead, body, hh, _, hd⟩ := Grammar.handed_of_read h
  have hscanned := hands_genuine (genuine_invariant.later (genuine_ofInput input) hl) hh
  have hmade : s.MadeOf fun t => t.Scanned ∧ t.kind.isWord = true :=
    Grammar.derives_madeOf hd fun t ht hw => ⟨hscanned t (List.mem_append_right _ ht), hw⟩
  exact hmade.imp fun t ht hp => hp.1.clear hp.2 (hb t ht)

/-- Whatever was called before, of one input or of two: statements that are read
are shown alike just when they are the same but for the places of their words,
provided that no word of a command has a closing bracket in it. -/
theorem shown_alike_iff {input input' : Input} {q q₁ q' q₁' : TokenQueue} {s s' : Statement}
    (hl : (ofInput input).Later q) (h : q.read = (.ok (some s), q₁))
    (hb : ∀ t ∈ s.words, t.kind = .command → ']' ∉ t.text)
    (hl' : (ofInput input').Later q') (h' : q'.read = (.ok (some s'), q₁'))
    (hb' : ∀ t ∈ s'.words, t.kind = .command → ']' ∉ t.text) :
    s.render = s'.render ↔ s.relocate nowhere = s'.relocate nowhere := by
  constructor
  · intro he
    have hended : s.render ++ [] = s'.render ++ [] := by rw [he]
    exact (Statement.render_inj (madeOf_of_read hl h hb) (madeOf_of_read hl' h' hb') hended).1
  · intro he
    rw [← Statement.render_relocate nowhere s, he, Statement.render_relocate]

/-- A statement is read, and shown as given, if that can be computed. -/
theorem shown_of_read {text : Text}
    (h : (match q.read.1 with
      | .ok (some s) => s.render == text &&
          s.words.all fun t => t.kind != .command || !t.text.contains ']'
      | _ => false) = true) :
    ∃ s q', q.read = (.ok (some s), q') ∧ s.render = text ∧
      ∀ t ∈ s.words, t.kind = .command → ']' ∉ t.text := by
  cases hread : q.read with
  | mk answer q' =>
    rw [hread] at h
    split at h
    next s hanswer =>
      obtain rfl : answer = .ok (some s) := hanswer
      obtain ⟨hs, hw⟩ := Bool.and_eq_true_iff.mp h
      refine ⟨s, q', rfl, eq_of_beq hs, fun t ht hk => ?_⟩
      have hword := List.all_eq_true.mp hw t ht
      simpa [hk] using hword
    next => cases h

/-- The lines `a "]" 2>f` and `  a   "]" 02> f` are the same but for places. -/
theorem shown_alike_spaced : ∃ (s s' : Statement) (q q' : TokenQueue),
    (ofInput (.ofBytes [97, 32, 34, 93, 34, 32, 50, 62, 102, 10])).read = (.ok (some s), q) ∧
    (ofInput (.ofBytes [32, 32, 97, 32, 32, 32, 34, 93, 34, 32, 48, 50, 62, 32, 102, 10])).read =
      (.ok (some s'), q') ∧
    s.relocate nowhere = s'.relocate nowhere := by
  obtain ⟨s, q, hread, hs, hb⟩ := @shown_of_read
    (.ofInput (.ofBytes [97, 32, 34, 93, 34, 32, 50, 62, 102, 10]))
    (Text.ofString "(2> [a \"]\"] [f])") (by decide +kernel)
  obtain ⟨s', q', hread', hs', hb'⟩ := @shown_of_read
    (.ofInput (.ofBytes [32, 32, 97, 32, 32, 32, 34, 93, 34, 32, 48, 50, 62, 32, 102, 10]))
    (Text.ofString "(2> [a \"]\"] [f])") (by decide +kernel)
  exact ⟨s, s', q, q', hread, hread',
    (shown_alike_iff .now hread hb .now hread' hb').mp (hs.trans hs'.symm)⟩

/-- The lines `a; b` and `a] [b;` have other words, but are shown alike. -/
example :
    let shown bytes := match (ofInput (.ofBytes bytes)).read.1 with
      | .ok (some s) => (s.words.map (String.ofList ·.text), String.ofList s.render)
      | _ => ([], "")
    shown [97, 59, 32, 98, 10] = (["a", "b"], "(; [a] [b])") ∧
      shown [97, 93, 32, 91, 98, 59, 10] = (["a]", "[b"], "(; [a] [b])") := by
  decide +kernel

end TokenQueue

end TinyShell
