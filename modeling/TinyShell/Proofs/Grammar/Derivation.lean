import TinyShell.Statement.Reading

/-!
# Grammar of statements

Derivations of phrases from tokens, each with the one tree it stands for. The
grammar says nothing about a reader: pipelines nest to the right, `&&` and
`||` are alike and nest to the left, a group has no node of its own, and a
redirection wraps what stands before it. Newlines may follow an operator or an
opening parenthesis; inside parentheses they also separate statements.
-/

set_option autoImplicit false

namespace TinyShell.Grammar

inductive Phrase
  | operand
  | chain
  | pipeline
  | logical
  | inner
  | statement
deriving DecidableEq, Repr

def Newlines (ts : List Token) : Prop := ∀ t ∈ ts, t.kind = .newline

def IsSeparator (t : Token) : Prop := t.kind = .semicolon ∨ t.kind = .newline

def IsEnd (t : Token) : Prop := t.kind = .newline ∨ t.kind = .endOfInput

def given : Option Nat → Expression
  | none => .value unspecified
  | some n => .value n

theorem mergeOf_given (source destination : Option Nat) :
    Redirection.mergeOf source destination =
      .mergeStream (given source) (given destination) := by
  cases source <;> cases destination <;> rfl

inductive Opens : Token → (Expression → Redirection) → Prop
  | overwrite {op : Token} {fd : Option Nat} (hk : op.kind = .overwrite ∨ op.kind = .append)
      (ho : Operator.output? op.text = some (fd, false)) :
      Opens op (.overwrite (fd.map fun n : Nat => .value n))
  | append {op : Token} {fd : Option Nat} (hk : op.kind = .overwrite ∨ op.kind = .append)
      (ho : Operator.output? op.text = some (fd, true)) :
      Opens op (.append (fd.map fun n : Nat => .value n))
  | mergeOutput {op : Token} (hk : op.kind = .mergeOutput) : Opens op .mergeOutput
  | mergeAppend {op : Token} (hk : op.kind = .mergeAppend) : Opens op .mergeAppend
  | input {op : Token} (hk : op.kind = .input) : Opens op .input

inductive Redirects : List Token → Redirection → Prop
  | file {op name : Token} {make : Expression → Redirection} (ho : Opens op make)
      (hn : name.kind.isWord = true) : Redirects [op, name] (make (.word name))
  | merge {op : Token} {source destination : Option Nat} (hk : op.kind = .mergeStream)
      (ho : Operator.merge? op.text = some (source, destination)) :
      Redirects [op] (.mergeStream (given source) (given destination))

/-- The tokens form the phrase and stand for the statement. -/
inductive Derives : Phrase → List Token → Statement → Prop
  | word {head : Token} (hh : head.kind.isWord = true) :
      Derives .operand [head] (.atom (.word head))
  | words {head : Token} {arguments : List Token} (hh : head.kind.isWord = true)
      (hn : arguments ≠ []) (ha : ∀ t ∈ arguments, t.kind.isWord = true) :
      Derives .operand (head :: arguments) (.atom (.command ⟨head, arguments, none⟩))
  | not {bang : Token} {ts : List Token} {s : Statement} (hb : bang.kind = .not)
      (h : Derives .operand ts s) : Derives .operand (bang :: ts) (.not s)
  | group {left right : Token} {ts : List Token} {s : Statement}
      (hl : left.kind = .leftParen) (h : Derives .inner ts s)
      (hr : right.kind = .rightParen) : Derives .operand (left :: (ts ++ [right])) s
  | plain {ts : List Token} {s : Statement} (h : Derives .operand ts s) : Derives .chain ts s
  | bare {ts : List Token} {r : Redirection} (h : Redirects ts r) : Derives .chain ts (.bare r)
  | redirect {ts us : List Token} {s : Statement} {r : Redirection} (h : Derives .chain ts s)
      (hr : Redirects us r) : Derives .chain (ts ++ us) (.redirect r s)
  | single {ts : List Token} {s : Statement} (h : Derives .chain ts s) :
      Derives .pipeline ts s
  | pipe {bar : Token} {ts ns us : List Token} {l r : Statement} (hl : Derives .chain ts l)
      (hb : bar.kind = .pipe) (hn : Newlines ns) (hr : Derives .pipeline us r) :
      Derives .pipeline (ts ++ bar :: (ns ++ us)) (.pipeline l r)
  | alone {ts : List Token} {s : Statement} (h : Derives .pipeline ts s) :
      Derives .logical ts s
  | and {op : Token} {ts ns us : List Token} {l r : Statement} (hl : Derives .logical ts l)
      (ho : op.kind = .and) (hn : Newlines ns) (hr : Derives .pipeline us r) :
      Derives .logical (ts ++ op :: (ns ++ us)) (.and l r)
  | or {op : Token} {ts ns us : List Token} {l r : Statement} (hl : Derives .logical ts l)
      (ho : op.kind = .or) (hn : Newlines ns) (hr : Derives .pipeline us r) :
      Derives .logical (ts ++ op :: (ns ++ us)) (.or l r)
  | inner {ns ts : List Token} {s : Statement} (hn : Newlines ns) (h : Derives .logical ts s) :
      Derives .inner (ns ++ ts) s
  | innerClosed {sep : Token} {ns ts ms : List Token} {s : Statement} (hn : Newlines ns)
      (h : Derives .logical ts s) (hs : IsSeparator sep) (hm : Newlines ms) :
      Derives .inner (ns ++ (ts ++ sep :: ms)) s
  | innerSequence {sep : Token} {ns ts ms us : List Token} {l r : Statement} (hn : Newlines ns)
      (hl : Derives .logical ts l) (hs : IsSeparator sep) (hm : Newlines ms)
      (hr : Derives .inner us r) :
      Derives .inner (ns ++ (ts ++ sep :: (ms ++ us))) (.sequence l r)
  | ended {last : Token} {ts : List Token} {s : Statement} (h : Derives .logical ts s)
      (he : IsEnd last) : Derives .statement (ts ++ [last]) s
  | closed {semi last : Token} {ts : List Token} {s : Statement} (h : Derives .logical ts s)
      (hs : semi.kind = .semicolon) (he : IsEnd last) :
      Derives .statement (ts ++ [semi, last]) (.closed s)
  | sequence {semi : Token} {ts us : List Token} {l r : Statement} (hl : Derives .logical ts l)
      (hs : semi.kind = .semicolon) (hr : Derives .statement us r) :
      Derives .statement (ts ++ semi :: us) (.sequence l r)

theorem newlines_nil : Newlines [] := fun _ h => absurd h List.not_mem_nil

theorem newlines_append {ns ms : List Token} (hn : Newlines ns) (hm : Newlines ms) :
    Newlines (ns ++ ms) := by
  intro t ht
  rcases List.mem_append.mp ht with h | h
  · exact hn t h
  · exact hm t h

theorem newlines_singleton {t : Token} (h : t.kind = .newline) : Newlines [t] := by
  intro u hu
  rw [List.mem_singleton.mp hu]
  exact h

def starts (kind : TokenKind) : Bool :=
  kind.isWord || kind.isRedirection || kind == .not || kind == .leftParen

theorem ne_of_starts {kind other : TokenKind} (h : starts kind = true)
    (ho : starts other = false) : kind ≠ other := by
  rintro rfl
  rw [h] at ho
  cases ho

theorem not_redirection_of_word {kind : TokenKind} (h : kind.isWord = true) :
    kind.isRedirection = false := by
  cases kind <;> first | rfl | cases h

theorem not_word_of_redirection {kind : TokenKind} (h : kind.isRedirection = true) :
    kind.isWord = false := by
  cases kind <;> first | rfl | cases h

theorem opens_redirection {op : Token} {make : Expression → Redirection} (h : Opens op make) :
    op.kind.isRedirection = true := by
  cases h with
  | overwrite hk _ | append hk _ => rcases hk with hk | hk <;> rw [hk] <;> rfl
  | mergeOutput hk | mergeAppend hk | input hk => rw [hk]; rfl

theorem redirects_first {ts : List Token} {r : Redirection} (h : Redirects ts r) :
    ∃ t rest, ts = t :: rest ∧ t.kind.isRedirection = true := by
  cases h with
  | file ho _ => exact ⟨_, _, rfl, opens_redirection ho⟩
  | merge hk _ => exact ⟨_, _, rfl, by rw [hk]; rfl⟩

/-- The kinds that a phrase can begin with; only what stands in parentheses can
begin with newlines. -/
theorem derives_first {p : Phrase} {ts : List Token} {s : Statement} (h : Derives p ts s)
    (hp : p ≠ .inner) : ∃ t rest, ts = t :: rest ∧ starts t.kind = true := by
  induction h with
  | word hh => exact ⟨_, _, rfl, by simp [starts, hh]⟩
  | words hh => exact ⟨_, _, rfl, by simp [starts, hh]⟩
  | not hb => exact ⟨_, _, rfl, by simp [starts, hb]⟩
  | group hl => exact ⟨_, _, rfl, by simp [starts, hl]⟩
  | bare hr =>
    obtain ⟨t, rest, rfl, ht⟩ := redirects_first hr
    exact ⟨t, rest, rfl, by simp [starts, ht]⟩
  | plain _ ih | single _ ih | alone _ ih => exact ih (by decide)
  | redirect _ _ ih | pipe _ _ _ _ ih | and _ _ _ _ ih | or _ _ _ _ ih | ended _ _ ih
  | closed _ _ _ ih | sequence _ _ _ ih =>
    obtain ⟨t, rest, rfl, ht⟩ := ih (by decide)
    exact ⟨t, _, rfl, ht⟩
  | inner | innerClosed | innerSequence => exact absurd rfl hp

theorem derives_inner_newlines {ns ts : List Token} {s : Statement} (hn : Newlines ns)
    (h : Derives .inner ts s) : Derives .inner (ns ++ ts) s := by
  cases h with
  | inner hm h =>
    rw [← List.append_assoc]
    exact .inner (newlines_append hn hm) h
  | innerClosed hm h hs hk =>
    rw [← List.append_assoc]
    exact .innerClosed (newlines_append hn hm) h hs hk
  | innerSequence hm hl hs hk hr =>
    rw [← List.append_assoc]
    exact .innerSequence (newlines_append hn hm) hl hs hk hr

end TinyShell.Grammar
