import TinyShell.Machine.Console
import TinyShell.Shell.Evaluation

/-!
# Expansion in one pass

A word is expanded by one substitution after the other. What the first one
inserts holds no mark of the second, and neither puts together a mark that was
not there. So both come to one pass from left to right, and a second expansion
finds nothing to do.
-/

set_option autoImplicit false

namespace TinyShell

namespace Text

variable {pattern replacement : Text}

theorem replaceFrom_skip (skipped : Nat) (text : Text) :
    replaceFrom pattern replacement skipped text =
      replaceAll pattern replacement (text.drop skipped) := by
  induction text generalizing skipped with
  | nil => cases skipped <;> rfl
  | cons c text ih =>
    cases skipped with
    | zero => rfl
    | succ skipped => exact ih skipped

theorem replaceAll_match {c : Char} {others : Text} (rest : Text) :
    replaceAll (c :: others) replacement (c :: (others ++ rest)) =
      replacement ++ replaceAll (c :: others) replacement rest := by
  have hp : (c :: others).isPrefixOf (c :: (others ++ rest)) = true :=
    List.isPrefixOf_iff_prefix.mpr ⟨rest, rfl⟩
  rw [replaceAll, replaceFrom, if_pos hp, replaceFrom_skip]
  simp

theorem replaceAll_keep {c : Char} {rest : Text} (h : ¬ pattern <+: c :: rest) :
    replaceAll pattern replacement (c :: rest) = c :: replaceAll pattern replacement rest := by
  rw [replaceAll, replaceFrom, if_neg fun hp => h (List.isPrefixOf_iff_prefix.mp hp)]
  rfl

/-- What is at the front is passed if no occurrence can begin in it. -/
theorem replaceAll_append {mark : Char} {others : Text} {front : Text} (h : mark ∉ front)
    (rest : Text) : replaceAll (mark :: others) replacement (front ++ rest) =
      front ++ replaceAll (mark :: others) replacement rest := by
  induction front with
  | nil => rfl
  | cons c front ih =>
    rw [List.mem_cons, not_or] at h
    have hc : ¬ mark :: others <+: c :: (front ++ rest) := fun hp =>
      h.1 (List.cons_prefix_cons.mp hp).1
    rw [List.cons_append, replaceAll_keep hc, ih h.2]
    rfl

end Text

namespace Expansion

theorem version_digits : Settings.version = ['0', '.', '1', '.', '0'] := by
  unfold Settings.version Text.ofString
  decide

theorem ofNat_digits (n : Nat) : ∀ c ∈ Text.ofNat n, c.isDigit = true := by
  intro c hc
  exact Nat.isDigit_of_mem_toDigits (by decide) (by decide) hc

theorem ofNat_begins (n : Nat) : ∃ c rest, Text.ofNat n = c :: rest ∧ c.isDigit = true := by
  obtain ⟨c, rest, h⟩ := List.exists_cons_of_ne_nil (Nat.toDigits_ne_nil (n := n) (b := 10))
  exact ⟨c, rest, h, ofNat_digits n c (by rw [Text.ofNat, h]; simp)⟩

theorem dollar_not_mem_ofNat (n : Nat) : '$' ∉ Text.ofNat n := fun h =>
  absurd (ofNat_digits n '$' h) (by decide)

def scan (pid : Nat) : Text → Text
  | [] => []
  | '$' :: '$' :: rest => Text.ofNat pid ++ scan pid rest
  | '$' :: 'V' :: 'E' :: 'R' :: 'S' :: 'I' :: 'O' :: 'N' :: rest =>
    Settings.version ++ scan pid rest
  | c :: rest => c :: scan pid rest

def inOnePass (home : Option Text) (pid : Nat) (word : Text) : Text :=
  match home, word with
  | some home, ['~'] => home
  | some home, '~' :: '/' :: rest => home ++ scan pid ('/' :: rest)
  | _, _ => scan pid word

/-- A pass leaves everything as it is but what begins with a dollar sign; and
what it puts there begins with a digit, if not with the dollar sign. -/
structure Pass (f : Text → Text) : Prop where
  nil : f [] = []
  keep : ∀ {c : Char} (rest : Text), c ≠ '$' → f (c :: rest) = c :: f rest
  mark : ∀ rest : Text, ∃ c others, f ('$' :: rest) = c :: others ∧ (c = '$' ∨ c.isDigit = true)

def Unmarked (c : Char) : Prop := c ≠ '$' ∧ c.isDigit = false

namespace Pass

variable {f : Text → Text}

/-- What comes first has come first before, unless it was inserted. -/
theorem first (h : Pass f) {c : Char} {text others : Text} (hf : f text = c :: others)
    (hc : Unmarked c) : ∃ rest, text = c :: rest ∧ f rest = others := by
  cases text with
  | nil =>
    rw [h.nil] at hf
    cases hf
  | cons b rest =>
    by_cases hb : b = '$'
    · subst hb
      obtain ⟨d, _, hd, hkind⟩ := h.mark rest
      rw [hf] at hd
      cases hd
      rcases hkind with hkind | hkind
      · exact absurd hkind hc.1
      · rw [hc.2] at hkind
        cases hkind
    · rw [h.keep rest hb] at hf
      cases hf
      exact ⟨rest, rfl, rfl⟩

theorem begins (h : Pass f) {word text : Text} (hw : ∀ c ∈ word, Unmarked c)
    (hp : word <+: f text) : word <+: text := by
  induction word generalizing text with
  | nil => exact List.nil_prefix
  | cons c word ih =>
    obtain ⟨others, ho⟩ := hp
    obtain ⟨rest, rfl, hrest⟩ := h.first ho.symm (hw c (by simp))
    rw [List.cons_prefix_cons]
    exact ⟨rfl, ih (fun d hd => hw d (by simp [hd])) ⟨others, hrest.symm⟩⟩

theorem ne_nil (h : Pass f) (c : Char) (rest : Text) : f (c :: rest) ≠ [] := by
  by_cases hc : c = '$'
  · subst hc
    obtain ⟨d, others, hf, _⟩ := h.mark rest
    simp [hf]
  · simp [h.keep rest hc]

end Pass

variable (pid : Nat)

theorem replaceAll_pass : Pass (Text.replaceAll pidMark (Text.ofNat pid)) where
  nil := rfl
  keep := fun _ hc => Text.replaceAll_keep fun hp => hc (List.cons_prefix_cons.mp hp).1.symm
  mark := by
    intro rest
    by_cases hp : pidMark <+: '$' :: rest
    · obtain ⟨others, ho⟩ := hp
      obtain ⟨c, digits, hd, hc⟩ := ofNat_begins pid
      refine ⟨c, digits ++ Text.replaceAll pidMark (Text.ofNat pid) others, ?_, .inr hc⟩
      rw [← ho, ← List.cons_append, ← hd]
      exact Text.replaceAll_match others
    · exact ⟨'$', _, Text.replaceAll_keep hp, .inl rfl⟩

theorem scan_keep {c : Char} (rest : Text) (hc : c ≠ '$') :
    scan pid (c :: rest) = c :: scan pid rest := by
  rw [scan] <;> (intro _ h; exact absurd h hc)

theorem scan_dollar {rest : Text} (hd : ∀ others, rest ≠ '$' :: others)
    (hv : ¬ versionMark.tail <+: rest) : scan pid ('$' :: rest) = '$' :: scan pid rest := by
  rw [scan]
  · intro others _ ho
    exact hd others ho
  · intro others _ ho
    exact hv ⟨others, ho.symm⟩

theorem scan_append {front : Text} (h : '$' ∉ front) (rest : Text) :
    scan pid (front ++ rest) = front ++ scan pid rest := by
  induction front with
  | nil => rfl
  | cons c front ih =>
    rw [List.mem_cons, not_or] at h
    rw [List.cons_append, scan_keep pid _ (Ne.symm h.1), ih h.2]
    rfl

theorem scan_pass : Pass (scan pid) where
  nil := rfl
  keep := scan_keep pid
  mark := by
    intro rest
    by_cases hd : ∃ others, rest = '$' :: others
    · obtain ⟨others, rfl⟩ := hd
      obtain ⟨c, digits, hd, hc⟩ := ofNat_begins pid
      refine ⟨c, digits ++ scan pid others, ?_, .inr hc⟩
      rw [scan, hd]
      rfl
    by_cases hv : versionMark.tail <+: rest
    · obtain ⟨others, rfl⟩ := hv
      have hversion : scan pid (versionMark ++ others) = Settings.version ++ scan pid others := rfl
      rw [version_digits] at hversion
      exact ⟨'0', _, hversion, .inr rfl⟩
    · exact ⟨'$', _, scan_dollar pid (fun others ho => hd ⟨others, ho⟩) hv, .inl rfl⟩

theorem versionMark_unmarked : ∀ c ∈ versionMark.tail, Unmarked c := by
  have hall : versionMark.tail.all (fun c => c != '$' && !c.isDigit) = true := by decide
  intro c hc
  have hmark := List.all_eq_true.mp hall c hc
  simpa [Unmarked] using hmark

theorem replaceAll_scan (word : Text) : Text.replaceAll versionMark Settings.version
    (Text.replaceAll pidMark (Text.ofNat pid) word) = scan pid word := by
  have pass := replaceAll_pass pid
  fun_induction scan pid word with
  | case1 => rfl
  | case2 rest ih =>
    have hpid : Text.replaceAll pidMark (Text.ofNat pid) ('$' :: '$' :: rest) =
        Text.ofNat pid ++ Text.replaceAll pidMark (Text.ofNat pid) rest :=
      Text.replaceAll_match rest
    rw [hpid, versionMark, Text.replaceAll_append (dollar_not_mem_ofNat pid)]
    exact congrArg (Text.ofNat pid ++ ·) ih
  | case3 rest ih =>
    have hkeep : Text.replaceAll pidMark (Text.ofNat pid) (versionMark ++ rest) =
        versionMark ++ Text.replaceAll pidMark (Text.ofNat pid) rest := by
      have hp : ¬ pidMark <+: versionMark ++ rest := by simp [pidMark, versionMark]
      have htail : '$' ∉ versionMark.tail := by decide
      exact (Text.replaceAll_keep hp).trans
        (congrArg ('$' :: ·) (Text.replaceAll_append htail rest))
    exact (congrArg _ hkeep).trans
      ((Text.replaceAll_match _).trans (congrArg (Settings.version ++ ·) ih))
  | case4 c rest hd hv ih =>
    by_cases hc : c = '$'
    · subst hc
      have hpid : ¬ pidMark <+: '$' :: rest := by
        rintro ⟨others, ho⟩
        exact hd others rfl (List.cons.inj ho).2.symm
      have hversion : ¬ versionMark <+:
          '$' :: Text.replaceAll pidMark (Text.ofNat pid) rest := by
        intro hp
        have hrest := pass.begins versionMark_unmarked (List.cons_prefix_cons.mp hp).2
        obtain ⟨others, ho⟩ := hrest
        exact hv others rfl ho.symm
      rw [Text.replaceAll_keep hpid, Text.replaceAll_keep hversion, ih]
    · have hversion : ¬ versionMark <+: c :: Text.replaceAll pidMark (Text.ofNat pid) rest :=
        fun hp => hc (List.cons_prefix_cons.mp hp).1.symm
      rw [pass.keep rest hc, Text.replaceAll_keep hversion, ih]

theorem expand_scan (home : Option Text) (word : Text) :
    expand home pid word = scan pid (atHome home word) :=
  replaceAll_scan pid (atHome home word)

theorem scan_scan (word : Text) : scan pid (scan pid word) = scan pid word := by
  have pass := scan_pass pid
  fun_induction scan pid word with
  | case1 => rfl
  | case2 rest ih => rw [scan_append pid (dollar_not_mem_ofNat pid), ih]
  | case3 rest ih => rw [scan_append pid (by rw [version_digits]; decide), ih]
  | case4 c rest hd hv ih =>
    by_cases hc : c = '$'
    · subst hc
      have hdollar (others : Text) : scan pid rest ≠ '$' :: others := by
        intro ho
        cases rest with
        | nil => cases ho
        | cons b rest =>
          have hb : b ≠ '$' := fun hb => hd rest rfl (hb ▸ rfl)
          rw [scan_keep pid rest hb] at ho
          exact hb (List.cons.inj ho).1
      have hversion : ¬ versionMark.tail <+: scan pid rest := by
        intro hp
        obtain ⟨others, ho⟩ := pass.begins versionMark_unmarked hp
        exact hv others rfl ho.symm
      rw [scan_dollar pid hdollar hversion, ih]
    · rw [scan_keep pid _ hc, ih]

def Settled (word : Text) : Prop := word ≠ ['~'] ∧ ∀ rest, word ≠ '~' :: '/' :: rest

theorem atHome_settled {word : Text} (h : Settled word) (home : Option Text) :
    atHome home word = word := by
  unfold atHome
  split
  next => exact absurd rfl h.1
  next => exact absurd rfl (h.2 _)
  next => rfl

theorem settled_of_first {word : Text} (h : word.head? ≠ some '~') : Settled word :=
  ⟨fun hw => h (by rw [hw]; rfl), fun _ hw => h (by rw [hw]; rfl)⟩

/-- A home directory that begins with no tilde leaves none in front. -/
theorem settled_atHome {home : Text} (h : home.head? ≠ some '~') (word : Text) :
    Settled (atHome (some home) word) := by
  unfold atHome
  split
  next hs =>
    cases hs
    exact settled_of_first h
  next rest hs =>
    cases hs
    cases home with
    | nil => exact settled_of_first (by simp)
    | cons c home => exact settled_of_first h
  next hone hmore =>
    exact ⟨fun hw => hone home rfl hw, fun rest hw => hmore home rest rfl hw⟩

theorem settled_scan {word : Text} (h : Settled word) : Settled (scan pid word) := by
  have pass := scan_pass pid
  have tilde : Unmarked '~' := ⟨by decide, rfl⟩
  have slash : Unmarked '/' := ⟨by decide, rfl⟩
  constructor
  · intro hs
    obtain ⟨rest, rfl, hrest⟩ := pass.first hs tilde
    cases rest with
    | nil => exact h.1 rfl
    | cons c rest => exact absurd hrest (pass.ne_nil c rest)
  · intro others hs
    obtain ⟨rest, rfl, hrest⟩ := pass.first hs tilde
    obtain ⟨rest, rfl, _⟩ := pass.first hrest slash
    exact h.2 rest rfl

variable {pid}

/-- With such a home directory an expanded word has no tilde to be expanded. -/
theorem atHome_expand {home : Option Text}
    (hh : ∀ directory, home = some directory → directory.head? ≠ some '~') (word : Text) :
    atHome home (expand home pid word) = expand home pid word := by
  cases home with
  | none => rfl
  | some directory =>
    have hsettled : Settled (expand (some directory) pid word) := by
      rw [expand_scan]
      exact settled_scan pid (settled_atHome (hh directory rfl) word)
    exact atHome_settled hsettled _

theorem scan_atHome {home : Option Text}
    (hh : ∀ directory, home = some directory → '$' ∉ directory) (word : Text) :
    scan pid (atHome home word) = inOnePass home pid word := by
  unfold atHome
  split
  next directory =>
    have hscan := scan_append pid (hh directory rfl) []
    simpa [inOnePass, scan] using hscan
  next directory rest => exact scan_append pid (hh directory rfl) ('/' :: rest)
  next hone hmore =>
    unfold inOnePass
    split
    next directory => exact absurd rfl (hone directory rfl)
    next directory rest => exact absurd rfl (hmore directory rest rfl)
    next => rfl

theorem expand_expand {home : Option Text}
    (hh : ∀ directory, home = some directory → directory.head? ≠ some '~') (word : Text) :
    expand home pid (expand home pid word) = expand home pid word := by
  have hscan : scan pid (expand home pid word) = expand home pid word := by
    rw [expand_scan, scan_scan]
  rw [expand_scan, atHome_expand hh, hscan]

theorem mapWords_expand {home : Option Text}
    (hh : ∀ directory, home = some directory → directory.head? ≠ some '~') (e : Expression) :
    (e.mapWords (expand home pid)).mapWords (expand home pid) = e.mapWords (expand home pid) := by
  have words (i : Invocation) : (i.mapWords (expand home pid)).mapWords (expand home pid) =
      i.mapWords (expand home pid) := by
    simp [Invocation.mapWords, Function.comp_def, expand_expand hh]
  cases e with
  | command i | string i => simp only [Expression.mapWords, words]
  | value n => rfl

/-- A target that was expanded is expanded no further by the same process. -/
theorem redirection_expand {env : Environment} {s s' : ShellState}
    (hh : ∀ directory, env.home = some directory → directory.head? ≠ some '~')
    (hp : s'.process.pid = s.process.pid) (r : Redirection) :
    (r.expand env s).expand env s' = r.expand env s' := by
  cases r <;> simp only [Redirection.expand, Redirection.mapTarget, hp, mapWords_expand hh]

/-- If the home directory holds no dollar sign and begins with no tilde, a word
is expanded in one pass from left to right, and what was expanded is expanded
no further. So it makes no difference to a redirection that the same process
has evaluated it before. -/
theorem expand_in_one_pass {env : Environment}
    (hh : ∀ directory, env.home = some directory →
      '$' ∉ directory ∧ directory.head? ≠ some '~') :
    (∀ (pid : Nat) (word : Text), expand env.home pid word = inOnePass env.home pid word ∧
      expand env.home pid (expand env.home pid word) = expand env.home pid word) ∧
    ∀ (s s' : ShellState), s'.process.pid = s.process.pid →
      ∀ (r : Redirection) (left : Statement),
        ((Statement.redirect r left).evaluate env s).form.evaluate env s' =
          (Statement.redirect r left).evaluate env s' ∧
        ((Statement.bare r).evaluate env s).form.evaluate env s' =
          (Statement.bare r).evaluate env s' := by
  have tildeless (directory : Text) (hd : env.home = some directory) :
      directory.head? ≠ some '~' :=
    (hh directory hd).2
  constructor
  · intro pid word
    refine ⟨?_, expand_expand tildeless word⟩
    rw [expand_scan]
    exact scan_atHome (fun directory hd => (hh directory hd).1) word
  · intro s s' hpid r left
    simp only [Statement.evaluate, Evaluated.ofEffect, redirection_expand tildeless hpid r,
      and_self]

/-- The word `~/$$$VERSION$` as the target of a redirection, at home in `/h`, in
process 7. -/
theorem expand_in_one_pass_dollars : ∃ (env : Environment) (s : ShellState) (target : Token),
    env.home = some ['/', 'h'] ∧ s.process.pid = 7 ∧
    target.text = ['~', '/', '$', '$', '$', 'V', 'E', 'R', 'S', 'I', 'O', 'N', '$'] ∧
    expand env.home s.process.pid target.text =
      ['/', 'h', '/', '7', '0', '.', '1', '.', '0', '$'] ∧
    expand env.home s.process.pid (expand env.home s.process.pid target.text) =
      ['/', 'h', '/', '7', '0', '.', '1', '.', '0', '$'] ∧
    ((Statement.bare (.input (.word target))).evaluate env s).form.evaluate env s =
      (Statement.bare (.input (.word target))).evaluate env s := by
  obtain ⟨hwords, hredirections⟩ :=
    @expand_in_one_pass ⟨some ['/', 'h'], none, Image.run, false, ⟨[], false, none⟩⟩ (by
      rintro directory heq
      cases heq
      decide)
  obtain ⟨hpass, htwice⟩ := hwords 7
    ['~', '/', '$', '$', '$', 'V', 'E', 'R', 'S', 'I', 'O', 'N', '$']
  have hscan : inOnePass (some ['/', 'h']) 7
      ['~', '/', '$', '$', '$', 'V', 'E', 'R', 'S', 'I', 'O', 'N', '$'] =
      ['/', 'h', '/', '7', '0', '.', '1', '.', '0', '$'] := by
    decide +kernel
  rw [hscan] at hpass
  exact ⟨_, ⟨Console.process 7 [], Console.world World.standardTree [], 0⟩, ⟨.command, _, ⟨1, 3⟩⟩,
    rfl, rfl, rfl, hpass, htwice.trans hpass,
    (hredirections _ _ rfl _ (.atom (.value 0))).2⟩

end Expansion

end TinyShell
