import Mathlib.Data.List.DropRight
import Mathlib.Tactic.Common

/-!
# Command lines that are split into words

A program that gets its arguments as one line splits it again. Words end at blanks, except
between quotes, and a backslash counts only in front of a quote: an even run of them stands
for half as many and leaves the quote its meaning, an odd run makes it a character of the
word. Two quotes in a row, between quotes, are one such character as well.

The first word, the name of the program, knows no backslashes.

* `words_line`: which words are read back, when each is put between quotes as it is.
-/

namespace CommandLine

/-- The characters that separate words. -/
structure Rules (α : Type) where
  quote : α
  backslash : α
  isBlank : α → Bool
  backslash_ne_quote : backslash ≠ quote
  quote_not_blank : isBlank quote = false
  backslash_not_blank : isBlank backslash = false

namespace Rules

variable {α : Type} (r : Rules α) {c : α}

theorem ne_backslash (hblank : r.isBlank c = true) : c ≠ r.backslash := by
  rintro rfl
  rw [r.backslash_not_blank] at hblank
  cases hblank

theorem ne_quote (hblank : r.isBlank c = true) : c ≠ r.quote := by
  rintro rfl
  rw [r.quote_not_blank] at hblank
  cases hblank

end Rules

/-- Outside of quotes, between them, or right behind one that ends them unless another one
follows. -/
inductive Mode where
  | outside | inside | closing
deriving DecidableEq

/-- The mode after a character that is no quote, or a quote that is part of the word. -/
def Mode.after : Mode → Mode
  | .inside => .inside
  | _ => .outside

/-- The mode after any other quote, and after the second of two. -/
def Mode.toggle : Mode → Mode
  | .inside => .closing
  | _ => .inside

theorem Mode.after_ne_closing (mode : Mode) : mode.after ≠ .closing := by
  cases mode <;> decide

/-- A word that is being read: its characters so far, and how many backslashes have come
since whose meaning is open. -/
structure Word (α : Type) where
  mode : Mode
  slashes : Nat
  text : List α

variable {α : Type} (r : Rules α)

namespace Word

def start : Word α := ⟨.outside, 0, []⟩

/-- The word as it is if it ends here. -/
def finish (w : Word α) : List α := w.text ++ List.replicate w.slashes r.backslash

/-- Whether a quote is part of the word now. -/
def literal (w : Word α) : Bool := w.slashes % 2 = 1 || w.mode = .closing

/-- What a quote adds to the word: half of the backslashes, and itself or not. -/
def output (w : Word α) : List α :=
  List.replicate (w.slashes / 2) r.backslash ++ if w.literal then [r.quote] else []

/-- The word after a quote. -/
def quoted (w : Word α) : Word α where
  mode := if w.slashes % 2 = 1 then w.mode.after else w.mode.toggle
  slashes := 0
  text := w.text ++ w.output r

/-- The word after any character, unless it ends there. -/
def next [DecidableEq α] (w : Word α) (c : α) : Option (Word α) :=
  if c = r.backslash then some { w with mode := w.mode.after, slashes := w.slashes + 1 }
  else if c = r.quote then some (w.quoted r)
  else if r.isBlank c = true ∧ w.mode ≠ .inside then none
  else some ⟨w.mode.after, 0, w.finish r ++ [c]⟩

end Word

/-- A word between quotes, as it is. -/
def quote (word : List α) : List α := r.quote :: (word ++ [r.quote])

section Output

variable {r} {w : Word α}

theorem length_output :
    (w.output r).length = w.slashes / 2 + if w.literal then 1 else 0 := by
  rw [Word.output, List.length_append, List.length_replicate]
  split <;> rfl

/-- A quote adds no more than there were backslashes, except for the second of two quotes. -/
theorem length_output_le (hmode : w.mode ≠ .closing) : (w.output r).length ≤ w.slashes := by
  rw [length_output]
  split
  · rename_i hliteral
    rw [Word.literal, decide_eq_false hmode, Bool.or_false, decide_eq_true_eq] at hliteral
    omega
  · omega

theorem literal_of_quote_not_mem (h : r.quote ∉ w.output r) : w.literal = false := by
  rw [← Bool.not_eq_true]
  intro hliteral
  apply h
  rw [Word.output, if_pos hliteral]
  exact List.mem_append_right _ (List.mem_singleton_self _)

/-- A quote that may be the first of two is not part of the word. -/
theorem literal_of_closing (h : (w.quoted r).mode = .closing) : w.literal = false := by
  unfold Word.quoted at h
  rw [← Bool.not_eq_true]
  intro hliteral
  dsimp only at h
  split at h
  · exact w.mode.after_ne_closing h
  · rename_i heven
    rw [Word.literal, decide_eq_false heven, Bool.false_or, decide_eq_true_eq] at hliteral
    rw [hliteral] at h
    cases h

end Output

variable [DecidableEq α]

/-- The words of a line from here, with the one that is being read. -/
def words : Option (Word α) → List α → List (List α)
  | none, [] => []
  | some w, [] => [w.finish r]
  | none, c :: line => words (Word.start.next r c) line
  | some w, c :: line =>
    match w.next r c with
    | some w' => words (some w') line
    | none => w.finish r :: words none line

/-- The name of the program, and the line behind it. -/
def program (inQuotes : Bool) : List α → List α × List α
  | [] => ([], [])
  | c :: line =>
    if c = r.quote then program (!inQuotes) line
    else if r.isBlank c && !inQuotes then ([], line)
    else (c :: (program inQuotes line).1, (program inQuotes line).2)

/-- All words of a line. -/
def split (line : List α) : List (List α) :=
  (program r false line).1 :: words r none (program r false line).2

/-! ## One character -/

section Next

variable {r} {w w' : Word α} {c : α} {line : List α}

@[simp] theorem next_backslash :
    w.next r r.backslash = some { w with mode := w.mode.after, slashes := w.slashes + 1 } :=
  if_pos rfl

@[simp] theorem next_quote : w.next r r.quote = some (w.quoted r) := by
  rw [Word.next, if_neg (Ne.symm r.backslash_ne_quote), if_pos rfl]

theorem next_blank (hblank : r.isBlank c = true) (hmode : w.mode ≠ .inside) :
    w.next r c = none := by
  rw [Word.next, if_neg (r.ne_backslash hblank), if_neg (r.ne_quote hblank),
    if_pos ⟨hblank, hmode⟩]

theorem next_inside (hmode : w.mode = .inside) (hslash : c ≠ r.backslash) (hquote : c ≠ r.quote) :
    w.next r c = some ⟨.inside, 0, w.finish r ++ [c]⟩ := by
  have hnot : ¬(r.isBlank c = true ∧ w.mode ≠ .inside) := fun h => h.2 hmode
  rw [Word.next, if_neg hslash, if_neg hquote, if_neg hnot, hmode]
  rfl

/-- A character without a meaning of its own ends the word, or is added to it. -/
theorem next_other (hslash : c ≠ r.backslash) (hquote : c ≠ r.quote) :
    w.next r c = none ∨ ∃ mode, w.next r c = some ⟨mode, 0, w.finish r ++ [c]⟩ := by
  rw [Word.next, if_neg hslash, if_neg hquote]
  split
  · exact Or.inl rfl
  · exact Or.inr ⟨_, rfl⟩

/-- Nothing that has been read as part of a word is taken back. -/
theorem next_text (h : w.next r c = some w') : ∃ out, w'.text = w.text ++ out := by
  by_cases hslash : c = r.backslash
  · subst hslash
    rw [next_backslash] at h
    cases h
    exact ⟨[], (List.append_nil _).symm⟩
  · by_cases hquote : c = r.quote
    · subst hquote
      rw [next_quote] at h
      cases h
      exact ⟨_, rfl⟩
    · rcases next_other (w := w) hslash hquote with hnone | ⟨mode, hsome⟩
      · rw [hnone] at h
        cases h
      · rw [hsome] at h
        cases h
        exact ⟨_, List.append_assoc ..⟩

theorem words_next (h : w.next r c = some w') :
    words r (some w) (c :: line) = words r (some w') line := by
  rw [words, h]

theorem words_end (h : w.next r c = none) :
    words r (some w) (c :: line) = w.finish r :: words r none line := by
  rw [words, h]

theorem words_some (r : Rules α) (w : Word α) (line : List α) :
    ∃ t others, words r (some w) line = (w.text ++ t) :: others := by
  induction line generalizing w with
  | nil => exact ⟨_, _, rfl⟩
  | cons c line ih =>
    cases hnext : w.next r c with
    | none => exact ⟨_, _, words_end hnext⟩
    | some w' =>
      obtain ⟨t, others, h⟩ := ih w'
      obtain ⟨out, hout⟩ := next_text hnext
      refine ⟨out ++ t, others, ?_⟩
      rw [words_next hnext, h, hout, List.append_assoc]

end Next

/-! ## Words between quotes that are read back -/

/-- No quote in it, and no backslash in front of the quote that is put behind it. -/
structure Plain (word : List α) : Prop where
  quote_not_mem : r.quote ∉ word
  last : word.getLast? ≠ some r.backslash

def Rules.isBackslash (c : α) : Bool := c = r.backslash

/-- Between quotes, with these characters behind the first one. -/
def inside (word : List α) : Word α where
  mode := .inside
  slashes := (word.rtakeWhile r.isBackslash).length
  text := word.rdropWhile r.isBackslash

/-- What separates words comes next, or nothing. -/
def Ends (line : List α) : Prop := ∀ c, line.head? = some c → r.isBlank c = true

section Inside

variable {r} {word line : List α} {c : α}

@[simp] theorem isBackslash_iff : r.isBackslash c = true ↔ c = r.backslash := decide_eq_true_iff

theorem finish_inside (word : List α) : (inside r word).finish r = word := by
  have hslashes : word.rtakeWhile r.isBackslash =
      List.replicate (word.rtakeWhile r.isBackslash).length r.backslash := by
    apply List.eq_replicate_of_mem
    intro c hc
    exact isBackslash_iff.mp (List.mem_rtakeWhile_imp hc)
  rw [Word.finish, inside, ← hslashes]
  exact List.rdropWhile_append_rtakeWhile ..

theorem next_inside_append (word : List α) (hquote : c ≠ r.quote) :
    (inside r word).next r c = some (inside r (word ++ [c])) := by
  by_cases hslash : c = r.backslash
  · have htrue := isBackslash_iff.mpr hslash
    subst hslash
    rw [next_backslash, inside, inside, List.rtakeWhile_concat_pos _ _ _ htrue,
      List.rdropWhile_concat_pos _ _ _ htrue, List.length_append]
    rfl
  · have hfalse := fun h => hslash (isBackslash_iff.mp h)
    rw [next_inside rfl hslash hquote, finish_inside, inside,
      List.rtakeWhile_concat_neg _ _ _ hfalse, List.rdropWhile_concat_neg _ _ _ hfalse]
    rfl

theorem words_inside (word : List α) {more : List α} (hquote : r.quote ∉ more) :
    words r (some (inside r word)) (more ++ line) =
      words r (some (inside r (word ++ more))) line := by
  induction more generalizing word with
  | nil => rw [List.append_nil, List.nil_append]
  | cons c more ih =>
    rw [List.mem_cons, not_or] at hquote
    rw [List.cons_append, words_next (next_inside_append word (Ne.symm hquote.1)), ih _ hquote.2,
      List.append_assoc, List.singleton_append]

theorem words_open (hquote : r.quote ∉ word) :
    words r none (r.quote :: (word ++ line)) = words r (some (inside r word)) line := by
  have hstart : Word.start.quoted r = inside r [] := by
    simp [Word.quoted, Word.output, Word.literal, Mode.toggle, Word.start, inside]
  rw [words, next_quote, hstart]
  exact words_inside [] hquote

theorem slashes_inside (hlast : word.getLast? ≠ some r.backslash) :
    (inside r word).slashes = 0 := by
  have hnil : word.rtakeWhile r.isBackslash = [] := by
    rw [List.rtakeWhile_eq_nil_iff]
    intro hne hslash
    apply hlast
    rw [List.getLast?_eq_some_getLast hne, isBackslash_iff.mp hslash]
  rw [inside, hnil]
  rfl

theorem quoted_inside (hlast : word.getLast? ≠ some r.backslash) :
    (inside r word).quoted r = ⟨.closing, 0, word⟩ := by
  have hslashes := slashes_inside hlast
  have hword := finish_inside (r := r) word
  rw [Word.finish, hslashes, List.replicate_zero, List.append_nil] at hword
  unfold Word.quoted Word.output Word.literal
  rw [hslashes, hword]
  simp [inside, Mode.toggle]

theorem words_blank (hblank : r.isBlank c = true) :
    words r none (c :: line) = words r none line := by
  have hstart : Mode.outside ≠ .inside := by decide
  rw [words, next_blank hblank hstart]

theorem words_ends (hends : Ends r line) {mode : Mode} (hmode : mode ≠ .inside) :
    words r (some ⟨mode, 0, word⟩) line = word :: words r none line := by
  have hfinish : Word.finish r ⟨mode, 0, word⟩ = word := List.append_nil _
  cases line with
  | nil => rw [words, words, hfinish]
  | cons c line =>
    have hblank := hends c rfl
    rw [words_end (next_blank hblank hmode), words_blank hblank, hfinish]

/-- A plain word between quotes is read back, and nothing else with it. -/
theorem words_quote (h : Plain r word) (hends : Ends r line) :
    words r none (quote r word ++ line) = word :: words r none line := by
  rw [quote, List.cons_append, List.append_assoc, words_open h.quote_not_mem, List.singleton_append,
    words_next next_quote, quoted_inside h.last]
  exact words_ends hends (by decide)

/-- At the end of a line, a plain word with a quote behind it is read back too: the two quotes
that follow it are one. -/
theorem words_quote_last (h : Plain r word) :
    words r none (quote r (word ++ [r.quote])) = [word ++ [r.quote]] := by
  rw [quote, List.append_assoc, words_open h.quote_not_mem, List.singleton_append,
    words_next next_quote, quoted_inside h.last, words_next next_quote, words]
  simp [Word.quoted, Word.output, Word.literal, Word.finish]

end Inside

/-! ## No other words are

Once a quote or a backslash of a word has been read and is not in the text, the text stays
behind: each character that could catch up leaves out another one. -/

/-- Of this word, the part `gap` has been read and is not in the text yet. -/
structure Lags (word : List α) (w : Word α) (gap todo : List α) : Prop where
  split : word = w.text ++ gap ++ todo
  special : ∀ c ∈ gap, c = r.quote ∨ c = r.backslash
  behind : w.slashes < gap.length

section Lags

variable {r} {word gap todo line : List α} {others : List (List α)} {w w' : Word α} {c : α}

omit [DecidableEq α] in
theorem special_concat (h : ∀ c ∈ gap, c = r.quote ∨ c = r.backslash)
    (hc : c = r.quote ∨ c = r.backslash) : ∀ d ∈ gap ++ [c], d = r.quote ∨ d = r.backslash := by
  intro d hd
  rcases List.mem_append.mp hd with hgap | hlast
  · exact h d hgap
  · rw [List.mem_singleton.mp hlast]
    exact hc

omit [DecidableEq α] in
theorem Lags.finish_ne (h : Lags r word w gap todo) : w.finish r ≠ word := by
  intro hfinish
  have hlen := congrArg List.length hfinish
  have hbehind := h.behind
  rw [h.split, Word.finish] at hlen
  simp only [List.length_append, List.length_replicate] at hlen
  omega

/-- Only quotes and backslashes can come next. -/
theorem Lags.stuck (h : Lags r word w gap todo) (hslash : c ≠ r.backslash) (hquote : c ≠ r.quote) :
    words r (some w) (c :: line) ≠ word :: others := by
  intro heq
  rcases next_other (w := w) hslash hquote with hnone | ⟨mode, hsome⟩
  · rw [words_end hnone] at heq
    exact h.finish_ne (List.cons.inj heq).1
  · obtain ⟨t, others', htext⟩ := words_some r ⟨mode, 0, w.finish r ++ [c]⟩ line
    rw [words_next hsome, htext] at heq
    have hword := (List.cons.inj heq).1
    rw [h.split, Word.finish, List.append_assoc, List.append_assoc, List.append_assoc,
      List.append_cancel_left_eq] at hword
    -- the character stands where the word has one from the gap
    have hat := congrArg (fun l => l[w.slashes]?) hword
    simp only [List.getElem?_append_left h.behind, List.getElem?_append_right
      (Nat.le_of_eq List.length_replicate), List.length_replicate, Nat.sub_self,
      List.singleton_append, List.getElem?_cons_zero] at hat
    rcases h.special c (List.mem_of_getElem? hat.symm) with hc | hc
    · exact hquote hc
    · exact hslash hc

theorem Lags.ends (h : Lags r word w gap todo) (hends : Ends r line) :
    words r (some w) line ≠ word :: others := by
  cases line with
  | nil =>
    intro heq
    exact h.finish_ne (List.cons.inj heq).1
  | cons c line =>
    have hblank := hends c rfl
    exact h.stuck (r.ne_backslash hblank) (r.ne_quote hblank)

/-- A quote adds its output, and the rest of the gap stays. -/
theorem Lags.of_quoted (hsplit : word = w.text ++ gap ++ todo)
    (hspecial : ∀ c ∈ gap, c = r.quote ∨ c = r.backslash)
    (hlen : (w.output r).length < gap.length)
    (heq : words r (some (w.quoted r)) line = word :: others) :
    Lags r word (w.quoted r) (gap.drop (w.output r).length) todo := by
  obtain ⟨t, others', htext⟩ := words_some r (w.quoted r) line
  have hword : (w.quoted r).text ++ t = word := by
    rw [htext] at heq
    exact (List.cons.inj heq).1
  have houtput : w.output r ++ t = gap ++ todo := by
    rw [hsplit, Word.quoted, List.append_assoc, List.append_assoc] at hword
    exact List.append_cancel_left hword
  have hprefix : w.output r <+: gap :=
    List.prefix_of_prefix_length_le ⟨t, houtput⟩ (List.prefix_append gap todo) (Nat.le_of_lt hlen)
  have hgap := (List.prefix_iff_eq_append.mp hprefix).symm
  refine ⟨?_, ?_, ?_⟩
  · calc word = w.text ++ gap ++ todo := hsplit
      _ = w.text ++ (w.output r ++ gap.drop (w.output r).length) ++ todo := by rw [← hgap]
      _ = w.text ++ w.output r ++ gap.drop (w.output r).length ++ todo := by
        rw [← List.append_assoc w.text]
  · intro c hc
    exact hspecial c (List.mem_of_mem_drop hc)
  · rw [List.length_drop]
    exact Nat.sub_pos_of_lt hlen

/-- A quote of the word lags as well. -/
theorem Lags.quote (h : Lags r word w gap (r.quote :: todo))
    (heq : words r (some (w.quoted r)) line = word :: others) :
    ∃ gap', Lags r word (w.quoted r) gap' todo ∧
      ((w.quoted r).mode = .closing → 2 ≤ gap'.length) := by
  have hbehind := h.behind
  have hlen := length_output (r := r) (w := w)
  have hle : (w.output r).length ≤ w.slashes / 2 + 1 := by
    rw [hlen]
    split <;> omega
  have hsplit : word = w.text ++ (gap ++ [r.quote]) ++ todo := by
    rw [h.split, List.append_assoc, List.append_assoc, List.append_assoc, List.singleton_append]
  have hspecial := special_concat h.special (Or.inl rfl)
  have hlong : (w.output r).length < (gap ++ [r.quote]).length := by
    rw [List.length_append, List.length_singleton]
    omega
  have hlags := Lags.of_quoted hsplit hspecial hlong heq
  refine ⟨_, hlags, ?_⟩
  intro hclosing
  rw [literal_of_closing hclosing, if_neg Bool.false_ne_true] at hlen
  simp only [List.length_drop, List.length_append, List.length_singleton]
  omega

/-- Whatever character of the word comes next, it stays behind. -/
theorem Lags.next (h : Lags r word w gap (c :: todo))
    (heq : words r (some w) (c :: line) = word :: others) :
    ∃ w' gap', w.next r c = some w' ∧ Lags r word w' gap' todo ∧
      (w'.mode = .closing → 2 ≤ gap'.length) := by
  by_cases hslash : c = r.backslash
  · subst hslash
    refine ⟨_, gap ++ [r.backslash], next_backslash, ⟨?_, ?_, ?_⟩, ?_⟩
    · rw [h.split, List.append_assoc, List.append_assoc, List.append_assoc, List.singleton_append]
    · exact special_concat h.special (Or.inr rfl)
    · rw [List.length_append, List.length_singleton]
      exact Nat.succ_lt_succ h.behind
    · intro hclosing
      exact absurd hclosing w.mode.after_ne_closing
  · by_cases hquote : c = r.quote
    · subst hquote
      rw [words_next next_quote] at heq
      obtain ⟨gap', hlags, hclosing⟩ := h.quote heq
      exact ⟨_, gap', next_quote, hlags, hclosing⟩
    · exact absurd heq (h.stuck hslash hquote)

/-- The quote behind the word cannot be the one that it lacks. -/
theorem Lags.last (h : Lags r word w gap []) (hclosing : w.mode = .closing → 2 ≤ gap.length)
    (hends : Ends r line) : words r (some w) (r.quote :: line) ≠ word :: others := by
  intro heq
  rw [words_next next_quote] at heq
  have hbehind := h.behind
  have hlen : (w.output r).length < gap.length := by
    by_cases hmode : w.mode = .closing
    · have hgap := hclosing hmode
      rw [length_output]
      split <;> omega
    · exact Nat.lt_of_le_of_lt (length_output_le hmode) hbehind
  have hlags := Lags.of_quoted h.split h.special hlen heq
  exact hlags.ends hends heq

theorem Lags.not_read (h : Lags r word w gap todo) (hclosing : w.mode = .closing → 2 ≤ gap.length)
    (hends : Ends r line) : words r (some w) (todo ++ r.quote :: line) ≠ word :: others := by
  induction todo generalizing w gap with
  | nil => exact h.last hclosing hends
  | cons c todo ih =>
    intro heq
    obtain ⟨w', gap', hnext, hlags, hclosing'⟩ := h.next heq
    rw [List.cons_append, words_next hnext] at heq
    exact ih hlags hclosing' heq

/-! Behind a word's first quote, or at its end. -/

theorem slashes_inside_pos (hlast : word.getLast? = some r.backslash) :
    0 < (inside r word).slashes := by
  obtain ⟨before, rfl⟩ := List.getLast?_eq_some_iff.mp hlast
  rw [inside, List.rtakeWhile_concat_pos _ _ _ (isBackslash_iff.mpr rfl), List.length_append]
  exact Nat.succ_pos _

omit [DecidableEq α] in
theorem special_slashes (r : Rules α) (n : Nat) :
    ∀ c ∈ List.replicate n r.backslash, c = r.quote ∨ c = r.backslash := by
  intro c hc
  exact Or.inr (List.eq_of_mem_replicate hc)

theorem inside_split (word : List α) :
    word = (inside r word).text ++ List.replicate (inside r word).slashes r.backslash :=
  (finish_inside word).symm

/-- Backslashes at the end of the word. -/
theorem not_read_of_backslash (hquote : r.quote ∉ word)
    (hlast : word.getLast? = some r.backslash) (hends : Ends r line) :
    words r (some ((inside r word).quoted r)) line ≠ word :: others := by
  intro heq
  have hpos := slashes_inside_pos hlast
  have hliteral : (inside r word).literal = false := by
    apply literal_of_quote_not_mem (r := r)
    intro hmem
    obtain ⟨t, others', htext⟩ := words_some r ((inside r word).quoted r) line
    rw [htext] at heq
    apply hquote
    rw [← (List.cons.inj heq).1]
    exact List.mem_append_left _ (List.mem_append_right _ hmem)
  have hlen : ((inside r word).output r).length <
      (List.replicate (inside r word).slashes r.backslash).length := by
    rw [length_output, hliteral, List.length_replicate]
    exact Nat.div_lt_self hpos (by decide)
  have hsplit := inside_split (r := r) word
  rw [← List.append_nil (List.replicate _ _), ← List.append_assoc] at hsplit
  have hlags := Lags.of_quoted hsplit (special_slashes r _) hlen heq
  exact hlags.ends hends heq

/-- Backslashes in front of the word's first quote. -/
theorem not_read_of_backslash_quote (hlast : word.getLast? = some r.backslash)
    (hends : Ends r line) :
    words r (some ((inside r word).quoted r)) (todo ++ r.quote :: line) ≠
      (word ++ r.quote :: todo) :: others := by
  intro heq
  have hpos := slashes_inside_pos hlast
  have hle := length_output_le (r := r) (w := inside r word) (show Mode.inside ≠ .closing by decide)
  have hsplit : word ++ r.quote :: todo = (inside r word).text ++
      (List.replicate (inside r word).slashes r.backslash ++ [r.quote]) ++ todo := by
    rw [← List.append_assoc, ← inside_split, List.append_assoc, List.singleton_append]
  have hspecial := special_concat (special_slashes r (inside r word).slashes) (Or.inl rfl)
  have hlen : ((inside r word).output r).length <
      (List.replicate (inside r word).slashes r.backslash ++ [r.quote]).length := by
    rw [List.length_append, List.length_replicate, List.length_singleton]
    omega
  have hlags := Lags.of_quoted hsplit hspecial hlen heq
  refine hlags.not_read ?_ hends heq
  intro hclosing
  rw [List.length_drop, List.length_append, List.length_replicate, List.length_singleton,
    length_output, literal_of_closing hclosing, if_neg Bool.false_ne_true]
  omega

/-- Anything behind the first quote of the word. -/
theorem not_read_of_quote (hne : todo ≠ []) (hends : Ends r line) :
    words r (some ⟨.closing, 0, word⟩) (todo ++ r.quote :: line) ≠
      (word ++ r.quote :: todo) :: others := by
  intro heq
  obtain ⟨c, todo, rfl⟩ := List.exists_cons_of_ne_nil hne
  have hlags : Lags r (word ++ r.quote :: c :: todo) ⟨.closing, 0, word⟩ [r.quote] (c :: todo) := by
    refine ⟨?_, ?_, Nat.zero_lt_one⟩
    · rw [List.append_assoc, List.singleton_append]
    · intro c hc
      exact Or.inl (List.mem_singleton.mp hc)
  obtain ⟨w', gap', hnext, hlags', hclosing⟩ := hlags.next heq
  rw [List.cons_append, words_next hnext] at heq
  exact hlags'.not_read hclosing hends heq

/-- A word that is complete between quotes is the last one. -/
theorem eq_nil_of_inside (hends : Ends r line)
    (heq : words r (some ⟨.inside, 0, word⟩) line = word :: others) : line = [] := by
  cases line with
  | nil => rfl
  | cons c line =>
    have hblank := hends c rfl
    have hnext := next_inside (r := r) (w := ⟨.inside, 0, word⟩) rfl (r.ne_backslash hblank)
      (r.ne_quote hblank)
    obtain ⟨t, others', htext⟩ := words_some r
      ⟨.inside, 0, Word.finish r ⟨.inside, 0, word⟩ ++ [c]⟩ line
    rw [words_next hnext, htext] at heq
    have hlen := congrArg List.length (List.cons.inj heq).1
    simp only [Word.finish, List.length_append, List.length_singleton] at hlen
    omega

/-- A word that is read back is plain, or is the last one and has a quote at its end only. -/
theorem plain_or_last (hends : Ends r line)
    (heq : words r none (CommandLine.quote r word ++ line) = word :: others) :
    Plain r word ∨ line = [] ∧ ∃ u, Plain r u ∧ word = u ++ [r.quote] := by
  rw [CommandLine.quote, List.cons_append, List.append_assoc, List.singleton_append] at heq
  by_cases hquote : r.quote ∈ word
  · right
    obtain ⟨u, v, rfl, hu⟩ := List.eq_append_cons_of_mem hquote
    rw [List.append_assoc, words_open hu, List.cons_append, words_next next_quote] at heq
    by_cases hlast : u.getLast? = some r.backslash
    · exact absurd heq (not_read_of_backslash_quote hlast hends)
    · rw [quoted_inside hlast] at heq
      by_cases hv : v = []
      · -- the quote behind the word is the second of two, and the word is complete
        subst hv
        have hpair : (⟨.closing, 0, u⟩ : Word α).quoted r = ⟨.inside, 0, u ++ [r.quote]⟩ := by
          simp [Word.quoted, Word.output, Word.literal, Mode.toggle]
        rw [List.nil_append, words_next next_quote, hpair] at heq
        exact ⟨eq_nil_of_inside hends heq, u, ⟨hu, hlast⟩, rfl⟩
      · exact absurd heq (not_read_of_quote hv hends)
  · left
    refine ⟨hquote, ?_⟩
    intro hlast
    rw [words_open hquote, words_next next_quote] at heq
    exact not_read_of_backslash hquote hlast hends heq

end Lags

/-! ## Lines -/

/-- All words are plain; the last one may have a quote behind it. -/
def ReadBack : List (List α) → Prop
  | [] => True
  | [word] => Plain r word ∨ ∃ u, Plain r u ∧ word = u ++ [r.quote]
  | word :: others => Plain r word ∧ ReadBack others

section Line

variable {r} {blank c : α} {word line : List α} {ws : List (List α)}

omit [DecidableEq α] in
theorem ReadBack.of_plain (h : ∀ word ∈ ws, Plain r word) : ReadBack r ws := by
  induction ws with
  | nil => trivial
  | cons word ws ih =>
    rw [List.forall_mem_cons] at h
    cases ws with
    | nil => exact Or.inl h.1
    | cons word' ws => exact ⟨h.1, ih h.2⟩

/-- The words that are read back from a line of words between quotes. -/
theorem words_line (hblank : r.isBlank blank = true) (ws : List (List α)) :
    words r none ([blank].intercalate (ws.map (quote r))) = ws ↔ ReadBack r ws := by
  induction ws with
  | nil => exact iff_of_true rfl trivial
  | cons word ws ih =>
    cases ws with
    | nil =>
      have hends : Ends r ([] : List α) := by
        intro c hc
        cases hc
      have hline : [blank].intercalate ([word].map (quote r)) = quote r word ++ [] := by
        rw [List.append_nil]
        simp [List.intercalate]
      rw [hline]
      constructor
      · intro heq
        rcases plain_or_last hends heq with hplain | ⟨-, hlast⟩
        · exact Or.inl hplain
        · exact Or.inr hlast
      · rintro (hplain | ⟨u, hu, rfl⟩)
        · exact words_quote hplain hends
        · rw [List.append_nil]
          exact words_quote_last hu
    | cons word' ws =>
      have hline : [blank].intercalate ((word :: word' :: ws).map (quote r)) =
          quote r word ++ blank :: [blank].intercalate ((word' :: ws).map (quote r)) := by
        simp [List.intercalate]
      have hends : Ends r (blank :: [blank].intercalate ((word' :: ws).map (quote r))) := by
        intro c hc
        cases hc
        exact hblank
      rw [hline]
      constructor
      · intro heq
        rcases plain_or_last hends heq with hplain | ⟨hnil, -⟩
        · rw [words_quote hplain hends, words_blank hblank] at heq
          exact ⟨hplain, ih.mp (List.cons.inj heq).2⟩
        · cases hnil
      · rintro ⟨hplain, hothers⟩
        rw [words_quote hplain hends, words_blank hblank, ih.mpr hothers]

/-! The name of the program. -/

theorem quote_not_mem_program (r : Rules α) (inQuotes : Bool) (line : List α) :
    r.quote ∉ (program r inQuotes line).1 := by
  induction line generalizing inQuotes with
  | nil => exact List.not_mem_nil
  | cons c line ih =>
    rw [program]
    split
    · exact ih _
    · rename_i hquote
      split
      · exact List.not_mem_nil
      · rw [List.mem_cons, not_or]
        exact ⟨Ne.symm hquote, ih _⟩

theorem program_inside (hquote : r.quote ∉ word) (hblank : r.isBlank blank = true) :
    program r true (word ++ r.quote :: blank :: line) = (word, line) := by
  induction word with
  | nil =>
    rw [List.nil_append, program, if_pos rfl, program, if_neg (r.ne_quote hblank), if_pos]
    rw [hblank]
    rfl
  | cons c word ih =>
    rw [List.mem_cons, not_or] at hquote
    rw [List.cons_append, program, if_neg (Ne.symm hquote.1), if_neg, ih hquote.2]
    rw [Bool.not_true, Bool.and_false]
    exact Bool.false_ne_true

/-- The name and the words of a line that begins with the name between quotes. -/
theorem split_quote (hblank : r.isBlank blank = true) :
    split r (quote r word ++ blank :: line) = word :: ws ↔
      r.quote ∉ word ∧ words r none line = ws := by
  have hprogram : ∀ hquote : r.quote ∉ word,
      program r false (quote r word ++ blank :: line) = (word, line) := by
    intro hquote
    rw [quote, List.cons_append, List.append_assoc, program, if_pos rfl]
    exact program_inside hquote hblank
  constructor
  · intro h
    have hquote : r.quote ∉ word := by
      have hname := quote_not_mem_program r false (quote r word ++ blank :: line)
      rwa [(List.cons.inj h).1] at hname
    rw [split, hprogram hquote] at h
    exact ⟨hquote, (List.cons.inj h).2⟩
  · rintro ⟨hquote, hwords⟩
    rw [split, hprogram hquote, hwords]

/-! Apart from quotes and backslashes, a character that is not in the line is in no word. -/

variable {w w' : Word α} {d : α}

theorem not_mem_next (hquote : d ≠ r.quote) (hslash : d ≠ r.backslash) (hne : d ≠ c)
    (hw : d ∉ w.finish r) (h : w.next r c = some w') : d ∉ w'.finish r := by
  have hslashes : ∀ n, d ∉ List.replicate n r.backslash := by
    intro n hmem
    exact hslash (List.eq_of_mem_replicate hmem)
  have htext : d ∉ w.text := fun hmem => hw (List.mem_append_left _ hmem)
  by_cases hc : c = r.backslash
  · subst hc
    rw [next_backslash] at h
    cases h
    exact List.not_mem_append htext (hslashes _)
  · by_cases hc' : c = r.quote
    · subst hc'
      rw [next_quote] at h
      cases h
      have hliteral : d ∉ if w.literal then [r.quote] else [] := by
        split
        · exact fun hmem => hquote (List.mem_singleton.mp hmem)
        · exact List.not_mem_nil
      have houtput := List.not_mem_append (hslashes (w.slashes / 2)) hliteral
      exact List.not_mem_append (List.not_mem_append htext houtput) (hslashes 0)
    · rcases next_other (w := w) hc hc' with hnone | ⟨mode, hsome⟩
      · rw [hnone] at h
        cases h
      · rw [hsome] at h
        cases h
        have hlast : d ∉ [c] := fun hmem => hne (List.mem_singleton.mp hmem)
        exact List.not_mem_append (List.not_mem_append hw hlast) (hslashes 0)

theorem not_mem_words (hquote : d ≠ r.quote) (hslash : d ≠ r.backslash) (hline : d ∉ line)
    (word : List α) : (word ∈ words r none line → d ∉ word) ∧
      ∀ w, d ∉ Word.finish r w → word ∈ words r (some w) line → d ∉ word := by
  induction line with
  | nil =>
    constructor
    · intro hword
      cases hword
    · intro w hw hword
      rw [words, List.mem_singleton] at hword
      exact hword ▸ hw
  | cons c line ih =>
    rw [List.mem_cons, not_or] at hline
    obtain ⟨ihnone, ihsome⟩ := ih hline.2
    -- what a character does to a word that has not got this one
    have hstep : ∀ w, d ∉ Word.finish r w → ∀ w', w.next r c = some w' →
        word ∈ words r (some w') line → d ∉ word := by
      intro w hw w' hnext
      exact ihsome w' (not_mem_next hquote hslash hline.1 hw hnext)
    constructor
    · intro hword
      rw [words] at hword
      cases hnext : (Word.start : Word α).next r c with
      | none =>
        rw [hnext] at hword
        exact ihnone hword
      | some w' =>
        rw [hnext] at hword
        exact hstep Word.start List.not_mem_nil w' hnext hword
    · intro w hw hword
      cases hnext : w.next r c with
      | none =>
        rw [words_end hnext, List.mem_cons] at hword
        rcases hword with rfl | hothers
        · exact hw
        · exact ihnone hothers
      | some w' =>
        rw [words_next hnext] at hword
        exact hstep w hw w' hnext hword

theorem not_mem_program (inQuotes : Bool) (hline : d ∉ line) :
    d ∉ (program r inQuotes line).1 ∧ d ∉ (program r inQuotes line).2 := by
  induction line generalizing inQuotes with
  | nil => exact ⟨hline, hline⟩
  | cons c line ih =>
    rw [List.mem_cons, not_or] at hline
    rw [program]
    split
    · exact ih _ hline.2
    · split
      · exact ⟨List.not_mem_nil, hline.2⟩
      · obtain ⟨hname, hrest⟩ := ih inQuotes hline.2
        refine ⟨?_, hrest⟩
        rw [List.mem_cons, not_or]
        exact ⟨hline.1, hname⟩

theorem not_mem_split (hquote : d ≠ r.quote) (hslash : d ≠ r.backslash) (hline : d ∉ line)
    (hword : word ∈ split r line) : d ∉ word := by
  obtain ⟨hname, hrest⟩ := not_mem_program (r := r) false hline
  rcases List.mem_cons.mp hword with rfl | hwords
  · exact hname
  · exact (not_mem_words hquote hslash hrest word).1 hwords

end Line

end CommandLine
