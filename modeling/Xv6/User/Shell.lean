import Mathlib.Data.List.TakeWhile

/-!
# The shell's parser

A pointer into the line is the part of the line from it on, so the end of the line is the
empty list.  A word is kept as the two pointers that `gettoken` delimits it with.
-/

namespace Xv6
namespace User

def MAXARGS : Nat :=
  10

def whitespace : List Char :=
  [' ', '\t', '\r', '\n', '\x0b']

def symbols : List Char :=
  ['<', '|', '>', '&', ';', '(', ')']

def isSpace (c : Char) : Bool :=
  decide (c ∈ whitespace)

def isWord (c : Char) : Bool :=
  decide (c ∉ whitespace ∧ c ∉ symbols)

structure Span where
  q : List Char
  eq : List Char

def Span.text (p : Span) : List Char :=
  p.q.take (p.q.length - p.eq.length)

inductive Arrow where
  | input
  | output
  | append
deriving DecidableEq

inductive Cmd (W : Type) where
  | exec (argv : List W)
  | redir (cmd : Cmd W) (file : W) (arrow : Arrow)
  | pipe (left right : Cmd W)
  | list (left right : Cmd W)
  | back (cmd : Cmd W)
deriving DecidableEq

inductive ParseError where
  | leftovers
  | missingFile
  | parseblock
  | missingParen
  | syntaxError
  | tooManyArgs
  | fuel
deriving DecidableEq

def skip (s : List Char) : List Char :=
  s.dropWhile isSpace

def gettoken (s : List Char) : Char × Span × List Char :=
  match skip s with
  | [] => ('\x00', ⟨[], []⟩, [])
  | c :: t =>
    if c ∈ ['|', '(', ')', ';', '&', '<'] then
      (c, ⟨c :: t, t⟩, skip t)
    else if c = '>' then
      if t.head? = some '>' then
        ('+', ⟨c :: t, t.tail⟩, skip t.tail)
      else
        ('>', ⟨c :: t, t⟩, skip t)
    else
      ('a', ⟨c :: t, (c :: t).dropWhile isWord⟩, skip ((c :: t).dropWhile isWord))

def peek (s toks : List Char) : List Char × Bool :=
  (skip s, match skip s with
    | [] => false
    | c :: _ => decide (c ∈ toks))

def Cmd.addArg {W : Type} (w : W) : Cmd W -> Cmd W
  | .exec argv => .exec (argv ++ [w])
  | .redir cmd file arrow => .redir (cmd.addArg w) file arrow
  | cmd => cmd

abbrev Parsed :=
  Except ParseError (Cmd Span × List Char)

def parseredirs : Nat -> Cmd Span -> List Char -> Parsed
  | 0, _, _ => .error .fuel
  | fuel + 1, cmd, s =>
    if (peek s ['<', '>']).2 then
      let tok := gettoken (peek s ['<', '>']).1
      let file := gettoken tok.2.2
      if file.1 ≠ 'a' then
        .error .missingFile
      else if tok.1 = '<' then
        parseredirs fuel (.redir cmd file.2.1 .input) file.2.2
      else if tok.1 = '>' then
        parseredirs fuel (.redir cmd file.2.1 .output) file.2.2
      else
        parseredirs fuel (.redir cmd file.2.1 .append) file.2.2
    else
      .ok (cmd, (peek s ['<', '>']).1)

def parseargs : Nat -> Nat -> Cmd Span -> List Char -> Parsed
  | 0, _, _, _ => .error .fuel
  | fuel + 1, argc, ret, s =>
    if (peek s ['|', ')', '&', ';']).2 then
      .ok (ret, (peek s ['|', ')', '&', ';']).1)
    else
      let tok := gettoken (peek s ['|', ')', '&', ';']).1
      if tok.1 = '\x00' then
        .ok (ret, tok.2.2)
      else if tok.1 ≠ 'a' then
        .error .syntaxError
      else if MAXARGS <= argc + 1 then
        .error .tooManyArgs
      else do
        let done <- parseredirs fuel (ret.addArg tok.2.1) tok.2.2
        parseargs fuel (argc + 1) done.1 done.2

def parseback : Nat -> Cmd Span -> List Char -> Parsed
  | 0, _, _ => .error .fuel
  | fuel + 1, cmd, s =>
    if (peek s ['&']).2 then
      parseback fuel (.back cmd) (gettoken (peek s ['&']).1).2.2
    else
      .ok (cmd, (peek s ['&']).1)

mutual

def parseline : Nat -> List Char -> Parsed
  | 0, _ => .error .fuel
  | fuel + 1, s => do
      let left <- parsepipe fuel s
      let left <- parseback fuel left.1 left.2
      if (peek left.2 [';']).2 then do
        let right <- parseline fuel (gettoken (peek left.2 [';']).1).2.2
        return (.list left.1 right.1, right.2)
      else
        return (left.1, (peek left.2 [';']).1)

def parsepipe : Nat -> List Char -> Parsed
  | 0, _ => .error .fuel
  | fuel + 1, s => do
      let left <- parseexec fuel s
      if (peek left.2 ['|']).2 then do
        let right <- parsepipe fuel (gettoken (peek left.2 ['|']).1).2.2
        return (.pipe left.1 right.1, right.2)
      else
        return (left.1, (peek left.2 ['|']).1)

def parseexec : Nat -> List Char -> Parsed
  | 0, _ => .error .fuel
  | fuel + 1, s =>
    if (peek s ['(']).2 then
      parseblock fuel (peek s ['(']).1
    else do
      let ret <- parseredirs fuel (.exec []) (peek s ['(']).1
      parseargs fuel 0 ret.1 ret.2

def parseblock : Nat -> List Char -> Parsed
  | 0, _ => .error .fuel
  | fuel + 1, s =>
    if (peek s ['(']).2 then do
      let inner <- parseline fuel (gettoken (peek s ['(']).1).2.2
      if (peek inner.2 [')']).2 then
        parseredirs fuel inner.1 (gettoken (peek inner.2 [')']).1).2.2
      else
        .error .missingParen
    else
      .error .parseblock

end

def parsecmd (s : List Char) : Except ParseError (Cmd Span) := do
  let done <- parseline (4 * s.length + 4) s
  if (peek done.2 []).1 = [] then
    return done.1
  else
    .error .leftovers

/-! ## Tokens -/

inductive Tok (W : Type) where
  | word (w : W)
  | sym (c : Char)

abbrev Word := List Char

/-- A token stands at `q` and ends at `eq`; a word is as long as it can be, and so is
`>>`, whose code is `+`. -/
inductive Spells : Tok Word -> List Char -> List Char -> Prop where
  | word {w eq : List Char} : w ≠ [] -> (forall c, c ∈ w -> isWord c = true) ->
      (forall c, eq.head? = some c -> isWord c = false) -> Spells (.word w) (w ++ eq) eq
  | single {c : Char} {eq : List Char} : c ∈ ['|', '(', ')', ';', '&', '<'] ->
      Spells (.sym c) (c :: eq) eq
  | output {eq : List Char} : eq.head? ≠ some '>' -> Spells (.sym '>') ('>' :: eq) eq
  | append {eq : List Char} : Spells (.sym '+') ('>' :: '>' :: eq) eq

inductive Layout : List (Tok Word) -> List Char -> Prop where
  | nil {ws : List Char} : (forall c, c ∈ ws -> isSpace c = true) -> Layout [] ws
  | cons {ws q eq : List Char} {t : Tok Word} {ts : List (Tok Word)} :
      (forall c, c ∈ ws -> isSpace c = true) -> Spells t q eq -> Layout ts eq ->
      Layout (t :: ts) (ws ++ q)

variable {s eq : List Char} {c : Char} {ts : List (Tok Word)} {t : Tok Word}

def Tok.code : Tok Word -> Char
  | .word _ => 'a'
  | .sym c => c

def leads (toks : List Char) : List (Tok Word) -> Bool
  | .sym c :: _ => decide ((if c = '+' then '>' else c) ∈ toks)
  | _ => false

/-- A word of a line: the characters from `q` to `eq`, and no more. -/
structure Delimits (line : List Char) (p : Span) : Prop where
  suffix : p.q <:+ line
  split : p.q = p.text ++ p.eq
  chars : forall c, c ∈ p.text -> isWord c = true
  stop : forall c, p.eq.head? = some c -> isWord c = false

theorem isSpace_of_isWord (h : isWord c = true) : isSpace c = false := by
  exact decide_eq_false (of_decide_eq_true h).1

theorem not_mem_symbols_of_isWord (h : isWord c = true) : c ∉ symbols :=
  (of_decide_eq_true h).2

theorem skip_spaces {ws : List Char} (h : forall c, c ∈ ws -> isSpace c = true) :
    skip (ws ++ s) = skip s :=
  List.dropWhile_append_of_pos h

theorem skip_suffix (s : List Char) : skip s <:+ s :=
  List.dropWhile_suffix _

theorem Spells.cons {q : List Char} (h : Spells t q eq) :
    exists c r, q = c :: r ∧ isSpace c = false ∧ eq <:+ r := by
  cases h with
  | @word w _ hne hw _ =>
    obtain ⟨c, r, rfl⟩ := List.exists_cons_of_ne_nil hne
    exact ⟨c, r ++ eq, rfl, isSpace_of_isWord (hw c List.mem_cons_self), List.suffix_append r eq⟩
  | single hc =>
    refine ⟨_, eq, rfl, ?_, List.suffix_refl _⟩
    simp only [List.mem_cons, List.not_mem_nil, or_false] at hc
    rcases hc with rfl | rfl | rfl | rfl | rfl | rfl <;> decide
  | output _ => exact ⟨'>', eq, rfl, by decide, List.suffix_refl _⟩
  | append => exact ⟨'>', '>' :: eq, rfl, by decide, List.suffix_cons _ _⟩

theorem Spells.skip_eq {q : List Char} (h : Spells t q eq) : skip q = q := by
  obtain ⟨c, r, rfl, hc, -⟩ := h.cons
  exact List.dropWhile_cons_of_neg (by simp [hc])

theorem Spells.letter {stop : Char} (hc : isWord c = true) (hstop : isWord stop = false) :
    Spells (.word [c]) (c :: stop :: s) (stop :: s) := by
  refine .word (List.cons_ne_nil c []) ?_ ?_
  · intro d hd
    rw [List.mem_singleton.mp hd]
    exact hc
  · intro d hd
    rw [← Option.some.inj hd]
    exact hstop

theorem Layout.tok (ht : Spells t s eq) (hts : Layout ts eq) : Layout (t :: ts) s :=
  .cons (fun _ hc => absurd hc List.not_mem_nil) ht hts

theorem Layout.blank (hc : isSpace c = true) (h : Layout ts s) : Layout ts (c :: s) := by
  cases h with
  | nil hws => exact .nil (List.forall_mem_cons.mpr ⟨hc, hws⟩)
  | cons hws ht hts => exact .cons (List.forall_mem_cons.mpr ⟨hc, hws⟩) ht hts

theorem Layout.skip (h : Layout ts s) :
    Layout ts (skip s) := by
  cases h with
  | nil hws =>
    rw [← List.append_nil s, skip_spaces hws]
    exact Layout.nil (fun c hc => absurd hc List.not_mem_nil)
  | cons hws ht hts =>
    rw [skip_spaces hws, ht.skip_eq]
    exact .tok ht hts

theorem Layout.skip_nil (h : Layout [] s) : User.skip s = [] := by
  cases h with
  | nil hws =>
    rw [← List.append_nil s, skip_spaces hws]
    rfl

theorem Layout.skip_cons
    (h : Layout (t :: ts) s) : exists q eq, User.skip s = q ∧ Spells t q eq ∧ Layout ts eq := by
  cases h with
  | cons hws ht hts =>
    rw [skip_spaces hws, ht.skip_eq]
    exact ⟨_, _, rfl, ht, hts⟩

theorem Layout.length_le (h : Layout ts s) :
    ts.length <= s.length := by
  induction h with
  | nil _ => exact Nat.zero_le _
  | cons _ ht _ ih =>
    obtain ⟨c, r, rfl, -, hr⟩ := ht.cons
    have hle := hr.length_le
    rw [List.length_append, List.length_cons, List.length_cons]
    omega

theorem peek_eq {toks : List Char} (h : Layout ts s)
    (htoks : forall c, c ∈ toks -> c ∈ symbols) : peek s toks = (skip s, leads toks ts) := by
  unfold peek
  cases ts with
  | nil =>
    rw [h.skip_nil]
    rfl
  | cons t ts =>
    obtain ⟨q, eq, hq, ht, -⟩ := h.skip_cons
    rw [hq]
    cases ht with
    | @word w _ hne hw _ =>
      obtain ⟨c, r, rfl⟩ := List.exists_cons_of_ne_nil hne
      have hc := not_mem_symbols_of_isWord (hw c List.mem_cons_self)
      have hnot : c ∉ toks := fun hin => hc (htoks c hin)
      simp [leads, hnot]
    | @single c _ hc =>
      have hplus : c ≠ '+' := by
        rintro rfl
        exact absurd hc (by decide)
      simp [leads, hplus]
    | output _ => simp [leads]
    | append => simp [leads]

theorem gettoken_nil (h : Layout [] s) :
    (gettoken s).1 = '\x00' ∧ (gettoken s).2.2 = [] := by
  unfold gettoken
  rw [h.skip_nil]
  exact ⟨rfl, rfl⟩

theorem dropWhile_word {w : List Char} (hw : forall c, c ∈ w -> isWord c = true)
    (hstop : forall c, eq.head? = some c -> isWord c = false) :
    (w ++ eq).dropWhile isWord = eq := by
  rw [List.dropWhile_append_of_pos hw]
  cases eq with
  | nil => rfl
  | cons c eq => exact List.dropWhile_cons_of_neg (by simp [hstop c rfl])

theorem gettoken_cons {line : List Char} (h : Layout (t :: ts) s) (hs : s <:+ line) :
    (gettoken s).1 = t.code ∧ Layout ts (gettoken s).2.2 ∧ (gettoken s).2.2 <:+ line ∧
      forall w, t = .word w -> (gettoken s).2.1.text = w ∧ Delimits line (gettoken s).2.1 := by
  obtain ⟨q, eq, hq, ht, hts⟩ := h.skip_cons
  have hqs : q <:+ line := (hq ▸ skip_suffix s).trans hs
  have heq : skip eq <:+ line := by
    obtain ⟨c, r, rfl, -, hr⟩ := ht.cons
    exact (skip_suffix eq).trans ((hr.trans (List.suffix_cons c r)).trans hqs)
  unfold gettoken
  rw [hq]
  cases ht with
  | @word w _ hne hw hstop =>
    obtain ⟨c, r, rfl⟩ := List.exists_cons_of_ne_nil hne
    have hc := not_mem_symbols_of_isWord (hw c List.mem_cons_self)
    have hsingle : c ∉ ['|', '(', ')', ';', '&', '<'] := by
      intro hin
      apply hc
      simp only [List.mem_cons, List.not_mem_nil, or_false] at hin
      rcases hin with rfl | rfl | rfl | rfl | rfl | rfl <;> decide
    have hgt : c ≠ '>' := by
      rintro rfl
      exact hc (by decide)
    have hdrop := dropWhile_word hw hstop
    rw [List.cons_append] at hdrop hqs ⊢
    have htext : Span.text ⟨c :: (r ++ eq), eq⟩ = c :: r := by
      rw [Span.text, ← List.cons_append, List.length_append, Nat.add_sub_cancel,
        List.take_left]
    simp only [if_neg hsingle, if_neg hgt, hdrop]
    refine ⟨rfl, hts.skip, heq, fun w hw' => ?_⟩
    injection hw' with hw'
    subst hw'
    refine ⟨htext, ⟨hqs, ?_, ?_, hstop⟩⟩
    · rw [htext]
      rfl
    · rw [htext]
      exact hw
  | single hc =>
    simp only [if_pos hc]
    exact ⟨rfl, hts.skip, heq, fun w hw => by cases hw⟩
  | output hne =>
    simp only [if_neg hne]
    exact ⟨rfl, hts.skip, heq, fun w hw => by cases hw⟩
  | append => exact ⟨rfl, hts.skip, heq, fun w hw => by cases hw⟩

theorem mem_symbols (h : c ∈ symbols) :
    c ∈ ['|', '(', ')', ';', '&', '<'] ∨ c = '>' := by
  simp only [symbols, List.mem_cons, List.not_mem_nil, or_false] at h
  rcases h with rfl | rfl | rfl | rfl | rfl | rfl | rfl <;> decide

theorem head_dropWhile {p : Char -> Bool} (h : (s.dropWhile p).head? = some c) : p c = false := by
  have hnot := List.head?_dropWhile_not p s
  rw [h] at hnot
  exact hnot

theorem exists_spells {t : List Char} (hc : isSpace c = false) :
    exists tok eq, Spells tok (c :: t) eq := by
  by_cases hsym : c ∈ symbols
  · rcases mem_symbols hsym with hin | rfl
    · exact ⟨.sym c, t, Spells.single hin⟩
    · by_cases hgt : t.head? = some '>'
      · obtain ⟨t, rfl⟩ := List.head?_eq_some_iff.mp hgt
        exact ⟨.sym '+', t, Spells.append⟩
      · exact ⟨.sym '>', t, Spells.output hgt⟩
  · have hword : isWord c = true := decide_eq_true ⟨of_decide_eq_false hc, hsym⟩
    have hne : (c :: t).takeWhile isWord ≠ [] := by
      rw [List.takeWhile_cons_of_pos hword]
      exact List.cons_ne_nil _ _
    have hspell := Spells.word hne (fun d hd => List.mem_takeWhile_imp hd)
      (fun d hd => head_dropWhile (s := c :: t) hd)
    rw [List.takeWhile_append_dropWhile] at hspell
    exact ⟨_, _, hspell⟩

theorem exists_layout (s : List Char) : exists ts, Layout ts s := by
  induction hn : s.length using Nat.strong_induction_on generalizing s with
  | h n ih =>
    subst hn
    have hsplit : s.takeWhile isSpace ++ skip s = s := List.takeWhile_append_dropWhile
    have hws : forall c, c ∈ s.takeWhile isSpace -> isSpace c = true :=
      fun c hc => List.mem_takeWhile_imp hc
    cases hskip : skip s with
    | nil =>
      rw [hskip, List.append_nil] at hsplit
      rw [hsplit] at hws
      exact ⟨[], Layout.nil hws⟩
    | cons c t =>
      have hc : isSpace c = false := head_dropWhile (hskip ▸ rfl : (skip s).head? = some c)
      obtain ⟨tok, eq, htok⟩ := exists_spells (t := t) hc
      obtain ⟨d, r, hcons, -, hr⟩ := htok.cons
      obtain ⟨rfl, rfl⟩ := List.cons.inj hcons
      have hlen := hr.length_le
      have hsuf := (skip_suffix s).length_le
      rw [hskip, List.length_cons] at hsuf
      obtain ⟨ts, hts⟩ := ih eq.length (by omega) eq rfl
      rw [← hsplit, hskip]
      exact ⟨tok :: ts, Layout.cons hws htok hts⟩

end User
end Xv6
