import Xv6.Lib.Segment
import Xv6.User.ShellParse
import Xv6.User.Ulib

/-!
# Terminated words and redirections

`nulterminate` writes into the line that the tree points into; `runcmd` walks the tree from
the outside in.
-/

namespace Xv6
namespace User

open Function Lib

/-! ## `nulterminate` -/

def terminators : Cmd Span -> List (List Char)
  | .exec argv => argv.map Span.eq
  | .redir cmd file _ => terminators cmd ++ [file.eq]
  | .pipe left right => terminators left ++ terminators right
  | .list left right => terminators left ++ terminators right
  | .back cmd => terminators cmd

/-- The address of a pointer into a line of `n` characters that stands at 0. -/
def address (n : Nat) (s : List Char) : Nat :=
  n - s.length

def nulterminate (n : Nat) (cmd : Cmd Span) (mem : Nat -> Char) : Nat -> Char :=
  (terminators cmd).foldl (fun mem s => update mem (address n s) nul) mem

theorem mem_terminators {cmd : Cmd Span} {s : List Char} :
    s ∈ terminators cmd <-> exists p, p ∈ cmd.words ∧ p.eq = s := by
  induction cmd with
  | exec argv => exact List.mem_map
  | redir cmd file arrow ih =>
    rw [terminators, List.mem_append, ih, List.mem_singleton]
    simp only [Cmd.words, List.mem_cons, or_and_right, exists_or, exists_eq_left]
    rw [or_comm, eq_comm]
  | pipe left right ihl ihr =>
    rw [terminators, List.mem_append, ihl, ihr]
    simp only [Cmd.words, List.mem_append, or_and_right, exists_or]
  | list left right ihl ihr =>
    rw [terminators, List.mem_append, ihl, ihr]
    simp only [Cmd.words, List.mem_append, or_and_right, exists_or]
  | back cmd ih => exact ih

theorem foldl_update_apply (n : Nat) (ps : List (List Char)) (mem : Nat -> Char) (a : Nat) :
    ps.foldl (fun mem s => update mem (address n s) nul) mem a =
      if a ∈ ps.map (address n) then nul else mem a := by
  induction ps generalizing mem with
  | nil => rfl
  | cons s ps ih =>
    rw [List.foldl_cons, ih, List.map_cons]
    by_cases ha : a = address n s
    · subst ha
      simp
    · simp [ha]

variable {line : List Char} {fds : Fds}

theorem Delimits.eq_suffix {p : Span} (h : Delimits line p) :
    p.eq <:+ line := by
  have hsuf := h.suffix
  rw [h.split] at hsuf
  exact (List.suffix_append p.text p.eq).trans hsuf

theorem address_append (pre s : List Char) : address (pre ++ s).length s = pre.length := by
  rw [address, List.length_append, Nat.add_sub_cancel]

theorem Delimits.apart {p p' : Span} (h : Delimits line p)
    (h' : Delimits line p') {i : Nat} (hi : i < p.text.length) :
    address line.length p.q + i ≠ address line.length p'.eq := by
  intro heq
  obtain ⟨pre, hpre⟩ := h.suffix
  obtain ⟨pre', hpre'⟩ := h'.eq_suffix
  have hplace : pre.length + i = pre'.length := by
    have hleft := address_append pre p.q
    have hright := address_append pre' p'.eq
    rw [hpre] at hleft
    rw [hpre'] at hright
    rw [← hleft, heq, hright]
  have hin : (line)[pre.length + i]? = some p.text[i] := by
    rw [← hpre, List.getElem?_append_right (by omega), Nat.add_sub_cancel_left, h.split,
      List.getElem?_append_left hi, List.getElem?_eq_getElem hi]
  have hout : (line)[pre'.length]? = p'.eq.head? := by
    rw [← hpre', List.getElem?_append_right (Nat.le_refl _), Nat.sub_self, List.head?_eq_getElem?]
  rw [hplace, hout] at hin
  have hword := h.chars _ (List.getElem_mem hi)
  rw [h'.stop _ hin] at hword
  exact Bool.false_ne_true hword

/-- After `nulterminate` every word stands in the line as a string of its own. -/
theorem nulterminate_isolates (line : List Char) (hnul : nul ∉ line) (c : Cmd Span)
    (hrun : parsecmd line = .ok c) (mem : Nat -> Char) (hmem : Holds mem 0 (line ++ [nul])) :
    (forall p, p ∈ c.words -> p.q = p.text ++ p.eq ∧
      cstr nul (nulterminate line.length c mem) (line.length + 1) (address line.length p.q) =
        some p.text) ∧
    forall s, s ∈ terminators c -> s <:+ line ∧ address line.length s <= line.length := by
  have hsound := parsecmd_sound line
  rw [hrun] at hsound
  have hwords := hsound.2
  constructor
  · intro p hp
    have hdel := hwords p hp
    refine ⟨hdel.split, ?_⟩
    obtain ⟨pre, hpre⟩ := hdel.suffix
    have hline : line = pre ++ (p.text ++ p.eq) := by
      rw [← hdel.split, hpre]
    have hq : address line.length p.q = pre.length := by
      rw [← hpre, address_append]
    have heq : address line.length p.eq = pre.length + p.text.length := by
      rw [hline, ← List.append_assoc, address_append, List.length_append]
    have hheld : Holds mem pre.length p.text := by
      rw [hline, List.append_assoc, List.append_assoc] at hmem
      have hmem := (holds_append.mp (holds_append.mp hmem).2).1
      rw [Nat.zero_add] at hmem
      exact hmem
    have hfree : nul ∉ p.text := by
      intro hin
      rw [hline] at hnul
      exact hnul (List.mem_append_right _ (List.mem_append_left _ hin))
    have hlen : p.text.length < line.length + 1 := by
      rw [hline]
      simp only [List.length_append]
      omega
    rw [hq]
    refine cstr_eq (holds_append.mpr ⟨hheld.congr fun i hi => ?_, holds_cons.mpr ⟨?_, Holds.nil⟩⟩)
      hfree hlen
    · rw [nulterminate, foldl_update_apply, if_neg]
      intro hin
      obtain ⟨s, hs, haddr⟩ := List.mem_map.mp hin
      obtain ⟨p', hp', rfl⟩ := mem_terminators.mp hs
      refine hdel.apart (hwords p' hp') hi ?_
      rw [hq, haddr]
    · rw [nulterminate, foldl_update_apply, if_pos]
      exact List.mem_map.mpr ⟨p.eq, mem_terminators.mpr ⟨p, hp, rfl⟩, heq⟩
  · intro s hs
    obtain ⟨p, hp, rfl⟩ := mem_terminators.mp hs
    exact ⟨(hwords p hp).eq_suffix, Nat.sub_le _ _⟩

theorem nulterminate_isolates_arrow :
    cstr nul (nulterminate 3 (.redir (.exec [⟨['a', '>', 'b'], ['>', 'b']⟩]) ⟨['b'], []⟩ .output)
      (fun a => ['a', '>', 'b'].getD a nul)) 4 0 = some ['a'] := by
  have hmem : Holds (fun a => ['a', '>', 'b'].getD a nul) 0 (['a', '>', 'b'] ++ [nul]) :=
    holds_cons.mpr ⟨rfl, holds_cons.mpr ⟨rfl,
      holds_cons.mpr ⟨rfl, holds_cons.mpr ⟨rfl, Holds.nil⟩⟩⟩⟩
  have h := nulterminate_isolates ['a', '>', 'b'] (by decide) _ rfl _ hmem
  exact (h.1 ⟨['a', '>', 'b'], ['>', 'b']⟩ (List.mem_cons_of_mem _ List.mem_cons_self)).2

/-! ## `runcmd` -/

def Arrow.fd : Arrow -> Nat
  | .input => 0
  | _ => 1

/-- `O_RDONLY`, `O_WRONLY|O_CREATE|O_TRUNC` and `O_WRONLY|O_CREATE`. -/
def Arrow.mode : Arrow -> Nat
  | .input => 0
  | .output => 0x601
  | .append => 0x201

/-- What a descriptor refers to: a file that was open when the shell started the command, a
file that it opened, or an end of a pipe. -/
inductive Object where
  | old (n : Nat)
  | file (path : Word) (mode : Nat)
  | pipe (write : Bool)
deriving DecidableEq

def NOFILE : Nat :=
  16

abbrev Fds := Nat -> Option Object

def lowest (fds : Fds) : Option Nat :=
  (List.range NOFILE).find? fun fd => (fds fd).isNone

def close (fds : Fds) (fd : Nat) : Fds :=
  update fds fd none

/-- What happens when a command is run: the files that are opened, and in the end the
programs that are started with their descriptors. -/
inductive Run where
  | exit (status : Nat)
  | exec (argv : List Word) (fds : Fds)
  | opened (file : Word) (mode : Nat) (next : Run)
  | openFailed (file : Word)
  | panic
  | list (left right : Run)
  | pipe (left right : Run)
  | back (child : Run)

def plumb (fds : Fds) (fd : Nat) (p0 p1 : Nat) (write : Bool) : Fds :=
  let closed := close fds fd
  let duped := match lowest closed with
    | none => closed
    | some new => update closed new (some (.pipe write))
  close (close duped p0) p1

/-- `opens` tells which files can be opened; every `fork` succeeds. -/
def runcmd (opens : Word -> Nat -> Bool) : Cmd Word -> Fds -> Run
  | .exec [], _ => .exit 1
  | .exec (arg :: argv), fds => .exec (arg :: argv) fds
  | .redir cmd file arrow, fds =>
    match lowest (close fds arrow.fd) with
    | none => .openFailed file
    | some fd =>
      if opens file arrow.mode then
        .opened file arrow.mode
          (runcmd opens cmd (update (close fds arrow.fd) fd (some (.file file arrow.mode))))
      else
        .openFailed file
  | .list left right, fds => .list (runcmd opens left fds) (runcmd opens right fds)
  | .pipe left right, fds =>
    match lowest fds with
    | none => .panic
    | some p0 =>
      match lowest (update fds p0 (some (.pipe false))) with
      | none => .panic
      | some p1 =>
        let fds := update (update fds p0 (some (.pipe false))) p1 (some (.pipe true))
        .pipe (runcmd opens left (plumb fds 1 p0 p1 true))
          (runcmd opens right (plumb fds 0 p0 p1 false))
  | .back cmd, fds => .back (runcmd opens cmd fds)

def openAll (rs : List (Redir Word)) (next : Run) : Run :=
  rs.foldr (fun r next => .opened r.file r.arrow.mode next) next

def redirected (fds : Fds) (rs : List (Redir Word)) : Fds :=
  rs.foldl (fun fds r => update fds r.arrow.fd (some (.file r.file r.arrow.mode))) fds

/-- A simple or a parenthesised command with its redirections in the order of the text. -/
inductive Redirects : Cmd Word -> List (Redir Word) -> List (Tok Word) -> Prop where
  | simple (rs : List (Redir Word)) (args : List (Word × List (Redir Word))) :
      args.length < MAXARGS ->
      Redirects (.exec (args.map Prod.fst)) (rs ++ args.flatMap Prod.snd)
        (redirToks rs ++ argToks args)
  | block {cmd : Cmd Word} {ts : List (Tok Word)} (rs : List (Redir Word)) : Form .line cmd ts ->
      Redirects cmd rs (.sym '(' :: (ts ++ .sym ')' :: redirToks rs))

theorem Redirects.form {cmd : Cmd Word} {rs : List (Redir Word)} {ts : List (Tok Word)}
    (h : Redirects cmd rs ts) : Form .line (wrap cmd rs) ts := by
  have hexec : Form .exec (wrap cmd rs) ts := by
    cases h with
    | simple rs args hargs => exact Form.simple rs args hargs
    | block rs hform => exact Form.block rs hform
  have hline : AtRank 3 (wrap cmd rs) ts := AtRank.mono (n := 0) hexec (by decide)
  exact hline

def Standard (fds : Fds) : Prop :=
  fds 0 ≠ none ∧ fds 1 ≠ none

theorem lowest_close (h : Standard fds) (arrow : Arrow) :
    lowest (close fds arrow.fd) = some arrow.fd := by
  have hrange : List.range NOFILE = 0 :: 1 :: (List.range NOFILE).drop 2 := rfl
  rw [lowest, hrange]
  cases arrow with
  | input => simp [close, Arrow.fd]
  | output =>
    obtain ⟨x, hx⟩ := Option.ne_none_iff_exists'.mp h.1
    simp [close, Arrow.fd, hx]
  | append =>
    obtain ⟨x, hx⟩ := Option.ne_none_iff_exists'.mp h.1
    simp [close, Arrow.fd, hx]

theorem Standard.update (h : Standard fds) (fd : Nat) (x : Object) :
    Standard (Function.update fds fd (some x)) := by
  constructor
  · by_cases h0 : 0 = fd
    · subst h0
      simp
    · rw [update_of_ne h0]
      exact h.1
  · by_cases h1 : 1 = fd
    · subst h1
      simp
    · rw [update_of_ne h1]
      exact h.2

theorem Standard.redirected (h : Standard fds) (rs : List (Redir Word)) :
    Standard (redirected fds rs) := by
  induction rs generalizing fds with
  | nil => exact h
  | cons r rs ih => exact ih (h.update _ _)

theorem runcmd_wrap {opens : Word -> Nat -> Bool} (cmd : Cmd Word) (rs : List (Redir Word))
    (hfds : Standard fds)
    (hopens : forall r, r ∈ rs -> opens r.file r.arrow.mode = true) :
    runcmd opens (wrap cmd rs) fds =
      openAll rs.reverse (runcmd opens cmd (redirected fds rs.reverse)) := by
  induction rs generalizing cmd fds with
  | nil => rfl
  | cons r rs ih =>
    obtain ⟨hr, hrs⟩ := List.forall_mem_cons.mp hopens
    have hwrap : wrap cmd (r :: rs) = wrap (.redir cmd r.file r.arrow) rs := rfl
    rw [hwrap, ih _ hfds hrs, List.reverse_cons, runcmd, lowest_close (hfds.redirected _)]
    simp only [hr, if_true, close, update_idem]
    simp [openAll, redirected]

theorem redirected_reverse (fds : Fds) (rs : List (Redir Word)) (fd : Nat) :
    redirected fds rs.reverse fd =
      match rs.find? fun r => decide (r.arrow.fd = fd) with
      | some r => some (.file r.file r.arrow.mode)
      | none => fds fd := by
  induction rs with
  | nil => rfl
  | cons r rs ih =>
    have hlast : redirected fds (r :: rs).reverse =
        update (redirected fds rs.reverse) r.arrow.fd (some (.file r.file r.arrow.mode)) := by
      rw [List.reverse_cons, redirected, List.foldl_append]
      rfl
    rw [hlast]
    by_cases hfd : r.arrow.fd = fd
    · subst hfd
      simp
    · rw [update_of_ne (Ne.symm hfd), ih, List.find?_cons_of_neg (by simpa using hfd)]

/-- The files of a command's redirections are opened from the last to the first, and each
descriptor refers to the first redirection for it. -/
theorem redirections_right_to_left {cmd : Cmd Word} {rs : List (Redir Word)}
    {ts : List (Tok Word)} (h : Redirects cmd rs ts) (hlay : Layout ts line)
    (opens : Word -> Nat -> Bool) (hopens : forall r, r ∈ rs -> opens r.file r.arrow.mode = true)
    (fds : Fds) (hfds : Standard fds) :
    exists c fds', parsecmd line = .ok c ∧
      runcmd opens c.text fds = openAll rs.reverse (runcmd opens cmd fds') ∧
      forall fd, fds' fd = match rs.find? fun r => decide (r.arrow.fd = fd) with
        | some r => some (.file r.file r.arrow.mode)
        | none => fds fd := by
  obtain ⟨c, hrun, htext, -⟩ := parsecmd_complete h.form hlay
  refine ⟨c, redirected fds rs.reverse, hrun, ?_, redirected_reverse fds rs⟩
  rw [htext]
  exact runcmd_wrap cmd rs hfds hopens

theorem redirections_right_to_left_two :
    exists c fds', parsecmd "a>x>y".toList = .ok c ∧
      runcmd (fun _ _ => true) c.text (fun fd => some (.old fd)) =
        .opened ['y'] 0x601 (.opened ['x'] 0x601 (.exec [['a']] fds')) ∧
      fds' 1 = some (.file ['x'] 0x601) := by
  have hy : Layout [.word ['y']] ['y'] :=
    .tok (.word (by decide) (List.forall_mem_singleton.mpr rfl) nofun) (.nil nofun)
  have hx : Layout [.word ['x'], .sym '>', .word ['y']] ['x', '>', 'y'] :=
    .tok (.letter rfl rfl) (.tok (.output (by decide)) hy)
  have hline : Layout [.word ['a'], .sym '>', .word ['x'], .sym '>', .word ['y']] "a>x>y".toList :=
    .tok (.letter rfl rfl) (.tok (.output (by decide)) hx)
  obtain ⟨c, fds', hrun, hopen, hfds⟩ := redirections_right_to_left
    (Redirects.simple [] [(['a'], [⟨.output, ['x']⟩, ⟨.output, ['y']⟩])] (by decide)) hline
    (fun _ _ => true) (fun _ _ => rfl) (fun fd => some (.old fd)) ⟨nofun, nofun⟩
  exact ⟨c, fds', hrun, hopen, hfds 1⟩

/-- `a >x >y` opens `y` before `x`, and `a` writes to `x`. -/
theorem redirection_order :
    exists c fds', parsecmd "a >x >y".toList = .ok c ∧
      runcmd (fun _ _ => true) c.text (fun fd => some (.old fd)) =
        .opened ['y'] 0x601 (.opened ['x'] 0x601 (.exec [['a']] fds')) ∧
      fds' 1 = some (.file ['x'] 0x601) :=
  ⟨_, _, rfl, rfl, rfl⟩

end User
end Xv6
