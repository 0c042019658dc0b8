import Xv6.User.Shell

/-!
# The grammar of the shell

The token lists of a command tree: the simple commands with their redirections anywhere
among the words, and parentheses wherever they may stand.  The parser accepts exactly
these, and `print` is the one with as few parentheses as possible.
-/

namespace Xv6
namespace User

variable {W : Type}

structure Redir (W : Type) where
  arrow : Arrow
  file : W

def Arrow.code : Arrow -> Char
  | .input => '<'
  | .output => '>'
  | .append => '+'

def redirToks (rs : List (Redir W)) : List (Tok W) :=
  rs.flatMap fun r => [.sym r.arrow.code, .word r.file]

def argToks (args : List (W × List (Redir W))) : List (Tok W) :=
  args.flatMap fun arg => .word arg.1 :: redirToks arg.2

def wrap (cmd : Cmd W) (rs : List (Redir W)) : Cmd W :=
  rs.foldl (fun cmd r => .redir cmd r.file r.arrow) cmd

def backs : Nat -> Cmd W -> Cmd W
  | 0, cmd => cmd
  | n + 1, cmd => backs n (.back cmd)

inductive Level where
  | exec
  | pipe
  | line

inductive Form : Level -> Cmd W -> List (Tok W) -> Prop where
  | simple (rs : List (Redir W)) (args : List (W × List (Redir W))) : args.length < MAXARGS ->
      Form .exec (wrap (.exec (args.map Prod.fst)) (rs ++ args.flatMap Prod.snd))
        (redirToks rs ++ argToks args)
  | block {cmd : Cmd W} {ts : List (Tok W)} (rs : List (Redir W)) : Form .line cmd ts ->
      Form .exec (wrap cmd rs) (.sym '(' :: (ts ++ .sym ')' :: redirToks rs))
  | one {cmd : Cmd W} {ts : List (Tok W)} : Form .exec cmd ts -> Form .pipe cmd ts
  | pipe {left right : Cmd W} {ts us : List (Tok W)} : Form .exec left ts ->
      Form .pipe right us -> Form .pipe (.pipe left right) (ts ++ .sym '|' :: us)
  | line {cmd : Cmd W} {ts : List (Tok W)} (n : Nat) : Form .pipe cmd ts ->
      Form .line (backs n cmd) (ts ++ List.replicate n (.sym '&'))
  | list {left right : Cmd W} {ts us : List (Tok W)} (n : Nat) : Form .pipe left ts ->
      Form .line right us ->
      Form .line (.list (backs n left) right)
        (ts ++ (List.replicate n (.sym '&') ++ .sym ';' :: us))

/-! ## Printing -/

def Cmd.rank : Cmd W -> Nat
  | .exec _ => 0
  | .redir _ _ _ => 0
  | .pipe _ _ => 1
  | .back _ => 2
  | .list _ _ => 3

/-- Parentheses around a tree that does not stand at the rank `n` without them. -/
def parens (n rank : Nat) (ts : List (Tok W)) : List (Tok W) :=
  if n < rank then .sym '(' :: (ts ++ [.sym ')']) else ts

def print : Cmd W -> List (Tok W)
  | .exec argv => argv.map .word
  | .redir cmd file arrow => parens 0 cmd.rank (print cmd) ++ [.sym arrow.code, .word file]
  | .pipe left right =>
    parens 0 left.rank (print left) ++ .sym '|' :: parens 1 right.rank (print right)
  | .list left right => parens 2 left.rank (print left) ++ .sym ';' :: print right
  | .back cmd => parens 2 cmd.rank (print cmd) ++ [.sym '&']

def Cmd.Fits : Cmd W -> Prop
  | .exec argv => argv.length < MAXARGS
  | .redir cmd _ _ => cmd.Fits
  | .pipe left right => left.Fits ∧ right.Fits
  | .list left right => left.Fits ∧ right.Fits
  | .back cmd => cmd.Fits

def AtRank : Nat -> Cmd W -> List (Tok W) -> Prop
  | 0, cmd, ts => Form .exec cmd ts
  | 1, cmd, ts => Form .pipe cmd ts
  | 2, cmd, ts => exists n inner us, Form .pipe inner us ∧ cmd = backs n inner ∧
      ts = us ++ List.replicate n (.sym '&')
  | _, cmd, ts => Form .line cmd ts

theorem backs_succ (n : Nat) (cmd : Cmd W) : backs (n + 1) cmd = .back (backs n cmd) := by
  induction n generalizing cmd with
  | zero => rfl
  | succ n ih => exact ih (.back cmd)

theorem wrap_append (cmd : Cmd W) (rs qs : List (Redir W)) :
    wrap cmd (rs ++ qs) = wrap (wrap cmd rs) qs :=
  List.foldl_append

variable {cmd : Cmd W} {ts : List (Tok W)}

theorem AtRank.mono {n m : Nat} (h : AtRank n cmd ts) (hnm : n <= m) : AtRank m cmd ts := by
  induction hnm with
  | refl => exact h
  | @step m _ ih =>
    match m, ih with
    | 0, ih => exact Form.one ih
    | 1, ih => exact ⟨0, cmd, ts, ih, rfl, (List.append_nil ts).symm⟩
    | 2, ⟨n, inner, us, hform, hcmd, hts⟩ =>
      rw [hcmd, hts]
      exact Form.line n hform
    | _ + 3, ih => exact ih

theorem Cmd.rank_le (cmd : Cmd W) : cmd.rank <= 3 := by
  cases cmd <;> simp [Cmd.rank]

theorem AtRank.parens (n : Nat) (h : AtRank cmd.rank cmd ts) :
    AtRank n cmd (parens n cmd.rank ts) := by
  unfold User.parens
  split
  · exact AtRank.mono (n := 0) (Form.block [] (h.mono cmd.rank_le)) (Nat.zero_le n)
  · exact h.mono (by omega)

theorem Form.redir (h : Form .exec cmd ts) (file : W) (arrow : Arrow) :
    Form .exec (.redir cmd file arrow) (ts ++ [.sym arrow.code, .word file]) := by
  cases h with
  | simple rs args hlen =>
    rcases List.eq_nil_or_concat args with rfl | ⟨args, arg, rfl⟩
    · have hform := Form.simple (rs ++ [⟨arrow, file⟩]) [] hlen
      simpa [wrap, redirToks, argToks] using hform
    · have hform := Form.simple rs (args ++ [(arg.1, arg.2 ++ [⟨arrow, file⟩])])
        (by simpa using hlen)
      simpa [wrap, redirToks, argToks] using hform
  | block rs hform =>
    have hform := Form.block (rs ++ [⟨arrow, file⟩]) hform
    simpa [wrap, redirToks] using hform

def bare (argv : List W) : List (W × List (Redir W)) :=
  argv.map fun w => (w, [])

theorem argToks_bare (argv : List W) : argToks (bare argv) = argv.map .word := by
  induction argv with
  | nil => rfl
  | cons w argv ih => exact congrArg (List.cons (Tok.word w)) ih

theorem bare_words (argv : List W) : (bare argv).map Prod.fst = argv := by
  rw [bare, List.map_map]
  exact List.map_id argv

theorem bare_redirs (argv : List W) : (bare argv).flatMap Prod.snd = [] := by
  induction argv with
  | nil => rfl
  | cons w argv ih => exact ih

theorem print_form (h : cmd.Fits) : AtRank cmd.rank cmd (print cmd) := by
  induction cmd with
  | exec argv =>
    have hform := Form.simple [] (bare argv) (by rw [bare, List.length_map]; exact h)
    rw [argToks_bare, bare_redirs, bare_words] at hform
    exact hform
  | redir cmd file arrow ih => exact Form.redir ((ih h).parens 0) file arrow
  | pipe left right ihl ihr => exact Form.pipe ((ihl h.1).parens 0) ((ihr h.2).parens 1)
  | list left right ihl ihr =>
    obtain ⟨n, inner, us, hform, hcmd, hts⟩ := (ihl h.1).parens 2
    have hright : AtRank 3 right (print right) := (ihr h.2).mono right.rank_le
    have hlist := Form.list n hform hright
    rw [← hcmd, ← List.append_assoc, ← hts] at hlist
    exact hlist
  | back cmd ih =>
    obtain ⟨n, inner, us, hform, hcmd, hts⟩ := (ih h).parens 2
    refine ⟨n + 1, inner, us, hform, ?_, ?_⟩
    · rw [backs_succ, ← hcmd]
    · rw [print, hts, List.replicate_succ', List.append_assoc]

end User
end Xv6
