import Xv6.User.ShellGrammar

/-!
# The parser against the grammar

Every parse function either reports an error or reads a form of the grammar, and it reads
every form that is followed by a token of the levels above it.
-/

namespace Xv6
namespace User

def Cmd.text : Cmd Span -> Cmd Word
  | .exec argv => .exec (argv.map Span.text)
  | .redir cmd file arrow => .redir cmd.text file.text arrow
  | .pipe left right => .pipe left.text right.text
  | .list left right => .list left.text right.text
  | .back cmd => .back cmd.text

def Cmd.words {W : Type} : Cmd W -> List W
  | .exec argv => argv
  | .redir cmd file _ => file :: cmd.words
  | .pipe left right => left.words ++ right.words
  | .list left right => left.words ++ right.words
  | .back cmd => cmd.words

theorem Cmd.text_addArg (cmd : Cmd Span) (p : Span) :
    (cmd.addArg p).text = cmd.text.addArg p.text := by
  induction cmd with
  | exec argv => simp [Cmd.addArg, Cmd.text]
  | redir cmd file arrow ih => simp [Cmd.addArg, Cmd.text, ih]
  | pipe left right _ _ => rfl
  | list left right _ _ => rfl
  | back cmd _ => rfl

theorem Cmd.words_addArg {W : Type} {cmd : Cmd W} {w v : W} (h : v ∈ (cmd.addArg w).words) :
    v = w ∨ v ∈ cmd.words := by
  induction cmd with
  | exec argv => simpa [Cmd.addArg, Cmd.words, or_comm] using h
  | redir cmd file arrow ih =>
    rcases List.mem_cons.mp h with rfl | h
    · exact Or.inr List.mem_cons_self
    · exact (ih h).imp_right (List.mem_cons_of_mem _)
  | pipe left right _ _ => exact Or.inr h
  | list left right _ _ => exact Or.inr h
  | back cmd _ => exact Or.inr h

theorem addArg_wrap {W : Type} (cmd : Cmd W) (w : W) (rs : List (Redir W)) :
    (wrap cmd rs).addArg w = wrap (cmd.addArg w) rs := by
  induction rs generalizing cmd with
  | nil => rfl
  | cons r rs ih => exact ih (.redir cmd r.file r.arrow)

structure At (line : List Char) (cmd : Cmd Span) (s : List Char) (ts : List (Tok Word)) :
    Prop where
  layout : Layout ts s
  suffix : s <:+ line
  words : forall p, p ∈ cmd.words -> Delimits line p

/-- No function runs out of fuel, and what it reads is as `P` says. -/
def Outcome (P : Cmd Span -> List Char -> Prop) : Parsed -> Prop
  | .error e => e ≠ .fuel
  | .ok r => P r.1 r.2

theorem Outcome.bind {P Q : Cmd Span -> List Char -> Prop} {x : Parsed}
    {f : Cmd Span × List Char -> Parsed} (hx : Outcome P x)
    (hf : forall cmd s, P cmd s -> Outcome Q (f (cmd, s))) : Outcome Q (x >>= f) := by
  cases x with
  | error e => exact hx
  | ok r => exact hf r.1 r.2 hx

theorem Outcome.imp {P Q : Cmd Span -> List Char -> Prop} {x : Parsed} (hx : Outcome P x)
    (h : forall cmd s, P cmd s -> Q cmd s) : Outcome Q x := by
  cases x with
  | error e => exact hx
  | ok r => exact h r.1 r.2 hx

section

variable {line s : List Char} {ts rest : List (Tok Word)} {cmd : Cmd Span} {fuel : Nat}

theorem leads_arrow (h : leads ['<', '>'] ts = true) :
    exists (arrow : Arrow) (us : List (Tok Word)), ts = .sym arrow.code :: us := by
  match ts, h with
  | .sym c :: us, h =>
    have hin := of_decide_eq_true h
    by_cases hplus : c = '+'
    · exact ⟨.append, us, by rw [hplus]; rfl⟩
    · rw [if_neg hplus, List.mem_cons, List.mem_singleton] at hin
      rcases hin with rfl | rfl
      · exact ⟨.input, us, rfl⟩
      · exact ⟨.output, us, rfl⟩

theorem leads_single {d : Char} (hd : d ≠ '>') (h : leads [d] ts = true) :
    exists us, ts = .sym d :: us := by
  match ts, h with
  | .sym c :: us, h =>
    have hin := List.mem_singleton.mp (of_decide_eq_true h)
    by_cases hplus : c = '+'
    · rw [if_pos hplus] at hin
      exact absurd hin.symm hd
    · rw [if_neg hplus] at hin
      exact ⟨us, by rw [hin]⟩

theorem Layout.sym_ne {c : Char} (h : Layout (.sym c :: ts) s) : c ≠ 'a' ∧ c ≠ '\x00' := by
  obtain ⟨q, eq, -, ht, -⟩ := h.skip_cons
  cases ht with
  | single hc =>
    simp only [List.mem_cons, List.not_mem_nil, or_false] at hc
    rcases hc with rfl | rfl | rfl | rfl | rfl | rfl <;> decide
  | output _ => decide
  | append => decide

theorem At.peek (h : At line cmd s ts) (toks : List Char)
    (htoks : toks.all (fun c => c ∈ symbols) = true) :
    peek s toks = (skip s, leads toks ts) ∧ At line cmd (skip s) ts := by
  have hsymbols : forall c, c ∈ toks -> c ∈ symbols := fun c hc =>
    of_decide_eq_true (List.all_eq_true.mp htoks c hc)
  exact ⟨peek_eq h.layout hsymbols, h.layout.skip, (skip_suffix s).trans h.suffix, h.words⟩

theorem At.pass {c : Char} (h : At line cmd s (.sym c :: ts)) :
    (gettoken s).1 = c ∧ At line cmd (gettoken s).2.2 ts := by
  obtain ⟨hcode, hlay, hsuf, -⟩ := gettoken_cons h.layout h.suffix
  exact ⟨hcode, hlay, hsuf, h.words⟩

theorem At.with_words {c : Cmd Span} (h : At line cmd s ts)
    (hc : forall p, p ∈ c.words -> Delimits line p) : At line c s ts :=
  ⟨h.layout, h.suffix, hc⟩

theorem At.join {left right c : Cmd Span} {s' : List Char} {us : List (Tok Word)}
    (h : At line left s ts) (h' : At line right s' us) (hc : c.words = left.words ++ right.words) :
    At line c s' us := by
  refine h'.with_words fun p hp => ?_
  rw [hc] at hp
  rcases List.mem_append.mp hp with hp | hp
  · exact h.words p hp
  · exact h'.words p hp

theorem parseredirs_arrow {arrow : Arrow} {us : List (Tok Word)}
    (h : At line cmd s (.sym arrow.code :: us)) :
    parseredirs (fuel + 1) cmd s =
      if (gettoken (gettoken (skip s)).2.2).1 ≠ 'a' then .error .missingFile
      else parseredirs fuel
        (.redir cmd (gettoken (gettoken (skip s)).2.2).2.1 arrow)
        (gettoken (gettoken (skip s)).2.2).2.2 := by
  obtain ⟨hpeek, hat⟩ := h.peek ['<', '>'] (by decide)
  have hlead : leads ['<', '>'] (.sym arrow.code :: us) = true := by
    cases arrow <;> rfl
  rw [parseredirs, hpeek]
  simp only [hlead, if_true, hat.pass.1]
  cases arrow <;> simp [Arrow.code]

theorem parseredirs_sound (h : At line cmd s ts) (hfuel : ts.length < fuel) :
    Outcome (fun c s' => exists rs rest, ts = redirToks rs ++ rest ∧
      c.text = wrap cmd.text rs ∧ At line c s' rest) (parseredirs fuel cmd s) := by
  induction fuel generalizing ts cmd s with
  | zero => exact absurd hfuel (Nat.not_lt_zero _)
  | succ fuel ih =>
    by_cases hlead : leads ['<', '>'] ts = true
    · obtain ⟨arrow, us, rfl⟩ := leads_arrow hlead
      rw [parseredirs_arrow h]
      have hafter := (h.peek [] (by decide)).2.pass.2
      cases us with
      | nil =>
        rw [if_pos]
        · exact nofun
        · rw [(gettoken_nil hafter.layout).1]
          decide
      | cons t us =>
        obtain ⟨hcode, hlay, hsuf, hword⟩ := gettoken_cons hafter.layout hafter.suffix
        cases t with
        | sym c =>
          rw [if_pos]
          · exact nofun
          · rw [hcode]
            exact hafter.layout.sym_ne.1
        | word w =>
          rw [if_neg (by rw [hcode]; exact fun hne => hne rfl)]
          obtain ⟨htext, hdel⟩ := hword w rfl
          have hnext : At line (.redir cmd (gettoken (gettoken (skip s)).2.2).2.1 arrow)
              (gettoken (gettoken (skip s)).2.2).2.2 us :=
            ⟨hlay, hsuf, List.forall_mem_cons.mpr ⟨hdel, h.words⟩⟩
          refine (ih hnext (by simp only [List.length_cons] at hfuel; omega)).imp ?_
          rintro c s' ⟨rs, rest, rfl, hc, hrest⟩
          refine ⟨⟨arrow, w⟩ :: rs, rest, rfl, ?_, hrest⟩
          rw [hc, Cmd.text, htext]
          rfl
    · obtain ⟨hpeek, hat⟩ := h.peek ['<', '>'] (by decide)
      rw [parseredirs, hpeek, if_neg hlead]
      exact ⟨[], ts, rfl, rfl, hat⟩

theorem parseargs_sound {argc : Nat} {ws : List Word} {rs : List (Redir Word)}
    (h : At line cmd s ts) (hcmd : cmd.text = wrap (.exec ws) rs) (hws : ws.length = argc)
    (hargc : argc < MAXARGS) (hfuel : ts.length < fuel) :
    Outcome (fun c s' => exists args rest, ts = argToks args ++ rest ∧
      c.text = wrap (.exec (ws ++ args.map Prod.fst)) (rs ++ args.flatMap Prod.snd) ∧
      ws.length + args.length < MAXARGS ∧ At line c s' rest) (parseargs fuel argc cmd s) := by
  induction fuel generalizing ts cmd s argc ws rs with
  | zero => exact absurd hfuel (Nat.not_lt_zero _)
  | succ fuel ih =>
    obtain ⟨hpeek, hat⟩ := h.peek ['|', ')', '&', ';'] (by decide)
    rw [parseargs, hpeek]
    have hdone : cmd.text = wrap (.exec (ws ++ [])) (rs ++ []) := by
      rw [List.append_nil, List.append_nil]
      exact hcmd
    by_cases hlead : leads ['|', ')', '&', ';'] ts = true
    · rw [if_pos hlead]
      exact ⟨[], ts, rfl, hdone, hws ▸ hargc, hat⟩
    · rw [if_neg hlead]
      cases ts with
      | nil =>
        obtain ⟨hcode, hend⟩ := gettoken_nil hat.layout
        rw [if_pos hcode, hend]
        exact ⟨[], [], rfl, hdone, hws ▸ hargc, Layout.nil nofun, List.nil_suffix, h.words⟩
      | cons t us =>
        obtain ⟨hcode, hlay, hsuf, hword⟩ := gettoken_cons hat.layout hat.suffix
        cases t with
        | sym c =>
          have hne := hat.layout.sym_ne
          rw [if_neg (by rw [hcode]; exact hne.2), if_pos (by rw [hcode]; exact hne.1)]
          exact nofun
        | word w =>
          have hnul : ¬ (gettoken (skip s)).1 = '\x00' := by
            rw [hcode, Tok.code]
            decide
          rw [if_neg hnul, if_neg (by rw [hcode]; exact fun hne => hne rfl)]
          obtain ⟨htext, hdel⟩ := hword w rfl
          by_cases hmax : MAXARGS <= argc + 1
          · rw [if_pos hmax]
            exact nofun
          · rw [if_neg hmax]
            have hnext : At line (cmd.addArg (gettoken (skip s)).2.1)
                (gettoken (skip s)).2.2 us := by
              refine ⟨hlay, hsuf, fun p hp => ?_⟩
              rcases Cmd.words_addArg hp with rfl | hp
              · exact hdel
              · exact h.words p hp
            rw [List.length_cons] at hfuel
            refine (parseredirs_sound hnext (by omega)).bind ?_
            rintro c s' ⟨rs', rest, rfl, hc, hrest⟩
            rw [Cmd.text_addArg, hcmd, addArg_wrap, htext, ← wrap_append] at hc
            rw [List.length_append] at hfuel
            refine (ih hrest hc (by rw [List.length_append, hws]; rfl) (by omega)
              (by omega)).imp ?_
            rintro c s' ⟨args, rest, rfl, hc, hlen, hrest⟩
            refine ⟨(w, rs') :: args, rest, ?_, ?_, ?_, hrest⟩
            · simp [argToks]
            · rw [hc]
              simp
            · rw [List.length_append, List.length_singleton] at hlen
              rw [List.length_cons]
              omega

theorem parseback_sound (h : At line cmd s ts) (hfuel : ts.length < fuel) :
    Outcome (fun c s' => exists n rest, ts = List.replicate n (.sym '&') ++ rest ∧
      c.text = backs n cmd.text ∧ At line c s' rest) (parseback fuel cmd s) := by
  induction fuel generalizing ts cmd s with
  | zero => exact absurd hfuel (Nat.not_lt_zero _)
  | succ fuel ih =>
    obtain ⟨hpeek, hat⟩ := h.peek ['&'] (by decide)
    rw [parseback, hpeek]
    by_cases hlead : leads ['&'] ts = true
    · obtain ⟨us, rfl⟩ := leads_single (by decide) hlead
      rw [if_pos hlead]
      have hnext : At line (.back cmd) (gettoken (skip s)).2.2 us :=
        hat.pass.2.with_words h.words
      refine (ih hnext (by rw [List.length_cons] at hfuel; omega)).imp ?_
      rintro c s' ⟨n, rest, rfl, hc, hrest⟩
      exact ⟨n + 1, rest, rfl, hc, hrest⟩
    · rw [if_neg hlead]
      exact ⟨0, ts, rfl, rfl, hat⟩

end

/-! ## Every parse is a form -/

def Sound (line : List Char) (level : Level) (k fuel : Nat) (f : List Char -> Parsed) : Prop :=
  forall ts s, Layout ts s -> s <:+ line -> 4 * ts.length + k <= fuel ->
    Outcome (fun c s' => exists used rest, ts = used ++ rest ∧ Form level c.text used ∧
      At line c s' rest) (f s)

section

variable {line : List Char} {fuel : Nat}

theorem parsepipe_sound (hexec : Sound line .exec 2 fuel (parseexec fuel))
    (hpipe : Sound line .pipe 3 fuel (parsepipe fuel)) :
    Sound line .pipe 3 (fuel + 1) (parsepipe (fuel + 1)) := by
  intro ts s hlay hsuf hfuel
  rw [parsepipe]
  refine (hexec ts s hlay hsuf (by omega)).bind ?_
  rintro left s' ⟨used, rest, rfl, hleft, hat⟩
  obtain ⟨hpeek, hat⟩ := hat.peek ['|'] (by decide)
  rw [hpeek]
  by_cases hlead : leads ['|'] rest = true
  · obtain ⟨us, rfl⟩ := leads_single (by decide) hlead
    rw [if_pos hlead]
    have hnext := hat.pass.2
    simp only [List.length_append, List.length_cons] at hfuel
    refine (hpipe us _ hnext.layout hnext.suffix (by omega)).bind ?_
    rintro right s'' ⟨used', rest', rfl, hright, hat'⟩
    exact ⟨used ++ .sym '|' :: used', rest', by simp, Form.pipe hleft hright, hat.join hat' rfl⟩
  · rw [if_neg hlead]
    exact ⟨used, rest, rfl, Form.one hleft, hat⟩

theorem parseline_sound (hpipe : Sound line .pipe 3 fuel (parsepipe fuel))
    (hline : Sound line .line 4 fuel (parseline fuel)) :
    Sound line .line 4 (fuel + 1) (parseline (fuel + 1)) := by
  intro ts s hlay hsuf hfuel
  rw [parseline]
  refine (hpipe ts s hlay hsuf (by omega)).bind ?_
  rintro inner s' ⟨used, rest, rfl, hinner, hat⟩
  rw [List.length_append] at hfuel
  refine (parseback_sound hat (by omega)).bind ?_
  rintro left s' ⟨n, rest, rfl, htext, hat⟩
  obtain ⟨hpeek, hat⟩ := hat.peek [';'] (by decide)
  rw [hpeek]
  by_cases hlead : leads [';'] rest = true
  · obtain ⟨us, rfl⟩ := leads_single (by decide) hlead
    rw [if_pos hlead]
    have hnext := hat.pass.2
    simp only [List.length_append, List.length_cons] at hfuel
    refine (hline us _ hnext.layout hnext.suffix (by omega)).bind ?_
    rintro right s'' ⟨used', rest', rfl, hright, hat'⟩
    refine ⟨used ++ (List.replicate n (.sym '&') ++ .sym ';' :: used'), rest', by simp, ?_,
      hat.join hat' rfl⟩
    rw [Cmd.text, htext]
    exact Form.list n hinner hright
  · rw [if_neg hlead]
    refine ⟨used ++ List.replicate n (.sym '&'), rest, by simp, ?_, hat⟩
    rw [htext]
    exact Form.line n hinner

theorem parseblock_sound (hline : Sound line .line 4 fuel (parseline fuel)) :
    Sound line .exec 1 (fuel + 1) (parseblock (fuel + 1)) := by
  intro ts s hlay hsuf hfuel
  have hat : At line (.exec []) s ts := ⟨hlay, hsuf, nofun⟩
  obtain ⟨hpeek, hat⟩ := hat.peek ['('] (by decide)
  rw [parseblock, hpeek]
  by_cases hlead : leads ['('] ts = true
  · obtain ⟨us, rfl⟩ := leads_single (by decide) hlead
    rw [if_pos hlead]
    have hnext := hat.pass.2
    rw [List.length_cons] at hfuel
    refine (hline us _ hnext.layout hnext.suffix (by omega)).bind ?_
    rintro inner s' ⟨used, rest, rfl, hinner, hat⟩
    obtain ⟨hpeek, hat⟩ := hat.peek [')'] (by decide)
    rw [hpeek]
    by_cases hlead : leads [')'] rest = true
    · obtain ⟨us, rfl⟩ := leads_single (by decide) hlead
      rw [if_pos hlead]
      simp only [List.length_append, List.length_cons] at hfuel
      refine (parseredirs_sound hat.pass.2 (by omega)).imp ?_
      rintro c s'' ⟨rs, rest', rfl, hc, hrest⟩
      refine ⟨.sym '(' :: (used ++ .sym ')' :: redirToks rs), rest', by simp, ?_, hrest⟩
      rw [hc]
      exact Form.block rs hinner
    · rw [if_neg hlead]
      exact nofun
  · rw [if_neg hlead]
    exact nofun

theorem parseexec_sound (hblock : Sound line .exec 1 fuel (parseblock fuel)) :
    Sound line .exec 2 (fuel + 1) (parseexec (fuel + 1)) := by
  intro ts s hlay hsuf hfuel
  have hat : At line (.exec []) s ts := ⟨hlay, hsuf, nofun⟩
  obtain ⟨hpeek, hat⟩ := hat.peek ['('] (by decide)
  rw [parseexec, hpeek]
  by_cases hlead : leads ['('] ts = true
  · rw [if_pos hlead]
    exact hblock ts _ hat.layout hat.suffix (by omega)
  · rw [if_neg hlead]
    refine (parseredirs_sound hat (by omega)).bind ?_
    rintro c s' ⟨rs, rest, rfl, hc, hrest⟩
    rw [List.length_append] at hfuel
    refine (parseargs_sound hrest hc rfl (by decide) (by omega)).imp ?_
    rintro c s' ⟨args, rest, rfl, hc, hlen, hrest⟩
    refine ⟨redirToks rs ++ argToks args, rest, by simp, ?_, hrest⟩
    rw [hc]
    exact Form.simple rs args (by simpa using hlen)

theorem parse_sound (line : List Char) (fuel : Nat) :
    Sound line .line 4 fuel (parseline fuel) ∧ Sound line .pipe 3 fuel (parsepipe fuel) ∧
      Sound line .exec 2 fuel (parseexec fuel) ∧ Sound line .exec 1 fuel (parseblock fuel) := by
  induction fuel with
  | zero =>
    refine ⟨?_, ?_, ?_, ?_⟩ <;>
      exact fun ts s _ _ hfuel => absurd hfuel (by omega)
  | succ fuel ih =>
    obtain ⟨hline, hpipe, hexec, hblock⟩ := ih
    exact ⟨parseline_sound hpipe hline, parsepipe_sound hexec hpipe, parseexec_sound hblock,
      parseblock_sound hline⟩

end

/-! ## Every form is parsed -/

def Ends (toks : List Char) (rest : List (Tok Word)) : Prop :=
  rest = [] ∨ leads toks rest = true

theorem Ends.not_leads {toks others : List Char} {rest : List (Tok Word)} (h : Ends toks rest)
    (hdis : toks.all (fun c => c ∉ others) = true) : leads others rest = false := by
  rcases h with rfl | h
  · rfl
  · match rest, h with
    | .sym c :: us, h =>
      have hout := List.all_eq_true.mp hdis _ (of_decide_eq_true h)
      exact decide_eq_false (of_decide_eq_true hout)

section

variable {line s : List Char} {rest : List (Tok Word)} {cmd : Cmd Span} {fuel : Nat}

theorem parseredirs_complete (rs : List (Redir Word)) (h : At line cmd s (redirToks rs ++ rest))
    (hrest : leads ['<', '>'] rest = false) (hfuel : rs.length < fuel) :
    exists c s', parseredirs fuel cmd s = .ok (c, s') ∧ c.text = wrap cmd.text rs ∧
      At line c s' rest := by
  induction rs generalizing cmd s fuel with
  | nil =>
    obtain ⟨fuel, rfl⟩ := Nat.exists_eq_succ_of_ne_zero (Nat.ne_of_gt hfuel)
    obtain ⟨hpeek, hat⟩ := h.peek ['<', '>'] (by decide)
    have hlead : leads ['<', '>'] (redirToks [] ++ rest) = false := hrest
    refine ⟨cmd, skip s, ?_, rfl, hat⟩
    rw [parseredirs, hpeek, hlead]
    rfl
  | cons r rs ih =>
    obtain ⟨fuel, rfl⟩ := Nat.exists_eq_succ_of_ne_zero (Nat.ne_of_gt (Nat.zero_lt_of_lt hfuel))
    have hafter := (h.peek [] (by decide)).2.pass.2
    obtain ⟨hcode, hlay, hsuf, hword⟩ := gettoken_cons hafter.layout hafter.suffix
    obtain ⟨htext, hdel⟩ := hword r.file rfl
    have hnext : At line (.redir cmd (gettoken (gettoken (skip s)).2.2).2.1 r.arrow)
        (gettoken (gettoken (skip s)).2.2).2.2 (redirToks rs ++ rest) :=
      ⟨hlay, hsuf, List.forall_mem_cons.mpr ⟨hdel, h.words⟩⟩
    obtain ⟨c, s', hrun, hc, hat⟩ := ih hnext (Nat.lt_of_succ_lt_succ hfuel)
    refine ⟨c, s', ?_, ?_, hat⟩
    · rw [parseredirs_arrow h, if_neg (by rw [hcode]; exact fun hne => hne rfl)]
      exact hrun
    · rw [hc, Cmd.text, htext]
      rfl

theorem redirToks_length (rs : List (Redir Word)) : (redirToks rs).length = 2 * rs.length := by
  induction rs with
  | nil => rfl
  | cons r rs ih =>
    change (redirToks rs).length + 1 + 1 = 2 * (rs.length + 1)
    omega

theorem parseargs_complete {argc : Nat} {ws : List Word} {rs : List (Redir Word)}
    (args : List (Word × List (Redir Word))) (h : At line cmd s (argToks args ++ rest))
    (hcmd : cmd.text = wrap (.exec ws) rs) (hargs : argc + args.length < MAXARGS)
    (hrest : Ends ['|', ')', '&', ';'] rest) (hfuel : (argToks args).length < fuel) :
    exists c s', parseargs fuel argc cmd s = .ok (c, s') ∧
      c.text = wrap (.exec (ws ++ args.map Prod.fst)) (rs ++ args.flatMap Prod.snd) ∧
      At line c s' rest := by
  induction args generalizing cmd s fuel argc ws rs with
  | nil =>
    obtain ⟨fuel, rfl⟩ := Nat.exists_eq_succ_of_ne_zero (Nat.ne_of_gt hfuel)
    have h : At line cmd s rest := h
    obtain ⟨hpeek, hat⟩ := h.peek ['|', ')', '&', ';'] (by decide)
    simp only [List.map_nil, List.flatMap_nil, List.append_nil]
    rw [parseargs, hpeek]
    rcases hrest with rfl | hlead
    · obtain ⟨hcode, hend⟩ := gettoken_nil hat.layout
      refine ⟨cmd, [], ?_, hcmd, Layout.nil nofun, List.nil_suffix, h.words⟩
      rw [if_neg (by exact nofun), if_pos hcode, hend]
    · refine ⟨cmd, skip s, ?_, hcmd, hat⟩
      rw [if_pos hlead]
  | cons arg args ih =>
    obtain ⟨fuel, rfl⟩ := Nat.exists_eq_succ_of_ne_zero (Nat.ne_of_gt (Nat.zero_lt_of_lt hfuel))
    obtain ⟨hpeek, hat⟩ := h.peek ['|', ')', '&', ';'] (by decide)
    have hsplit : argToks (arg :: args) ++ rest =
        .word arg.1 :: (redirToks arg.2 ++ (argToks args ++ rest)) :=
      congrArg (List.cons (Tok.word arg.1)) (List.append_assoc _ _ _)
    have hlead : leads ['|', ')', '&', ';'] (argToks (arg :: args) ++ rest) = false := rfl
    rw [hsplit] at hat
    obtain ⟨hcode, hlay, hsuf, hword⟩ := gettoken_cons hat.layout hat.suffix
    obtain ⟨htext, hdel⟩ := hword arg.1 rfl
    have hnext : At line (cmd.addArg (gettoken (skip s)).2.1) (gettoken (skip s)).2.2
        (redirToks arg.2 ++ (argToks args ++ rest)) := by
      refine ⟨hlay, hsuf, fun p hp => ?_⟩
      rcases Cmd.words_addArg hp with rfl | hp
      · exact hdel
      · exact h.words p hp
    have hplain : leads ['<', '>'] (argToks args ++ rest) = false := by
      cases args with
      | nil => exact hrest.not_leads (by decide)
      | cons _ _ => rfl
    have hlen : (argToks (arg :: args)).length =
        1 + 2 * arg.2.length + (argToks args).length := by
      have hcons : argToks (arg :: args) = .word arg.1 :: (redirToks arg.2 ++ argToks args) := rfl
      rw [hcons, List.length_cons, List.length_append, redirToks_length]
      omega
    rw [List.length_cons] at hargs
    obtain ⟨c, s', hredirs, hc, hat'⟩ := parseredirs_complete arg.2 hnext hplain
      (by omega : arg.2.length < fuel)
    rw [Cmd.text_addArg, hcmd, addArg_wrap, htext, ← wrap_append] at hc
    obtain ⟨c, s', hrun, hc, hat'⟩ := ih hat' hc (by omega : argc + 1 + args.length < MAXARGS)
      (by omega : (argToks args).length < fuel)
    refine ⟨c, s', ?_, ?_, hat'⟩
    · have hnul : ¬ (gettoken (skip s)).1 = '\x00' := by
        rw [hcode, Tok.code]
        decide
      rw [parseargs, hpeek, hlead]
      simp only [Bool.false_eq_true, if_false]
      rw [if_neg hnul, if_neg (by rw [hcode]; exact fun hne => hne rfl), if_neg (by omega),
        hredirs]
      exact hrun
    · rw [hc]
      simp

theorem parseback_complete (n : Nat) (h : At line cmd s (List.replicate n (.sym '&') ++ rest))
    (hrest : leads ['&'] rest = false) (hfuel : n < fuel) :
    exists c s', parseback fuel cmd s = .ok (c, s') ∧ c.text = backs n cmd.text ∧
      At line c s' rest := by
  induction n generalizing cmd s fuel with
  | zero =>
    obtain ⟨fuel, rfl⟩ := Nat.exists_eq_succ_of_ne_zero (Nat.ne_of_gt hfuel)
    obtain ⟨hpeek, hat⟩ := h.peek ['&'] (by decide)
    have hlead : leads ['&'] (List.replicate 0 (.sym '&') ++ rest) = false := hrest
    refine ⟨cmd, skip s, ?_, rfl, hat⟩
    rw [parseback, hpeek, hlead]
    rfl
  | succ n ih =>
    obtain ⟨fuel, rfl⟩ := Nat.exists_eq_succ_of_ne_zero (Nat.ne_of_gt (Nat.zero_lt_of_lt hfuel))
    obtain ⟨hpeek, hat⟩ := h.peek ['&'] (by decide)
    have hnext : At line (.back cmd) (gettoken (skip s)).2.2
        (List.replicate n (.sym '&') ++ rest) := hat.pass.2.with_words h.words
    obtain ⟨c, s', hrun, hc, hat'⟩ := ih hnext (Nat.lt_of_succ_lt_succ hfuel)
    refine ⟨c, s', ?_, hc, hat'⟩
    rw [parseback, hpeek]
    exact hrun

end

def parse : Level -> Nat -> List Char -> Parsed
  | .exec => parseexec
  | .pipe => parsepipe
  | .line => parseline

def Level.cost : Level -> Nat
  | .exec => 2
  | .pipe => 3
  | .line => 4

def Level.after : Level -> List Char
  | .exec => ['|', ')', '&', ';']
  | .pipe => [')', '&', ';']
  | .line => [')']

/-- The parse function of a level reads the form, whatever of the levels above follows. -/
def Complete (line : List Char) (level : Level) (cmd : Cmd Word) (used : List (Tok Word)) :
    Prop :=
  forall (s : List Char) (rest : List (Tok Word)) (fuel : Nat), Layout (used ++ rest) s ->
    s <:+ line -> Ends level.after rest -> 4 * (used ++ rest).length + level.cost <= fuel ->
    exists c s', parse level fuel s = .ok (c, s') ∧ c.text = cmd ∧ At line c s' rest

theorem Ends.mono {toks others : List Char} {rest : List (Tok Word)} (h : Ends toks rest)
    (hsub : toks ⊆ others) : Ends others rest := by
  rcases h with rfl | h
  · exact Or.inl rfl
  · match rest, h with
    | .sym c :: us, h => exact Or.inr (decide_eq_true (hsub (of_decide_eq_true h)))

section

variable {line : List Char} {cmd left right : Cmd Word} {ts us : List (Tok Word)}

theorem complete_simple (rs : List (Redir Word)) {args : List (Word × List (Redir Word))}
    (hargs : args.length < MAXARGS) :
    Complete line .exec (wrap (.exec (args.map Prod.fst)) (rs ++ args.flatMap Prod.snd))
      (redirToks rs ++ argToks args) := by
  intro s rest fuel hlay hsuf hrest hfuel
  rw [List.append_assoc] at hlay hfuel
  simp only [List.length_append, Level.cost] at hfuel
  obtain ⟨fuel, rfl⟩ : exists n, fuel = n + 1 := ⟨fuel - 1, by omega⟩
  have hat : At line (.exec []) s (redirToks rs ++ (argToks args ++ rest)) := ⟨hlay, hsuf, nofun⟩
  obtain ⟨hpeek, hat⟩ := hat.peek ['('] (by decide)
  have hplain : forall toks, Level.exec.after.all (fun c => c ∉ toks) = true ->
      leads toks (argToks args ++ rest) = false := by
    intro toks htoks
    cases args with
    | nil => exact hrest.not_leads htoks
    | cons _ _ => rfl
  have hparen : leads ['('] (redirToks rs ++ (argToks args ++ rest)) = false := by
    match rs with
    | [] => exact hplain _ (by decide)
    | ⟨.input, _⟩ :: _ => rfl
    | ⟨.output, _⟩ :: _ => rfl
    | ⟨.append, _⟩ :: _ => rfl
  have hrs := redirToks_length rs
  obtain ⟨c, s', hredirs, hc, hat⟩ := parseredirs_complete rs hat (hplain _ (by decide))
    (by omega : rs.length < fuel)
  obtain ⟨c, s', hrun, hc, hat⟩ := parseargs_complete args hat hc
    (by omega : 0 + args.length < MAXARGS) hrest (by omega : (argToks args).length < fuel)
  refine ⟨c, s', ?_, hc, hat⟩
  change parseexec (fuel + 1) s = _
  rw [parseexec, hpeek, hparen]
  simp only [Bool.false_eq_true, if_false]
  rw [hredirs]
  exact hrun

theorem complete_block (rs : List (Redir Word)) (h : Complete line .line cmd ts) :
    Complete line .exec (wrap cmd rs) (.sym '(' :: (ts ++ .sym ')' :: redirToks rs)) := by
  intro s rest fuel hlay hsuf hrest hfuel
  have hshape : Tok.sym '(' :: (ts ++ .sym ')' :: redirToks rs) ++ rest =
      .sym '(' :: (ts ++ .sym ')' :: (redirToks rs ++ rest)) := by
    simp
  rw [hshape] at hlay hfuel
  simp only [List.length_cons, List.length_append, Level.cost] at hfuel
  obtain ⟨fuel, rfl⟩ : exists n, fuel = n + 1 + 1 := ⟨fuel - 2, by omega⟩
  have hat : At line (.exec []) s _ := ⟨hlay, hsuf, nofun⟩
  obtain ⟨hopen, hat⟩ := hat.peek ['('] (by decide)
  obtain ⟨hagain, hat⟩ := hat.peek ['('] (by decide)
  have hnext := hat.pass.2
  obtain ⟨inner, s', hinner, htext, hat⟩ := h _ _ fuel hnext.layout hnext.suffix (Or.inr rfl)
    (by simp only [List.length_cons, List.length_append, Level.cost]; omega)
  obtain ⟨hclose, hat⟩ := hat.peek [')'] (by decide)
  have hrs := redirToks_length rs
  obtain ⟨c, s'', hredirs, hc, hat⟩ := parseredirs_complete rs hat.pass.2
    (hrest.not_leads (by decide)) (by omega : rs.length < fuel)
  refine ⟨c, s'', ?_, by rw [hc, htext], hat⟩
  change parseexec (fuel + 1 + 1) s = _
  rw [parseexec, hopen]
  change parseblock (fuel + 1) (skip s) = _
  rw [parseblock, hagain]
  change (parse .line fuel _ >>= _) = _
  rw [hinner]
  change (if (peek s' [')']).2 = true then _ else _) = _
  rw [hclose]
  exact hredirs

theorem complete_one (h : Complete line .exec cmd ts) : Complete line .pipe cmd ts := by
  intro s rest fuel hlay hsuf hrest hfuel
  simp only [Level.cost] at hfuel
  obtain ⟨fuel, rfl⟩ : exists n, fuel = n + 1 := ⟨fuel - 1, by omega⟩
  obtain ⟨c, s', hrun, hc, hat⟩ := h s rest fuel hlay hsuf (hrest.mono (by decide))
    (by simp only [Level.cost]; omega)
  obtain ⟨hpeek, hat⟩ := hat.peek ['|'] (by decide)
  refine ⟨c, skip s', ?_, hc, hat⟩
  change (parse .exec fuel s >>= _) = _
  rw [hrun]
  change (if (peek s' ['|']).2 = true then _ else _) = _
  rw [hpeek, hrest.not_leads (by decide)]
  rfl

theorem complete_pipe (hleft : Complete line .exec left ts)
    (hright : Complete line .pipe right us) :
    Complete line .pipe (.pipe left right) (ts ++ .sym '|' :: us) := by
  intro s rest fuel hlay hsuf hrest hfuel
  rw [List.append_assoc, List.cons_append] at hlay hfuel
  simp only [List.length_append, List.length_cons, Level.cost] at hfuel
  obtain ⟨fuel, rfl⟩ : exists n, fuel = n + 1 := ⟨fuel - 1, by omega⟩
  obtain ⟨l, s', hrunl, hl, hat⟩ := hleft s _ fuel hlay hsuf (Or.inr rfl)
    (by simp only [List.length_append, List.length_cons, Level.cost]; omega)
  obtain ⟨hpeek, hat⟩ := hat.peek ['|'] (by decide)
  have hnext := hat.pass.2
  obtain ⟨r, s'', hrunr, hr, hat'⟩ := hright _ rest fuel hnext.layout hnext.suffix hrest
    (by simp only [List.length_append, Level.cost]; omega)
  refine ⟨.pipe l r, s'', ?_, by rw [Cmd.text, hl, hr], hat.join hat' rfl⟩
  change (parse .exec fuel s >>= _) = _
  rw [hrunl]
  change (if (peek s' ['|']).2 = true then _ else _) = _
  rw [hpeek]
  change (parse .pipe fuel _ >>= _) = _
  rw [hrunr]
  rfl

theorem complete_backs (n : Nat) (h : Complete line .pipe cmd ts) {s : List Char}
    {rest : List (Tok Word)} {fuel : Nat}
    (hlay : Layout (ts ++ (List.replicate n (.sym '&') ++ rest)) s) (hsuf : s <:+ line)
    (hrest : Ends [')', ';'] rest)
    (hfuel : 4 * (ts ++ (List.replicate n (Tok.sym '&') ++ rest)).length + 3 <= fuel) :
    exists c s' d s'', parsepipe fuel s = .ok (c, s') ∧ parseback fuel c s' = .ok (d, s'') ∧
      d.text = backs n cmd ∧ At line d s'' rest := by
  have hends : Ends Level.pipe.after (List.replicate n (.sym '&') ++ rest) := by
    cases n with
    | zero => exact hrest.mono (by decide)
    | succ n => exact Or.inr rfl
  obtain ⟨c, s', hrun, hc, hat⟩ := h s _ fuel hlay hsuf hends hfuel
  simp only [List.length_append, List.length_replicate] at hfuel
  obtain ⟨d, s'', hback, hd, hat⟩ := parseback_complete n hat (hrest.not_leads (by decide))
    (by omega : n < fuel)
  exact ⟨c, s', d, s'', hrun, hback, hc ▸ hd, hat⟩

theorem complete_line (n : Nat) (h : Complete line .pipe cmd ts) :
    Complete line .line (backs n cmd) (ts ++ List.replicate n (.sym '&')) := by
  intro s rest fuel hlay hsuf hrest hfuel
  rw [List.append_assoc] at hlay hfuel
  simp only [Level.cost] at hfuel
  obtain ⟨fuel, rfl⟩ : exists n, fuel = n + 1 := ⟨fuel - 1, by omega⟩
  obtain ⟨c, s', d, s'', hrun, hback, hd, hat⟩ := complete_backs n h hlay hsuf
    (hrest.mono (by decide)) (by omega : _ <= fuel)
  obtain ⟨hpeek, hat⟩ := hat.peek [';'] (by decide)
  refine ⟨d, skip s'', ?_, hd, hat⟩
  change parseline (fuel + 1) s = _
  rw [parseline, hrun]
  change (parseback fuel c s' >>= _) = _
  rw [hback]
  change (if (peek s'' [';']).2 = true then _ else _) = _
  rw [hpeek, hrest.not_leads (by decide)]
  rfl

theorem complete_list (n : Nat) (hleft : Complete line .pipe left ts)
    (hright : Complete line .line right us) :
    Complete line .line (.list (backs n left) right)
      (ts ++ (List.replicate n (.sym '&') ++ .sym ';' :: us)) := by
  intro s rest fuel hlay hsuf hrest hfuel
  rw [List.append_assoc, List.append_assoc, List.cons_append] at hlay hfuel
  simp only [Level.cost] at hfuel
  obtain ⟨fuel, rfl⟩ : exists n, fuel = n + 1 := ⟨fuel - 1, by omega⟩
  obtain ⟨c, s', d, s'', hrun, hback, hd, hat⟩ := complete_backs n hleft hlay hsuf (Or.inr rfl)
    (by omega : _ <= fuel)
  obtain ⟨hpeek, hat⟩ := hat.peek [';'] (by decide)
  have hnext := hat.pass.2
  simp only [List.length_append, List.length_cons] at hfuel
  obtain ⟨r, t, hrunr, hr, hat'⟩ := hright _ rest fuel hnext.layout hnext.suffix hrest
    (by simp only [List.length_append, Level.cost]; omega)
  refine ⟨.list d r, t, ?_, by rw [Cmd.text, hd, hr], hat.join hat' rfl⟩
  change parseline (fuel + 1) s = _
  rw [parseline, hrun]
  change (parseback fuel c s' >>= _) = _
  rw [hback]
  change (if (peek s'' [';']).2 = true then _ else _) = _
  rw [hpeek]
  change (parse .line fuel _ >>= _) = _
  rw [hrunr]
  rfl

theorem parse_complete {level : Level} (h : Form level cmd ts) : Complete line level cmd ts := by
  induction h with
  | simple rs args hargs => exact complete_simple rs hargs
  | block rs _ ih => exact complete_block rs ih
  | one _ ih => exact complete_one ih
  | pipe _ _ ihl ihr => exact complete_pipe ihl ihr
  | line n _ ih => exact complete_line n ih
  | list n _ _ ihl ihr => exact complete_list n ihl ihr

end

/-! ## The whole line -/

theorem parsecmd_complete {line : List Char} {cmd : Cmd Word} {ts : List (Tok Word)}
    (h : Form .line cmd ts) (hlay : Layout ts line) :
    exists c, parsecmd line = .ok c ∧ c.text = cmd ∧ forall p, p ∈ c.words -> Delimits line p := by
  have hlen := hlay.length_le
  obtain ⟨c, s, hrun, hc, hat⟩ := parse_complete h line [] (4 * line.length + 4)
    (by rw [List.append_nil]; exact hlay) (List.suffix_refl line) (Or.inl rfl)
    (by rw [List.append_nil, Level.cost]; omega)
  have hend : (peek s []).1 = [] := hat.layout.skip_nil
  refine ⟨c, ?_, hc, hat.words⟩
  change (parse .line (4 * line.length + 4) line >>= _) = _
  rw [hrun]
  exact if_pos hend

theorem Layout.eq_nil {ts : List (Tok Word)} {s : List Char} (h : Layout ts s)
    (hs : User.skip s = []) : ts = [] := by
  cases ts with
  | nil => rfl
  | cons t ts =>
    obtain ⟨q, eq, hq, ht, -⟩ := h.skip_cons
    obtain ⟨c, r, hcons, -, -⟩ := ht.cons
    rw [hs] at hq
    rw [← hq] at hcons
    cases hcons

theorem parsecmd_sound (line : List Char) :
    match parsecmd line with
    | .error e => e ≠ .fuel
    | .ok c => (exists ts, Layout ts line ∧ Form .line c.text ts) ∧
        forall p, p ∈ c.words -> Delimits line p := by
  obtain ⟨ts, hlay⟩ := exists_layout line
  have hlen := hlay.length_le
  have hsound := (parse_sound line (4 * line.length + 4)).1 ts line hlay (List.suffix_refl line)
    (by omega)
  unfold parsecmd
  cases hrun : parseline (4 * line.length + 4) line with
  | error e =>
    rw [hrun] at hsound
    exact hsound
  | ok r =>
    rw [hrun] at hsound
    obtain ⟨used, rest, rfl, hform, hat⟩ := hsound
    change match (if (peek r.2 []).1 = [] then _ else _ : Except ParseError (Cmd Span)) with
      | .error e => e ≠ .fuel
      | .ok c => _
    by_cases hend : (peek r.2 []).1 = []
    · rw [if_pos hend]
      rw [hat.layout.eq_nil hend, List.append_nil] at hlay
      exact ⟨⟨used, hlay, hform⟩, hat.words⟩
    · rw [if_neg hend]
      exact nofun

/-- The parser inverts printing, with any whitespace; and every line is rejected or a form
of the grammar. -/
theorem parsecmd_inverts_print :
    (forall (t : Cmd Word) (line : List Char), t.Fits -> Layout (print t) line ->
      exists c, parsecmd line = .ok c ∧ c.text = t) ∧
    (forall (line : List Char) (c : Cmd Span), parsecmd line = .ok c ->
      exists ts, Layout ts line ∧ Form .line c.text ts) ∧
    forall line : List Char, parsecmd line ≠ .error .fuel := by
  refine ⟨?_, ?_, ?_⟩
  · intro t line hfits hlay
    have hform : AtRank 3 t (print t) := (print_form hfits).mono t.rank_le
    obtain ⟨c, hrun, hc, -⟩ := parsecmd_complete hform hlay
    exact ⟨c, hrun, hc⟩
  · intro line c hrun
    have hsound := parsecmd_sound line
    rw [hrun] at hsound
    exact hsound.1
  · intro line hrun
    have hsound := parsecmd_sound line
    rw [hrun] at hsound
    exact hsound rfl

def nested : Cmd Word :=
  .back (.pipe (.list (.exec [['a'], ['b']]) (.exec [['c']]))
    (.redir (.exec [['d']]) ['f'] .append))

theorem parsecmd_inverts_print_nested :
    nested.Fits ∧ Layout (print nested) "(a b; c)\t|d>>f&\n".toList ∧
      exists c, parsecmd "(a b; c)\t|d>>f&\n".toList = .ok c ∧ c.text = nested := by
  have hfits : nested.Fits := by
    unfold nested Cmd.Fits Cmd.Fits Cmd.Fits Cmd.Fits
    decide
  have hright : Layout (print (.back (.redir (.exec [['d']]) ['f'] .append))) "d>>f&\n".toList :=
    .tok (.letter rfl rfl) (.tok .append (.tok (.letter rfl rfl)
      (.tok (.single (by decide)) (.nil (List.forall_mem_singleton.mpr rfl)))))
  have hpipe : Layout (.sym '|' :: print (.back (.redir (.exec [['d']]) ['f'] .append)))
      "\t|d>>f&\n".toList := .blank rfl (.tok (.single (by decide)) hright)
  have hline : Layout (print nested) "(a b; c)\t|d>>f&\n".toList :=
    .tok (.single (by decide)) (.tok (.letter rfl rfl) (.blank rfl (.tok (.letter rfl rfl)
      (.tok (.single (by decide)) (.blank rfl (.tok (.letter rfl rfl)
        (.tok (.single (by decide)) hpipe)))))))
  exact ⟨hfits, hline, parsecmd_inverts_print.1 nested _ hfits hline⟩

end User
end Xv6
