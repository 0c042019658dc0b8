import Xv6.Lib.Segment
import Xv6.User.Match
import Xv6.User.Ulib

/-!
# `grep`

The loop that reads a stream into a buffer and writes the lines that match.  `read` may
return any part of what it is asked for: `cut i` is what the `i`-th call would like to
return.
-/

namespace Xv6
namespace User

open Function Lib

variable {l r : List Char} {buf : Nat -> Char} {p : Nat} {ls : List (List Char)}

def BUFSIZE : Nat :=
  1024

/-- The lines from `p` on: each is terminated in place, matched, and written if it
matches. -/
def grepLines (pattern : List Char) :
    Nat -> (Nat -> Char) -> Nat -> List Char -> Option ((Nat -> Char) × Nat × List Char)
  | 0, _, _, _ => none
  | fuel + 1, buf, p, out => do
      match <- strchr nul buf '\n' BUFSIZE p with
      | none => some (buf, p, out)
      | some q =>
        let buf := update buf q nul
        let text <- cstr nul buf BUFSIZE p
        if matchText pattern text then
          let buf := update buf q '\n'
          let written := (List.range (q + 1 - p)).map (fun i => buf (p + i))
          grepLines pattern fuel buf (q + 1) (out ++ written)
        else
          grepLines pattern fuel buf (q + 1) out

/-- How much a `read` of at most `n` bytes returns: something, unless it is asked for
nothing or nothing is left. -/
def readSize (cut n left : Nat) : Nat :=
  min (max 1 cut) (min n left)

def readInto (buf : Nat -> Char) (m : Nat) (piece : List Char) (a : Nat) : Char :=
  if m <= a then piece.getD (a - m) (buf a) else buf a

def grep (pattern : List Char) (cut : Nat -> Nat) :
    Nat -> Nat -> (Nat -> Char) -> Nat -> List Char -> List Char -> Option (List Char)
  | 0, _, _, _, _, _ => none
  | fuel + 1, i, buf, m, input, out => do
      let n := readSize (cut i) (BUFSIZE - m - 1) input.length
      if n = 0 then
        some out
      else
        let buf := update (readInto buf m (input.take n)) (m + n) nul
        let m := m + n
        let (buf, p, out) <- grepLines pattern BUFSIZE buf 0 out
        if 0 < m then
          grep pattern cut fuel (i + 1) (memmove buf 0 p (m - p)) (m - p) (input.drop n) out
        else
          grep pattern cut fuel (i + 1) buf m (input.drop n) out

/-! ## Lines -/

def unlines (ls : List (List Char)) : List Char :=
  ls.flatMap (· ++ ['\n'])

theorem unlines_cons (l : List Char) (ls : List (List Char)) :
    unlines (l :: ls) = l ++ '\n' :: unlines ls := by
  simp [unlines]

theorem unlines_append (ls ks : List (List Char)) :
    unlines (ls ++ ks) = unlines ls ++ unlines ks :=
  List.flatMap_append

theorem length_le_unlines (ls : List (List Char)) : ls.length <= (unlines ls).length := by
  induction ls with
  | nil => exact Nat.le_refl _
  | cons l ls ih =>
    rw [unlines_cons, List.length_append, List.length_cons, List.length_cons]
    omega

theorem unlines_split (hls : forall l, l ∈ ls -> '\n' ∉ l)
    {s : List Char} (h : s ++ r = unlines ls) :
    exists done more tail, ls = done ++ more ∧ s = unlines done ++ tail ∧ '\n' ∉ tail ∧
      tail ++ r = unlines more := by
  induction ls generalizing s with
  | nil =>
    obtain ⟨rfl, rfl⟩ := List.append_eq_nil_iff.mp h
    exact ⟨[], [], [], rfl, rfl, List.not_mem_nil, rfl⟩
  | cons l ls ih =>
    obtain ⟨hl, hls⟩ := List.forall_mem_cons.mp hls
    have hline := h
    rw [unlines_cons] at hline
    rcases List.append_eq_append_iff.mp hline with ⟨x, hs, hr⟩ | ⟨x, rfl, hr⟩
    · refine ⟨[], l :: ls, s, rfl, rfl, fun hin => hl ?_, h⟩
      rw [hs]
      exact List.mem_append_left x hin
    · cases x with
      | nil =>
        refine ⟨[], l :: ls, l ++ [], rfl, rfl, ?_, h⟩
        rw [List.append_nil]
        exact hl
      | cons c x =>
        obtain ⟨rfl, hx⟩ := List.cons.inj hr
        obtain ⟨done, more, tail, rfl, rfl, htail, hmore⟩ := ih hls hx.symm
        refine ⟨l :: done, more, tail, rfl, ?_, htail, hmore⟩
        rw [unlines_cons, List.append_assoc, List.cons_append]

theorem unlines_carry {s : List Char} (h : s ++ r = unlines ls) (hs : '\n' ∉ s) :
    (ls = [] ∧ r = []) ∨ exists l more, ls = l :: more ∧ s.length <= l.length ∧ r ≠ [] := by
  cases ls with
  | nil => exact Or.inl ⟨rfl, (List.append_eq_nil_iff.mp h).2⟩
  | cons l ls =>
    refine Or.inr ⟨l, ls, rfl, ?_⟩
    rw [unlines_cons] at h
    rcases List.append_eq_append_iff.mp h with ⟨x, rfl, hr⟩ | ⟨x, rfl, hr⟩
    · rw [List.length_append, hr]
      exact ⟨Nat.le_add_right _ _, List.append_ne_nil_of_right_ne_nil _ (List.cons_ne_nil _ _)⟩
    · cases x with
      | nil =>
        rw [List.append_nil, ← List.nil_append r, ← hr]
        exact ⟨Nat.le_refl _, List.cons_ne_nil _ _⟩
      | cons c x =>
        obtain ⟨rfl, -⟩ := List.cons.inj hr
        exact absurd (List.mem_append_right l List.mem_cons_self) hs

theorem length_lt_unlines (hl : l ∈ ls) : l.length < (unlines ls).length := by
  obtain ⟨done, more, rfl⟩ := List.append_of_mem hl
  rw [unlines_append, unlines_cons, List.length_append, List.length_append, List.length_cons]
  omega

theorem unlines_eq_nil : unlines ls = [] <-> ls = [] := by
  constructor
  · intro h
    have hle := length_le_unlines ls
    rw [h] at hle
    exact List.eq_nil_of_length_eq_zero (Nat.le_zero.mp hle)
  · rintro rfl
    rfl

def lineFits (l : List Char) : Bool :=
  l.length + 1 < BUFSIZE

/-! ## One buffer -/

theorem strchr_line (h : Holds buf p (l ++ '\n' :: r)) (hline : '\n' ∉ l) (hnul : nul ∉ l)
    (hlen : l.length < BUFSIZE) :
    strchr nul buf '\n' BUFSIZE p = some (some (p + l.length)) := by
  obtain ⟨hl, hr⟩ := holds_append.mp h
  obtain ⟨k, hk⟩ : exists k, BUFSIZE = l.length + (k + 1) := ⟨BUFSIZE - l.length - 1, by omega⟩
  rw [hk, strchr_skip hl hnul hline, strchr, (holds_cons.mp hr).1, if_neg (by decide), if_pos rfl]

theorem strchr_tail (h : Holds buf p (l ++ [nul])) (hline : '\n' ∉ l) (hnul : nul ∉ l)
    (hlen : l.length < BUFSIZE) : strchr nul buf '\n' BUFSIZE p = some none := by
  obtain ⟨hl, hr⟩ := holds_append.mp h
  obtain ⟨k, hk⟩ : exists k, BUFSIZE = l.length + (k + 1) := ⟨BUFSIZE - l.length - 1, by omega⟩
  rw [hk, strchr_skip hl hnul hline, strchr, (holds_cons.mp hr).1, if_pos rfl]

theorem holds_update {c d : Char} (h : Holds buf p (l ++ c :: r)) :
    Holds (update buf (p + l.length) d) p (l ++ d :: r) := by
  obtain ⟨hl, hr⟩ := holds_append.mp h
  refine holds_append.mpr ⟨hl.congr fun i hi => update_of_ne (by omega) _ _, holds_cons.mpr ?_⟩
  exact ⟨update_self _ _ _, (holds_cons.mp hr).2.congr fun i _ => update_of_ne (by omega) _ _⟩

theorem grepLines_eq (pattern : List Char) (ls : List (List Char)) {tail : List Char}
    (fuel : Nat) (out : List Char) (h : Holds buf p (unlines ls ++ (tail ++ [nul])))
    (hls : forall l, l ∈ ls -> '\n' ∉ l) (htail : '\n' ∉ tail)
    (hnul : nul ∉ unlines ls ++ tail) (hlen : (unlines ls ++ tail).length < BUFSIZE)
    (hfuel : ls.length < fuel) :
    exists buf', grepLines pattern fuel buf p out =
        some (buf', p + (unlines ls).length, out ++ unlines (ls.filter (matchText pattern))) ∧
      Holds buf' (p + (unlines ls).length) tail := by
  induction ls generalizing buf p out fuel with
  | nil =>
    obtain ⟨fuel, rfl⟩ := Nat.exists_eq_succ_of_ne_zero (Nat.ne_of_gt hfuel)
    refine ⟨buf, ?_, (holds_append.mp (holds_append.mp h).2).1⟩
    rw [grepLines, strchr_tail h htail hnul hlen]
    simp [unlines]
  | cons l ls ih =>
    obtain ⟨fuel, rfl⟩ := Nat.exists_eq_succ_of_ne_zero (Nat.ne_of_gt (Nat.zero_lt_of_lt hfuel))
    obtain ⟨hl, hls⟩ := List.forall_mem_cons.mp hls
    simp only [unlines_cons, List.append_assoc, List.cons_append] at h hnul hlen
    have hnl : nul ∉ l := fun hin => hnul (List.mem_append_left _ hin)
    have hnrest : nul ∉ unlines ls ++ tail := fun hin =>
      hnul (List.mem_append_right _ (List.mem_cons_of_mem _ hin))
    rw [List.length_append, List.length_cons] at hlen
    have hcut := holds_update (d := nul) h
    have htext : cstr nul (update buf (p + l.length) nul) BUFSIZE p = some l := by
      rw [List.append_cons] at hcut
      exact cstr_eq (holds_append.mp hcut).1 hnl (by omega)
    have hpos : p + (l.length + 1 + (unlines ls).length) =
        p + l.length + 1 + (unlines ls).length := by
      omega
    rw [grepLines, strchr_line h hl hnl (by omega)]
    simp only [Option.bind_eq_bind, Option.bind_some, htext]
    have hlength : (unlines (l :: ls)).length = l.length + 1 + (unlines ls).length := by
      rw [unlines_cons, List.length_append, List.length_cons]
      omega
    rw [hlength, hpos]
    by_cases hm : matchText pattern l = true
    · rw [if_pos hm, List.filter_cons_of_pos hm, unlines_cons]
      have hback := holds_update (d := '\n') hcut
      have hboth := hback
      rw [List.append_cons] at hboth
      have hwritten := (holds_append.mp hboth).1.map_range
      rw [List.length_append, List.length_singleton] at hwritten
      rw [show p + l.length + 1 - p = l.length + 1 by omega, hwritten]
      have hrest := (holds_cons.mp (holds_append.mp hback).2).2
      obtain ⟨buf', hrun, htl⟩ := ih fuel (out ++ (l ++ ['\n'])) hrest hls hnrest (by omega)
        (Nat.lt_of_succ_lt_succ hfuel)
      refine ⟨buf', ?_, htl⟩
      rw [hrun]
      simp
    · rw [if_neg hm, List.filter_cons_of_neg hm]
      have hrest := (holds_cons.mp (holds_append.mp hcut).2).2
      exact ih fuel out hrest hls hnrest (by omega) (Nat.lt_of_succ_lt_succ hfuel)

/-! ## The stream -/

theorem holds_readInto {carry : List Char} (h : Holds buf 0 carry) (piece : List Char) :
    Holds (update (readInto buf carry.length piece) (carry.length + piece.length) nul) 0
      (carry ++ piece ++ [nul]) := by
  refine holds_append.mpr ⟨holds_append.mpr ⟨h.congr fun i hi => ?_, fun i hi => ?_⟩, ?_⟩
  · rw [update_of_ne (by omega), readInto, if_neg (by omega)]
  · rw [update_of_ne (by omega), readInto, if_pos (by omega), Nat.zero_add,
      Nat.add_sub_cancel_left, List.getD_eq_getElem?_getD, List.getElem?_eq_getElem hi]
    rfl
  · rw [List.length_append, Nat.zero_add]
    exact holds_cons.mpr ⟨update_self _ _ _, Holds.nil⟩

theorem holds_memmove {tail : List Char} (h : Holds buf p tail) :
    Holds (memmove buf 0 p tail.length) 0 tail := by
  intro i hi
  rw [memmove_apply, if_pos (by omega), Nat.zero_add, Nat.sub_zero]
  exact h i hi

theorem grep_full (pattern : List Char) (cut : Nat -> Nat) (fuel i : Nat) (buf : Nat -> Char)
    (input out : List Char) :
    grep pattern cut (fuel + 1) i buf (BUFSIZE - 1) input out = some out := by
  have hzero : readSize (cut i) (BUFSIZE - (BUFSIZE - 1) - 1) input.length = 0 := by
    have hroom : BUFSIZE - (BUFSIZE - 1) - 1 = 0 := rfl
    rw [readSize, hroom, Nat.zero_min, Nat.min_zero]
  rw [grep, hzero]
  rfl

/-- Between two reads the buffer holds the beginning of the next line.  A line that does not fit
fills it, which ends the loop. -/
theorem grep_eq (pattern : List Char) (cut : Nat -> Nat) (hls : forall l, l ∈ ls -> '\n' ∉ l)
    (hnul : nul ∉ unlines ls) {carry input : List Char} (hcarry : '\n' ∉ carry)
    (hroom : carry.length < BUFSIZE) (hinput : carry ++ input = unlines ls)
    (hbuf : Holds buf 0 carry) {fuel i : Nat} (hfuel : input.length < fuel) (out : List Char) :
    grep pattern cut fuel i buf carry.length input out =
      some (out ++ unlines ((ls.takeWhile lineFits).filter (matchText pattern))) := by
  induction fuel generalizing ls carry input buf i out with
  | zero => exact absurd hfuel (Nat.not_lt_zero _)
  | succ fuel ih =>
    rcases unlines_carry hinput hcarry with ⟨rfl, rfl⟩ | ⟨l, rest, hfirst, hle, hne⟩
    · simp [grep, readSize, unlines]
    by_cases hfull : carry.length = BUFSIZE - 1
    · have hlong : ¬ lineFits l = true := by
        rw [lineFits, decide_eq_true_eq]
        omega
      rw [hfull, grep_full, hfirst, List.takeWhile_cons_of_neg hlong]
      simp [unlines]
    · unfold grep
      have hleft := List.length_pos_iff.mpr hne
      obtain ⟨n, hn⟩ : exists n, readSize (cut i) (BUFSIZE - carry.length - 1) input.length = n :=
        ⟨_, rfl⟩
      rw [hn]
      unfold readSize at hn
      have hpiece : (input.take n).length = n := by
        rw [List.length_take]
        omega
      have hwhole : (carry ++ input.take n) ++ input.drop n = unlines ls := by
        rw [List.append_assoc, List.take_append_drop, hinput]
      clear hfirst hle
      obtain ⟨done, more, tail, rfl, hsplit, htail, hmore⟩ := unlines_split hls hwhole
      have hheld := holds_readInto hbuf (input.take n)
      rw [hsplit, hpiece, List.append_assoc] at hheld
      have hlen : (unlines done ++ tail).length = carry.length + n := by
        rw [← hsplit, List.length_append, hpiece]
      have hnone : nul ∉ unlines done ++ tail := by
        intro hin
        rw [← hsplit] at hin
        exact hnul (hwhole ▸ List.mem_append_left _ hin)
      have hcount := length_le_unlines done
      obtain ⟨buf', hrun, hheld⟩ := grepLines_eq pattern done BUFSIZE out hheld
        (fun k hk => hls k (List.mem_append_left _ hk)) htail hnone (by omega)
        (by rw [List.length_append] at hlen; omega)
      rw [List.length_append] at hlen
      have hfits : forall k, k ∈ done -> lineFits k = true := by
        intro k hk
        have hlt := length_lt_unlines hk
        rw [lineFits, decide_eq_true_eq]
        omega
      have hm : carry.length + n - (0 + (unlines done).length) = tail.length := by
        omega
      simp only [if_neg (show n ≠ 0 by omega), hrun, Option.bind_eq_bind, Option.bind_some,
        if_pos (show 0 < carry.length + n by omega), hm]
      rw [ih (fun k hk => hls k (List.mem_append_right _ hk))
        (fun hin => hnul (unlines_append done more ▸ List.mem_append_right _ hin)) htail (by omega)
        hmore (holds_memmove hheld) (by rw [List.length_drop]; omega)]
      rw [List.takeWhile_append_of_pos hfits, List.filter_append, unlines_append, List.append_assoc]

/-- The lines that match are written, whole and in order, up to the first line that does not fit
into the buffer; nothing depends on how the input is split. -/
theorem grep_prints (pattern : List Char) (ls : List (List Char))
    (hls : forall l, l ∈ ls -> '\n' ∉ l ∧ nul ∉ l) (cut : Nat -> Nat) (buf : Nat -> Char)
    {fuel : Nat} (hfuel : (unlines ls).length < fuel) :
    grep pattern cut fuel 0 buf 0 (unlines ls) [] =
        some (unlines ((ls.takeWhile lineFits).filter (matchText pattern))) ∧
      (grep pattern cut fuel 0 buf 0 (unlines ls) [] =
          some (unlines (ls.filter (matchText pattern))) <->
        forall l, l ∈ ls.dropWhile lineFits -> matchText pattern l = false) := by
  have hnul : nul ∉ unlines ls := by
    intro hin
    obtain ⟨l, hl, hin⟩ := List.mem_flatMap.mp hin
    rcases List.mem_append.mp hin with hin | hin
    · exact (hls l hl).2 hin
    · exact absurd (List.mem_singleton.mp hin) (by decide)
  have hgrep : grep pattern cut fuel 0 buf 0 (unlines ls) [] =
      some (unlines ((ls.takeWhile lineFits).filter (matchText pattern))) :=
    grep_eq pattern cut (fun l hl => (hls l hl).1) hnul List.not_mem_nil (by decide) rfl Holds.nil
      hfuel []
  refine ⟨hgrep, ?_⟩
  have hsplit : unlines (ls.filter (matchText pattern)) =
      unlines ((ls.takeWhile lineFits).filter (matchText pattern)) ++
        unlines ((ls.dropWhile lineFits).filter (matchText pattern)) := by
    rw [← unlines_append, ← List.filter_append, List.takeWhile_append_dropWhile]
  rw [hgrep, hsplit, Option.some_inj, List.self_eq_append_right, unlines_eq_nil,
    List.filter_eq_nil_iff]
  simp only [Bool.not_eq_true]

theorem grep_prints_two :
    grep ['b'] (fun _ => 2) 6 0 (fun _ => nul) 0 "ab\nc\n".toList [] = some "ab\n".toList :=
  (grep_prints ['b'] [['a', 'b'], ['c']] (by decide) (fun _ => 2) (fun _ => nul)
    (by decide)).2.mpr (by decide)

/-- A line of 1023 characters fills the buffer: nothing of it is written. -/
theorem grep_stops :
    grep ['x'] (fun _ => 1023) 1025 0 (fun _ => nul) 0 (unlines [List.replicate 1023 'x']) [] =
        some [] ∧
      matchText ['x'] (List.replicate 1023 'x') = true := by
  constructor
  · have hinput : unlines [List.replicate 1023 'x'] = List.replicate 1023 'x' ++ ['\n'] :=
      List.append_nil _
    have hn : readSize 1023 (BUFSIZE - 0 - 1) (List.replicate 1023 'x' ++ ['\n']).length =
      1023 := by
      rw [List.length_append, List.length_replicate]
      rfl
    have htake : (List.replicate 1023 'x' ++ ['\n']).take 1023 = List.replicate 1023 'x' :=
      List.take_left' List.length_replicate
    have hheld := holds_readInto (Holds.nil : Holds (fun _ => nul) 0 []) (List.replicate 1023 'x')
    rw [List.length_replicate, List.length_nil, Nat.zero_add] at hheld
    have hfree : forall c : Char, c ≠ 'x' -> c ∉ List.replicate 1023 'x' :=
      fun c hc hin => hc (List.eq_of_mem_replicate hin)
    obtain ⟨buf', hrun, -⟩ := grepLines_eq ['x'] [] BUFSIZE [] hheld
      (fun l hl => absurd hl List.not_mem_nil) (hfree _ (by decide)) (hfree _ (by decide))
      (by rw [List.length_append, List.length_replicate]; decide)
      (by decide)
    change grep _ _ (1023 + 1 + 1) _ _ _ _ _ = _
    rw [hinput, grep]
    simp only [hn, htake, Nat.zero_add]
    rw [if_neg (by decide), hrun]
    simp only [Option.bind_eq_bind, Option.bind_some, if_pos (show 0 < 1023 by decide)]
    exact grep_full _ _ _ _ _ _ _
  · rfl

end User
end Xv6
