import Xv6.Console.Machine

/-!
# The line discipline

The buffer is followed by the input as the user sees it: `r` is the number of
characters read, `w` the number committed and `e` the number accepted, all modulo
the word size.
-/

namespace Xv6
namespace Console

open Lib Function

variable {x : Read} {c : UInt8} {r : Cons × Outcome} {call : Nat}

theorem size_lt_word : INPUT_BUF_SIZE < WORD := by
  decide

theorem size_dvd_word : INPUT_BUF_SIZE ∣ WORD := by
  decide

theorem word_pos : 0 < WORD := by
  decide

structure Follows (cs : Cons) (l : Line) : Prop where
  tracks : cs.toCircular.Tracks INPUT_BUF_SIZE WORD (l.committed.take l.taken)
    (l.committed ++ l.pending)
  w_eq : cs.w = l.committed.length % WORD
  taken_le : l.taken <= l.committed.length
  clean : newline ∉ l.pending
  full : (l.committed ++ l.pending).length = l.taken + INPUT_BUF_SIZE -> l.pending = []

namespace Follows

variable {cs : Cons} {l : Line}

section

variable (h : Follows cs l)
include h

theorem length_taken : (l.committed.take l.taken).length = l.taken := by
  rw [List.length_take, Nat.min_eq_left h.taken_le]

theorem room :
    (l.committed ++ l.pending).length <= l.taken + INPUT_BUF_SIZE := by
  have hroom := h.tracks.room
  rw [h.length_taken] at hroom
  exact hroom

theorem used_eq :
    cs.used = (l.committed ++ l.pending).length - l.taken := by
  rw [Cons.used, h.tracks.count_eq size_lt_word, h.length_taken]

theorem nwrite_eq_w : cs.nwrite = cs.w <-> l.pending = [] := by
  have hroom := h.room
  have hle := h.taken_le
  have hlt := size_lt_word
  rw [h.tracks.nwrite_eq, h.w_eq]
  rw [List.length_append] at hroom ⊢
  constructor
  · intro hmod
    have heq := Circular.eq_of_mod_eq (by omega) (by omega) hmod.symm
    exact List.eq_nil_of_length_eq_zero (by omega)
  · intro hnil
    rw [hnil, List.length_nil, Nat.add_zero]

theorem nread_eq_w : cs.nread = cs.w <-> l.taken = l.committed.length := by
  have hroom := h.room
  have hle := h.taken_le
  have hlt := size_lt_word
  rw [h.tracks.nread_eq, h.w_eq, h.length_taken]
  rw [List.length_append] at hroom
  constructor
  · intro hmod
    exact Circular.eq_of_mod_eq hle (by omega) hmod
  · intro heq
    rw [heq]

theorem committed :
    ({ cs.toCircular with nwrite := cs.w } : Circular UInt8).Tracks INPUT_BUF_SIZE WORD
      (l.committed.take l.taken) l.committed where
  behind := by
    rw [h.length_taken]
    exact h.taken_le
  room := by
    have hroom := h.room
    rw [List.length_append] at hroom
    rw [h.length_taken]
    omega
  nread_eq := h.tracks.nread_eq
  nwrite_eq := h.w_eq
  cell := by
    intro k x hk hx
    refine h.tracks.cell k x hk ?_
    rw [List.getElem?_append_left (List.getElem?_eq_some_iff.mp hx).1]
    exact hx
  taken_eq := by
    rw [h.length_taken]

theorem ready_eq : cs.ready = l.committed.length - l.taken := by
  have hcount := h.committed.count_eq size_lt_word
  rw [h.length_taken] at hcount
  exact hcount

/-!
## Editing

Erasing takes back the last character that is not committed.
-/

theorem erase {rest : List UInt8}
    (hpending : l.pending = rest ++ [c]) : Follows cs.erase { l with pending := rest } := by
  have hroom := h.room
  have hle := h.taken_le
  have htracks := h.tracks
  rw [hpending, ← List.append_assoc] at htracks
  rw [hpending, List.length_append, List.length_append, List.length_singleton] at hroom
  have hlen : (l.committed.take l.taken).length <= (l.committed ++ rest).length := by
    rw [h.length_taken, List.length_append]
    omega
  have hback := htracks.back word_pos hlen
  rw [← Cons.erase_toCircular] at hback
  have hw : cs.erase.w = l.committed.length % WORD := by
    rw [Cons.erase_w, h.w_eq]
  refine
    {
      tracks := hback
      w_eq := hw
      taken_le := hle
      clean := ?_
      full := ?_
    }
  · have hclean := h.clean
    rw [hpending] at hclean
    exact fun hmem => hclean (List.mem_append_left _ hmem)
  · intro hfull
    change (l.committed ++ rest).length = l.taken + INPUT_BUF_SIZE at hfull
    rw [List.length_append] at hfull
    omega

theorem last_eq {rest : List UInt8} (hpending : l.pending = rest ++ [c]) : cs.last = c := by
  have hle := h.taken_le
  have htracks := h.tracks
  rw [hpending, ← List.append_assoc] at htracks
  refine htracks.last_eq size_dvd_word word_pos ?_
  rw [h.length_taken, List.length_append]
  omega

theorem killLine {k : Nat} (hk : l.pending.length <= k) :
    Follows (killLine k cs) { l with pending := [] } := by
  induction k generalizing cs l with
  | zero =>
    have hnil := List.eq_nil_of_length_eq_zero (Nat.le_zero.mp hk)
    rw [← hnil]
    exact h
  | succ k ih =>
    rw [Console.killLine]
    rcases List.eq_nil_or_concat l.pending with hnil | ⟨rest, c, hpending⟩
    · rw [if_neg (fun hgo => hgo.1 (h.nwrite_eq_w.mpr hnil)), ← hnil]
      exact h
    · rw [List.concat_eq_append] at hpending
      have hclean := h.clean
      rw [hpending] at hk hclean
      rw [List.length_append, List.length_singleton] at hk
      have hgo : cs.nwrite ≠ cs.w ∧ cs.last ≠ newline := by
        constructor
        · intro heq
          rw [h.nwrite_eq_w.mp heq] at hpending
          simp at hpending
        · rw [h.last_eq hpending]
          intro hc
          rw [hc] at hclean
          simp at hclean
      rw [if_pos hgo]
      have herased : Follows cs.erase { l with pending := rest } := h.erase hpending
      have hrest : rest.length <= k := by omega
      exact ih (l := { l with pending := rest }) herased hrest

theorem edited_eq : cs.edited = l.pending.length := by
  have hroom := h.room
  have hle := h.taken_le
  have hlt := size_lt_word
  rw [List.length_append] at hroom
  have hw : cs.w < WORD := by
    rw [h.w_eq]
    exact Nat.mod_lt _ word_pos
  have hcongr : (cs.nwrite + WORD - cs.w) + l.committed.length ≡
      l.pending.length + l.committed.length [MOD WORD] := by
    calc (cs.nwrite + WORD - cs.w) + l.committed.length
        ≡ (cs.nwrite + WORD - cs.w) + cs.w [MOD WORD] := by
          apply Nat.ModEq.add_left
          rw [h.w_eq]
          exact (Nat.mod_modEq _ _).symm
      _ = cs.nwrite + WORD := by omega
      _ ≡ cs.nwrite [MOD WORD] := Nat.add_mod_right _ _
      _ ≡ (l.committed ++ l.pending).length [MOD WORD] := by
          rw [h.tracks.nwrite_eq]
          exact Nat.mod_modEq _ _
      _ = l.pending.length + l.committed.length := by
          rw [List.length_append]
          omega
  have hmod := Nat.ModEq.add_right_cancel' _ hcongr
  rw [Cons.edited, hmod, Nat.mod_eq_of_lt (by omega)]

/-!
## Accepting a character
-/

section

variable (hspace : (l.committed ++ l.pending).length < l.taken + INPUT_BUF_SIZE)
include hspace

theorem putc (c : UInt8) :
    (cs.putc c).toCircular.Tracks INPUT_BUF_SIZE WORD (l.committed.take l.taken)
      (l.committed ++ (l.pending ++ [c])) := by
  rw [← List.append_assoc]
  refine h.tracks.put size_dvd_word ?_ c
  rw [h.length_taken]
  omega

theorem accept (c : UInt8) (hnewline : c ≠ newline)
    (hroom : (l.committed ++ (l.pending ++ [c])).length ≠ l.taken + INPUT_BUF_SIZE) :
    Follows (cs.putc c) { l with pending := l.pending ++ [c] } where
  tracks := h.putc hspace c
  w_eq := h.w_eq
  taken_le := h.taken_le
  clean := by
    intro hmem
    rcases List.mem_append.mp hmem with hold | hnew
    · exact h.clean hold
    · exact hnewline (List.mem_singleton.mp hnew).symm
  full := fun hfull => absurd hfull hroom

theorem commit (c : UInt8) :
    Follows { cs.putc c with w := (cs.putc c).nwrite }
      { l with
        committed := l.committed ++ (l.pending ++ [c])
        pending := [] } where
  tracks := by
    change (cs.putc c).toCircular.Tracks INPUT_BUF_SIZE WORD
      ((l.committed ++ (l.pending ++ [c])).take l.taken) (l.committed ++ (l.pending ++ [c]) ++ [])
    rw [List.append_nil, List.take_append_of_le_length h.taken_le]
    exact h.putc hspace c
  w_eq := (h.putc hspace c).nwrite_eq
  taken_le := by
    change l.taken <= (l.committed ++ (l.pending ++ [c])).length
    have hle := h.taken_le
    rw [List.length_append]
    omega
  clean := List.not_mem_nil
  full := fun _ => rfl

end

theorem consoleintr (c : UInt8) :
    Follows (consoleintr cs c) (l.type c) := by
  unfold Console.consoleintr Line.type
  by_cases hp : c = ctrlP
  · rw [if_pos hp, if_pos hp]
    exact h
  rw [if_neg hp, if_neg hp]
  by_cases hu : c = ctrlU
  · rw [if_pos hu, if_pos hu]
    exact h.killLine (by rw [h.edited_eq])
  rw [if_neg hu, if_neg hu]
  by_cases hback : c = ctrlH ∨ c = del
  · rw [if_pos hback, if_pos hback]
    rcases List.eq_nil_or_concat l.pending with hnil | ⟨rest, d, hpending⟩
    · rw [if_neg (not_not.mpr (h.nwrite_eq_w.mpr hnil)), hnil, List.dropLast_nil, ← hnil]
      exact h
    · rw [List.concat_eq_append] at hpending
      have hne : cs.nwrite ≠ cs.w := by
        intro heq
        rw [h.nwrite_eq_w.mp heq] at hpending
        simp at hpending
      rw [if_pos hne, hpending, List.dropLast_concat]
      exact h.erase hpending
  rw [if_neg hback, if_neg hback]
  have hle := h.taken_le
  have hspace_iff : cs.used < INPUT_BUF_SIZE <->
      (l.committed ++ l.pending).length < l.taken + INPUT_BUF_SIZE := by
    rw [h.used_eq, List.length_append]
    omega
  simp only [hspace_iff]
  by_cases hgood : c ≠ 0 ∧ (l.committed ++ l.pending).length < l.taken + INPUT_BUF_SIZE
  · rw [if_pos hgood, if_pos hgood]
    generalize (if c = carriageReturn then newline else c) = d
    have hfull_iff : (cs.putc d).used = INPUT_BUF_SIZE <->
        (l.committed ++ (l.pending ++ [d])).length = l.taken + INPUT_BUF_SIZE := by
      have hcount := (h.putc hgood.2 d).count_eq size_lt_word
      rw [h.length_taken] at hcount
      rw [Cons.used, hcount, List.length_append]
      omega
    simp only [hfull_iff]
    split
    · exact h.commit hgood.2 d
    · next hquiet =>
        rw [not_or, not_or] at hquiet
        exact h.accept hgood.2 d hquiet.1 hquiet.2.2
  · rw [if_neg hgood, if_neg hgood]
    exact h

/-!
## Reading a character
-/

theorem front_eq (hc : l.committed[l.taken]? = some c) :
    cs.front = c := by
  refine h.tracks.front_eq size_dvd_word ?_
  rw [h.length_taken, List.getElem?_append_left (List.getElem?_eq_some_iff.mp hc).1]
  exact hc

theorem getc (hc : l.committed[l.taken]? = some c) :
    Follows cs.getc { l with taken := l.taken + 1 } := by
  have hlt : l.taken < l.committed.length := (List.getElem?_eq_some_iff.mp hc).1
  have hne : (l.committed.take l.taken).length ≠ (l.committed ++ l.pending).length := by
    rw [h.length_taken, List.length_append]
    omega
  have htake : l.committed.take (l.taken + 1) = l.committed.take l.taken ++ [cs.front] := by
    rw [List.take_add_one, hc, h.front_eq hc]
    rfl
  constructor
  · change cs.getc.toCircular.Tracks INPUT_BUF_SIZE WORD (l.committed.take (l.taken + 1))
      (l.committed ++ l.pending)
    rw [htake]
    exact h.tracks.advance size_dvd_word hne
  · exact h.w_eq
  · exact hlt
  · exact h.clean
  · intro hfull
    have hroom := h.room
    change (l.committed ++ l.pending).length = l.taken + 1 + INPUT_BUF_SIZE at hfull
    omega

theorem nread_lt : cs.nread < WORD := by
  rw [h.tracks.nread_eq]
  exact Nat.mod_lt _ word_pos

theorem ungetc_getc : cs.getc.ungetc = cs := by
  have hback : ((cs.nread + 1) % WORD + (WORD - 1)) % WORD = cs.nread := by
    rw [Circular.back_mod word_pos, Nat.mod_eq_of_lt h.nread_lt]
  change ({ cs with nread := ((cs.nread + 1) % WORD + (WORD - 1)) % WORD } : Cons) = cs
  rw [hback]

theorem getc_nread_ne (hc : l.committed[l.taken]? = some c) :
    cs.getc.nread ≠ cs.nread := by
  have hnext := (h.getc hc).tracks.nread_eq
  rw [(h.getc hc).length_taken] at hnext
  rw [hnext, h.tracks.nread_eq, h.length_taken]
  intro hmod
  have hlt : l.taken + 1 < l.taken + WORD := Nat.add_lt_add_left (by decide) _
  have heq := Circular.eq_of_mod_eq (Nat.le_succ l.taken) hlt hmod.symm
  omega

end

end Follows

/-!
## Calls of `consoleread`
-/

structure Read.Ongoing (x : Read) : Prop where
  bytes_eq : x.bytes = x.seen
  clean : forall c, c ∈ x.seen -> c ≠ ctrlD ∧ c ≠ newline
  count : x.ret = x.bytes.length
  left : x.seen = [] ∨ 0 <= x.n

/-- A call returns what it has looked at without the end of the input, and looks no further than
the end of a line or of the input. -/
structure Read.Finished (x : Read) : Prop where
  ret : x.ret = x.bytes.length
  most : x.ret <= max x.target 0
  bytes_eq : x.bytes = x.seen.filter (· ≠ ctrlD)
  line : newline ∉ x.seen.dropLast
  eof : ctrlD ∉ x.seen.dropLast
  short : x.ret < x.target -> x.seen.getLast? = some newline ∨ x.seen.getLast? = some ctrlD
  empty : 0 < x.target -> (x.bytes = [] <-> x.seen.head? = some ctrlD)

namespace Read

variable {x : Read}

theorem Ongoing.filter (h : x.Ongoing) : x.seen.filter (· ≠ ctrlD) = x.seen := by
  rw [List.filter_eq_self]
  intro c hc
  exact decide_eq_true (h.clean c hc).1

theorem Ongoing.finished (h : x.Ongoing) (hn : ¬ 0 < x.n) : x.Finished := by
  have hret : x.ret = x.target - x.n := rfl
  have hcount := h.count
  constructor
  · exact h.count
  · rcases h.left with hnil | hpos
    · rw [h.count, h.bytes_eq, hnil]
      exact le_max_right _ _
    · omega
  · rw [h.filter]
    exact h.bytes_eq
  · exact fun hmem => (h.clean _ (List.dropLast_subset _ hmem)).2 rfl
  · exact fun hmem => (h.clean _ (List.dropLast_subset _ hmem)).1 rfl
  · intro hshort
    omega
  · intro htarget
    have hpos : 0 < x.bytes.length := by omega
    constructor
    · intro hnil
      rw [hnil] at hpos
      exact absurd hpos (Nat.lt_irrefl _)
    · intro hhead
      exact absurd rfl (h.clean _ (List.mem_of_mem_head? hhead)).1

theorem Ongoing.eof (h : x.Ongoing) (hn : 0 < x.n) :
    Read.Finished { x with seen := x.seen ++ [ctrlD] } := by
  have hret : x.ret = x.target - x.n := rfl
  have hbytes : x.bytes = (x.seen ++ [ctrlD]).filter (· ≠ ctrlD) := by
    rw [List.filter_append, h.filter, h.bytes_eq]
    exact (List.append_nil _).symm
  constructor
  · exact h.count
  · change x.ret <= max x.target 0
    omega
  · exact hbytes
  · rw [List.dropLast_concat]
    exact fun hmem => (h.clean _ hmem).2 rfl
  · rw [List.dropLast_concat]
    exact fun hmem => (h.clean _ hmem).1 rfl
  · intro _
    right
    exact List.getLast?_concat
  · intro _
    change x.bytes = [] <-> (x.seen ++ [ctrlD]).head? = some ctrlD
    rw [h.bytes_eq]
    cases hseen : x.seen with
    | nil => exact ⟨fun _ => rfl, fun _ => rfl⟩
    | cons c rest =>
      constructor
      · intro hnil
        cases hnil
      · intro hhead
        have hc : c = ctrlD := Option.some.inj hhead
        refine absurd hc (h.clean c ?_).1
        rw [hseen]
        exact List.mem_cons_self

def copied (x : Read) (c : UInt8) : Read :=
  { x with
    n := x.n - 1
    seen := x.seen ++ [c]
    bytes := x.bytes ++ [c] }

theorem Ongoing.ret_copied (h : x.Ongoing) (c : UInt8) :
    (x.copied c).ret = (x.copied c).bytes.length := by
  have hcount := h.count
  have hret : x.ret = x.target - x.n := rfl
  change x.target - (x.n - 1) = ((x.bytes ++ [c]).length : Int)
  rw [List.length_append, List.length_singleton]
  push_cast
  omega

theorem Ongoing.copied (h : x.Ongoing) (hn : 0 < x.n) (heof : c ≠ ctrlD)
    (hline : c ≠ newline) : (x.copied c).Ongoing where
  bytes_eq := by
    change x.bytes ++ [c] = x.seen ++ [c]
    rw [h.bytes_eq]
  clean := by
    intro d hd
    rcases List.mem_append.mp hd with hold | hnew
    · exact h.clean d hold
    · rw [List.mem_singleton.mp hnew]
      exact ⟨heof, hline⟩
  count := h.ret_copied c
  left := by
    right
    change 0 <= x.n - 1
    omega

theorem Ongoing.line (h : x.Ongoing) (hn : 0 < x.n) : (x.copied newline).Finished := by
  have hret : (x.copied newline).ret = x.target - (x.n - 1) := rfl
  have htarget : (x.copied newline).target = x.target := rfl
  constructor
  · exact h.ret_copied newline
  · omega
  · change x.bytes ++ [newline] = (x.seen ++ [newline]).filter (· ≠ ctrlD)
    rw [List.filter_append, h.filter, h.bytes_eq]
    rfl
  · change newline ∉ (x.seen ++ [newline]).dropLast
    rw [List.dropLast_concat]
    exact fun hmem => (h.clean _ hmem).2 rfl
  · change ctrlD ∉ (x.seen ++ [newline]).dropLast
    rw [List.dropLast_concat]
    exact fun hmem => (h.clean _ hmem).1 rfl
  · intro _
    left
    exact List.getLast?_concat
  · intro _
    change x.bytes ++ [newline] = [] <-> (x.seen ++ [newline]).head? = some ctrlD
    constructor
    · intro hnil
      simp at hnil
    · intro hhead
      rcases List.mem_append.mp (List.mem_of_mem_head? hhead) with hold | hnew
      · exact absurd rfl (h.clean _ hold).1
      · exact absurd (List.mem_singleton.mp hnew) (by decide)

end Read

def Outcome.read : Outcome -> Read
  | .loop x => x
  | .sleep x => x
  | .ret x => x

def Outcome.Good : Outcome -> Prop
  | .loop x => x.Ongoing
  | .sleep x => x.Ongoing
  | .ret x => x.Finished

/-- A turn of the loop leaves the buffer and the user's bytes alone, or takes the next committed
character and copies it unless it is the end of the input. -/
structure Turn (cs : Cons) (l : Line) (x : Read) (r : Cons × Outcome) : Prop where
  call : r.2.read.call = x.call
  good : r.2.Good
  effect : (r.1 = cs ∧ r.2.read.bytes = x.bytes) ∨
    exists c, l.committed[l.taken]? = some c ∧ r.1 = cs.getc ∧
      r.2.read.bytes = x.bytes ++ [c].filter (· ≠ ctrlD)

theorem consolereadIter_turn {cs : Cons} {l : Line} (h : Follows cs l)
    (hx : x.Ongoing) : Turn cs l x (consolereadIter cs x) := by
  unfold consolereadIter
  split
  · next hn =>
      split
      · exact ⟨rfl, hx, .inl ⟨rfl, rfl⟩⟩
      · next hready =>
          have hlt : l.taken < l.committed.length :=
            lt_of_le_of_ne h.taken_le (fun heq => hready (h.nread_eq_w.mpr heq))
          have hc : l.committed[l.taken]? = some l.committed[l.taken] :=
            List.getElem?_eq_getElem hlt
          have hfront := h.front_eq hc
          rw [← hfront] at hc
          split
          · next heof =>
              have hdone := hx.eof hn
              rw [heof] at hc ⊢
              split
              · -- the end of the input goes back into the buffer
                exact ⟨rfl, hdone, .inl ⟨h.ungetc_getc, rfl⟩⟩
              · exact ⟨rfl, hdone, .inr ⟨ctrlD, hc, rfl, (List.append_nil _).symm⟩⟩
          · next heof =>
              have hkept : [cs.front].filter (· ≠ ctrlD) = [cs.front] := by
                rw [List.filter_eq_self]
                intro c hmem
                rw [List.mem_singleton.mp hmem]
                exact decide_eq_true heof
              dsimp only
              split
              · next hline =>
                  have hdone := hx.line hn
                  rw [← hline] at hdone
                  refine ⟨rfl, hdone, .inr ⟨cs.front, hc, rfl, ?_⟩⟩
                  rw [hkept]
                  rfl
              · next hline =>
                  refine ⟨rfl, hx.copied hn heof hline, .inr ⟨cs.front, hc, rfl, ?_⟩⟩
                  rw [hkept]
                  rfl
  · next hn =>
      exact ⟨rfl, hx.finished hn, .inl ⟨rfl, rfl⟩⟩

/-!
## The bytes of a call
-/

def got (delivered : List (Nat × UInt8)) (call : Nat) : List UInt8 :=
  (delivered.filter fun e => e.1 = call).map Prod.snd

theorem got_append (l m : List (Nat × UInt8)) (call : Nat) :
    got (l ++ m) call = got l call ++ got m call := by
  unfold got
  rw [List.filter_append, List.map_append]

theorem got_own (bs : List UInt8) (call : Nat) : got (bs.map fun c => (call, c)) call = bs := by
  unfold got
  have hall : (bs.map fun c => (call, c)).filter (fun e => decide (e.1 = call)) =
      bs.map fun c => (call, c) := by
    rw [List.filter_eq_self]
    intro e he
    rcases List.mem_map.mp he with ⟨c, _, rfl⟩
    exact decide_eq_true rfl
  rw [hall, List.map_map]
  exact List.map_id _

theorem got_other {k : Nat} (bs : List UInt8) (hne : k ≠ call) :
    got (bs.map fun c => (k, c)) call = [] := by
  unfold got
  have hnone : (bs.map fun c => (k, c)).filter (fun e => decide (e.1 = call)) = [] := by
    rw [List.filter_eq_nil_iff]
    intro e he
    rcases List.mem_map.mp he with ⟨c, _, rfl⟩
    simpa using hne
  rw [hnone]
  rfl

theorem got_fresh {delivered : List (Nat × UInt8)}
    (h : forall e, e ∈ delivered -> e.1 < call) : got delivered call = [] := by
  unfold got
  have hnone : delivered.filter (fun e => decide (e.1 = call)) = [] := by
    rw [List.filter_eq_nil_iff]
    intro e he
    simpa using Nat.ne_of_lt (h e he)
  rw [hnone]
  rfl

/-!
## The invariant
-/

def Pc.read : Pc -> Option Read
  | .idle => none
  | .lock x => some x
  | .loop x => some x

section

variable {nproc : Nat}

structure Stream (s : Sys nproc) : Prop where
  follows : Follows s.cons s.line
  delivered : s.delivered.map Prod.snd =
    (s.line.committed.take s.line.taken).filter (· ≠ ctrlD)
  fresh : forall e, e ∈ s.delivered -> e.1 < s.calls

structure Inv (s : Sys nproc) : Prop where
  stream : Stream s
  ongoing : forall p x, (s.pcs p).read = some x ->
    x.Ongoing ∧ x.call < s.calls ∧ x.bytes = got s.delivered x.call
  finished : forall x, x ∈ s.returned ->
    x.Finished ∧ x.call < s.calls ∧ x.bytes = got s.delivered x.call
  apart : forall p q x y, (s.pcs p).read = some x -> (s.pcs q).read = some y ->
    x.call = y.call -> p = q
  past : forall p x y, (s.pcs p).read = some x -> y ∈ s.returned -> x.call ≠ y.call

variable {s : Sys nproc} {p : Fin nproc}

theorem inv_init (h : s.Fresh) : Inv s := by
  have hread : forall p, (s.pcs p).read = none := by
    intro p
    rw [h.pcs p]
    rfl
  refine
    {
      stream :=
        {
          follows :=
            {
              tracks := ?_
              w_eq := ?_
              taken_le := ?_
              clean := ?_
              full := ?_
            }
          delivered := ?_
          fresh := ?_
        }
      ongoing := ?_
      finished := ?_
      apart := ?_
      past := ?_
    }
  · rw [h.line]
    exact Circular.tracks_nil h.r h.e
  · rw [h.line, h.w]
    rfl
  · rw [h.line]
    exact Nat.le_refl _
  · rw [h.line]
    exact List.not_mem_nil
  · rw [h.line]
    exact fun _ => rfl
  · rw [h.line, h.delivered]
    rfl
  · rw [h.delivered]
    exact fun e he => absurd he List.not_mem_nil
  · intro p x hx
    rw [hread p] at hx
    cases hx
  · rw [h.returned]
    exact fun x hx => absurd hx List.not_mem_nil
  · intro p q x y hx
    rw [hread p] at hx
    cases hx
  · intro p x y hx
    rw [hread p] at hx
    cases hx

theorem Stream.type (h : Stream s) (c : UInt8) :
    Stream
      { s with
        cons := consoleintr s.cons c
        line := s.line.type c } := by
  have hfollows := h.follows.consoleintr c
  have hread : (s.line.type c).committed.take (s.line.type c).taken =
      s.line.committed.take s.line.taken := by
    unfold Line.type
    split
    · rfl
    split
    · rfl
    split
    · rfl
    split
    · generalize (if c = carriageReturn then newline else c) = d
      dsimp only
      split
      · exact List.take_append_of_le_length h.follows.taken_le
      · rfl
    · rfl
  refine
    {
      follows := hfollows
      delivered := ?_
      fresh := h.fresh
    }
  change s.delivered.map Prod.snd = _
  rw [hread]
  exact h.delivered

/-!
## A turn of the loop
-/

theorem Turn.bytes {cs : Cons} {l : Line} (h : Turn cs l x r) :
    r.2.read.bytes = x.bytes ++ r.2.read.bytes.drop x.bytes.length := by
  rcases h.effect with ⟨_, heq⟩ | ⟨c, _, _, heq⟩
  · rw [heq, List.drop_length, List.append_nil]
  · rw [heq, List.drop_left]

theorem Stream.after (h : Stream s) (hcall : x.call < s.calls) (hturn : Turn s.cons s.line x r) :
    Stream (s.after r.1 x r.2.read) := by
  have hfresh : forall e, e ∈ (s.after r.1 x r.2.read).delivered -> e.1 < s.calls := by
    intro e he
    rcases List.mem_append.mp he with hold | hnew
    · exact h.fresh e hold
    · rcases List.mem_map.mp hnew with ⟨c, _, rfl⟩
      exact hcall
  have hsnd : forall bs : List UInt8, (bs.map fun c => (x.call, c)).map Prod.snd = bs := by
    intro bs
    rw [List.map_map]
    exact List.map_id _
  rcases hturn.effect with ⟨hsame, hbytes⟩ | ⟨c, hc, hgetc, hbytes⟩
  · have hline : (s.after r.1 x r.2.read).line = s.line := by
      change (if r.1.nread = s.cons.nread then _ else _) = _
      rw [hsame, if_pos rfl]
    refine ⟨?_, ?_, hfresh⟩
    · rw [hline]
      change Follows r.1 s.line
      rw [hsame]
      exact h.follows
    · rw [hline]
      change (s.delivered ++ (r.2.read.bytes.drop x.bytes.length).map _).map Prod.snd = _
      rw [hbytes, List.drop_length, List.map_nil, List.append_nil]
      exact h.delivered
  · have hline : (s.after r.1 x r.2.read).line = { s.line with taken := s.line.taken + 1 } := by
      change (if r.1.nread = s.cons.nread then _ else _) = _
      rw [hgetc, if_neg (h.follows.getc_nread_ne hc)]
    refine ⟨?_, ?_, hfresh⟩
    · rw [hline]
      change Follows r.1 { s.line with taken := s.line.taken + 1 }
      rw [hgetc]
      exact h.follows.getc hc
    · rw [hline]
      change (s.delivered ++ (r.2.read.bytes.drop x.bytes.length).map _).map Prod.snd =
        (s.line.committed.take (s.line.taken + 1)).filter (· ≠ ctrlD)
      rw [hbytes, List.drop_left, List.map_append, hsnd, h.delivered, List.take_add_one, hc,
        List.filter_append]
      rfl

theorem got_after_own (hbytes : x.bytes = got s.delivered x.call) (hturn : Turn s.cons s.line x r) :
    r.2.read.bytes = got (s.after r.1 x r.2.read).delivered r.2.read.call := by
  rw [hturn.call]
  change _ = got (s.delivered ++ (r.2.read.bytes.drop x.bytes.length).map _) x.call
  rw [got_append, got_own, ← hbytes]
  exact hturn.bytes

theorem got_after_other (r : Cons × Outcome) (hne : x.call ≠ call) :
    got (s.after r.1 x r.2.read).delivered call = got s.delivered call := by
  change got (s.delivered ++ (r.2.read.bytes.drop x.bytes.length).map _) call = _
  rw [got_append, got_other _ hne, List.append_nil]

theorem Inv.goto {pc : Pc} (h : Inv s)
    (hx : (s.pcs p).read = some x) (hpc : pc.read = some x) : Inv (s.goto p pc) := by
  have hread : forall q, ((s.goto p pc).pcs q).read = (s.pcs q).read := by
    intro q
    change (update s.pcs p pc q).read = _
    by_cases hq : q = p
    · rw [hq, update_self, hpc, hx]
    · rw [update_of_ne hq]
  constructor
  · exact ⟨h.stream.follows, h.stream.delivered, h.stream.fresh⟩
  · intro q y hy
    rw [hread q] at hy
    exact h.ongoing q y hy
  · exact h.finished
  · intro q q' y y' hy hy'
    rw [hread q] at hy
    rw [hread q'] at hy'
    exact h.apart q q' y y' hy hy'
  · intro q y z hy
    rw [hread q] at hy
    exact h.past q y z hy

theorem Inv.lock (h : Inv s) (lock : Option (Fin nproc)) :
    Inv { s with lock := lock } :=
  ⟨⟨h.stream.follows, h.stream.delivered, h.stream.fresh⟩, h.ongoing, h.finished, h.apart, h.past⟩

theorem Inv.turn {pc : Pc}
    (h : Inv s) (hx : (s.pcs p).read = some x) (hturn : Turn s.cons s.line x r)
    (hpc : pc.read = some r.2.read) (hon : r.2.read.Ongoing) :
    Inv ((s.after r.1 x r.2.read).goto p pc) := by
  rcases h.ongoing p x hx with ⟨_, hcall, hbytes⟩
  have hstream := h.stream.after hcall hturn
  have hread : forall q y, (update s.pcs p pc q).read = some y ->
      (q = p ∧ y = r.2.read) ∨ (q ≠ p ∧ (s.pcs q).read = some y) := by
    intro q y hy
    by_cases hq : q = p
    · rw [hq, update_self, hpc] at hy
      exact .inl ⟨hq, (Option.some.inj hy).symm⟩
    · rw [update_of_ne hq] at hy
      exact .inr ⟨hq, hy⟩
  constructor
  · exact ⟨hstream.follows, hstream.delivered, hstream.fresh⟩
  · intro q y hy
    rcases hread q y hy with ⟨_, rfl⟩ | ⟨hq, hold⟩
    · exact ⟨hon, lt_of_eq_of_lt hturn.call hcall, got_after_own hbytes hturn⟩
    · rcases h.ongoing q y hold with ⟨hy1, hy2, hy3⟩
      have hne : x.call ≠ y.call := fun heq => hq (h.apart p q x y hx hold heq).symm
      exact ⟨hy1, hy2, hy3.trans (got_after_other r hne).symm⟩
  · intro y hy
    rcases h.finished y hy with ⟨hy1, hy2, hy3⟩
    exact ⟨hy1, hy2, hy3.trans (got_after_other r (h.past p x y hx hy)).symm⟩
  · intro q q' y y' hy hy' heq
    rcases hread q y hy with ⟨hq, rfl⟩ | ⟨hq, hold⟩
    · rcases hread q' y' hy' with ⟨hq', rfl⟩ | ⟨hq', hold'⟩
      · rw [hq, hq']
      · rw [hq]
        exact h.apart p q' x y' hx hold' (hturn.call.symm.trans heq)
    · rcases hread q' y' hy' with ⟨hq', rfl⟩ | ⟨hq', hold'⟩
      · rw [hq']
        exact h.apart q p y x hold hx (heq.trans hturn.call)
      · exact h.apart q q' y y' hold hold' heq
  · intro q y z hy hz
    rcases hread q y hy with ⟨_, rfl⟩ | ⟨_, hold⟩
    · rw [hturn.call]
      exact h.past p x z hx hz
    · exact h.past q y z hold hz

theorem Inv.ret (h : Inv s) (hx : (s.pcs p).read = some x) (hturn : Turn s.cons s.line x r)
    (hdone : r.2.read.Finished) :
    Inv
      { (s.after r.1 x r.2.read).goto p .idle with
        lock := none
        returned := s.returned ++ [r.2.read] } := by
  rcases h.ongoing p x hx with ⟨_, hcall, hbytes⟩
  have hstream := h.stream.after hcall hturn
  have hread : forall q y, (update s.pcs p .idle q).read = some y ->
      q ≠ p ∧ (s.pcs q).read = some y := by
    intro q y hy
    by_cases hq : q = p
    · rw [hq, update_self] at hy
      cases hy
    · rw [update_of_ne hq] at hy
      exact ⟨hq, hy⟩
  have hother : forall q y, (s.pcs q).read = some y -> q ≠ p -> x.call ≠ y.call := by
    intro q y hy hq heq
    exact hq (h.apart p q x y hx hy heq).symm
  constructor
  · exact ⟨hstream.follows, hstream.delivered, hstream.fresh⟩
  · intro q y hy
    rcases hread q y hy with ⟨hq, hold⟩
    rcases h.ongoing q y hold with ⟨hy1, hy2, hy3⟩
    exact ⟨hy1, hy2, hy3.trans (got_after_other r (hother q y hold hq)).symm⟩
  · intro y hy
    rcases List.mem_append.mp hy with hold | hnew
    · rcases h.finished y hold with ⟨hy1, hy2, hy3⟩
      exact ⟨hy1, hy2, hy3.trans (got_after_other r (h.past p x y hx hold)).symm⟩
    · rw [List.mem_singleton.mp hnew]
      exact ⟨hdone, lt_of_eq_of_lt hturn.call hcall, got_after_own hbytes hturn⟩
  · intro q q' y y' hy hy'
    exact h.apart q q' y y' (hread q y hy).2 (hread q' y' hy').2
  · intro q y z hy hz
    rcases hread q y hy with ⟨hq, hold⟩
    rcases List.mem_append.mp hz with hz | hz
    · exact h.past q y z hold hz
    · rw [List.mem_singleton.mp hz, hturn.call]
      exact (hother q y hold hq).symm

theorem Inv.iterate (h : Inv s) (hx : (s.pcs p).read = some x) : Inv (s.iterate p x) := by
  have hturn := consolereadIter_turn h.stream.follows (h.ongoing p x hx).1
  unfold Sys.iterate
  generalize consolereadIter s.cons x = r at hturn
  rcases r with ⟨cs, o⟩
  have hgood := hturn.good
  cases o with
  | loop x' => exact h.turn hx hturn rfl hgood
  | sleep x' => exact (h.turn hx hturn rfl hgood).lock none
  | ret x' => exact h.ret hx hturn hgood

theorem Inv.start (h : Inv s) (n : Int) :
    Inv
      { s.goto p (.lock { call := s.calls, target := n, n := n, seen := [], bytes := [] }) with
        calls := s.calls + 1 } := by
  generalize hnew : ({ call := s.calls, target := n, n := n, seen := [], bytes := [] } : Read) = x0
  have hfresh0 : got s.delivered s.calls = [] := got_fresh h.stream.fresh
  have hcall0 : x0.call = s.calls := by
    rw [← hnew]
  have hon0 : x0.Ongoing := by
    rw [← hnew]
    refine ⟨rfl, fun c hc => absurd hc List.not_mem_nil, ?_, .inl rfl⟩
    change n - n = 0
    exact sub_self n
  have hbytes0 : x0.bytes = got s.delivered x0.call := by
    rw [hcall0, hfresh0, ← hnew]
  have hread : forall q y, (update s.pcs p (.lock x0) q).read = some y ->
      (q = p ∧ y = x0) ∨ (q ≠ p ∧ (s.pcs q).read = some y) := by
    intro q y hy
    by_cases hq : q = p
    · rw [hq, update_self] at hy
      exact .inl ⟨hq, (Option.some.inj hy).symm⟩
    · rw [update_of_ne hq] at hy
      exact .inr ⟨hq, hy⟩
  have hold_lt : forall q y, (s.pcs q).read = some y -> y.call ≠ x0.call := by
    intro q y hy
    rw [hcall0]
    exact Nat.ne_of_lt (h.ongoing q y hy).2.1
  constructor
  · exact ⟨h.stream.follows, h.stream.delivered,
      fun e he => Nat.lt_succ_of_lt (h.stream.fresh e he)⟩
  · intro q y hy
    rcases hread q y hy with ⟨_, rfl⟩ | ⟨_, hold⟩
    · exact ⟨hon0, by rw [hcall0]; exact Nat.lt_succ_self _, hbytes0⟩
    · rcases h.ongoing q y hold with ⟨hy1, hy2, hy3⟩
      exact ⟨hy1, Nat.lt_succ_of_lt hy2, hy3⟩
  · intro y hy
    rcases h.finished y hy with ⟨hy1, hy2, hy3⟩
    exact ⟨hy1, Nat.lt_succ_of_lt hy2, hy3⟩
  · intro q q' y y' hy hy' heq
    rcases hread q y hy with ⟨hq, rfl⟩ | ⟨_, hold⟩
    · rcases hread q' y' hy' with ⟨hq', _⟩ | ⟨_, hold'⟩
      · rw [hq, hq']
      · exact absurd heq.symm (hold_lt q' y' hold')
    · rcases hread q' y' hy' with ⟨_, rfl⟩ | ⟨_, hold'⟩
      · exact absurd heq (hold_lt q y hold)
      · exact h.apart q q' y y' hold hold' heq
  · intro q y z hy hz
    rcases hread q y hy with ⟨_, rfl⟩ | ⟨_, hold⟩
    · rw [hcall0]
      exact (Nat.ne_of_lt (h.finished z hz).2.1).symm
    · exact h.past q y z hold hz

theorem Inv.step {s' : Sys nproc} {a : Action nproc} (h : Inv s) (hstep : s.step a = some s') :
    Inv s' := by
  cases a with
  | consoleintr c =>
    rw [Sys.step] at hstep
    split at hstep
    · cases hstep
      exact ⟨h.stream.type c, h.ongoing, h.finished, h.apart, h.past⟩
    · cases hstep
  | consoleread p n =>
    rw [Sys.step] at hstep
    split at hstep
    · cases hstep
      exact h.start n
    · cases hstep
  | go p =>
    rw [Sys.step] at hstep
    split at hstep
    · cases hstep
    · next x hp =>
        split at hstep
        · cases hstep
          refine (h.goto (x := x) ?_ rfl).lock (some p)
          rw [hp]
          rfl
        · cases hstep
    · next x hp =>
        cases hstep
        refine h.iterate ?_
        rw [hp]
        rfl

theorem Inv.of_reachable (hreach : (system nproc).Reachable s) : Inv s :=
  hreach.invariant (fun _ hinit => inv_init hinit) (fun _ _ _ hinv _ hstep => hinv.step hstep)

/-!
## What the readers get

`committed` grows only at its end and `pending` is what erasing and killing a line
can still take back (`Line.type`).
-/

/-- The committed characters are the bytes of the reads, in order and without the ends of the
input, followed by what is still in the buffer. -/
structure LineDiscipline (s : Sys nproc) : Prop where
  ready_le : s.cons.ready <= s.cons.used
  used_le : s.cons.used <= INPUT_BUF_SIZE
  full : s.cons.used = INPUT_BUF_SIZE -> s.cons.w = s.cons.nwrite
  input : s.line.committed ++ s.line.pending =
    s.line.committed.take s.line.taken ++ s.cons.contents INPUT_BUF_SIZE WORD
  pending : s.cons.edited = s.line.pending.length
  delivered : s.delivered.map Prod.snd =
    (s.line.committed.take s.line.taken).filter (· ≠ ctrlD)
  reads : forall x, x ∈ s.returned -> x.Finished ∧ x.bytes = got s.delivered x.call

theorem console_line_discipline (hreach : (system nproc).Reachable s) :
    LineDiscipline s := by
  have hinv := Inv.of_reachable hreach
  have h := hinv.stream.follows
  have hle := h.taken_le
  constructor
  · rw [h.ready_eq, h.used_eq, List.length_append]
    omega
  · exact h.tracks.count_le size_lt_word
  · intro hused
    rw [h.used_eq] at hused
    have hsize : 0 < INPUT_BUF_SIZE := by decide
    exact (h.nwrite_eq_w.mpr (h.full (by omega))).symm
  · exact (h.tracks.history size_dvd_word size_lt_word).symm
  · exact h.edited_eq
  · exact hinv.stream.delivered
  · intro x hx
    rcases hinv.finished x hx with ⟨hdone, _, hbytes⟩
    exact ⟨hdone, hbytes⟩

/-- The keys `h`, `x`, delete, `i`, return and `^D`, then two reads. -/
def session : List (Action 1) :=
  [104, 120, del, 105, carriageReturn, ctrlD].map Action.consoleintr ++
    [.consoleread 0 100, .go 0, .go 0, .go 0, .go 0, .consoleread 0 100, .go 0, .go 0]

theorem console_line_discipline_session :
    exists s : Sys 1, (system 1).Reachable s ∧
      s.returned.map Read.bytes = [[104, 105, newline], []] ∧ LineDiscipline s := by
  have hcheck : (System.run Sys.step (fun _ _ => True) Sys.booted session).any (fun s =>
      decide (s.returned.map Read.bytes = [[104, 105, newline], []])) = true := by
    decide +kernel
  have hinit : (system 1).ReachableVia (fun _ _ => True) Sys.booted :=
    .init ⟨rfl, rfl, rfl, rfl, fun _ => rfl, rfl, rfl, rfl⟩
  obtain ⟨s, hreach, hcheck⟩ := hinit.run_any (fun _ _ _ hstep => hstep) hcheck
  exact ⟨s, hreach, of_decide_eq_true hcheck, console_line_discipline hreach⟩

end

end Console
end Xv6
