import Xv6.Process.ExecLoad

/-!
# The stack of a new image

Where `kexec` puts the argument strings and the array of pointers to them, and what the stack
holds afterwards.
-/

namespace Xv6
namespace Process

open Lib Vm

variable {a n u lo sp : Nat} {args : List (List UInt8)} {src : Nat -> UInt8}

/-!
## The layout
-/

def down16 (a : Nat) : Nat :=
  a - a % 16

/-- The addresses of strings of the lengths `lens` on a stack that reaches down to `sp`. -/
def pointers : Nat -> List Nat -> List Nat
  | _, [] => []
  | sp, len :: lens => down16 (sp - (len + 1)) :: pointers (down16 (sp - (len + 1))) lens

def below : Nat -> List Nat -> Nat
  | sp, [] => sp
  | sp, len :: lens => below (down16 (sp - (len + 1))) lens

def stackPointer (sp : Nat) (lens : List Nat) : Nat :=
  down16 (below sp lens - (lens.length + 1) * 8)

theorem down16_le (a : Nat) : down16 a <= a :=
  Nat.sub_le a _

theorem down16_mod (a : Nat) : down16 a % 16 = 0 := by
  unfold down16
  omega

theorem below_le (sp : Nat) (lens : List Nat) : below sp lens <= sp := by
  induction lens generalizing sp with
  | nil => exact Nat.le_refl sp
  | cons len lens ih =>
    have hle := ih (down16 (sp - (len + 1)))
    have hdown := down16_le (sp - (len + 1))
    unfold below
    omega

theorem stackPointer_le (sp : Nat) (lens : List Nat) : stackPointer sp lens <= below sp lens :=
  (down16_le _).trans (Nat.sub_le _ _)

theorem pointers_length (sp : Nat) (lens : List Nat) : (pointers sp lens).length = lens.length := by
  induction lens generalizing sp with
  | nil => rfl
  | cons len lens ih =>
    unfold pointers
    rw [List.length_cons, List.length_cons, ih]

theorem pointers_le {lens : List Nat} (h : u ∈ pointers sp lens) : u <= sp := by
  induction lens generalizing sp with
  | nil => cases h
  | cons len lens ih =>
    have hdown := down16_le (sp - (len + 1))
    unfold pointers at h
    rcases List.mem_cons.mp h with rfl | hmem
    · omega
    · have hle := ih hmem
      omega

section

variable {x y : Ram} {trampoline trapframe r : Page} {sz : Nat}

/-!
## One copy
-/

theorem copyoutLoop_nil (p : MyProc) (r : Page) (turns : Nat) (x : Ram) (src : Nat -> UInt8)
    (va : Nat) : Ram.copyoutLoop p r turns x src va 0 = .ok (x, true) := by
  cases turns with
  | zero => rfl
  | succ turns =>
    unfold Ram.copyoutLoop
    rw [if_pos rfl]
    rfl

theorem copyoutLoop_wrote (p : MyProc) {pg : Nat} (hspace : Space x.kmem trampoline trapframe r pg)
    (hgood : Good x.kmem (use x.kmem r)) {turns : Nat} (va len : Nat) (hturns : len <= turns)
    (h : Writable x.kmem r va (va + len)) (src : Nat -> UInt8) :
    exists y, Ram.copyoutLoop p r turns x src va len = .ok (y, true) ∧ Wrote x y r va len src := by
  induction turns generalizing x va len src with
  | zero =>
    have hzero : len = 0 := by omega
    subst hzero
    exact ⟨x, rfl, Wrote.refl x r va src⟩
  | succ turns ih =>
    by_cases hlen : len = 0
    · subst hlen
      exact ⟨x, copyoutLoop_nil p r _ x src va, Wrote.refl x r va src⟩
    rcases h va (Nat.le_refl va) (by omega) with ⟨hmax, hvalid, huser, hwrite⟩
    have hbound := hspace.bound
    have hback : Backed x.kmem r va :=
      ⟨by have hlt := hspace.user_lt (vpn_lt hmax) hvalid huser; omega, hvalid⟩
    have hdown : pgrounddown va <= va := Nat.div_mul_le_self va PGSIZE
    have hsub : va - pgrounddown va = va % PGSIZE := by
      unfold pgrounddown PGSIZE
      omega
    rcases locate_of_valid hvalid with ⟨⟨q, i⟩, hloc⟩
    rw [leafAt_of_locate hloc] at hwrite
    have htouch : x.touch p r (pgrounddown va) =
        .ok (x, some (leafAt x.kmem r (va / PGSIZE)).ppn) := by
      unfold Ram.touch
      rw [walkaddr_eq, (pgrounddown_eq va).right, if_pos ⟨by omega, hvalid, huser⟩]
      rfl
    unfold Ram.copyoutLoop
    rw [if_neg hlen]
    simp only [if_neg (show ¬ pgrounddown va >= MAXVA by omega), htouch, bind, Except.bind,
      walk_false (show pgrounddown va < MAXVA by omega), (pgrounddown_eq va).right, hloc, hwrite,
      Bool.not_true, Bool.false_eq_true, if_false, hsub]
    have hfirst := wrote_store (n := min (PGSIZE - va % PGSIZE) len) src hgood hback
      (Nat.min_le_left _ _)
    by_cases hlast : len <= PGSIZE - va % PGSIZE
    · rw [Nat.min_eq_right hlast] at hfirst ⊢
      rw [Nat.sub_self, copyoutLoop_nil]
      exact ⟨_, rfl, hfirst⟩
    · have hmin : min (PGSIZE - va % PGSIZE) len = PGSIZE - va % PGSIZE := by omega
      have hmod := Nat.mod_lt va (show 0 < PGSIZE by decide)
      have hsplit := Nat.div_add_mod' va PGSIZE
      have hnext : (pgrounddown va + PGSIZE) % 2 ^ 64 = va + (PGSIZE - va % PGSIZE) := by
        unfold pgrounddown MAXVA PGSIZE at *
        omega
      rw [hmin] at hfirst ⊢
      rw [hnext]
      rcases ih (x := x.store (leafAt x.kmem r (va / PGSIZE)).ppn (va % PGSIZE)
          (PGSIZE - va % PGSIZE) src) hspace hgood (va + (PGSIZE - va % PGSIZE))
        (len - (PGSIZE - va % PGSIZE)) (by omega)
        (fun a h1 h2 => h a (by omega) (by omega))
        (fun j => src (PGSIZE - va % PGSIZE + j)) with ⟨y, hrun, hrest⟩
      refine ⟨y, hrun, ?_⟩
      have happend := hfirst.append hrest
      rw [Nat.add_sub_cancel' (by omega)] at happend
      exact happend

/-!
## The strings
-/

structure Stack (x : Ram) (trampoline trapframe r : Page) (pg base top : Nat) : Prop where
  space : Space x.kmem trampoline trapframe r pg
  good : Good x.kmem (use x.kmem r)
  writable : Writable x.kmem r base top
  base_pos : 0 < base
  top_le : top <= TRAPFRAME

variable {pg base top sp : Nat}

section

variable (h : Stack x trampoline trapframe r pg base top)
include h

theorem Stack.wrote (hwrote : Wrote x y r a n src) :
    Stack y trampoline trapframe r pg base top := by
  rcases h with ⟨hspace, hgood, hwritable, hbase, htop⟩
  rw [← hwrote.kmem_eq] at hspace hgood hwritable
  exact ⟨hspace, hgood, hwritable, hbase, htop⟩

theorem Stack.backed (hlo : base <= a) (hhi : a < top) : Backed x.kmem r a := by
  rcases h.writable a hlo hhi with ⟨hmax, hvalid, huser, _⟩
  have hbound := h.space.bound
  have hlt := h.space.user_lt (vpn_lt hmax) hvalid huser
  exact ⟨by omega, hvalid⟩

theorem push_spec (p : MyProc) (hsp : sp <= top)
    (src : Nat -> UInt8) (len : Nat) (hpos : len ≠ 0) (hlen : len < 2 ^ 63) :
    exists y res, x.push p r base sp src len = .ok (y, res) ∧
      (base <= down16 (sp - len) ->
        res = some (down16 (sp - len)) ∧ Wrote x y r (down16 (sp - len)) len src) ∧
      (¬ base <= down16 (sp - len) -> res = none ∧ y = x) := by
  have hbase := h.base_pos
  have hdown := down16_le (sp - len)
  unfold Ram.push
  by_cases hwrap : len <= sp
  · have hsub : sub64 sp len = sp - len := if_pos hwrap
    simp only [hsub]
    change exists y res, (if down16 (sp - len) < base then _ else _) = _ ∧ _
    by_cases hfit : base <= down16 (sp - len)
    · rw [if_neg (by omega)]
      rcases copyoutLoop_wrote p h.space h.good (down16 (sp - len)) len (Nat.le_refl len)
        (fun a h1 h2 => h.writable a (by omega) (by omega)) src with ⟨y, hrun, hwrote⟩
      refine ⟨y, some (down16 (sp - len)), ?_, fun _ => ⟨rfl, hwrote⟩, fun hno => absurd hfit hno⟩
      change (Ram.copyoutLoop p r len x src (down16 (sp - len)) len >>= _) = _
      rw [hrun]
      rfl
    · rw [if_pos (by omega)]
      exact ⟨x, none, rfl, fun hyes => absurd hyes hfit, fun _ => ⟨rfl, rfl⟩⟩
  · -- the subtraction wraps to an address that is not mapped
    have hsub : sub64 sp len = sp + 2 ^ 64 - len := if_neg hwrap
    have hzero : ¬ base <= down16 (sp - len) := by omega
    simp only [hsub]
    have hfar : MAXVA <= pgrounddown (sp + 2 ^ 64 - len - (sp + 2 ^ 64 - len) % 16) := by
      unfold MAXVA pgrounddown PGSIZE
      omega
    refine ⟨x, none, ?_, fun hyes => absurd hyes hzero, fun _ => ⟨rfl, rfl⟩⟩
    split
    · rfl
    · cases len with
      | zero => exact absurd rfl hpos
      | succ n =>
        unfold Ram.copyout Ram.copyoutLoop
        rw [if_neg hpos]
        simp only [if_pos hfar]
        rfl

end

def StringAt (x : Ram) (r : Page) (arg : List UInt8) (u : Nat) : Prop :=
  forall j, j <= arg.length -> x.byteAt r (u + j) = arg.getD j 0

/-- What `pushArgs` leaves: the bytes from `sp` on and those below `lo` are as before. -/
structure Pushed (x y : Ram) (r : Page) (lo sp : Nat) : Prop where
  kmem_eq : y.kmem = x.kmem
  kept : forall b, Backed x.kmem r b -> (sp <= b ∨ b < lo) -> y.byteAt r b = x.byteAt r b
  frame : forall q, use x.kmem r q = 0 -> y.data q = x.data q

theorem Pushed.refl (x : Ram) (r : Page) (lo sp : Nat) : Pushed x x r lo sp :=
  ⟨rfl, fun _ _ _ => rfl, fun _ _ => rfl⟩

theorem Pushed.cons {x1 : Ram} (h : Pushed x1 y r lo u)
    (hwrote : Wrote x x1 r u n src) (hend : u + n <= sp) (hlo : lo <= u) : Pushed x y r lo sp := by
  refine ⟨h.kmem_eq.trans hwrote.kmem_eq, ?_, ?_⟩
  · intro b hb hout
    rw [h.kept b (by rw [hwrote.kmem_eq]; exact hb) (by omega), hwrote.bytes b hb,
      if_neg (by omega)]
  · intro q hq
    rw [h.frame q (by rw [hwrote.kmem_eq]; exact hq), hwrote.frame q hq]

theorem Pushed.then {x1 : Ram} (h : Pushed x x1 r lo sp)
    (hwrote : Wrote x1 y r u n src) (hend : u + n <= lo) (hlo : lo <= sp) : Pushed x y r u sp := by
  have hkmem := h.kmem_eq
  refine ⟨hwrote.kmem_eq.trans hkmem, ?_, ?_⟩
  · intro b hb hout
    rw [hwrote.bytes b (by rw [hkmem]; exact hb), if_neg (by omega), h.kept b hb (by omega)]
  · intro q hq
    rw [hwrote.frame q (by rw [hkmem]; exact hq), h.frame q hq]

theorem pushArgs_spec (p : MyProc) (hargs : forall arg, arg ∈ args -> arg.length < 2 ^ 31)
    (h : Stack x trampoline trapframe r pg base top) (ustack : List Nat) (sp : Nat)
    (hroom : ustack.length <= MAXARG) (hlo : base <= sp) (hsp : sp <= top) :
    exists y res, Ram.pushArgs p r base args x ustack sp = .ok (y, res) ∧
      (if ustack.length + args.length <= MAXARG ∧ base <= below sp (args.map List.length) then
        res = some (ustack ++ pointers sp (args.map List.length), below sp (args.map List.length)) ∧
          Pushed x y r (below sp (args.map List.length)) sp ∧
          List.Forall₂ (StringAt y r) args (pointers sp (args.map List.length))
      else
        res = none ∧ Pushed x y r 0 sp) := by
  induction args generalizing x ustack sp with
  | nil =>
    refine ⟨x, some (ustack, sp), rfl, ?_⟩
    rw [if_pos ⟨hroom, hlo⟩]
    refine ⟨?_, Pushed.refl x r _ _, List.Forall₂.nil⟩
    rw [List.map_nil, pointers, below, List.append_nil]
  | cons arg args ih =>
    have hbase := h.base_pos
    have hlen := hargs arg List.mem_cons_self
    have hrest : forall arg', arg' ∈ args -> arg'.length < 2 ^ 31 :=
      fun arg' hmem => hargs arg' (List.mem_cons_of_mem arg hmem)
    rw [List.map_cons, List.length_cons]
    unfold Ram.pushArgs below pointers
    by_cases hmax : ustack.length >= MAXARG
    · rw [if_pos hmax]
      refine ⟨x, none, rfl, ?_⟩
      rw [if_neg (by omega)]
      exact ⟨rfl, Pushed.refl x r _ _⟩
    rw [if_neg hmax]
    rcases push_spec h p hsp (fun j => arg.getD j 0) (arg.length + 1) (by omega) (by omega) with
      ⟨x1, res, hpush, hyes, hno⟩
    generalize hu : down16 (sp - (arg.length + 1)) = u at *
    have hdown : u <= sp - (arg.length + 1) := by
      rw [← hu]
      exact down16_le _
    rw [hpush, ok_bind]
    by_cases hfit : base <= u
    · rcases hyes hfit with ⟨rfl, hwrote⟩
      rcases ih hrest (h.wrote hwrote) (ustack ++ [u]) u
        (by rw [List.length_append, List.length_singleton]; omega) hfit (by omega) with
        ⟨y, res, hrun, hspec⟩
      refine ⟨y, res, hrun, ?_⟩
      rw [List.length_append, List.length_singleton, Nat.add_right_comm, Nat.add_assoc] at hspec
      by_cases hcond : ustack.length + (args.length + 1) <= MAXARG ∧
          base <= below u (args.map List.length)
      · rw [if_pos hcond] at hspec ⊢
        rcases hspec with ⟨hres, hpushed, hstrings⟩
        refine ⟨?_, hpushed.cons hwrote (by omega) (below_le u _), List.Forall₂.cons ?_ hstrings⟩
        · rw [hres, List.append_assoc]
          rfl
        · intro j hj
          have hback := h.backed (a := u + j) (by omega) (by omega)
          rw [hpushed.kept _ (by rw [hwrote.kmem_eq]; exact hback) (Or.inl (Nat.le_add_right u j)),
            hwrote.bytes _ hback, if_pos (by omega), Nat.add_sub_cancel_left]
      · rw [if_neg hcond] at hspec ⊢
        exact ⟨hspec.1, hspec.2.cons hwrote (by omega) (Nat.zero_le u)⟩
    · rcases hno hfit with ⟨rfl, rfl⟩
      have hle := below_le u (args.map List.length)
      refine ⟨x1, none, rfl, ?_⟩
      rw [if_neg (by omega)]
      exact ⟨rfl, Pushed.refl x1 r _ _⟩

theorem pointers_between (hpos : 0 < below sp (args.map List.length)) :
    List.Forall₂ (fun arg u => below sp (args.map List.length) <= u ∧ u + arg.length < sp) args
      (pointers sp (args.map List.length)) := by
  induction args generalizing sp with
  | nil => exact List.Forall₂.nil
  | cons arg args ih =>
    rw [List.map_cons] at hpos ⊢
    unfold below at hpos ⊢
    unfold pointers
    have hle := below_le (down16 (sp - (arg.length + 1))) (args.map List.length)
    have hdown := down16_le (sp - (arg.length + 1))
    refine List.Forall₂.cons ⟨hle, by omega⟩ ((ih hpos).imp ?_)
    rintro arg' u ⟨hlo, hhi⟩
    exact ⟨hlo, by omega⟩

def wordAt (x : Ram) (r : Page) (a : Nat) : Nat :=
  Bytes.getLE (x.byteAt r) a 8

structure Arguments (x : Ram) (r : Page) (args : List (List UInt8)) (ustack : List Nat)
    (sp : Nat) : Prop where
  strings : List.Forall₂ (StringAt x r) args ustack
  words : forall k, k <= ustack.length -> wordAt x r (sp + k * 8) = (ustack ++ [0]).getD k 0

theorem getD_lt {ws : List Nat} (hn : 0 < n) (h : forall w, w ∈ ws -> w < n) (k : Nat) :
    ws.getD k 0 < n := by
  by_cases hk : k < ws.length
  · rw [List.getD_eq_getElem _ _ hk]
    exact h _ (List.getElem_mem hk)
  · rw [List.getD_eq_default _ _ (Nat.not_lt.mp hk)]
    exact hn

theorem wordAt_words {ws : List Nat} {k : Nat} (hwrote : Wrote x y r a (n * 8) (Ram.words ws))
    (hback : forall b, a <= b -> b < a + n * 8 -> Backed x.kmem r b) (hk : k < n)
    (hlt : ws.getD k 0 < 2 ^ 64) : wordAt y r (a + k * 8) = ws.getD k 0 := by
  have hdigits : wordAt y r (a + k * 8) = ws.getD k 0 % 256 ^ 8 := by
    refine Bytes.getLE_digits fun i hi => ?_
    rw [hwrote.bytes _ (hback _ (by omega) (by omega)), if_pos (by omega)]
    unfold Ram.words
    rw [show (a + k * 8 + i - a) / 8 = k by omega, show (a + k * 8 + i - a) % 8 = i by omega]
  rw [hdigits, Nat.mod_eq_of_lt (by omega)]

theorem pushStack_spec (p : MyProc) (hargs : forall arg, arg ∈ args -> arg.length < 2 ^ 31)
    (h : Stack x trampoline trapframe r pg (top - USERSTACK * PGSIZE) top) :
    exists y res, x.pushStack p args r top = .ok (y, res) ∧
      (if args.length <= MAXARG ∧
          top - USERSTACK * PGSIZE <= stackPointer top (args.map List.length) then
        res = some (pointers top (args.map List.length), stackPointer top (args.map List.length)) ∧
          Pushed x y r (stackPointer top (args.map List.length)) top ∧
          Arguments y r args (pointers top (args.map List.length))
            (stackPointer top (args.map List.length))
      else
        res = none ∧ Pushed x y r 0 top) := by
  have hbase := h.base_pos
  have htop := h.top_le
  have hle := stackPointer_le top (args.map List.length)
  have hle' := below_le top (args.map List.length)
  have hsp : stackPointer top (args.map List.length) =
      down16 (below top (args.map List.length) - (args.length + 1) * 8) := by
    unfold stackPointer
    rw [List.length_map]
  have hdown := down16_le (below top (args.map List.length) - (args.length + 1) * 8)
  unfold Ram.pushStack
  rcases pushArgs_spec p hargs h [] top (Nat.zero_le _) (Nat.sub_le _ _)
    (Nat.le_refl top) with ⟨x1, res, hrun, hspec⟩
  rw [List.length_nil, Nat.zero_add, List.nil_append] at hspec
  dsimp only
  rw [hrun, ok_bind]
  by_cases hcond : args.length <= MAXARG ∧
      top - USERSTACK * PGSIZE <= below top (args.map List.length)
  · rw [if_pos hcond] at hspec
    rcases hspec with ⟨rfl, hpushed, hstrings⟩
    have hstack1 : Stack x1 trampoline trapframe r pg (top - USERSTACK * PGSIZE) top := by
      rcases h with ⟨hspace, hgood, hwritable, hb, ht⟩
      rw [← hpushed.kmem_eq] at hspace hgood hwritable
      exact ⟨hspace, hgood, hwritable, hb, ht⟩
    have hlen : (args.length + 1) * 8 < 2 ^ 63 := by
      have hfit : (MAXARG + 1) * 8 < 2 ^ 63 := by decide
      omega
    rcases push_spec hstack1 p hle' (Ram.words (pointers top (args.map List.length) ++ [0]))
      ((args.length + 1) * 8) (by omega) hlen with ⟨y, last, hpush, hyes, hno⟩
    rw [← hsp] at hyes hno hdown
    dsimp only
    rw [pointers_length, List.length_map, hpush, ok_bind]
    refine ⟨y, _, rfl, ?_⟩
    by_cases hfit : top - USERSTACK * PGSIZE <= stackPointer top (args.map List.length)
    · rcases hyes hfit with ⟨rfl, hwrote⟩
      rw [if_pos ⟨hcond.1, hfit⟩]
      refine ⟨rfl, hpushed.then hwrote (by omega) hle', ?_, ?_⟩
      · refine List.Forall₂.mp ?_ hstrings (pointers_between (by omega))
        intro arg u hstring hbetween j hj
        have hback := hstack1.backed (a := u + j) (by omega) (by omega)
        rw [hwrote.bytes _ hback, if_neg (by omega)]
        exact hstring j hj
      · intro k hk
        rw [pointers_length, List.length_map] at hk
        refine wordAt_words hwrote (fun b h1 h2 => hstack1.backed (by omega) (by omega)) (by omega)
          ?_
        refine getD_lt (by decide) (fun u hu => ?_) k
        have hbits : TRAPFRAME < 2 ^ 64 := by decide
        rcases List.mem_append.mp hu with hmem | hzero
        · have hu' := pointers_le hmem
          omega
        · rw [List.mem_singleton.mp hzero]
          omega
    · rcases hno hfit with ⟨rfl, rfl⟩
      rw [if_neg (fun hand => hfit hand.2)]
      exact ⟨rfl, hpushed.kmem_eq, fun b hb hout => hpushed.kept b hb (by omega), hpushed.frame⟩
  · rw [if_neg hcond] at hspec
    rcases hspec with ⟨rfl, hpushed⟩
    refine ⟨x1, none, rfl, ?_⟩
    rw [if_neg (by omega)]
    exact ⟨rfl, hpushed⟩

/-!
## The whole stack
-/

theorem buildStack_cases (h : Image x.kmem trampoline trapframe r sz)
    (hgood : Good x.kmem (use x.kmem r)) (p : MyProc) :
    (exists x1, Moves x x1 (use x.kmem r) (use x1.kmem r) ∧
      Space x1.kmem trampoline trapframe r (pages (pgroundup sz)) ∧
      forall args, x.buildStack p args r sz = .ok (x1, pgroundup sz, none)) ∨
    exists x2 top, Moves x x2 (use x.kmem r) (use x2.kmem r) ∧ Kept x x2 r (pages sz) ∧
      StackPages x.kmem x2.kmem trampoline trapframe r sz top ∧
      Stack x2 trampoline trapframe r (pages top) (top - USERSTACK * PGSIZE) top ∧
      forall args, x.buildStack p args r sz =
        x2.pushStack p args r top >>= fun (y, res) => .ok (y, top, res) := by
  rcases h.round with ⟨hpages, himage⟩
  rcases himage.uvmalloc_spec hgood (pgroundup sz + (USERSTACK + 1) * PGSIZE)
    { r := false, w := true, x := false, u := false } with ⟨m1, sz1, hrun, _⟩
  rw [← uvmalloc_kmem] at hrun
  rcases map_eq_ok.mp hrun with ⟨⟨x1, sz2⟩, halloc, heq⟩
  cases heq
  rcases himage.uvmalloc_moves hgood halloc with ⟨hmoves, hzero, _⟩
  by_cases hpos : sz1 = 0
  · refine .inl ⟨x1, hmoves, hzero hpos, fun args => ?_⟩
    unfold Ram.buildStack
    dsimp only
    rw [halloc, ok_bind]
    dsimp only
    rw [if_pos hpos]
    rfl
  · have hkmem : uvmalloc x.kmem r (pgroundup sz) (pgroundup sz + (USERSTACK + 1) * PGSIZE)
        { r := false, w := true, x := false, u := false } = .ok (x1.kmem, sz1) := by
      rw [← uvmalloc_kmem, halloc]
      rfl
    rcases stackPages_spec h hgood hpos hkmem with ⟨m2, hclear, hstack⟩
    rw [← uvmclear_kmem] at hclear
    rcases map_eq_ok.mp hclear with ⟨x2, hclear', hm2⟩
    subst hm2
    have hdata := uvmclear_data hclear'
    have hkept := himage.uvmalloc_kept hgood (Nat.le_add_right _ _) hpos halloc
    rw [hpages] at hkept
    have hbase := hstack.base_eq
    refine .inr ⟨x2, sz1, ⟨hstack.conserve, fun q hq => ?_⟩, ⟨hstack.kept, fun a ha hvalid => ?_⟩,
      hstack, ⟨hstack.space, hgood.conserve hstack.conserve, hstack.writable, ?_, hstack.top_le⟩,
      fun args => ?_⟩
    · rw [hdata]
      exact hmoves.data q hq
    · rw [← hkept.bytes a ha hvalid]
      unfold Ram.byteAt
      rw [hstack.kept _ ha, hkept.leaf _ ha, hdata]
    · rw [hbase]
      exact Nat.mul_pos (Nat.succ_pos _) (by decide)
    · unfold Ram.buildStack
      dsimp only
      rw [halloc, ok_bind]
      dsimp only
      rw [if_neg hpos, hclear', ok_bind]
      rfl

structure StackBuilt (x y : Ram) (r : Page) (args : List (List UInt8)) (sz top : Nat)
    (ustack : List Nat) (sp : Nat) : Prop where
  room : args.length <= MAXARG
  top_eq : top = (pages sz + (USERSTACK + 1)) * PGSIZE
  ustack_eq : ustack = pointers top (args.map List.length)
  sp_eq : sp = stackPointer top (args.map List.length)
  fits : top - USERSTACK * PGSIZE <= sp
  arguments : Arguments y r args ustack sp
  writable : Writable y.kmem r (top - USERSTACK * PGSIZE) top
  guard : (leafAt y.kmem r (pages sz)).u = false
  kept : Kept x y r (pages sz)

theorem Pushed.moves (h : Pushed x y r lo sp) :
    Moves x y (use x.kmem r) (use y.kmem r) := by
  rw [h.kmem_eq]
  refine ⟨?_, fun q hq => h.frame q (by omega)⟩
  rw [h.kmem_eq]
  exact Conserve.refl _ _

theorem Pushed.below (h : Pushed x y r lo sp) (hn : n <= USERTOP)
    (hle : n * PGSIZE <= lo) : Kept x y r n := by
  refine ⟨fun v _ => by rw [h.kmem_eq], fun a ha hvalid => ?_⟩
  have hlt : a < n * PGSIZE := (Nat.div_lt_iff_lt_mul (by decide)).mp ha
  exact h.kept a ⟨by omega, hvalid⟩ (Or.inr (by omega))

theorem buildStack_built (p : MyProc) (hargs : forall arg, arg ∈ args -> arg.length < 2 ^ 31)
    (h : Image x.kmem trampoline trapframe r sz) (hgood : Good x.kmem (use x.kmem r)) :
    exists y sz' built, x.buildStack p args r sz = .ok (y, sz', built) ∧
      Moves x y (use x.kmem r) (use y.kmem r) ∧ sz' <= TRAPFRAME ∧
      Space y.kmem trampoline trapframe r (pages sz') ∧
      forall ustack sp, built = some (ustack, sp) -> StackBuilt x y r args sz sz' ustack sp := by
  rcases buildStack_cases h hgood p with ⟨x1, hmoves, hspace, hrun⟩ |
    ⟨x2, top, hmoves, hkept, hpages, hstack, hrun⟩
  · exact ⟨x1, pgroundup sz, none, hrun args, hmoves, h.round.2.size_le, hspace,
      fun _ _ h => by cases h⟩
  · rcases pushStack_spec p hargs hstack with ⟨y, res, hpush, hspec⟩
    have hrun' : x.buildStack p args r sz = .ok (y, top, res) := by
      rw [hrun args, hpush]
      rfl
    by_cases hcond : args.length <= MAXARG ∧
        top - USERSTACK * PGSIZE <= stackPointer top (args.map List.length)
    · rw [if_pos hcond] at hspec
      rcases hspec with ⟨hres, hpushed, hargsAt⟩
      have hkmem := hpushed.kmem_eq
      refine ⟨y, top, res, hrun', hmoves.trans hpushed.moves, hstack.top_le, ?_, ?_⟩
      · rw [hkmem]
        exact hstack.space
      · intro ustack sp heq
        rw [hres] at heq
        cases heq
        refine ⟨hcond.1, hpages.top_eq, rfl, rfl, hcond.2, hargsAt, ?_, ?_,
          hkept.trans (hpushed.below (pages_le h.size_le) ?_)⟩
        · rw [hkmem]
          exact hpages.writable
        · rw [hkmem]
          exact hpages.guard
        · have hbase := hpages.base_eq
          rw [Nat.add_mul, Nat.one_mul] at hbase
          omega
    · rw [if_neg hcond] at hspec
      rcases hspec with ⟨hres, hpushed⟩
      refine ⟨y, top, res, hrun', hmoves.trans hpushed.moves, hstack.top_le, ?_, ?_⟩
      · rw [hpushed.kmem_eq]
        exact hstack.space
      · intro ustack sp heq
        rw [hres] at heq
        cases heq

theorem pushStack_kmem_eq (p : MyProc) (hargs : forall arg, arg ∈ args -> arg.length < 2 ^ 31)
    (h : Stack x trampoline trapframe r pg (top - USERSTACK * PGSIZE) top)
    {res : Option (List Nat × Nat)} (hrun : x.pushStack p args r top = .ok (y, res)) :
    y.kmem = x.kmem := by
  rcases pushStack_spec p hargs h with ⟨y', res', hrun', hspec⟩
  rw [hrun] at hrun'
  cases hrun'
  split at hspec
  · exact hspec.2.1.kmem_eq
  · exact hspec.2.kmem_eq

theorem buildStack_isSome (p : MyProc) (hargs : forall arg, arg ∈ args -> arg.length < 2 ^ 31)
    (h : Image x.kmem trampoline trapframe r sz) (hgood : Good x.kmem (use x.kmem r)) {y0 : Ram}
    {reached : List Nat × Nat} (hrun0 : x.buildStack p [] r sz = .ok (y0, top, some reached)) :
    exists y built, x.buildStack p args r sz = .ok (y, top, built) ∧ y.kmem = y0.kmem ∧
      (built.isSome = true <-> args.length <= MAXARG ∧
        top - USERSTACK * PGSIZE <= stackPointer top (args.map List.length)) := by
  rcases buildStack_cases h hgood p with ⟨x1, _, _, hrun⟩ | ⟨x2, top', _, _, _, hstack, hrun⟩
  · rw [hrun []] at hrun0
    cases hrun0
  · rw [hrun []] at hrun0
    rcases bind_eq_ok.mp hrun0 with ⟨⟨z0, res0⟩, hpush0, heq⟩
    cases heq
    rcases pushStack_spec p hargs hstack with ⟨y, res, hpush, hspec⟩
    refine ⟨y, res, ?_, ?_, ?_⟩
    · rw [hrun args, hpush]
      rfl
    · rw [pushStack_kmem_eq p hargs hstack hpush,
        pushStack_kmem_eq p (fun _ h => by cases h) hstack hpush0]
    · split at hspec
      next hcond =>
        rw [hspec.1]
        exact ⟨fun _ => hcond, fun _ => rfl⟩
      next hcond =>
        rw [hspec.1]
        exact ⟨fun h => (by cases h), fun h => absurd h hcond⟩

end

end Process
end Xv6
