import Xv6.Lib.Transition
import Xv6.User.MallocSafe

/-!
# Runs of `malloc` and `free`

A program calls `malloc` and `free` in any order and frees only live blocks.  The calls it
makes are the labels of a transition system, and `sbrk` may answer anything.
-/

namespace Xv6
namespace User

open Lib.Blocks
open Lib (System)

/-! ## More fuel -/

section

variable {limit n fuel more : Nat} {s : Alloc}

theorem place_more {bp p q : Nat} (h : s.place bp fuel p = some q) :
    s.place bp (fuel + more) p = some q := by
  induction fuel generalizing p with
  | zero => cases h
  | succ fuel ih =>
    rw [Alloc.place] at h
    rw [Nat.add_right_comm, Alloc.place]
    split at h
    · next hin => rw [if_pos hin, h]
    · next hout =>
        rw [if_neg hout]
        split at h
        · next hend => rw [if_pos hend, h]
        · next hmid =>
            rw [if_neg hmid]
            exact ih h

theorem free_more {ap : Nat} {s' : Alloc} (h : s.free fuel ap = some s') :
    s.free (fuel + more) ap = some s' := by
  obtain ⟨p, hp, hs⟩ := Option.bind_eq_some_iff.mp h
  exact Option.bind_eq_some_iff.mpr ⟨p, place_more hp, hs⟩

theorem morecore_more {answer : Option Nat} {a : Option (Nat × Alloc)}
    (h : Alloc.morecore limit fuel n answer s = some a) :
    Alloc.morecore limit (fuel + more) n answer s = some a := by
  unfold Alloc.morecore at h ⊢
  dsimp only at h ⊢
  split at h
  · exact h
  · obtain ⟨s', hfree, hs⟩ := Option.bind_eq_some_iff.mp h
    exact Option.bind_eq_some_iff.mpr ⟨s', free_more hfree, hs⟩

theorem mallocLoop_more {prevp : Nat} {answers : List (Option Nat)} {a : Nat × Alloc}
    (h : Alloc.mallocLoop limit n fuel prevp answers s = some a) :
    Alloc.mallocLoop limit n (fuel + more) prevp answers s = some a := by
  induction fuel generalizing prevp answers s with
  | zero => cases h
  | succ fuel ih =>
    rw [Alloc.mallocLoop] at h
    rw [Nat.add_right_comm, Alloc.mallocLoop]
    by_cases hfit : n <= s.size (s.ptr prevp)
    · rw [if_pos hfit] at h ⊢
      exact h
    · rw [if_neg hfit] at h ⊢
      by_cases hround : s.ptr prevp = s.freep
      · rw [if_pos hround] at h ⊢
        cases hcore : Alloc.morecore limit fuel n (answers.headD none) s with
        | none =>
          rw [hcore] at h
          cases h
        | some result =>
          rw [hcore] at h
          rw [morecore_more hcore]
          cases result with
          | none => exact h
          | some next => exact ih h
      · rw [if_neg hround] at h ⊢
        exact ih h

end

/-! ## The calls of a program -/

structure Heap where
  alloc : Alloc
  live : List Block

inductive Call where
  | malloc (nbytes : BitVec 32) (answers : List (Option Nat))
  | free (b : Block)

/-- A block that `malloc` returns becomes live, and `free` gets its address back. -/
def call (base limit fuel : Nat) (h : Heap) : Call -> Option Heap
  | .malloc nbytes answers => do
      let (r, s) <- malloc base limit fuel nbytes answers h.alloc
      return {
        alloc := s
        live := if r = 0 then h.live else (r - HEADER, HEADER * nunits nbytes) :: h.live }
  | .free b => do
      let s <- h.alloc.free fuel (b.1 + HEADER)
      return { alloc := s, live := h.live.erase b }

/-- The request is small enough for `sbrk`, and only live blocks are freed. -/
def Allowed (h : Heap) : Call -> Prop
  | .malloc nbytes _ => HEADER * nunits nbytes < 2 ^ 31
  | .free b => b ∈ h.live

instance (h : Heap) (c : Call) : Decidable (Allowed h c) := by
  cases c <;> unfold Allowed <;> infer_instance

/-- Before the first call the allocator owns nothing; `base` stands below the break. -/
def Fresh (base : Nat) (h : Heap) : Prop :=
  h.alloc.freep = 0 ∧ h.alloc.regions = [] ∧ h.live = [] ∧ 0 < base ∧ base < h.alloc.brk

def heapSystem (base limit : Nat) : System Heap Call where
  init := Fresh base
  step := fun h c h' => exists fuel, call base limit fuel h c = some h'

def HeapGood (base limit : Nat) (h : Heap) : Prop :=
  Fresh base h ∨ exists fl, Good base limit h.alloc fl h.live

section

variable {base limit : Nat} {h h' : Heap} {c : Call}

theorem call_more {fuel : Nat} (more : Nat) (hcall : call base limit fuel h c = some h') :
    call base limit (fuel + more) h c = some h' := by
  cases c with
  | malloc nbytes answers =>
    obtain ⟨a, ha, hh⟩ := Option.bind_eq_some_iff.mp hcall
    exact Option.bind_eq_some_iff.mpr ⟨a, mallocLoop_more ha, hh⟩
  | free b =>
    obtain ⟨s, hs, hh⟩ := Option.bind_eq_some_iff.mp hcall
    exact Option.bind_eq_some_iff.mpr ⟨s, free_more hs, hh⟩

theorem Fresh.start (hfresh : Fresh base h) : Good base limit (h.alloc.start base) [] h.live := by
  obtain ⟨hfreep, hregions, hlive, hpos, hlt⟩ := hfresh
  unfold Alloc.start
  rw [if_pos hfreep, hlive]
  have htiles : Tiles h.alloc.regions [] := by
    rw [hregions]
    exact ⟨fun _ => Iff.rfl, List.Pairwise.nil, nofun⟩
  refine ⟨Function.update_self _ _ _, Function.update_self _ _ _, nofun, List.Pairwise.nil, htiles,
    ?_, List.mem_cons_self, ?_, hpos, hlt⟩
  · intro x hx
    obtain ⟨b, hb, -⟩ := (htiles.cover x).mp hx
    exact absurd hb List.not_mem_nil
  · change total h.alloc.regions <= limit
    rw [hregions]
    exact Nat.zero_le _

theorem HeapGood.start (hinv : HeapGood base limit h) :
    exists fl, Good base limit (h.alloc.start base) fl h.live := by
  rcases hinv with hfresh | ⟨fl, hgood⟩
  · exact ⟨[], hfresh.start⟩
  · have hfreep : h.alloc.freep ≠ 0 := by
      have hle := h.alloc.freep
      have hmem := hgood.freep
      have hbase := hgood.base_pos
      rcases List.mem_cons.mp hmem with heq | hmem
      · omega
      · obtain ⟨b, hb, heq⟩ := mem_starts.mp hmem
        have hlt := (hgood.between (List.mem_append_left _ hb)).1
        omega
    refine ⟨fl, ?_⟩
    unfold Alloc.start
    rw [if_neg hfreep]
    exact hgood

theorem nunits_pos (nbytes : BitVec 32) : 0 < nunits nbytes :=
  Nat.succ_pos _

theorem HeapGood.call (hinv : HeapGood base limit h) (hlimit : limit < HEADER * UINT)
    (hok : Allowed h c) :
    exists bound h' fl, Good base limit h'.alloc fl h'.live ∧
      forall fuel, bound <= fuel -> call base limit fuel h c = some h' := by
  cases c with
  | malloc nbytes answers =>
    obtain ⟨fl, hgood⟩ := hinv.start
    obtain ⟨bound, a, ha, hloop⟩ := mallocLoop_spec hgood hlimit (nunits_pos nbytes) hok answers
    cases ha with
    | failed =>
      exact ⟨bound, _, fl, hgood, fun fuel hfuel =>
        Option.bind_eq_some_iff.mpr ⟨_, hloop fuel hfuel, rfl⟩⟩
    | @block r s' fl' hr _ hnew =>
      refine ⟨bound, ⟨s', _⟩, fl', hnew, fun fuel hfuel =>
        Option.bind_eq_some_iff.mpr ⟨_, hloop fuel hfuel, ?_⟩⟩
      have hne : r ≠ 0 := by omega
      dsimp only
      rw [if_neg hne]
      rfl
  | free b =>
    rcases hinv with hfresh | ⟨fl, hgood⟩
    · obtain ⟨-, -, hlive, -⟩ := hfresh
      exact absurd (hlive ▸ hok : b ∈ ([] : List Block)) List.not_mem_nil
    · obtain ⟨s', fl', hfree, hnew, -⟩ :=
        free_spec (hgood.perm (List.perm_cons_erase hok)) hlimit
      exact ⟨fl.length + 1, ⟨s', h.live.erase b⟩, fl', hnew, fun fuel hfuel =>
        Option.bind_eq_some_iff.mpr ⟨s', hfree fuel hfuel, rfl⟩⟩

theorem heapGood_reachable (hreach : (heapSystem base limit).ReachableVia Allowed h)
    (hlimit : limit < HEADER * UINT) : HeapGood base limit h := by
  refine hreach.invariant (fun h hfresh => Or.inl hfresh) ?_
  intro h c h' hinv hok ⟨fuel, hstep⟩
  obtain ⟨bound, h1, fl, hgood, hcall⟩ := hinv.call hlimit hok
  have heq : h1 = h' := by
    have hmore := call_more bound hstep
    rw [hcall _ (Nat.le_add_left bound fuel)] at hmore
    exact Option.some.inj hmore
  exact Or.inr ⟨fl, heq ▸ hgood⟩

end

def freshHeap : Heap :=
  ⟨⟨fun _ => 0, fun _ => 0, 0, 4096, []⟩, []⟩

theorem freshHeap_reachable (limit : Nat) :
    (heapSystem 16 limit).ReachableVia Allowed freshHeap :=
  System.ReachableVia.init ⟨rfl, rfl, rfl, by decide, by decide⟩

theorem heap_run {base limit fuel : Nat} {h h' : Heap} {cs : List Call}
    (hreach : (heapSystem base limit).ReachableVia Allowed h)
    (hrun : System.run (call base limit fuel) Allowed h cs = some h') :
    (heapSystem base limit).ReachableVia Allowed h' :=
  System.ReachableVia.run (M := heapSystem base limit) (fun _ _ _ hcall => ⟨fuel, hcall⟩) hreach
    hrun

section

variable {base limit : Nat} {h : Heap} {c : Call}

theorem nunits_bytes (nbytes : BitVec 32) : nbytes.toNat + HEADER <= HEADER * nunits nbytes := by
  unfold nunits HEADER
  omega

/-- Small requests are answered with a block of at least the size that was asked for, in
memory that was obtained from `sbrk` and apart from all live blocks; the break never moves
down. -/
theorem malloc_large_enough (hreach : (heapSystem base limit).ReachableVia Allowed h)
    (hlimit : limit < HEADER * UINT) (nbytes : BitVec 32)
    (hsmall : HEADER * nunits nbytes < 2 ^ 31) (answers : List (Option Nat)) :
    exists bound r s', (forall fuel, bound <= fuel ->
        malloc base limit fuel nbytes answers h.alloc = some (r, s')) ∧
      h.alloc.brk <= s'.brk ∧
      (r = 0 ∨ (forall x, Inside (r, nbytes.toNat) x -> Covered s'.regions x) ∧
        forall b, b ∈ h.live -> Apart (r, nbytes.toNat) b) := by
  obtain ⟨fl, hgood⟩ := (heapGood_reachable hreach hlimit).start
  obtain ⟨bound, a, ha, hloop⟩ := mallocLoop_spec hgood hlimit (nunits_pos nbytes) hsmall answers
  have hbrk : (h.alloc.start base).brk = h.alloc.brk := by
    unfold Alloc.start
    split <;> rfl
  have hbytes := nunits_bytes nbytes
  cases ha with
  | failed => exact ⟨bound, 0, _, hloop, Nat.le_of_eq hbrk.symm, Or.inl rfl⟩
  | @block r s' fl' hr hle hnew =>
    refine ⟨bound, r, s', hloop, hbrk ▸ hle, Or.inr ⟨fun x hx => ?_, fun b hb => ?_⟩⟩
    · refine (hnew.tiles.cover x).mpr
        ⟨_, List.mem_append_right _ List.mem_cons_self, ?_⟩
      unfold Inside at hx ⊢
      dsimp only at hx ⊢
      omega
    · have hapart := (List.pairwise_cons.mp (List.pairwise_append.mp hnew.tiles.apart).2.1).1 b hb
      unfold Apart at hapart ⊢
      dsimp only at hapart ⊢
      omega

def threeCalls : List Call :=
  [.malloc 100 [some 0], .malloc 200 [some 0], .malloc 300 [some 0], .free (69280, 224)]

theorem malloc_large_enough_fourth :
    exists h bound r s', (heapSystem 16 (2 ^ 27)).ReachableVia Allowed h ∧
      h.live = [(68960, 320), (69504, 128)] ∧
      (forall fuel, bound <= fuel ->
        malloc 16 (2 ^ 27) fuel 70000 [some 32] h.alloc = some (r, s')) ∧
      r ≠ 0 ∧ h.alloc.brk <= s'.brk ∧
      (forall x, Inside (r, 70000) x -> Covered s'.regions x) ∧
      forall b, b ∈ h.live -> Apart (r, 70000) b := by
  have hcheck : (System.run (call 16 (2 ^ 27) 8) Allowed freshHeap threeCalls).any (fun h =>
      (malloc 16 (2 ^ 27) 8 70000 [some 32] h.alloc).any fun a =>
        decide (h.live = [(68960, 320), (69504, 128)] ∧ a.1 ≠ 0)) = true := by
    decide +kernel
  obtain ⟨h, hrun, hcheck⟩ := (Option.any_eq_true _ _).mp hcheck
  obtain ⟨a, hmalloc, hcheck⟩ := (Option.any_eq_true _ _).mp hcheck
  rcases of_decide_eq_true hcheck with ⟨hlive, hne⟩
  have hreach := heap_run (freshHeap_reachable (2 ^ 27)) hrun
  obtain ⟨bound, r, s', hall, hbrk, hblock⟩ :=
    malloc_large_enough hreach (by decide) 70000 (by decide) [some 32]
  have heq : a = (r, s') :=
    Option.some.inj ((mallocLoop_more hmalloc).symm.trans (hall (8 + bound) (Nat.le_add_left _ _)))
  rw [heq] at hne
  obtain ⟨hinside, hapart⟩ := hblock.resolve_left hne
  exact ⟨h, bound, r, s', hreach, hlive, hall, hne, hbrk, hinside, hapart⟩

/-- The argument of `sbrk` keeps 32 bits of the size: of the largest request 16 bytes are left,
and a request of 32 bytes less gives 16 bytes back. -/
theorem malloc_cut :
    (exists r s', malloc 16 (2 ^ 27) 4 (BitVec.ofNat 32 (2 ^ 32 - 1)) [some 0] freshHeap.alloc =
        some (r, s') ∧ r ≠ 0 ∧ ¬ Covered s'.regions r) ∧
      exists r s', malloc 16 (2 ^ 27) 4 (BitVec.ofNat 32 (2 ^ 32 - 32)) [some 0] freshHeap.alloc =
        some (r, s') ∧ r ≠ 0 ∧ s'.brk < freshHeap.alloc.brk := by
  refine ⟨⟨_, _, rfl, by decide, ?_⟩, _, _, rfl, by decide, by decide⟩
  intro ⟨b, hb, hin⟩
  have hb : b ∈ [(4096, 16)] := hb
  have hin : Inside b 4112 := hin
  rw [List.mem_singleton.mp hb] at hin
  exact absurd hin.2 (by decide)

/-- The ring of free blocks, whose sizes are in their headers, and the memory they share
with the live blocks. -/
def RingSound (base : Nat) (h : Heap) (fl : List Block) : Prop :=
  Linked h.alloc.ptr base (starts fl) base ∧
    (forall b, b ∈ fl -> HEADER * h.alloc.size b.1 = b.2) ∧ Separated fl ∧
    Tiles h.alloc.regions (fl ++ h.live)

/-- Every call returns, and after it the free list is sound. -/
theorem free_list_sound (hreach : (heapSystem base limit).ReachableVia Allowed h)
    (hlimit : limit < HEADER * UINT) (hok : Allowed h c) :
    exists bound h', (forall fuel, bound <= fuel -> call base limit fuel h c = some h') ∧
      exists fl, RingSound base h' fl := by
  obtain ⟨bound, h', fl, hgood, hcall⟩ := (heapGood_reachable hreach hlimit).call hlimit hok
  exact ⟨bound, h', hcall, fl, hgood.linked,
    fun b hb => hgood.sizes b (List.mem_append_left _ hb), hgood.separated, hgood.tiles⟩

/-- The freed block does not touch the free rest of the region, so the ring has two blocks. -/
theorem free_list_sound_third :
    exists h bound h', (heapSystem 16 (2 ^ 27)).ReachableVia Allowed h ∧
      h.live = [(68960, 320), (69280, 224), (69504, 128)] ∧
      (forall fuel, bound <= fuel ->
        call 16 (2 ^ 27) fuel h (.free (69280, 224)) = some h') ∧
      h'.live = [(68960, 320), (69504, 128)] ∧ h'.alloc.ptr 16 = 4096 ∧
      h'.alloc.ptr 4096 = 69280 ∧ exists fl, RingSound 16 h' fl := by
  have hcheck : (System.run (call 16 (2 ^ 27) 8) Allowed freshHeap
      (threeCalls.take 3)).any (fun h =>
      (call 16 (2 ^ 27) 8 h (.free (69280, 224))).any fun h' =>
        decide (h.live = [(68960, 320), (69280, 224), (69504, 128)] ∧
          h'.live = [(68960, 320), (69504, 128)] ∧ h'.alloc.ptr 16 = 4096 ∧
          h'.alloc.ptr 4096 = 69280)) = true := by
    decide +kernel
  obtain ⟨h, hrun, hcheck⟩ := (Option.any_eq_true _ _).mp hcheck
  obtain ⟨h1, hcall, hcheck⟩ := (Option.any_eq_true _ _).mp hcheck
  rcases of_decide_eq_true hcheck with ⟨hlive, hleft⟩
  have hreach := heap_run (freshHeap_reachable (2 ^ 27)) hrun
  have hok : Allowed h (.free (69280, 224)) := by
    change (69280, 224) ∈ h.live
    rw [hlive]
    decide
  obtain ⟨bound, h', hall, hring⟩ := free_list_sound hreach (by decide) hok
  have heq : h1 = h' :=
    Option.some.inj ((call_more bound hcall).symm.trans (hall (8 + bound) (Nat.le_add_left _ _)))
  rw [heq] at hleft
  exact ⟨h, bound, h', hreach, hlive, hall, hleft.1, hleft.2.1, hleft.2.2, hring⟩

end

/-- 33 of the largest requests, whose blocks are then freed from the lowest address up. -/
def wrapCalls : List Call :=
  List.replicate 33 (.malloc (BitVec.ofNat 32 (2 ^ 31 - 48)) [some 0]) ++
    (List.range 33).map fun i => .free (4096 + i * (2 ^ 31 - 32), 2 ^ 31 - 32)

/-- What the run leaves: the pointers of the ring, the size of its block, whether a block is
live, and whether the first region is there. -/
def wrapView (h : Heap) : (Nat × Nat × Nat) × Bool × Bool :=
  ((h.alloc.ptr 16, h.alloc.ptr 4096, HEADER * h.alloc.size 4096), h.live.isEmpty,
    decide ((4096, 2 ^ 31 - 32) ∈ h.alloc.regions))

theorem wrapCalls_run :
    (System.run (call 16 (2 ^ 40) 4) Allowed freshHeap wrapCalls).map wrapView =
      some ((4096, 16, 2 ^ 31 - 1056), true, true) := by
  decide +kernel

theorem linked_single {ptr : Nat -> Nat} {base a : Nat} {l : List Nat} (hbase : ptr base = a)
    (ha : ptr a = base) (hlt : base < a) (hl : l.Pairwise (· < ·)) (h : Linked ptr base l base) :
    l = [a] := by
  cases l with
  | nil =>
    have hsame : a = base := hbase.symm.trans h
    exact absurd hsame (Nat.ne_of_gt hlt)
  | cons b l =>
    obtain ⟨hb, h⟩ := h
    have hab : b = a := hb.symm.trans hbase
    subst hab
    cases l with
    | nil => rfl
    | cons c l =>
      have hc : c = base := h.1.symm.trans ha
      have hbc := (List.pairwise_cons.mp hl).1 c List.mem_cons_self
      omega

/-- The size of a block of `2 ^ 32` headers does not fit its header: the free list no longer
covers the memory. -/
theorem wrapCalls_lost :
    exists h, (heapSystem 16 (2 ^ 40)).ReachableVia Allowed h ∧ h.live = [] ∧
      ¬ exists fl, RingSound 16 h fl := by
  obtain ⟨h, hrun, hview⟩ := Option.map_eq_some_iff.mp wrapCalls_run
  simp only [wrapView, Prod.mk.injEq, decide_eq_true_eq, List.isEmpty_iff] at hview
  obtain ⟨⟨hbase, hptr, hsize⟩, hlive, hregion⟩ := hview
  refine ⟨h, heap_run (freshHeap_reachable _) hrun, hlive, ?_⟩
  intro ⟨fl, hlink, hsizes, hsep, htiles⟩
  have hinc : (starts fl).Pairwise (· < ·) :=
    List.pairwise_map.mpr (hsep.imp fun hlt => by omega)
  have hsingle := linked_single hbase hptr (by decide) hinc hlink
  obtain ⟨b, rfl, hb⟩ := List.map_eq_singleton_iff.mp hsingle
  have hlength := hsizes b List.mem_cons_self
  rw [hb, hsize] at hlength
  obtain ⟨c, hc, hin⟩ := (htiles.cover (4096 + (2 ^ 31 - 33))).mp ⟨_, hregion, by
    unfold Inside
    decide⟩
  rw [hlive, List.append_nil] at hc
  rw [List.mem_singleton.mp hc] at hin
  unfold Inside at hin
  omega

end User
end Xv6
