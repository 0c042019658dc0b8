import Mathlib.Order.Interval.Finset.Nat
import Xv6.Process.Exec

/-!
# Memory safety of `exec`

The image is built in a page table of its own.  Up to the commit the old address
space is untouched, and every error exit frees what was built.
-/

namespace Xv6
namespace Process

open Lib Vm

theorem free_length_le {m : Kmem} {X : Page -> Nat} (hgood : Good m X) :
    m.free.length <= USERTOP := by
  have hnodup : m.free.Nodup := by
    apply List.nodup_iff_count_le_one.mpr
    intro q
    have hle := hgood.le_one q
    omega
  have hsub : m.free.toFinset ⊆ Finset.range (PHYSTOP / PGSIZE) := by
    intro q hq
    have hcount := List.count_pos_iff.mpr (List.mem_toFinset.mp hq)
    rcases hgood.managed q (by omega) with ⟨_, hhi⟩
    exact Finset.mem_range.mpr hhi
  have hcard := Finset.card_le_card hsub
  rw [List.toFinset_card_of_nodup hnodup, Finset.card_range] at hcard
  exact hcard.trans (by decide)

/-!
## The image under construction
-/

/-- All of the image's memory is mapped for the user, and what is free cannot reach
the fixed pages. -/
structure Image (m : Kmem) (trampoline trapframe r : Page) (sz : Nat) : Prop where
  space : Space m trampoline trapframe r (pages sz)
  size_le : sz <= TRAPFRAME
  present : forall v, v < pages sz -> (leafAt m r v).v = true ∧ (leafAt m r v).u = true
  room : pages sz + m.free.length <= USERTOP

section Image

variable {m : Kmem} {trampoline trapframe r : Page} {sz : Nat}

theorem Image.uvmalloc_spec (h : Image m trampoline trapframe r sz) (hgood : Good m (use m r))
    (newsz : Nat) (xperm : Perm) :
    exists m' sz1, uvmalloc m r sz newsz xperm = .ok (m', sz1) ∧
      Conserve m m' (use m r) (use m' r) ∧
      (sz1 = 0 -> Space m' trampoline trapframe r (pages sz)) ∧
      (sz1 ≠ 0 -> Image m' trampoline trapframe r sz1 ∧ newsz <= sz1 ∧
        (sz <= newsz -> sz1 = newsz ∧
          Grown m m' r (pages sz) (pages newsz - pages sz) xperm)) := by
  rcases Vm.uvmalloc_spec newsz xperm h.size_le h.space.inner hgood (Or.inr h.room)
    h.space.unmapped with ⟨m', sz1, hrun, hcons, hinner, hcase⟩
  refine ⟨m', sz1, hrun, hcons, ?_, ?_⟩
  · intro hzero
    rcases hcase with ⟨hlt, heq, hm⟩ | ⟨hle, htf, heq, hgrown⟩ | ⟨_, hres⟩
    · omega
    · have hsame : pages newsz - pages sz = 0 := by
        have hmono := pages_mono hle htf
        rw [← heq, hzero] at hmono ⊢
        rw [show pages 0 = 0 from by decide]
        omega
      rw [hsame] at hgrown
      exact h.space.grown hinner hgrown
    · exact h.space.restored hinner hres
  · intro hpos
    rcases hcase with ⟨hlt, heq, hm⟩ | ⟨hle, htf, heq, hgrown⟩ | ⟨hzero, _⟩
    · subst hm
      rw [heq]
      exact ⟨h, Nat.le_of_lt hlt, fun hle => by omega⟩
    · have hmono := pages_mono hle htf
      have hspace := h.space.grown hinner hgrown
      rw [Nat.add_sub_cancel' hmono] at hspace
      have hfree := hgrown.free_le
      have hroom := h.room
      have htop := pages_le htf
      have hvpns := USERTOP_le
      subst heq
      refine ⟨{ space := hspace, size_le := htf, present := ?_, room := by omega },
        Nat.le_refl _, fun _ => ⟨rfl, hgrown⟩⟩
      intro v hv
      by_cases hold : v < pages sz
      · rw [hgrown.kept v (by omega) (Or.inl hold)]
        exact h.present v hold
      · rcases hgrown.filled v (by omega) (by omega) with ⟨pa, hpa⟩
        rw [hpa]
        exact ⟨rfl, rfl⟩
    · exact absurd hzero hpos

/-!
## Loading the program
-/

theorem loadsegLoop_ok (h : Image m trampoline trapframe r sz) (readi : Readi)
    (va offset len : Nat) {n i : Nat} (hin : forall k, k < n -> va + (i + k * PGSIZE) < sz) :
    exists loaded, loadsegLoop readi m r va offset len n i = .ok loaded := by
  have hsmall : TRAPFRAME < MAXVA := by decide
  have hbits : MAXVA < 2 ^ 64 := by decide
  have hsz := h.size_le
  induction n generalizing i with
  | zero => exact ⟨true, rfl⟩
  | succ n ih =>
    have hva : va + i < sz := by
      have hfirst := hin 0 (Nat.succ_pos n)
      omega
    rcases h.present ((va + i) / PGSIZE) (vpn_lt_pages hva hsz) with ⟨hvalid, huser⟩
    unfold loadsegLoop
    rw [Nat.mod_eq_of_lt (by omega), walkaddr_eq,
      if_pos ⟨by omega, hvalid, huser⟩]
    simp only [bind, Except.bind]
    generalize (if len - i < PGSIZE then len - i else PGSIZE) = k
    by_cases hread : (readi ((offset + i) % 2 ^ 32) k).length ≠ k
    · rw [if_pos hread]
      exact ⟨false, rfl⟩
    · rw [if_neg hread]
      apply ih
      intro k hk
      have hnext := hin (k + 1) (by omega)
      rw [Nat.succ_mul] at hnext
      omega

theorem loadseg_ok (h : Image m trampoline trapframe r sz) (readi : Readi)
    {va len : Nat} (offset : Nat) (hend : va + len <= sz) :
    exists loaded, loadseg readi m r va offset len = .ok loaded := by
  apply loadsegLoop_ok h
  intro k hk
  unfold pagesBetween PGSIZE at *
  omega

theorem field_lt (bytes : List UInt8) (off width : Nat) :
    field bytes off width < 256 ^ width :=
  Bytes.getLE_lt _ off width

theorem Proghdr.ofBytes_lt (bytes : List UInt8) :
    (Proghdr.ofBytes bytes).vaddr < 2 ^ 64 ∧ (Proghdr.ofBytes bytes).memsz < 2 ^ 64 := by
  have hwidth : (256 : Nat) ^ 8 = 2 ^ 64 := by decide
  rw [← hwidth]
  exact ⟨field_lt bytes 16 8, field_lt bytes 40 8⟩

theorem loadProgram_spec (readi : Readi) (n off : Nat)
    (h : Image m trampoline trapframe r sz) (hgood : Good m (use m r)) :
    exists m' sz' loaded, loadProgram readi r n m off sz = .ok (m', sz', loaded) ∧
      Conserve m m' (use m r) (use m' r) ∧ sz' <= TRAPFRAME ∧
      Space m' trampoline trapframe r (pages sz') ∧
      (loaded = true -> Image m' trampoline trapframe r sz') := by
  induction n generalizing m off sz with
  | zero =>
    exact ⟨m, sz, true, rfl, Conserve.refl _ _, h.size_le, h.space, fun _ => h⟩
  | succ n ih =>
    have hbad : exists m' sz' loaded,
        (Except.ok (m, sz, false) : Except Panic (Kmem × Nat × Bool)) =
          .ok (m', sz', loaded) ∧
        Conserve m m' (use m r) (use m' r) ∧ sz' <= TRAPFRAME ∧
        Space m' trampoline trapframe r (pages sz') ∧
        (loaded = true -> Image m' trampoline trapframe r sz') :=
      ⟨m, sz, false, rfl, Conserve.refl _ _, h.size_le, h.space, fun h => by cases h⟩
    unfold loadProgram
    simp only []
    have hfields := Proghdr.ofBytes_lt (readi off Proghdr.size)
    generalize Proghdr.ofBytes (readi off Proghdr.size) = ph at hfields
    by_cases hread : (readi off Proghdr.size).length ≠ Proghdr.size
    · rw [if_pos hread]
      exact hbad
    rw [if_neg hread]
    by_cases htype : ph.type ≠ ELF_PROG_LOAD
    · rw [if_pos htype]
      exact ih _ h hgood
    rw [if_neg htype]
    by_cases hmem : ph.memsz < ph.filesz
    · rw [if_pos hmem]
      exact hbad
    rw [if_neg hmem]
    by_cases hwrap : (ph.vaddr + ph.memsz) % 2 ^ 64 < ph.vaddr
    · rw [if_pos hwrap]
      exact hbad
    rw [if_neg hwrap]
    by_cases halign : ph.vaddr % PGSIZE ≠ 0
    · rw [if_pos halign]
      exact hbad
    rw [if_neg halign]
    rcases h.uvmalloc_spec hgood ((ph.vaddr + ph.memsz) % 2 ^ 64) (flags2perm ph.flags) with
      ⟨m1, sz1, hrun, hcons, hzero, hpos⟩
    simp only [hrun, bind, Except.bind]
    by_cases hsz1 : sz1 = 0
    · rw [if_pos hsz1]
      exact ⟨m1, sz, false, rfl, hcons, h.size_le, hzero hsz1, fun h => by cases h⟩
    rcases hpos hsz1 with ⟨himage, hle, _⟩
    rw [if_neg hsz1]
    have hend : ph.vaddr + ph.filesz % 2 ^ 32 <= sz1 := by
      have hmod := Nat.mod_le ph.filesz (2 ^ 32)
      omega
    rcases loadseg_ok himage readi (ph.off % 2 ^ 32) hend with ⟨loaded, hload⟩
    simp only [hload]
    cases loaded with
    | true =>
      rcases ih _ himage (hgood.conserve hcons) with ⟨m', sz', done, hrest, hcons', hrec⟩
      exact ⟨m', sz', done, hrest, hcons.trans hcons', hrec⟩
    | false =>
      exact ⟨m1, sz1, false, rfl, hcons, himage.size_le, himage.space, fun h => by cases h⟩

/-!
## The stack
-/

theorem uvmclear_spec {v : Nat} (hv : v < USERTOP) (hinner : Inner m r)
    (hgood : Good m (use m r)) (hvalid : (leafAt m r v).v = true) :
    exists m', uvmclear m r (v * PGSIZE) = .ok m' ∧
      Conserve m m' (use m r) (use m' r) ∧ Inner m' r ∧
      forall w, w < VPNS ->
        leafAt m' r w = if w = v then { leafAt m r w with u := false } else leafAt m r w := by
  have htop := USERTOP_le
  rcases locate_of_valid hvalid with ⟨⟨p, i⟩, hloc⟩
  have hle : forall q, nodes m r q <= 1 := by
    intro q
    have hone := hgood.le_one q
    have hnodes := nodes_le_use m r q
    omega
  rcases set_leaf { m.entry p i with u := false } hle (by omega) hloc with
    ⟨hnodes, hleaf, hin⟩
  refine ⟨m.set p i { m.entry p i with u := false }, ?_, ?_, hin hinner, ?_⟩
  · unfold uvmclear
    rw [walk_false (page_addr_lt (by omega)), (page_addr v).right, hloc]
    rfl
  · have hp : 1 <= nodes m r p := (sv39.locate_uses hloc).left
    have huse := nodes_le_use m r p
    apply (Conserve.set (X := use m r) (by omega) i
      { m.entry p i with u := false }).congr (fun _ => rfl)
    intro q
    unfold use
    rw [hnodes q, mappedIn_congr 0 q (fun w _ hw => ?_)]
    rw [hleaf w (by omega)]
    by_cases hwv : w = v
    · rw [if_pos hwv, hwv, leafAt_of_locate hloc]
      rfl
    · rw [if_neg hwv]
  · intro w hw
    rw [hleaf w hw]
    by_cases hwv : w = v
    · rw [if_pos hwv, if_pos hwv, hwv, leafAt_of_locate hloc]
    · rw [if_neg hwv, if_neg hwv]

/-- The addresses from `lo` to `hi` are mapped for the user to write. -/
def Writable (m : Kmem) (r : Page) (lo hi : Nat) : Prop :=
  forall a, lo <= a -> a < hi -> a < MAXVA ∧
    (leafAt m r (a / PGSIZE)).v = true ∧ (leafAt m r (a / PGSIZE)).u = true ∧
      (leafAt m r (a / PGSIZE)).w = true

theorem copyoutLoop_writable (p : MyProc) {turns va len : Nat} (h : Writable m r va (va + len)) :
    copyoutLoop p r turns m va len = .ok (m, true) := by
  induction turns generalizing va len with
  | zero => rfl
  | succ turns ih =>
    unfold copyoutLoop
    by_cases hlen : len = 0
    · rw [if_pos hlen]
      rfl
    rcases h va (Nat.le_refl va) (by omega) with ⟨hmax, hvalid, huser, hwrite⟩
    have hdown : pgrounddown va <= va := Nat.div_mul_le_self va PGSIZE
    rcases locate_of_valid hvalid with ⟨⟨q, i⟩, hloc⟩
    rw [leafAt_of_locate hloc] at hwrite
    have htouch : touch m p r (pgrounddown va) = .ok (m, some (leafAt m r (va / PGSIZE)).ppn) := by
      unfold touch
      rw [walkaddr_eq, (pgrounddown_eq va).right, if_pos ⟨by omega, hvalid, huser⟩]
      rfl
    rw [if_neg hlen]
    simp only [if_neg (show ¬ pgrounddown va >= MAXVA by omega), htouch, bind, Except.bind,
      walk_false (show pgrounddown va < MAXVA by omega), (pgrounddown_eq va).right, hloc, hwrite,
      Bool.not_true, Bool.false_eq_true, if_false]
    apply ih
    have hnext : va < pgrounddown va + PGSIZE := by
      unfold pgrounddown PGSIZE
      omega
    intro a h1 h2
    exact h a (by omega) (by omega)

theorem copyout_beyond (p : MyProc) {va len : Nat} (hva : MAXVA <= pgrounddown va)
    (hlen : len ≠ 0) :
    copyout m p r va len = .ok (m, false) := by
  cases len with
  | zero => exact absurd rfl hlen
  | succ n =>
    unfold copyout copyoutLoop
    rw [if_neg hlen]
    simp only [if_pos hva]
    rfl

theorem push_writable (p : MyProc) (len : Nat) {stackbase sp top : Nat}
    (h : Writable m r stackbase top) (hlo : stackbase <= sp) (hhi : sp <= top)
    (hlen : len < 2 ^ 63) :
    exists res, push m p r stackbase sp len = .ok (m, res) ∧
      forall sp', res = some sp' -> stackbase <= sp' ∧ sp' <= top := by
  unfold push
  by_cases hwrap : len <= sp
  · have hsub : sub64 sp len = sp - len := if_pos hwrap
    simp only [hsub]
    by_cases hfit : sp - len - (sp - len) % 16 < stackbase
    · rw [if_pos hfit]
      exact ⟨none, rfl, fun _ h => by cases h⟩
    · rw [if_neg hfit]
      refine ⟨some (sp - len - (sp - len) % 16), ?_, fun sp' heq => ?_⟩
      · unfold copyout
        rw [copyoutLoop_writable p (fun a h1 h2 => h a (by omega) (by omega))]
        rfl
      · cases heq
        omega
  · -- the subtraction wraps to an address that is not mapped
    have hsub : sub64 sp len = sp + 2 ^ 64 - len := if_neg hwrap
    simp only [hsub]
    have hfar : MAXVA <= pgrounddown (sp + 2 ^ 64 - len - (sp + 2 ^ 64 - len) % 16) := by
      unfold MAXVA pgrounddown PGSIZE
      omega
    refine ⟨none, ?_, fun _ h => by cases h⟩
    split
    · rfl
    · rw [copyout_beyond p hfar (by omega)]
      rfl

theorem pushArgs_writable (p : MyProc) (argc : Nat) {stackbase top : Nat}
    (h : Writable m r stackbase top) {args : List Nat}
    (hargs : forall len, len ∈ args -> len < 2 ^ 31) {sp : Nat} (hlo : stackbase <= sp)
    (hhi : sp <= top) (hargc : argc <= MAXARG) :
    exists res, pushArgs p r stackbase args m argc sp = .ok (m, res) ∧
      forall argc' sp', res = some (argc', sp') ->
        argc' <= MAXARG ∧ stackbase <= sp' ∧ sp' <= top := by
  induction args generalizing argc sp with
  | nil =>
    refine ⟨some (argc, sp), rfl, fun argc' sp' heq => ?_⟩
    cases heq
    exact ⟨hargc, hlo, hhi⟩
  | cons len args ih =>
    have hlen := hargs len List.mem_cons_self
    unfold pushArgs
    by_cases hmax : argc >= MAXARG
    · rw [if_pos hmax]
      exact ⟨none, rfl, fun _ _ h => by cases h⟩
    · rw [if_neg hmax]
      rcases push_writable p (len + 1) h hlo hhi (by omega) with
        ⟨res, hrun, hsp⟩
      simp only [hrun, ok_bind]
      cases res with
      | none => exact ⟨none, rfl, fun _ _ h => by cases h⟩
      | some sp1 =>
        rcases hsp sp1 rfl with ⟨hlo1, hhi1⟩
        exact ih (argc + 1) (fun len' hmem => hargs len' (List.mem_cons_of_mem len hmem))
          hlo1 hhi1 (by omega)

theorem Image.round (h : Image m trampoline trapframe r sz) :
    pages (pgroundup sz) = pages sz ∧ Image m trampoline trapframe r (pgroundup sz) := by
  have hpages : pages (pgroundup sz) = pages sz := by
    rw [pgroundup_eq, pages_mul (pages_le h.size_le)]
  have hround : pgroundup sz <= TRAPFRAME := by
    rw [pgroundup_eq, TRAPFRAME_eq]
    exact Nat.mul_le_mul_right _ (pages_le h.size_le)
  refine ⟨hpages, ?_⟩
  exact
    { space := by rw [hpages]; exact h.space
      size_le := hround
      present := by rw [hpages]; exact h.present
      room := by rw [hpages]; exact h.room }

/-- Page `pages sz` has become the guard, and the `USERSTACK` pages up to `top` the stack. -/
structure StackPages (m m' : Kmem) (trampoline trapframe r : Page) (sz top : Nat) : Prop where
  conserve : Conserve m m' (use m r) (use m' r)
  top_eq : top = (pages sz + (USERSTACK + 1)) * PGSIZE
  base_eq : top - USERSTACK * PGSIZE = (pages sz + 1) * PGSIZE
  top_le : top <= TRAPFRAME
  space : Space m' trampoline trapframe r (pages top)
  writable : Writable m' r (top - USERSTACK * PGSIZE) top
  guard : (leafAt m' r (pages sz)).u = false
  kept : forall v, v < pages sz -> leafAt m' r v = leafAt m r v

theorem stackPages_spec (h : Image m trampoline trapframe r sz) (hgood : Good m (use m r))
    {m1 : Kmem} {sz1 : Nat} (hpos : sz1 ≠ 0)
    (hrun : uvmalloc m r (pgroundup sz) (pgroundup sz + (USERSTACK + 1) * PGSIZE)
      { r := false, w := true, x := false, u := false } = .ok (m1, sz1)) :
    exists m2, uvmclear m1 r (sz1 - (USERSTACK + 1) * PGSIZE) = .ok m2 ∧
      StackPages m m2 trampoline trapframe r sz sz1 := by
  rcases h.round with ⟨hpages, himage⟩
  rcases himage.uvmalloc_spec hgood (pgroundup sz + (USERSTACK + 1) * PGSIZE)
    { r := false, w := true, x := false, u := false } with ⟨m', sz', hrun', hcons, _, hgrow⟩
  rw [hrun] at hrun'
  cases hrun'
  rcases hgrow hpos with ⟨himage1, _, hgrow⟩
  rcases hgrow (Nat.le_add_right _ _) with ⟨heq, hgrown⟩
  have hnew : sz1 = (pages sz + (USERSTACK + 1)) * PGSIZE := by
    rw [heq, pgroundup_eq, ← Nat.add_mul]
  have hbound : pages sz + (USERSTACK + 1) <= USERTOP := by
    have hle := himage1.size_le
    rw [hnew, TRAPFRAME_eq] at hle
    exact Nat.le_of_mul_le_mul_right hle (by decide)
  have hpages1 : pages sz1 = pages sz + (USERSTACK + 1) := by
    rw [hnew, pages_mul hbound]
  have hguard : sz1 - (USERSTACK + 1) * PGSIZE = pages sz * PGSIZE := by
    rw [hnew, Nat.add_mul, Nat.add_sub_cancel]
  have hbase : sz1 - USERSTACK * PGSIZE = (pages sz + 1) * PGSIZE := by
    rw [hnew, Nat.add_comm USERSTACK 1, ← Nat.add_assoc, Nat.add_mul _ USERSTACK,
      Nat.add_sub_cancel]
  have hvpns := USERTOP_le
  rcases uvmclear_spec (v := pages sz) (by omega) himage1.space.inner (hgood.conserve hcons)
    (himage1.present (pages sz) (by omega)).left with ⟨m2, hclear, hcons2, hinner2, hleaf2⟩
  refine ⟨m2, by rw [hguard]; exact hclear, ?_⟩
  refine
    { conserve := hcons.trans hcons2
      top_eq := hnew
      base_eq := hbase
      top_le := himage1.size_le
      space := ?_
      writable := ?_
      guard := ?_
      kept := ?_ }
  · apply himage1.space.of_leaves _ hinner2 himage1.space.bound
    · intro v h1 h2
      rw [hleaf2 v (by omega), if_neg (by omega)]
      exact himage1.space.unmapped v h1 h2
    · intro v hv hge
      rw [hleaf2 v hv, if_neg (by omega)]
  · intro a h1 h2
    have hlo : pages sz + 1 <= a / PGSIZE := by
      rw [hbase] at h1
      exact (Nat.le_div_iff_mul_le (by decide)).mpr h1
    have hhi : a / PGSIZE < pages sz + (USERSTACK + 1) := by
      rw [hnew] at h2
      exact (Nat.div_lt_iff_lt_mul (by decide)).mpr h2
    rcases hgrown.filled (a / PGSIZE) (by rw [hpages]; omega)
      (by rw [← heq, hpages, hpages1]; omega) with ⟨pa, hpa⟩
    rw [hleaf2 _ (by omega), if_neg (by omega), hpa]
    refine ⟨?_, rfl, rfl, rfl⟩
    have hsz := himage1.size_le
    have hmax : TRAPFRAME < MAXVA := by decide
    omega
  · rw [hleaf2 _ (by omega), if_pos rfl]
  · intro v hv
    rw [hleaf2 v (by omega), if_neg (by omega), hgrown.kept v (by omega) (by omega)]

theorem buildStack_spec (p : MyProc) {args : List Nat}
    (hargs : forall len, len ∈ args -> len < 2 ^ 31)
    (h : Image m trampoline trapframe r sz) (hgood : Good m (use m r)) :
    exists m' sz' built, buildStack p args m r sz = .ok (m', sz', built) ∧
      Conserve m m' (use m r) (use m' r) ∧ sz' <= TRAPFRAME ∧
      Space m' trampoline trapframe r (pages sz') := by
  have himage := h.round.2
  unfold buildStack
  rcases himage.uvmalloc_spec hgood (pgroundup sz + (USERSTACK + 1) * PGSIZE)
    { r := false, w := true, x := false, u := false } with ⟨m1, sz1, hrun, hcons, hzero, _⟩
  simp only [hrun, ok_bind]
  by_cases hsz1 : sz1 = 0
  · rw [if_pos hsz1]
    exact ⟨m1, pgroundup sz, false, rfl, hcons, himage.size_le, hzero hsz1⟩
  rw [if_neg hsz1]
  rcases stackPages_spec h hgood hsz1 hrun with ⟨m2, hclear, hstack⟩
  rcases pushArgs_writable p 0 hstack.writable hargs (Nat.sub_le _ _) (Nat.le_refl _)
    (Nat.zero_le _) with ⟨res, hpush, hres⟩
  simp only [hclear, hpush, ok_bind]
  cases res with
  | none => exact ⟨m2, sz1, false, rfl, hstack.conserve, hstack.top_le, hstack.space⟩
  | some reached =>
    rcases reached with ⟨argc, sp⟩
    rcases hres argc sp rfl with ⟨hargc, hlo, hhi⟩
    have hlen : (argc + 1) * 8 < 2 ^ 63 := by
      have hfit : (MAXARG + 1) * 8 < 2 ^ 63 := by decide
      omega
    rcases push_writable p _ hstack.writable hlo hhi hlen with ⟨last, hrun2, _⟩
    simp only [hrun2, ok_bind]
    exact ⟨m2, sz1, last.isSome, rfl, hstack.conserve, hstack.top_le, hstack.space⟩

end Image

/-!
## `kexec`
-/

theorem kexec_spec {m : Kmem} {trampoline trapframe : Page} {p : MyProc} (file : Option Readi)
    {args : List Nat} (hargs : forall len, len ∈ args -> len < 2 ^ 31) (hsz : p.sz <= TRAPFRAME)
    (hspace : Space m trampoline trapframe p.pagetable (pages p.sz))
    (hgood : Good m (use m p.pagetable)) :
    exists m' res, kexec m trampoline trapframe p file args = .ok (m', res) ∧
      (res = none -> Conserve m m' (fun _ => 0) (fun _ => 0)) ∧
      (forall np, res = some np ->
        Conserve m m' (use m p.pagetable) (use m' np.pagetable) ∧ np.sz <= TRAPFRAME ∧
        Space m' trampoline trapframe np.pagetable (pages np.sz)) := by
  have hfail : exists m' res,
      (Except.ok (m, none) : Except Panic (Kmem × Option MyProc)) = .ok (m', res) ∧
      (res = none -> Conserve m m' (fun _ => 0) (fun _ => 0)) ∧
      (forall np, res = some np ->
        Conserve m m' (use m p.pagetable) (use m' np.pagetable) ∧ np.sz <= TRAPFRAME ∧
        Space m' trampoline trapframe np.pagetable (pages np.sz)) :=
    ⟨m, none, rfl, fun _ => Conserve.refl _ _, fun np h => by cases h⟩
  unfold kexec
  cases file with
  | none => exact hfail
  | some readi =>
    dsimp only
    by_cases hread : (readi 0 Elfhdr.size).length ≠ Elfhdr.size
    · rw [if_pos hread]
      exact hfail
    rw [if_neg hread]
    generalize Elfhdr.ofBytes (readi 0 Elfhdr.size) = elf
    by_cases hmagic : elf.magic ≠ ELF_MAGIC
    · rw [if_pos hmagic]
      exact hfail
    rw [if_neg hmagic]
    rcases procPagetable_spec trampoline trapframe hgood with ⟨m1, res, hnew, hnone, hsome⟩
    simp only [hnew, ok_bind]
    cases res with
    | none => exact ⟨m1, none, rfl, fun _ => hnone rfl, fun np h => by cases h⟩
    | some r =>
      rcases hsome r rfl with ⟨hcons1, hspace1⟩
      have hempty : Good m (fun _ => 0) := hgood.mono (fun q => Nat.zero_le _)
      have hgood1 : Good m1 (use m1 r) := hempty.conserve hcons1
      have himage : Image m1 trampoline trapframe r 0 :=
        { space := hspace1
          size_le := Nat.zero_le _
          present := fun v hv => absurd hv (Nat.not_lt_zero v)
          room := by
            rw [show pages 0 = 0 from by decide, Nat.zero_add]
            exact free_length_le hgood1 }
      rcases loadProgram_spec readi elf.phnum (elf.phoff % 2 ^ 32) himage hgood1 with
        ⟨m2, sz2, loaded, hload, hcons2, hsz2, hspace2, himage2⟩
      have hgood2 := hgood1.conserve hcons2
      simp only [hload, ok_bind]
      cases loaded with
      | false =>
        rcases procFreepagetable_spec hsz2 hspace2 hgood2 with ⟨m3, hfree, hcons3⟩
        refine ⟨m3, none, ?_, fun _ => (hcons1.trans hcons2).trans hcons3,
          fun np h => by cases h⟩
        simp only [Bool.not_false, if_true, hfree, ok_bind]
        rfl
      | true =>
        rcases buildStack_spec p hargs (himage2 rfl) hgood2 with
          ⟨m3, sz3, built, hbuild, hcons3, hsz3, hspace3⟩
        have hupto := (hcons1.trans hcons2).trans hcons3
        simp only [Bool.not_true, Bool.false_eq_true, if_false, hbuild, ok_bind]
        cases built with
        | false =>
          rcases procFreepagetable_spec hsz3 hspace3 (hempty.conserve hupto) with
            ⟨m4, hfree, hcons4⟩
          refine ⟨m4, none, ?_, fun _ => hupto.trans hcons4, fun np h => by cases h⟩
          simp only [Bool.not_false, if_true, hfree, ok_bind]
          rfl
        | true =>
          have hold : Same m m3 p.pagetable :=
            hupto.same_of_good (hgood.mono (fun q => by rw [Nat.zero_add]))
              (nodes_le_use m p.pagetable)
          have hboth : Conserve m m3 (use m p.pagetable)
              (fun q => use m3 p.pagetable q + use m3 r q) :=
            (hupto.add (use m p.pagetable)).congr (fun q => (Nat.zero_add _).symm)
              (fun q => by rw [hold.use_eq q]; exact Nat.add_comm _ _)
          have hgood3 := hgood.conserve hboth
          rcases procFreepagetable_spec hsz (hspace.same hold)
            (hgood3.mono (fun q => Nat.le_add_right _ _)) with ⟨m4, hfree, hcons4⟩
          have hkeep := hcons4.same_of_good hgood3 (nodes_le_use m3 r)
          refine ⟨m4, some { pagetable := r, sz := sz3 }, ?_, fun h => (by cases h),
            fun np h => ?_⟩
          · simp only [Bool.not_true, Bool.false_eq_true, if_false, hfree, ok_bind]
            rfl
          · cases h
            refine ⟨hboth.trans ?_, hsz3, hspace3.same hkeep⟩
            apply (hcons4.add (use m3 r)).congr (fun _ => rfl)
            intro q
            rw [hkeep.use_eq q, Nat.zero_add]

end Process
end Xv6
