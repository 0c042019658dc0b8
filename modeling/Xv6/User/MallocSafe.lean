import Xv6.User.FreeList

/-!
# Runs of the allocator

Every call of `malloc` and `free` keeps the free list and the live blocks, whatever `sbrk`
answers, as long as the requests are small enough for its argument.
-/

namespace Xv6
namespace User

open Function Lib.Blocks

section

variable {base limit n : Nat} {s : Alloc} {fl live : List Block}

/-! ## Taking a block -/

theorem starts_eq_append {fl : List Block} {l r : List Nat} (h : starts fl = l ++ r) :
    exists l' r', fl = l' ++ r' ∧ starts l' = l ∧ starts r' = r := by
  obtain ⟨l', r', hfl, hl, hr⟩ := List.map_eq_append_iff.mp h
  exact ⟨l', r', hfl, hl, hr⟩

theorem Good.next (h : Good base limit s fl live) {p : Nat} (hp : p ∈ base :: starts fl)
    (hn : 0 < s.size (s.ptr p)) :
    exists l c r, fl = l ++ c :: r ∧ lastOf base (starts l) = p ∧ s.ptr p = c.1 := by
  obtain ⟨l1, l2, hsplit, hlast⟩ := exists_lastOf hp
  obtain ⟨l, r, rfl, rfl, rfl⟩ := starts_eq_append hsplit
  have hpath := h.linked
  rw [starts_append] at hpath
  have hpath := hpath.drop
  rw [hlast] at hpath
  cases r with
  | nil =>
    have hptr : s.ptr p = base := hpath
    rw [hptr, h.base_size] at hn
    exact absurd hn (Nat.lt_irrefl 0)
  | cons c r => exact ⟨l, c, r, rfl, hlast, hpath.1⟩

section

variable {l r : List Block} {c : Block} {p : Nat}

theorem Good.front (h : Good base limit s (l ++ c :: r) live) :
    Tiles s.regions (c :: (l ++ r ++ live)) := by
  refine h.tiles.perm ?_
  rw [List.append_assoc, List.append_assoc]
  exact List.perm_middle

theorem Good.take_whole (h : Good base limit s (l ++ c :: r) live)
    (hlast : lastOf base (starts l) = p) :
    Good base limit { s.setPtr p (s.ptr c.1) with freep := p } (l ++ r) (c :: live) := by
  have hinc := h.increasing
  have hlink := h.linked
  rw [starts_append, starts_cons] at hinc hlink
  rw [← List.cons_append] at hinc
  obtain ⟨hincl, -, hcross⟩ := List.pairwise_append.mp hinc
  have hp : p ∈ base :: starts l := hlast ▸ lastOf_mem base (starts l)
  have hsub : (l ++ r).Sublist (l ++ c :: r) :=
    (List.Sublist.refl l).append (List.sublist_cons_self c r)
  have hperm : (c :: (l ++ r ++ live)).Perm (l ++ r ++ c :: live) := List.perm_middle.symm
  refine ⟨?_, h.base_size, fun b hb => ?_, h.separated.sublist hsub, h.front.perm hperm, h.span, ?_,
    h.room, h.base_pos, h.base_lt⟩
  · rw [starts_append]
    refine hlink.relink (fun z _ hz => update_of_ne (hlast ▸ hz) _ _)
      (hincl.imp fun hlt => Nat.ne_of_lt hlt) ?_
    rw [hlast]
    refine (linked_append.mp hlink).2.head (update_self _ _ _) fun z hz => update_of_ne ?_ _ _
    exact Nat.ne_of_gt (hcross p hp z (List.mem_cons_of_mem _ hz))
  · refine h.sizes b ?_
    rcases List.mem_append.mp hb with hb | hb
    · exact List.mem_append_left _ (hsub.subset hb)
    · rcases List.mem_cons.mp hb with rfl | hb
      · exact List.mem_append_left _ (List.mem_append_right _ List.mem_cons_self)
      · exact List.mem_append_right _ hb
  · rw [starts_append, ← List.cons_append]
    exact List.mem_append_left _ hp

theorem Good.take_tail (h : Good base limit s (l ++ c :: r) live)
    (hlast : lastOf base (starts l) = p) (hn : 0 < n) {k : Nat} (hk : 0 < k)
    (hsize : s.size c.1 = k + n) :
    Good base limit
      { (s.setSize c.1 k).setSize (c.1 + HEADER * k) n with freep := p }
      (l ++ (c.1, HEADER * k) :: r) ((c.1 + HEADER * k, HEADER * n) :: live) := by
  have hcmem : c ∈ l ++ c :: r ++ live :=
    List.mem_append_left _ (List.mem_append_right _ List.mem_cons_self)
  have hc2 : c.2 = HEADER * k + HEADER * n := by
    rw [← h.sizes c hcmem, hsize, Nat.mul_add]
  have hkpos : 0 < HEADER * k := Nat.mul_pos (by decide) hk
  have hnpos : 0 < HEADER * n := Nat.mul_pos (by decide) hn
  have hbase := (h.between hcmem).1
  have hstarts : starts (l ++ (c.1, HEADER * k) :: r) = starts (l ++ c :: r) := by
    rw [starts_append, starts_append]
    rfl
  have hsplit : Tiles s.regions
      ((c.1, HEADER * k) :: (c.1 + HEADER * k, HEADER * n) :: (l ++ r ++ live)) := by
    refine Tiles.split ?_ hkpos hnpos
    rw [← hc2]
    exact h.front
  have hapart := (List.pairwise_cons.mp h.front.apart).1
  have hother : forall d, d ∈ l ++ r ++ live ->
      HEADER * update (update s.size c.1 k) (c.1 + HEADER * k) n d.1 = d.2 := by
    intro d hd
    have hdc := hapart d hd
    have hdpos := h.front.pos d (List.mem_cons_of_mem _ hd)
    unfold Apart at hdc
    rw [update_of_ne (by omega), update_of_ne (by omega)]
    refine h.sizes d ?_
    rcases List.mem_append.mp hd with hd | hd
    · exact List.mem_append_left _
        (((List.Sublist.refl l).append (List.sublist_cons_self c r)).subset hd)
    · exact List.mem_append_right _ hd
  obtain ⟨hl, hcr, hlc⟩ := List.pairwise_append.mp h.separated
  obtain ⟨hcr, hr⟩ := List.pairwise_cons.mp hcr
  refine ⟨?_, ?_, fun d hd => ?_, ?_, hsplit.perm ?_, h.span, ?_, h.room, h.base_pos, h.base_lt⟩
  · rw [hstarts]
    exact h.linked
  · change update (update s.size c.1 k) (c.1 + HEADER * k) n base = 0
    rw [update_of_ne (by omega), update_of_ne (by omega), h.base_size]
  · change HEADER * update (update s.size c.1 k) (c.1 + HEADER * k) n d.1 = d.2
    rcases List.mem_append.mp hd with hd | hd
    · rcases List.mem_append.mp hd with hd | hd
      · exact hother d (List.mem_append_left _ (List.mem_append_left _ hd))
      · rcases List.mem_cons.mp hd with rfl | hd
        · change HEADER * update (update s.size c.1 k) (c.1 + HEADER * k) n c.1 = HEADER * k
          rw [update_of_ne (by omega), update_self]
        · exact hother d (List.mem_append_left _ (List.mem_append_right _ hd))
    · rcases List.mem_cons.mp hd with rfl | hd
      · exact congrArg (HEADER * ·) (update_self _ _ _)
      · exact hother d (List.mem_append_right _ hd)
  · refine Separated.insert hl hr (fun d hd => hlc d hd c List.mem_cons_self) fun d hd => ?_
    have hlt := hcr d hd
    change c.1 + HEADER * k < d.1
    omega
  · rw [List.append_assoc, List.append_assoc, List.cons_append]
    refine List.Perm.trans (List.Perm.cons _ ?_) List.perm_middle.symm
    rw [← List.append_assoc, ← List.append_assoc]
    exact List.perm_middle.symm
  · rw [hstarts, ← hlast, starts_append, ← List.cons_append]
    exact List.mem_append_left _ (lastOf_mem base (starts l))

end

theorem take_spec (h : Good base limit s fl live) {p : Nat} (hp : p ∈ base :: starts fl)
    (hn : 0 < n) (hsize : n <= s.size (s.ptr p)) :
    exists fl', Good base limit (s.take n p).2 fl'
        (((s.take n p).1 - HEADER, HEADER * n) :: live) ∧
      (s.take n p).2.regions = s.regions ∧ (s.take n p).2.brk = s.brk ∧
      HEADER < (s.take n p).1 := by
  obtain ⟨l, c, r, rfl, hlast, hptr⟩ := h.next hp (by omega)
  have hcmem : c ∈ l ++ c :: r ++ live :=
    List.mem_append_left _ (List.mem_append_right _ List.mem_cons_self)
  have hbase := h.between hcmem
  rw [hptr] at hsize
  unfold Alloc.take
  rw [hptr]
  by_cases hall : s.size c.1 = n
  · have hgood := h.take_whole hlast
    rw [if_pos hall]
    refine ⟨l ++ r, ?_, rfl, rfl, by change HEADER < c.1 + HEADER; omega⟩
    change Good _ _ _ _ ((c.1 + HEADER - HEADER, HEADER * n) :: live)
    rw [Nat.add_sub_cancel, ← hall, h.sizes c hcmem]
    exact hgood
  · have hgood := h.take_tail hlast hn (k := s.size c.1 - n) (by omega) (by omega)
    rw [if_neg hall]
    refine ⟨l ++ (c.1, HEADER * (s.size c.1 - n)) :: r, ?_, rfl, rfl, ?_⟩
    swap
    · change HEADER < c.1 + HEADER * (s.size c.1 - n) + HEADER
      omega
    change Good _ _ _ _ ((c.1 + HEADER * (s.size c.1 - n) + HEADER - HEADER, HEADER * n) :: live)
    rw [Nat.add_sub_cancel]
    exact hgood

/-! ## More memory -/

theorem Good.grow (h : Good base limit s fl live) (gap : Nat) {nu : Nat} (hnu : 0 < nu)
    (hroom : total s.regions + HEADER * nu <= limit) :
    Good base limit ({ s with
        brk := s.brk + gap + HEADER * nu
        regions := (s.brk + gap, HEADER * nu) :: s.regions }.setSize (s.brk + gap) nu) fl
      ((s.brk + gap, HEADER * nu) :: live) := by
  have hpos : 0 < HEADER * nu := Nat.mul_pos (by decide) hnu
  have hbase := h.base_lt
  have hold : forall b, b ∈ fl ++ live -> b.1 + b.2 <= s.brk + gap := by
    intro b hb
    have hle := (h.between hb).2
    omega
  refine ⟨h.linked, ?_, fun b hb => ?_, h.separated, ?_, fun x hx => ?_, h.freep, ?_, h.base_pos,
    ?_⟩
  · change update s.size (s.brk + gap) nu base = 0
    rw [update_of_ne (by omega), h.base_size]
  · change HEADER * update s.size (s.brk + gap) nu b.1 = b.2
    rcases List.mem_cons.mp (List.perm_middle.mem_iff.mp hb) with rfl | hb
    · exact congrArg (HEADER * ·) (update_self _ _ _)
    · have hle := hold b hb
      have hb2 := h.tiles.pos b hb
      rw [update_of_ne (by omega)]
      exact h.sizes b hb
  · exact (h.tiles.extend hold hpos).perm List.perm_middle.symm
  · change base < x ∧ x < s.brk + gap + HEADER * nu
    rcases covered_cons.mp hx with hx | hx
    · unfold Inside at hx
      change s.brk + gap <= x ∧ x < s.brk + gap + HEADER * nu at hx
      omega
    · have hspan := h.span x hx
      omega
  · change total ((s.brk + gap, HEADER * nu) :: s.regions) <= limit
    rw [total, List.map_cons, List.sum_cons]
    unfold total at hroom
    omega
  · change base < s.brk + gap + HEADER * nu
    omega

theorem toInt_request {nu : Nat} (h : HEADER * nu < 2 ^ 31) :
    (BitVec.ofNat 32 (nu * HEADER)).toInt = HEADER * nu := by
  rw [Nat.mul_comm, BitVec.toInt_eq_toNat_of_lt, BitVec.toNat_ofNat, Nat.mod_eq_of_lt (by omega)]
  · rfl
  · rw [BitVec.toNat_ofNat, Nat.mod_eq_of_lt (by omega)]
    omega

theorem morecore_spec (h : Good base limit s fl live) (hlimit : limit < HEADER * UINT)
    (hsmall : HEADER * n < 2 ^ 31) (answer : Option Nat) :
    (forall fuel, Alloc.morecore limit fuel n answer s = some none) ∨
      exists s' fl', (forall fuel, fl.length < fuel ->
          Alloc.morecore limit fuel n answer s = some (some (s'.freep, s'))) ∧
        Good base limit s' fl' live ∧ (exists c, c ∈ fl' ∧ HEADER * n <= c.2) ∧
        s.brk <= s'.brk := by
  obtain ⟨nu, hnu⟩ : exists nu, (if n < 4096 then 4096 else n) = nu := ⟨_, rfl⟩
  have hle : n <= nu ∧ 0 < nu ∧ HEADER * nu < 2 ^ 31 := by
    unfold HEADER at hsmall ⊢
    split at hnu <;> omega
  have hpos : 0 < HEADER * nu := Nat.mul_pos (by decide) hle.2.1
  have hint : (0 : Int) < (HEADER * nu : Nat) := by omega
  unfold Alloc.morecore
  simp only [hnu, toInt_request hle.2.2, Alloc.sbrk]
  cases answer with
  | none => exact Or.inl fun _ => rfl
  | some gap =>
    have hnat : ((HEADER : Int) * nu).toNat = HEADER * nu := rfl
    have hcast : (0 : Int) < (HEADER : Int) * nu := hint
    simp only [if_pos hcast, hnat]
    by_cases hfull : limit < total s.regions + HEADER * nu
    · rw [if_pos hfull]
      exact Or.inl fun _ => rfl
    · rw [if_neg hfull]
      obtain ⟨s', fl', hfree, hgood, ⟨c, hc, hbig⟩, -, hbrk⟩ :=
        free_spec (h.grow gap hle.2.1 (by omega)) hlimit
      refine Or.inr ⟨s', fl', fun fuel hfuel => ?_, hgood, ⟨c, hc, ?_⟩, ?_⟩
      · simp only [hfree fuel hfuel]
        rfl
      · have hmul := Nat.mul_le_mul_left HEADER hle.1
        exact Nat.le_trans hmul hbig
      · rw [hbrk]
        change s.brk <= s.brk + gap + HEADER * nu
        omega

/-! ## The search of `malloc` -/

theorem Good.path (h : Good base limit s fl live) :
    exists l, Linked s.ptr s.freep l s.freep ∧ s.freep ∉ l ∧
      forall z, z ∈ s.freep :: l <-> z ∈ base :: starts fl := by
  have hdistinct : (base :: starts fl).Nodup := h.increasing.imp fun hlt => Nat.ne_of_lt hlt
  rcases List.mem_cons.mp h.freep with hfreep | hfreep
  · rw [hfreep]
    exact ⟨starts fl, h.linked, (List.nodup_cons.mp hdistinct).1, fun _ => Iff.rfl⟩
  · obtain ⟨l1, l2, hsplit⟩ := List.append_of_mem hfreep
    have hlink := h.linked
    rw [hsplit] at hlink hdistinct ⊢
    obtain ⟨hto, hfrom⟩ := linked_append.mp hlink
    have hperm : (base :: (l1 ++ s.freep :: l2)).Perm (s.freep :: (l2 ++ base :: l1)) := by
      rw [← List.cons_append]
      exact List.perm_append_comm
    exact ⟨l2 ++ base :: l1, linked_append.mpr ⟨hfrom, hto⟩,
      (List.nodup_cons.mp (hperm.nodup_iff.mp hdistinct)).1, fun z => hperm.mem_iff.symm⟩

theorem mallocLoop_walk (answers : List (Option Nat)) {l : List Nat} {x : Nat}
    (h : Linked s.ptr x l s.freep) (hnot : s.freep ∉ l) :
    (exists z, z ∈ x :: l ∧ n <= s.size (s.ptr z) ∧ forall fuel,
      Alloc.mallocLoop limit n (fuel + 1 + l.length) x answers s = some (s.take n z)) ∨
    (forall z, z ∈ x :: l -> s.size (s.ptr z) < n) ∧ exists y, s.ptr y = s.freep ∧
      s.size (s.ptr y) < n ∧ forall fuel,
        Alloc.mallocLoop limit n (fuel + l.length) x answers s =
          Alloc.mallocLoop limit n fuel y answers s := by
  induction l generalizing x with
  | nil =>
    by_cases hfit : n <= s.size (s.ptr x)
    · exact Or.inl ⟨x, List.mem_cons_self, hfit, fun fuel => if_pos hfit⟩
    · have hlt : s.size (s.ptr x) < n := Nat.lt_of_not_le hfit
      refine Or.inr ⟨fun z hz => ?_, x, h, hlt, fun _ => rfl⟩
      rw [List.mem_singleton.mp hz]
      exact hlt
  | cons y l ih =>
    obtain ⟨hxy, hrest⟩ := h
    obtain ⟨hne, hnot⟩ := List.ne_and_not_mem_of_not_mem_cons hnot
    by_cases hfit : n <= s.size (s.ptr x)
    · exact Or.inl ⟨x, List.mem_cons_self, hfit, fun fuel => if_pos hfit⟩
    · have hstep : forall fuel, Alloc.mallocLoop limit n (fuel + 1) x answers s =
          Alloc.mallocLoop limit n fuel y answers s := by
        intro fuel
        rw [Alloc.mallocLoop, if_neg hfit, if_neg (by rw [hxy]; exact Ne.symm hne), hxy]
      rcases ih hrest hnot with ⟨z, hz, hn, hloop⟩ | ⟨hall, w, hw, hlt, hloop⟩
      · exact Or.inl ⟨z, List.mem_cons_of_mem x hz, hn, fun fuel => (hstep _).trans (hloop fuel)⟩
      · exact Or.inr ⟨List.forall_mem_cons.mpr ⟨Nat.lt_of_not_le hfit, hall⟩, w, hw, hlt,
          fun fuel => (hstep _).trans (hloop fuel)⟩

inductive Answer (base limit n : Nat) (s : Alloc) (live : List Block) : Nat × Alloc -> Prop where
  | failed : Answer base limit n s live (0, s)
  | block {r : Nat} {s' : Alloc} {fl : List Block} : HEADER < r -> s.brk <= s'.brk ->
      Good base limit s' fl ((r - HEADER, HEADER * n) :: live) -> Answer base limit n s live (r, s')

theorem Good.answer (h : Good base limit s fl live) (hn : 0 < n) {z : Nat}
    (hz : z ∈ base :: starts fl) (hfit : n <= s.size (s.ptr z)) {s0 : Alloc}
    (hbrk : s0.brk <= s.brk) :
    Answer base limit n s0 live (s.take n z) := by
  obtain ⟨fl', hgood, -, hsame, hpos⟩ := take_spec h hz hn hfit
  exact Answer.block hpos (hsame ▸ hbrk) hgood

theorem Good.found (h : Good base limit s fl live) (hn : 0 < n) {c : Block} (hc : c ∈ fl)
    (hbig : HEADER * n <= c.2) {s0 : Alloc} (hbrk : s0.brk <= s.brk) (answers : List (Option Nat)) :
    exists bound a, Answer base limit n s0 live a ∧ forall fuel, bound <= fuel ->
      Alloc.mallocLoop limit n fuel s.freep answers s = some a := by
  obtain ⟨l, hpath, hnot, hnodes⟩ := h.path
  rcases mallocLoop_walk answers hpath hnot with ⟨z, hz, hfit, hloop⟩ | ⟨hall, -⟩
  · refine ⟨1 + l.length, _, h.answer hn ((hnodes z).mp hz) hfit hbrk, fun fuel hfuel => ?_⟩
    obtain ⟨k, rfl⟩ := Nat.exists_eq_add_of_le hfuel
    rw [Nat.add_comm, ← Nat.add_assoc]
    exact hloop k
  · obtain ⟨l1, l2, rfl⟩ := List.append_of_mem hc
    have hlink := h.linked
    rw [starts_append] at hlink
    have hptr : s.ptr (lastOf base (starts l1)) = c.1 := hlink.drop.1
    have hmem : lastOf base (starts l1) ∈ base :: starts (l1 ++ c :: l2) := by
      rw [starts_append, ← List.cons_append]
      exact List.mem_append_left _ (lastOf_mem _ _)
    have hsmall := hall _ ((hnodes _).mpr hmem)
    have hsize := h.sizes c (List.mem_append_left _ hc)
    rw [hptr] at hsmall
    unfold HEADER at hbig hsize
    omega

theorem mallocLoop_spec (h : Good base limit s fl live) (hlimit : limit < HEADER * UINT)
    (hn : 0 < n) (hsmall : HEADER * n < 2 ^ 31) (answers : List (Option Nat)) :
    exists bound a, Answer base limit n s live a ∧ forall fuel, bound <= fuel ->
      Alloc.mallocLoop limit n fuel s.freep answers s = some a := by
  obtain ⟨l, hpath, hnot, hnodes⟩ := h.path
  rcases mallocLoop_walk answers hpath hnot with ⟨z, hz, hfit, hloop⟩ | ⟨-, y, hy, hlt, hloop⟩
  · refine ⟨1 + l.length, _, h.answer hn ((hnodes z).mp hz) hfit (Nat.le_refl _), ?_⟩
    intro fuel hfuel
    obtain ⟨k, rfl⟩ := Nat.exists_eq_add_of_le hfuel
    rw [Nat.add_comm, ← Nat.add_assoc]
    exact hloop k
  · rcases morecore_spec h hlimit hsmall (answers.headD none) with
      hfail | ⟨s', fl', hmore, hgood, ⟨c, hc, hbig⟩, hbrk⟩
    · refine ⟨1 + l.length, _, Answer.failed, fun fuel hfuel => ?_⟩
      obtain ⟨k, rfl⟩ := Nat.exists_eq_add_of_le hfuel
      rw [Nat.add_comm, ← Nat.add_assoc, hloop, Alloc.mallocLoop, if_neg (Nat.not_le_of_lt hlt),
        if_pos hy, hfail]
    · obtain ⟨bound, a, ha, hagain⟩ := hgood.found hn hc hbig hbrk answers.tail
      refine ⟨bound + (fl.length + 1) + (1 + l.length), a, ha, fun fuel hfuel => ?_⟩
      obtain ⟨k, rfl⟩ := Nat.exists_eq_add_of_le hfuel
      rw [show bound + (fl.length + 1) + (1 + l.length) + k =
        (bound + (fl.length + 1) + k) + 1 + l.length by omega, hloop, Alloc.mallocLoop,
        if_neg (Nat.not_le_of_lt hlt), if_pos hy, hmore _ (by omega)]
      exact hagain _ (by omega)

end

end User
end Xv6
