import Xv6.User.Malloc

/-!
# The free list

The free blocks form a ring through `base` in the order of their addresses.  Together with
the live blocks they tile the memory that was obtained from `sbrk`.
-/

namespace Xv6
namespace User

open Function Lib.Blocks

def starts (blocks : List Block) : List Nat :=
  blocks.map Prod.fst

structure Good (base limit : Nat) (s : Alloc) (fl live : List Block) : Prop where
  linked : Linked s.ptr base (starts fl) base
  base_size : s.size base = 0
  sizes : forall b, b ∈ fl ++ live -> HEADER * s.size b.1 = b.2
  separated : Separated fl
  tiles : Tiles s.regions (fl ++ live)
  span : forall x, Covered s.regions x -> base < x ∧ x < s.brk
  freep : s.freep ∈ base :: starts fl
  room : total s.regions <= limit
  base_pos : 0 < base
  base_lt : base < s.brk

section

variable {s : Alloc} {bp x y base : Nat} {l : List Nat} {fuel : Nat}

/-! ## The search of `free` -/

theorem place_forward (h : Linked s.ptr x l y) (hinc : (x :: l).Pairwise (· < ·))
    (hbelow : forall z, z ∈ x :: l -> z < bp) (hstop : bp < y ∨ y <= lastOf x l)
    (hfuel : l.length < fuel) : s.place bp fuel x = some (lastOf x l) := by
  induction l generalizing x fuel with
  | nil =>
    obtain ⟨fuel, rfl⟩ := Nat.exists_eq_succ_of_ne_zero (Nat.ne_of_gt hfuel)
    have hx := hbelow x List.mem_cons_self
    have hy : s.ptr x = y := h
    unfold Alloc.place
    rw [hy]
    rcases hstop with hlt | hle
    · rw [if_pos ⟨hx, hlt⟩]
      rfl
    · have hle : y <= x := hle
      rw [if_neg (by omega), if_pos ⟨hle, Or.inl hx⟩]
      rfl
  | cons z l ih =>
    obtain ⟨fuel, rfl⟩ := Nat.exists_eq_succ_of_ne_zero (Nat.ne_of_gt (Nat.zero_lt_of_lt hfuel))
    obtain ⟨hfirst, hinc⟩ := List.pairwise_cons.mp hinc
    obtain ⟨-, hbelow⟩ := List.forall_mem_cons.mp hbelow
    have hxz := hfirst z List.mem_cons_self
    have hz := hbelow z List.mem_cons_self
    unfold Alloc.place
    rw [h.1, if_neg (by omega), if_neg (by omega)]
    exact ih h.2 hinc hbelow hstop (Nat.lt_of_succ_lt_succ hfuel)

theorem place_beyond (h : Linked s.ptr x l base) (hinc : (x :: l).Pairwise (· < ·))
    (habove : forall z, z ∈ x :: l -> bp < z) (hbase : base < bp) :
    s.place bp (fuel + (l.length + 1)) x = s.place bp fuel base := by
  induction l generalizing x with
  | nil =>
    have hx := habove x List.mem_cons_self
    have hptr : s.ptr x = base := h
    rw [List.length_nil, Nat.zero_add, Alloc.place, hptr, if_neg (by omega), if_neg (by omega)]
  | cons z l ih =>
    obtain ⟨hfirst, hinc⟩ := List.pairwise_cons.mp hinc
    obtain ⟨hx, habove⟩ := List.forall_mem_cons.mp habove
    have hxz := hfirst z List.mem_cons_self
    rw [List.length_cons, ← Nat.add_assoc fuel, Alloc.place, h.1, if_neg (by omega),
      if_neg (by omega)]
    exact ih h.2 hinc habove

theorem pairwise_lastOf {l r : List Nat} (h : (x :: (l ++ r)).Pairwise (· < ·)) :
    (lastOf x l :: r).Pairwise (· < ·) := by
  induction l generalizing x with
  | nil => exact h
  | cons z l ih => exact ih (List.pairwise_cons.mp h).2

theorem lastOf_lastOf (x : Nat) (l r : List Nat) : lastOf (lastOf x l) r = lastOf x (l ++ r) := by
  induction l generalizing x with
  | nil => rfl
  | cons z l ih => exact ih z

theorem place_ring {freep : Nat} {la ra : List Nat} (h : Linked s.ptr base (la ++ ra) base)
    (hinc : (base :: (la ++ ra)).Pairwise (· < ·)) (hla : forall z, z ∈ base :: la -> z < bp)
    (hra : forall z, z ∈ ra -> bp < z) (hfreep : freep ∈ base :: (la ++ ra))
    (hfuel : la.length + ra.length < fuel) : s.place bp fuel freep = some (lastOf base la) := by
  have hforward : forall l1 l2, la = l1 ++ l2 -> forall k, l2.length < k ->
      s.place bp k (lastOf base l1) = some (lastOf base la) := by
    rintro l1 l2 rfl k hk
    rw [List.append_assoc] at h hinc
    have hpath := h.drop
    have hinc' := pairwise_lastOf hinc
    rw [← lastOf_lastOf]
    have hbelow : forall z, z ∈ lastOf base l1 :: l2 -> z < bp := by
      intro z hz
      rcases List.mem_cons.mp hz with rfl | hz
      · refine hla _ ?_
        rcases List.mem_cons.mp (lastOf_mem base l1) with heq | hin
        · rw [heq]
          exact List.mem_cons_self
        · exact List.mem_cons_of_mem _ (List.mem_append_left _ hin)
      · exact hla z (List.mem_cons_of_mem _ (List.mem_append_right _ hz))
    have hinc'' : (lastOf base l1 :: l2).Pairwise (· < ·) :=
      hinc'.sublist (List.Sublist.cons_cons _ (List.sublist_append_left l2 ra))
    cases ra with
    | nil =>
      rw [List.append_nil] at hpath
      refine place_forward hpath hinc'' hbelow (Or.inr ?_) hk
      rw [lastOf_lastOf]
      rcases List.mem_cons.mp (lastOf_mem base (l1 ++ l2)) with heq | hin
      · rw [heq]
      · rw [List.append_nil] at hinc
        exact Nat.le_of_lt ((List.pairwise_cons.mp hinc).1 _ hin)
    | cons z ra =>
      have hpath := (linked_append.mp hpath).1
      exact place_forward hpath hinc'' hbelow (Or.inl (hra z List.mem_cons_self)) hk
  rw [← List.cons_append] at hfreep
  rcases List.mem_append.mp hfreep with hfreep | hfreep
  · obtain ⟨l1, l2, hsplit, hlast⟩ := exists_lastOf hfreep
    rw [← hlast]
    refine hforward l1 l2 hsplit fuel ?_
    rw [hsplit, List.length_append] at hfuel
    omega
  · obtain ⟨r1, r2, rfl⟩ := List.append_of_mem hfreep
    rw [← List.append_assoc] at h hinc
    have hpath := (linked_append.mp h).2
    have hsub : (freep :: r2).Sublist (base :: (la ++ r1 ++ freep :: r2)) :=
      (List.sublist_append_right (base :: (la ++ r1)) (freep :: r2))
    rw [List.length_append, List.length_cons] at hfuel
    obtain ⟨k, rfl⟩ : exists k, fuel = k + (r2.length + 1) := ⟨fuel - (r2.length + 1), by omega⟩
    rw [place_beyond hpath (hinc.sublist hsub)
      (fun z hz => hra z (List.mem_append_right _ hz)) (hla base List.mem_cons_self)]
    exact hforward [] la rfl k (by omega)

/-! ## Joining blocks -/

theorem joinNext_frame (s : Alloc) (bp p : Nat) :
    (forall x, x ≠ bp -> (s.joinNext bp p).ptr x = s.ptr x ∧ (s.joinNext bp p).size x = s.size x) ∧
      (s.joinNext bp p).regions = s.regions ∧ (s.joinNext bp p).brk = s.brk := by
  unfold Alloc.joinNext
  split
  · exact ⟨fun x hx => ⟨update_of_ne hx _ _, update_of_ne hx _ _⟩, rfl, rfl⟩
  · exact ⟨fun x hx => ⟨update_of_ne hx _ _, rfl⟩, rfl, rfl⟩

theorem joinPrev_frame (s : Alloc) (bp p : Nat) :
    (forall x, x ≠ p -> (s.joinPrev bp p).ptr x = s.ptr x ∧ (s.joinPrev bp p).size x = s.size x) ∧
      (s.joinPrev bp p).regions = s.regions ∧ (s.joinPrev bp p).brk = s.brk := by
  unfold Alloc.joinPrev
  split
  · exact ⟨fun x hx => ⟨update_of_ne hx _ _, update_of_ne hx _ _⟩, rfl, rfl⟩
  · exact ⟨fun x hx => ⟨update_of_ne hx _ _, rfl⟩, rfl, rfl⟩

theorem size_add {regions blocks : List Block} {n m a i j : Nat}
    (h : Tiles regions ((a, n + m) :: blocks)) (hroom : total regions < HEADER * UINT)
    (hi : HEADER * i = n) (hj : HEADER * j = m) : HEADER * ((i + j) % UINT) = n + m := by
  have hle : n + m <= total regions := h.length_le List.mem_cons_self
  have hlt : i + j < UINT := by
    unfold HEADER at hi hj hroom
    omega
  rw [Nat.mod_eq_of_lt hlt, Nat.mul_add, hi, hj]

theorem starts_append (l r : List Block) : starts (l ++ r) = starts l ++ starts r :=
  List.map_append

theorem starts_cons (b : Block) (r : List Block) : starts (b :: r) = b.1 :: starts r :=
  rfl

theorem lastOf_concat (base : Nat) (l : List Block) (c : Block) :
    lastOf base (starts (l ++ [c])) = c.1 := by
  rw [starts_append, starts_cons]
  exact lastOf_append base (starts l) c.1

theorem mem_starts {blocks : List Block} {x : Nat} :
    x ∈ starts blocks <-> exists b, b ∈ blocks ∧ b.1 = x :=
  List.mem_map

theorem joinNext_spec {a n p : Nat} {r others : List Block}
    (hlink : Linked s.ptr p (starts r) base) (hsize : HEADER * s.size a = n)
    (hsizes : forall c, c ∈ r -> HEADER * s.size c.1 = c.2) (hsep : Separated r)
    (hafter : forall c, c ∈ r -> a + n <= c.1) (htiles : Tiles s.regions ((a, n) :: (r ++ others)))
    (hbase : base < a) (hroom : total s.regions < HEADER * UINT) :
    exists m r', n <= m ∧ r'.Sublist r ∧ Linked (s.joinNext a p).ptr a (starts r') base ∧
      HEADER * (s.joinNext a p).size a = m ∧ (forall c, c ∈ r' -> a + m < c.1) ∧
      Tiles s.regions ((a, m) :: (r' ++ others)) := by
  have hn := htiles.pos (a, n) List.mem_cons_self
  have hne : forall c, c ∈ r -> c.1 ≠ a := by
    intro c hc heq
    have hle := hafter c hc
    have hn : 0 < n := hn
    omega
  by_cases hadj : a + HEADER * s.size a = s.ptr p
  · cases r with
    | nil =>
      have hptr : s.ptr p = base := hlink
      omega
    | cons c r =>
      obtain ⟨hptr, hrest⟩ := hlink
      have hc : c.1 = a + n := by
        rw [← hptr, ← hadj, hsize]
      obtain ⟨hgap, hsep⟩ := List.pairwise_cons.mp hsep
      have hmerged : Tiles s.regions ((a, n + c.2) :: (r ++ others)) := by
        apply Tiles.merge
        rw [← hc]
        exact htiles
      refine ⟨n + c.2, r, Nat.le_add_right _ _, List.sublist_cons_self c r, ?_, ?_, ?_, hmerged⟩
      · rw [Alloc.joinNext, if_pos hadj, hptr]
        refine hrest.head (update_self _ _ _) fun z hz => update_of_ne ?_ _ _
        obtain ⟨d, hd, rfl⟩ := mem_starts.mp hz
        exact hne d (List.mem_cons_of_mem _ hd)
      · rw [Alloc.joinNext, if_pos hadj, hptr]
        change HEADER * update s.size a _ a = _
        rw [update_self]
        exact size_add hmerged hroom hsize (hsizes c List.mem_cons_self)
      · intro d hd
        have hcd := hgap d hd
        omega
  · refine ⟨n, r, Nat.le_refl n, List.Sublist.refl r, ?_, ?_, ?_, htiles⟩
    · rw [Alloc.joinNext, if_neg hadj]
      refine hlink.head (update_self _ _ _) fun z hz => update_of_ne ?_ _ _
      obtain ⟨d, hd, rfl⟩ := mem_starts.mp hz
      exact hne d hd
    · rw [Alloc.joinNext, if_neg hadj]
      exact hsize
    · cases r with
      | nil => exact nofun
      | cons c r =>
        have hptr : s.ptr p = c.1 := hlink.1
        have hle := hafter c List.mem_cons_self
        have hfirst : a + n < c.1 := by
          rw [hsize, hptr] at hadj
          omega
        refine List.forall_mem_cons.mpr ⟨hfirst, fun d hd => ?_⟩
        have hcd := (List.pairwise_cons.mp hsep).1 d hd
        omega

/-- The block of length `m` at `a` has its place in the list: behind the blocks of `l`, and already
linked to those of `r`. -/
structure Between (base : Nat) (s : Alloc) (l r others : List Block) (old : List Nat) (a m : Nat) :
    Prop where
  old : Linked s.ptr base (starts l ++ old) base
  increasing : (base :: starts l).Pairwise (· < ·)
  below : forall c, c ∈ l -> c.1 + c.2 <= a
  base_lt : base < a
  base_size : s.size base = 0
  next : Linked s.ptr a (starts r) base
  size : HEADER * s.size a = m
  sizes : forall c, c ∈ l ++ r -> HEADER * s.size c.1 = c.2
  left : Separated l
  right : Separated r
  after : forall c, c ∈ r -> a + m < c.1
  tiles : Tiles s.regions ((a, m) :: (l ++ r ++ others))
  room : total s.regions < HEADER * UINT

/-- The free list is `fl` after a block of length `m` has been put behind `p`. -/
structure Joined (base : Nat) (s s' : Alloc) (p m : Nat) (others fl : List Block) : Prop where
  linked : Linked s'.ptr base (starts fl) base
  sizes : forall c, c ∈ fl -> HEADER * s'.size c.1 = c.2
  base_size : s'.size base = 0
  separated : Separated fl
  tiles : Tiles s.regions (fl ++ others)
  mem : p ∈ base :: starts fl
  large : exists c, c ∈ fl ∧ m <= c.2

section

variable {others l r : List Block} {old : List Nat} {a m : Nat}
  (h : Between base s l r others old a m)

include h

theorem Between.last_lt : lastOf base (starts l) < a := by
  have hbase := h.base_lt
  rcases List.mem_cons.mp (lastOf_mem base (starts l)) with heq | hin
  · omega
  · obtain ⟨c, hc, hca⟩ := mem_starts.mp hin
    have hle := h.below c hc
    have hpos := h.tiles.pos c (List.mem_cons_of_mem _
      (List.mem_append_left _ (List.mem_append_left _ hc)))
    omega

theorem Between.last_apart : forall z, z ∈ a :: starts r -> z ≠ lastOf base (starts l) := by
  have hlast := h.last_lt
  intro z hz heq
  rcases List.mem_cons.mp hz with rfl | hz
  · omega
  · obtain ⟨c, hc, rfl⟩ := mem_starts.mp hz
    have hlt := h.after c hc
    omega

theorem Between.nodup : (base :: starts l).Nodup :=
  h.increasing.imp fun hlt => Nat.ne_of_lt hlt

theorem Between.merge
    (hadj : lastOf base (starts l) + HEADER * s.size (lastOf base (starts l)) = a) :
    exists fl, Joined base s (s.joinPrev a (lastOf base (starts l))) (lastOf base (starts l)) m
      others fl := by
  rcases List.eq_nil_or_concat l with rfl | ⟨l', c, hconcat⟩
  · have hzero : base + HEADER * s.size base = a := hadj
    have hbase := h.base_lt
    rw [h.base_size] at hzero
    omega
  · rw [List.concat_eq_append] at hconcat
    subst hconcat
    have hlast := lastOf_concat base l' c
    have hrnot := h.last_apart
    have hc : c ∈ l' ++ [c] := List.mem_append_right _ (List.mem_singleton_self c)
    have hcsize := h.sizes c (List.mem_append_left _ hc)
    obtain ⟨hl', -, hlc⟩ := List.pairwise_append.mp h.left
    have hgap : forall d, d ∈ l' -> d.1 + d.2 < c.1 :=
      fun d hd => hlc d hd c (List.mem_singleton_self c)
    have ha : a = c.1 + c.2 := by
      rw [← hadj, hlast, hcsize]
    have hmerged : Tiles s.regions ((c.1, c.2 + m) :: (l' ++ r ++ others)) := by
      apply Tiles.merge
      rw [← ha]
      refine h.tiles.perm ?_
      rw [List.append_assoc l', List.append_assoc l', List.append_assoc l']
      exact (List.perm_middle.cons (a, m)).trans (List.Perm.swap c (a, m) _)
    rw [Alloc.joinPrev, if_pos hadj]
    rw [hlast] at hrnot ⊢
    refine ⟨l' ++ (c.1, c.2 + m) :: r, ?_, ?_, ?_, ?_, ?_, ?_, ?_⟩
    · have hpath : Linked (update s.ptr c.1 (s.ptr a)) c.1 (starts r) base :=
        h.next.head (update_self _ _ _) fun z hz =>
          update_of_ne (hrnot z (List.mem_cons_of_mem _ hz)) _ _
      rw [← hlast] at hpath
      have hrelink := h.old.relink (fun z _ hz => update_of_ne hz _ _) h.nodup hpath
      rw [hlast, starts_append, starts_cons, List.append_assoc] at hrelink
      rw [starts_append, starts_cons]
      exact hrelink
    · intro d hd
      have hother : d.1 ≠ c.1 -> HEADER * s.size d.1 = d.2 ->
          HEADER * update s.size c.1 ((s.size c.1 + s.size a) % UINT) d.1 = d.2 := by
        intro hne hd
        rw [update_of_ne hne]
        exact hd
      rcases List.mem_append.mp hd with hd | hd
      · have hlt := hgap d hd
        exact hother (by omega) (h.sizes d (List.mem_append_left _ (List.mem_append_left _ hd)))
      · rcases List.mem_cons.mp hd with rfl | hd
        · change HEADER * update s.size c.1 _ c.1 = _
          rw [update_self]
          exact size_add hmerged h.room hcsize h.size
        · have hne := hrnot d.1 (List.mem_cons_of_mem _ (mem_starts.mpr ⟨d, hd, rfl⟩))
          exact hother hne (h.sizes d (List.mem_append_right _ hd))
    · have hlt : base < c.1 :=
        (List.pairwise_cons.mp h.increasing).1 c.1 (mem_starts.mpr ⟨c, hc, rfl⟩)
      change update s.size c.1 _ base = 0
      rw [update_of_ne (Nat.ne_of_lt hlt), h.base_size]
    · refine Separated.insert hl' h.right hgap fun d hd => ?_
      have hlt := h.after d hd
      change c.1 + (c.2 + m) < d.1
      omega
    · refine hmerged.perm ?_
      rw [List.append_assoc, List.append_assoc]
      exact List.perm_middle.symm
    · rw [starts_append, starts_cons]
      exact List.mem_cons_of_mem _ (List.mem_append_right _ List.mem_cons_self)
    · exact ⟨(c.1, c.2 + m), List.mem_append_right _ List.mem_cons_self, Nat.le_add_left _ _⟩

/-- Without a block that ends at `a`, all of `l` ends before it. -/
theorem Between.gap
    (hadj : lastOf base (starts l) + HEADER * s.size (lastOf base (starts l)) ≠ a) :
    forall d, d ∈ l -> d.1 + d.2 < a := by
  intro d hd
  have hd_le := h.below d hd
  rcases List.eq_nil_or_concat l with rfl | ⟨l', c, hconcat⟩
  · exact absurd hd List.not_mem_nil
  · rw [List.concat_eq_append] at hconcat
    subst hconcat
    have hc : c ∈ l' ++ [c] := List.mem_append_right _ (List.mem_singleton_self c)
    have hc_le := h.below c hc
    rw [lastOf_concat base l' c, h.sizes c (List.mem_append_left _ hc)] at hadj
    rcases List.mem_append.mp hd with hd | hd
    · have hdc := (List.pairwise_append.mp h.left).2.2 d hd c (List.mem_singleton_self c)
      omega
    · rw [List.mem_singleton.mp hd] at hd_le ⊢
      omega

theorem Between.insert
    (hadj : lastOf base (starts l) + HEADER * s.size (lastOf base (starts l)) ≠ a) :
    exists fl, Joined base s (s.joinPrev a (lastOf base (starts l))) (lastOf base (starts l)) m
      others fl := by
  rw [Alloc.joinPrev, if_neg hadj]
  refine ⟨l ++ (a, m) :: r, ?_, ?_, h.base_size, ?_, ?_, ?_, ?_⟩
  · rw [starts_append, starts_cons]
    refine h.old.relink (fun z _ hz => update_of_ne hz _ _) h.nodup ⟨update_self _ _ _, ?_⟩
    exact h.next.congr fun z hz => update_of_ne (h.last_apart z hz) _ _
  · intro c hc
    rcases List.mem_append.mp hc with hc | hc
    · exact h.sizes c (List.mem_append_left _ hc)
    · rcases List.mem_cons.mp hc with rfl | hc
      · exact h.size
      · exact h.sizes c (List.mem_append_right _ hc)
  · exact Separated.insert h.left h.right (h.gap hadj) h.after
  · refine h.tiles.perm ?_
    rw [List.append_assoc, List.append_assoc]
    exact List.perm_middle.symm
  · rw [starts_append, ← List.cons_append]
    exact List.mem_append_left _ (lastOf_mem base (starts l))
  · exact ⟨(a, m), List.mem_append_right _ List.mem_cons_self, Nat.le_refl m⟩

theorem joinPrev_spec :
    exists fl, Joined base s (s.joinPrev a (lastOf base (starts l))) (lastOf base (starts l)) m
      others fl := by
  by_cases hadj : lastOf base (starts l) + HEADER * s.size (lastOf base (starts l)) = a
  · exact h.merge hadj
  · exact h.insert hadj

end

end

/-! ## `free` -/

section

variable {base limit : Nat} {s : Alloc} {fl live : List Block} {b : Block}

theorem Good.perm {others : List Block} (h : Good base limit s fl live) (hperm : live.Perm others) :
    Good base limit s fl others :=
  { h with
    sizes := fun b hb => h.sizes b ((hperm.append_left fl).mem_iff.mpr hb)
    tiles := h.tiles.perm (hperm.append_left fl) }

theorem Good.between (h : Good base limit s fl live) (hb : b ∈ fl ++ live) :
    base < b.1 ∧ b.1 + b.2 <= s.brk := by
  have hpos := h.tiles.pos b hb
  have hfirst := h.span b.1 ((h.tiles.cover b.1).mpr ⟨b, hb, Nat.le_refl _, by omega⟩)
  have hlast := h.span (b.1 + b.2 - 1)
    ((h.tiles.cover _).mpr ⟨b, hb, by omega, by omega⟩)
  exact ⟨hfirst.1, by omega⟩

theorem Good.increasing (h : Good base limit s fl live) :
    (base :: starts fl).Pairwise (· < ·) := by
  refine List.pairwise_cons.mpr ⟨fun z hz => ?_, ?_⟩
  · obtain ⟨c, hc, rfl⟩ := mem_starts.mp hz
    exact (h.between (List.mem_append_left _ hc)).1
  · refine List.pairwise_map.mpr (h.separated.imp fun hlt => ?_)
    omega

theorem Good.apart (h : Good base limit s fl (b :: live)) :
    forall c, c ∈ fl ++ live -> Apart b c ∧ c.1 ≠ b.1 := by
  have htiles := h.tiles.perm List.perm_middle
  intro c hc
  have hapart := (List.pairwise_cons.mp htiles.apart).1 c hc
  have hb := htiles.pos b List.mem_cons_self
  have hpos := htiles.pos c (List.mem_cons_of_mem _ hc)
  refine ⟨hapart, fun heq => ?_⟩
  unfold Apart at hapart
  omega

section

variable {l r : List Block} (h : Good base limit s (l ++ r) (b :: live))

include h

theorem Good.place_eq (hl : forall c, c ∈ l -> c.1 + c.2 <= b.1)
    (hr : forall c, c ∈ r -> b.1 + b.2 <= c.1) {fuel : Nat} (hfuel : (l ++ r).length < fuel) :
    s.place b.1 fuel s.freep = some (lastOf base (starts l)) := by
  have hbmem : b ∈ l ++ r ++ b :: live := List.mem_append_right _ List.mem_cons_self
  have hpos := h.tiles.pos b hbmem
  have hinc := h.increasing
  have hlink := h.linked
  have hfreep := h.freep
  rw [starts_append] at hinc hlink hfreep
  refine place_ring hlink hinc ?_ ?_ hfreep (by simpa [starts] using hfuel)
  · refine List.forall_mem_cons.mpr ⟨(h.between hbmem).1, fun z hz => ?_⟩
    obtain ⟨c, hc, rfl⟩ := mem_starts.mp hz
    have hle := hl c hc
    have hcpos := h.tiles.pos c (List.mem_append_left _ (List.mem_append_left _ hc))
    omega
  · intro z hz
    obtain ⟨c, hc, rfl⟩ := mem_starts.mp hz
    have hle := hr c hc
    omega

theorem Good.live_ne_last : forall c, c ∈ live -> c.1 ≠ lastOf base (starts l) := by
  intro c hc heq
  have hlow := (h.between (List.mem_append_right _ (List.mem_cons_of_mem _ hc))).1
  rcases List.mem_cons.mp (lastOf_mem base (starts l)) with hz | hz
  · omega
  · obtain ⟨d, hd, hdc⟩ := mem_starts.mp hz
    have hin := List.mem_append_left r hd
    have hdc_apart := (List.pairwise_append.mp h.tiles.apart).2.2 d hin c
      (List.mem_cons_of_mem _ hc)
    have hdpos := h.tiles.pos d (List.mem_append_left _ hin)
    have hcpos := h.tiles.pos c (List.mem_append_right _ (List.mem_cons_of_mem _ hc))
    unfold Apart at hdc_apart
    omega

end

theorem free_spec (h : Good base limit s fl (b :: live)) (hlimit : limit < HEADER * UINT) :
    exists s' fl', (forall fuel, fl.length < fuel -> s.free fuel (b.1 + HEADER) = some s') ∧
      Good base limit s' fl' live ∧ (exists c, c ∈ fl' ∧ b.2 <= c.2) ∧ s'.regions = s.regions ∧
      s'.brk = s.brk := by
  have hapart := h.apart
  have hroom : total s.regions < HEADER * UINT := Nat.lt_of_le_of_lt h.room hlimit
  obtain ⟨l, r, rfl, hl, hr⟩ := h.separated.split_at fun c hc =>
    (hapart c (List.mem_append_left _ hc)).1
  have hbmem : b ∈ l ++ r ++ b :: live := List.mem_append_right _ List.mem_cons_self
  have hb := h.between hbmem
  have hinc := h.increasing
  have hlink := h.linked
  rw [starts_append] at hinc hlink
  have hincl : (base :: starts l).Pairwise (· < ·) :=
    hinc.sublist (List.Sublist.cons_cons _ (List.sublist_append_left _ _))
  obtain ⟨hsepl, hsepr, -⟩ := List.pairwise_append.mp h.separated
  have htiles : Tiles s.regions ((b.1, b.2) :: (r ++ (l ++ live))) := by
    refine h.tiles.perm (List.perm_middle.trans (List.Perm.cons b ?_))
    rw [← List.append_assoc]
    exact List.perm_append_comm.append_right live
  obtain ⟨m, r', hm, hsub, hnext, hsize, hafter, htiles⟩ := joinNext_spec hlink.drop
    (h.sizes b hbmem) (fun c hc => h.sizes c (List.mem_append_left _ (List.mem_append_right _ hc)))
    hsepr hr htiles hb.1 hroom
  obtain ⟨hframe, hregions, hbrk⟩ := joinNext_frame s b.1 (lastOf base (starts l))
  have hnodes : forall z, z ∈ base :: (starts l ++ starts r) -> z ≠ b.1 := by
    intro z hz
    rw [← starts_append] at hz
    rcases List.mem_cons.mp hz with rfl | hz
    · omega
    · obtain ⟨c, hc, rfl⟩ := mem_starts.mp hz
      exact (hapart c (List.mem_append_left _ hc)).2
  have hsame : forall c, c ∈ l ++ r ++ live ->
      HEADER * (s.joinNext b.1 (lastOf base (starts l))).size c.1 = c.2 := by
    intro c hc
    rw [(hframe c.1 (hapart c hc).2).2]
    rcases List.mem_append.mp hc with hin | hin
    · exact h.sizes c (List.mem_append_left _ hin)
    · exact h.sizes c (List.mem_append_right _ (List.mem_cons_of_mem _ hin))
  have hbetween :
      Between base (s.joinNext b.1 (lastOf base (starts l))) l r' live (starts r) b.1 m :=
    { old := hlink.congr fun z hz => (hframe z (hnodes z hz)).1
      increasing := hincl
      below := hl
      base_lt := hb.1
      base_size := (hframe base (Nat.ne_of_lt hb.1)).2.trans h.base_size
      next := hnext
      size := hsize
      sizes := fun c hc => hsame c (List.mem_append_left _
        (((List.Sublist.refl l).append hsub).subset hc))
      left := hsepl
      right := hsepr.sublist hsub
      after := hafter
      tiles := by
        rw [hregions]
        refine htiles.perm (List.Perm.cons _ ?_)
        rw [← List.append_assoc]
        exact List.perm_append_comm.append_right live
      room := by
        rw [hregions]
        exact hroom }
  obtain ⟨fl', hring, hsizes, hzero, hsep, htiles, hlast, hbig⟩ := joinPrev_spec hbetween
  obtain ⟨hframe', hregions', hbrk'⟩ :=
    joinPrev_frame (s.joinNext b.1 (lastOf base (starts l))) b.1 (lastOf base (starts l))
  rw [hregions] at htiles hregions'
  rw [hbrk] at hbrk'
  refine ⟨{ (s.joinNext b.1 (lastOf base (starts l))).joinPrev b.1 (lastOf base (starts l)) with
    freep := lastOf base (starts l) }, fl', fun fuel hfuel => ?_,
      ⟨hring, hzero, fun c hc => ?_, hsep, ?_, ?_, hlast, ?_,
    h.base_pos, ?_⟩, ?_, hregions', hbrk'⟩
  · rw [Alloc.free, Nat.add_sub_cancel, h.place_eq hl hr hfuel]
    rfl
  · rcases List.mem_append.mp hc with hc | hc
    · exact hsizes c hc
    · change HEADER * (Alloc.joinPrev _ _ _).size c.1 = c.2
      rw [(hframe' c.1 (h.live_ne_last c hc)).2]
      exact hsame c (List.mem_append_right _ hc)
  · change Tiles (Alloc.joinPrev _ _ _).regions _
    rw [hregions']
    exact htiles
  · change forall x, Covered (Alloc.joinPrev _ _ _).regions x -> base < x ∧
      x < (Alloc.joinPrev _ _ _).brk
    rw [hregions', hbrk']
    exact h.span
  · change total (Alloc.joinPrev _ _ _).regions <= limit
    rw [hregions']
    exact h.room
  · change base < (Alloc.joinPrev _ _ _).brk
    rw [hbrk']
    exact h.base_lt
  · obtain ⟨c, hc, hle⟩ := hbig
    exact ⟨c, hc, Nat.le_trans hm hle⟩

end

end User
end Xv6
