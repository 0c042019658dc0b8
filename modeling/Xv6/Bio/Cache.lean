import Mathlib.Data.List.Perm.Basic
import Mathlib.Data.List.Count
import Mathlib.Data.Finset.Card
import Mathlib.Data.Finset.Range
import Mathlib.Logic.Function.Basic
import Xv6.Lib.LittleEndian
import Xv6.Param

/-!
# Buffer cache

The buffer cache of `bio.c`: `NBUF` buffers and the order of the list threaded
through them, most recently used first.  The pointers of the list are given by
the order alone; a buffer pointer is the index of the buffer in `bcache.buf`.
-/

namespace Xv6
namespace Bio

abbrev Block := Lib.Bytes

inductive Panic where
  | bgetNoBuffers
  | bwrite
  | brelse
deriving DecidableEq, Repr

structure Buf where
  valid : Bool
  dev : Nat
  blockno : Nat
  lock : Option Nat
  refcnt : Nat
  data : Block

structure Bcache where
  buf : Nat -> Buf
  lru : List Nat

def zeroBuf : Buf :=
  { valid := false, dev := 0, blockno := 0, lock := none, refcnt := 0, data := fun _ => 0 }

def binit : Bcache :=
  { buf := fun _ => zeroBuf, lru := (List.range NBUF).reverse }

abbrev Key := Nat × Nat

variable {i dev blockno : Nat} {c c' : Bcache} {refs : List Key} {b : Buf}

def Buf.key (b : Buf) : Key :=
  (b.dev, b.blockno)

def Bcache.set (c : Bcache) (i : Nat) (b : Buf) : Bcache :=
  { c with buf := Function.update c.buf i b }

def Bcache.moveToFront (c : Bcache) (i : Nat) : Bcache :=
  { c with lru := i :: c.lru.erase i }

/-- `bget` up to the `acquiresleep` on the buffer it found or recycled. -/
def bget (c : Bcache) (dev blockno : Nat) : Except Panic (Bcache × Nat) :=
  match c.lru.find? (fun i => (c.buf i).key == (dev, blockno)) with
  | some i =>
    .ok (c.set i { c.buf i with refcnt := (c.buf i).refcnt + 1 }, i)
  | none =>
    match c.lru.reverse.find? (fun i => (c.buf i).refcnt == 0) with
    | some i =>
      .ok (c.set i { c.buf i with
        dev := dev, blockno := blockno, valid := false, refcnt := 1 }, i)
    | none => .error .bgetNoBuffers

/-- `acquiresleep` on a buffer; `none` while another process holds it. -/
def acquire (c : Bcache) (pid i : Nat) : Option Bcache :=
  match (c.buf i).lock with
  | none => some (c.set i { c.buf i with lock := some pid })
  | some _ => none

/-- The second half of `bread`: read the block unless the buffer is valid. -/
def fill (c : Bcache) (disk : Nat -> Block) (i : Nat) : Bcache :=
  if (c.buf i).valid then
    c
  else
    c.set i { c.buf i with data := disk (c.buf i).blockno, valid := true }

def brelse (c : Bcache) (pid i : Nat) : Except Panic Bcache :=
  if (c.buf i).lock = some pid then
    let c := c.set i { c.buf i with lock := none, refcnt := (c.buf i).refcnt - 1 }
    if (c.buf i).refcnt = 0 then
      .ok (c.moveToFront i)
    else
      .ok c
  else
    .error .brelse

def bpin (c : Bcache) (i : Nat) : Bcache :=
  c.set i { c.buf i with refcnt := (c.buf i).refcnt + 1 }

def bunpin (c : Bcache) (i : Nat) : Bcache :=
  c.set i { c.buf i with refcnt := (c.buf i).refcnt - 1 }

/-!
## Reading an updated cache
-/

@[simp] theorem set_buf_self (c : Bcache) (i : Nat) (b : Buf) :
    (c.set i b).buf i = b := by
  simp [Bcache.set]

theorem set_buf_of_ne (c : Bcache) {j : Nat} (b : Buf) (h : j ≠ i) :
    (c.set i b).buf j = c.buf j := by
  simp [Bcache.set, h]

theorem set_field {alpha : Type} (f : Buf -> alpha) (c : Bcache)
    (h : f b = f (c.buf i)) (j : Nat) : f ((c.set i b).buf j) = f (c.buf j) := by
  by_cases hj : j = i
  · rw [hj, set_buf_self, h]
  · rw [set_buf_of_ne c b hj]

@[simp] theorem set_lru (c : Bcache) (i : Nat) (b : Buf) :
    (c.set i b).lru = c.lru := rfl

@[simp] theorem moveToFront_buf (c : Bcache) (i : Nat) :
    (c.moveToFront i).buf = c.buf := rfl

/-!
## References

`refs` lists the block of every reference that is outstanding: one for each
process that holds or waits for a buffer, one for each pin.
-/

structure Inv (c : Bcache) (refs : List Key) : Prop where
  lru_perm : c.lru.Perm (List.range NBUF)
  dev_ne : forall k, k ∈ refs -> k.1 ≠ 0
  unique : forall i j, i < NBUF -> j < NBUF -> (c.buf i).key = (c.buf j).key ->
    (c.buf i).dev ≠ 0 -> i = j
  cached : forall k, k ∈ refs -> exists i, i < NBUF ∧ (c.buf i).key = k
  refcnt_eq : forall i, i < NBUF -> (c.buf i).refcnt = refs.count (c.buf i).key

theorem inv_binit : Inv binit [] := by
  constructor
  · exact List.reverse_perm _
  · intro k hk
    cases hk
  · intro i j _ _ _ hdev
    exact absurd rfl hdev
  · intro k hk
    cases hk
  · intro i _
    rfl

section

variable (h : Inv c refs)
include h

theorem Inv.mem_lru :
    i ∈ c.lru <-> i < NBUF := by
  rw [h.lru_perm.mem_iff, List.mem_range]

/-!
A change of the data, of the lock or of the list order leaves the references
alone.
-/

theorem Inv.congr (hlru : c'.lru.Perm c.lru) (hkey : forall i, (c'.buf i).key = (c.buf i).key)
    (hcnt : forall i, (c'.buf i).refcnt = (c.buf i).refcnt) :
    Inv c' refs := by
  constructor
  · exact hlru.trans h.lru_perm
  · exact h.dev_ne
  · intro i j hi hj heq hdev
    apply h.unique i j hi hj
    · rw [← hkey i, ← hkey j]
      exact heq
    · have hfst := congrArg Prod.fst (hkey i)
      simp only [Buf.key] at hfst
      rw [← hfst]
      exact hdev
  · intro k hk
    rcases h.cached k hk with ⟨i, hi, hik⟩
    exact ⟨i, hi, by rw [hkey, hik]⟩
  · intro i hi
    rw [hcnt, hkey]
    exact h.refcnt_eq i hi

theorem Inv.perm {refs' : List Key} (hperm : refs.Perm refs') : Inv c refs' := by
  constructor
  · exact h.lru_perm
  · intro k hk
    exact h.dev_ne k (hperm.mem_iff.mpr hk)
  · exact h.unique
  · intro k hk
    exact h.cached k (hperm.mem_iff.mpr hk)
  · intro i hi
    rw [h.refcnt_eq i hi]
    exact hperm.count_eq _

theorem Inv.set_same (hkey : b.key = (c.buf i).key) (hcnt : b.refcnt = (c.buf i).refcnt) :
    Inv (c.set i b) refs := by
  apply h.congr
  · exact List.Perm.refl _
  · exact set_field Buf.key c hkey
  · exact set_field Buf.refcnt c hcnt

theorem Inv.moveToFront (hi : i < NBUF) : Inv (c.moveToFront i) refs := by
  apply h.congr
  · exact (List.perm_cons_erase (h.mem_lru.mpr hi)).symm
  · intro j
    rfl
  · intro j
    rfl

/-!
Taking and dropping a reference to a cached block changes one count.
-/

theorem Inv.recount {refs' : List Key}
    (hi : i < NBUF) (hkey : b.key = (c.buf i).key) (hdev : (c.buf i).dev ≠ 0)
    (hdevs : forall k, k ∈ refs' -> k = (c.buf i).key ∨ k ∈ refs)
    (hcnt : b.refcnt = refs'.count (c.buf i).key)
    (hrest : forall k, k ≠ (c.buf i).key -> refs'.count k = refs.count k) :
    Inv (c.set i b) refs' := by
  have hkeys : forall j, ((c.set i b).buf j).key = (c.buf j).key := set_field Buf.key c hkey
  constructor
  · exact h.lru_perm
  · intro k hk
    rcases hdevs k hk with rfl | hold
    · exact hdev
    · exact h.dev_ne k hold
  · intro j j' hj hj' heq hne
    rw [hkeys, hkeys] at heq
    apply h.unique j j' hj hj' heq
    have hfst := congrArg Prod.fst (hkeys j)
    simp only [Buf.key] at hfst
    rw [← hfst]
    exact hne
  · intro k hk
    rcases hdevs k hk with rfl | hold
    · exact ⟨i, hi, hkeys i⟩
    · rcases h.cached k hold with ⟨j, hj, hjk⟩
      exact ⟨j, hj, by rw [hkeys, hjk]⟩
  · intro j hj
    rw [hkeys]
    by_cases hji : j = i
    · subst hji
      rw [set_buf_self]
      exact hcnt
    · rw [set_buf_of_ne c b hji, h.refcnt_eq j hj]
      symm
      apply hrest
      intro heq
      apply hji
      apply h.unique j i hj hi heq
      have hfst := congrArg Prod.fst heq
      simp only [Buf.key] at hfst
      rw [hfst]
      exact hdev

theorem Inv.take (hi : i < NBUF) (hdev : (c.buf i).dev ≠ 0)
    (hkey : b.key = (c.buf i).key) (hcnt : b.refcnt = (c.buf i).refcnt + 1) :
    Inv (c.set i b) ((c.buf i).key :: refs) := by
  apply h.recount hi hkey hdev
  · intro k hk
    exact List.mem_cons.mp hk
  · rw [hcnt, h.refcnt_eq i hi, List.count_cons_self]
  · intro k hk
    exact List.count_cons_of_ne (Ne.symm hk)

theorem Inv.drop (hi : i < NBUF) (hmem : (c.buf i).key ∈ refs)
    (hkey : b.key = (c.buf i).key) (hcnt : b.refcnt = (c.buf i).refcnt - 1) :
    Inv (c.set i b) (refs.erase (c.buf i).key) := by
  apply h.recount hi hkey (h.dev_ne _ hmem)
  · intro k hk
    exact Or.inr (List.mem_of_mem_erase hk)
  · rw [hcnt, h.refcnt_eq i hi, List.count_erase_self]
  · intro k hk
    exact List.count_erase_of_ne hk

theorem Inv.recycle (hi : i < NBUF) (hfree : (c.buf i).refcnt = 0) (hdev : b.dev ≠ 0)
    (hmiss : forall j, j < NBUF -> (c.buf j).key ≠ b.key) (hcnt : b.refcnt = 1) :
    Inv (c.set i b) (b.key :: refs) := by
  have hunused : (c.buf i).key ∉ refs := by
    rw [← List.count_eq_zero, ← h.refcnt_eq i hi]
    exact hfree
  have hnew : b.key ∉ refs := by
    intro hmem
    rcases h.cached _ hmem with ⟨j, hj, hjk⟩
    exact hmiss j hj hjk
  constructor
  · exact h.lru_perm
  · intro k hk
    rcases List.mem_cons.mp hk with rfl | hold
    · exact hdev
    · exact h.dev_ne k hold
  · intro j j' hj hj' heq hne
    by_cases hji : j = i
    · by_cases hji' : j' = i
      · rw [hji, hji']
      · subst hji
        rw [set_buf_self, set_buf_of_ne c b hji'] at heq
        exact absurd heq.symm (hmiss j' hj')
    · by_cases hji' : j' = i
      · subst hji'
        rw [set_buf_self, set_buf_of_ne c b hji] at heq
        exact absurd heq (hmiss j hj)
      · rw [set_buf_of_ne c b hji, set_buf_of_ne c b hji'] at heq
        rw [set_buf_of_ne c b hji] at hne
        exact h.unique j j' hj hj' heq hne
  · intro k hk
    rcases List.mem_cons.mp hk with rfl | hold
    · exact ⟨i, hi, by rw [set_buf_self]⟩
    · rcases h.cached k hold with ⟨j, hj, hjk⟩
      have hji : j ≠ i := by
        intro heq
        subst heq
        rw [hjk] at hunused
        exact hunused hold
      exact ⟨j, hj, by rw [set_buf_of_ne c b hji, hjk]⟩
  · intro j hj
    by_cases hji : j = i
    · subst hji
      rw [set_buf_self, hcnt, List.count_cons_self, List.count_eq_zero.mpr hnew]
    · rw [set_buf_of_ne c b hji, h.refcnt_eq j hj]
      rw [List.count_cons_of_ne (Ne.symm (hmiss j hj))]

end

/-!
## What `bget` does
-/

theorem bget_cases (hlru : c.lru.Perm (List.range NBUF)) (hget : bget c dev blockno = .ok (c', i)) :
    i < NBUF ∧
      (((c.buf i).key = (dev, blockno) ∧
          c' = c.set i { c.buf i with refcnt := (c.buf i).refcnt + 1 }) ∨
        ((forall j, j < NBUF -> (c.buf j).key ≠ (dev, blockno)) ∧
          (c.buf i).refcnt = 0 ∧
          c' = c.set i { c.buf i with
            dev := dev, blockno := blockno, valid := false, refcnt := 1 })) := by
  have hmem : forall j, j ∈ c.lru <-> j < NBUF := by
    intro j
    rw [hlru.mem_iff, List.mem_range]
  unfold bget at hget
  cases hhit : c.lru.find? (fun i => (c.buf i).key == (dev, blockno)) with
  | some j =>
    rw [hhit] at hget
    cases hget
    have hi : i ∈ c.lru := List.mem_of_find?_eq_some hhit
    have hkey := List.find?_some hhit
    exact ⟨(hmem i).mp hi, Or.inl ⟨by simpa using hkey, rfl⟩⟩
  | none =>
    rw [hhit] at hget
    have hmiss : forall j, j < NBUF -> (c.buf j).key ≠ (dev, blockno) := by
      intro j hj
      have hnone := List.find?_eq_none.mp hhit j ((hmem j).mpr hj)
      simpa using hnone
    cases hfree : c.lru.reverse.find? (fun i => (c.buf i).refcnt == 0) with
    | some j =>
      rw [hfree] at hget
      cases hget
      have hi : i ∈ c.lru := by
        have hrev := List.mem_of_find?_eq_some hfree
        simpa using hrev
      have hzero := List.find?_some hfree
      exact ⟨(hmem i).mp hi, Or.inr ⟨hmiss, by simpa using hzero, rfl⟩⟩
    | none =>
      rw [hfree] at hget
      cases hget

theorem bget_inv (h : Inv c refs) (hdev : dev ≠ 0) (hget : bget c dev blockno = .ok (c', i)) :
    Inv c' ((dev, blockno) :: refs) ∧ i < NBUF ∧ (c'.buf i).key = (dev, blockno) := by
  rcases bget_cases h.lru_perm hget with ⟨hi, ⟨hkey, rfl⟩ | ⟨hmiss, hfree, rfl⟩⟩
  · have hdev' : (c.buf i).dev ≠ 0 := by
      have hfst := congrArg Prod.fst hkey
      simp only [Buf.key] at hfst
      rw [hfst]
      exact hdev
    refine ⟨?_, hi, ?_⟩
    · rw [← hkey]
      exact h.take hi hdev' rfl rfl
    · rw [set_buf_self]
      exact hkey
  · refine ⟨?_, hi, ?_⟩
    · exact h.recycle hi hfree (b := { c.buf i with
        dev := dev, blockno := blockno, valid := false, refcnt := 1 }) hdev hmiss rfl
    · rw [set_buf_self]
      rfl

theorem bget_of_ne {j : Nat}
    (h : Inv c refs) (hget : bget c dev blockno = .ok (c', i)) (hj : j ≠ i) :
    c'.buf j = c.buf j := by
  rcases bget_cases h.lru_perm hget with ⟨_, ⟨_, rfl⟩ | ⟨_, _, rfl⟩⟩
  · exact set_buf_of_ne c _ hj
  · exact set_buf_of_ne c _ hj

/-!
## When `bget` finds no buffer

It fails exactly when the block is not cached and the outstanding references
cover `NBUF` different blocks.
-/

theorem exists_free_of_card_lt (h : Inv c refs) (hcard : refs.toFinset.card < NBUF) :
    exists i, i < NBUF ∧ (c.buf i).refcnt = 0 := by
  by_contra hnone
  have hused : forall i, i < NBUF -> (c.buf i).key ∈ refs := by
    intro i hi
    by_contra hmem
    apply hnone
    refine ⟨i, hi, ?_⟩
    rw [h.refcnt_eq i hi]
    exact List.count_eq_zero.mpr hmem
  have hinj : forall i, i ∈ Finset.range NBUF -> forall j, j ∈ Finset.range NBUF ->
      (c.buf i).key = (c.buf j).key -> i = j := by
    intro i hi j hj heq
    rw [Finset.mem_range] at hi hj
    exact h.unique i j hi hj heq (h.dev_ne _ (hused i hi))
  have hle : (Finset.range NBUF).card <= refs.toFinset.card := by
    apply Finset.card_le_card_of_injOn (fun i => (c.buf i).key)
    · intro i hi
      simp only [Finset.coe_range, Set.mem_Iio] at hi
      simpa using hused i hi
    · intro i hi j hj heq
      simp only [Finset.coe_range, Set.mem_Iio] at hi hj
      exact hinj i (Finset.mem_range.mpr hi) j (Finset.mem_range.mpr hj) heq
  rw [Finset.card_range] at hle
  omega

theorem exists_unused_of_free (h : Inv c refs) (hi : i < NBUF) (hfree : (c.buf i).refcnt = 0) :
    refs.toFinset.card < NBUF := by
  have hsub : refs.toFinset ⊆
      ((Finset.range NBUF).erase i).image (fun j => (c.buf j).key) := by
    intro k hk
    have hmem := List.mem_toFinset.mp hk
    rcases h.cached k hmem with ⟨j, hj, hjk⟩
    refine Finset.mem_image.mpr ⟨j, Finset.mem_erase.mpr ⟨?_, Finset.mem_range.mpr hj⟩, hjk⟩
    intro hji
    subst hji
    have hcount := h.refcnt_eq j hj
    rw [hfree, hjk] at hcount
    exact List.count_eq_zero.mp hcount.symm hmem
  have hle : refs.toFinset.card <= ((Finset.range NBUF).erase i).card :=
    (Finset.card_le_card hsub).trans Finset.card_image_le
  rw [Finset.card_erase_of_mem (Finset.mem_range.mpr hi), Finset.card_range] at hle
  have hpos : 0 < NBUF := by decide
  omega

theorem bget_error {p : Panic} (h : bget c dev blockno = .error p) : p = .bgetNoBuffers := by
  unfold bget at h
  split at h
  · cases h
  · split at h
    · cases h
    · cases h
      rfl

theorem bget_ok_iff (h : Inv c refs) (dev blockno : Nat) :
    (exists r, bget c dev blockno = .ok r) <->
      (dev, blockno) ∈ refs ∨ refs.toFinset.card < NBUF := by
  constructor
  · intro hok
    rcases hok with ⟨⟨c', i⟩, hget⟩
    rcases bget_cases h.lru_perm hget with ⟨hi, ⟨hkey, _⟩ | ⟨_, hfree, _⟩⟩
    · by_cases hmem : (dev, blockno) ∈ refs
      · exact Or.inl hmem
      · apply Or.inr
        apply exists_unused_of_free h hi
        rw [h.refcnt_eq i hi, hkey]
        exact List.count_eq_zero.mpr hmem
    · exact Or.inr (exists_unused_of_free h hi hfree)
  · intro hcase
    unfold bget
    cases hhit : c.lru.find? (fun i => (c.buf i).key == (dev, blockno)) with
    | some j =>
      exact ⟨_, rfl⟩
    | none =>
      have hnot : forall j, j < NBUF -> (c.buf j).key ≠ (dev, blockno) := by
        intro j hj
        have hnone := List.find?_eq_none.mp hhit j (h.mem_lru.mpr hj)
        simpa using hnone
      have hcard : refs.toFinset.card < NBUF := by
        rcases hcase with hmem | hcard
        · rcases h.cached _ hmem with ⟨i, hi, hkey⟩
          exact absurd hkey (hnot i hi)
        · exact hcard
      rcases exists_free_of_card_lt h hcard with ⟨i, hi, hfree⟩
      cases hrec : c.lru.reverse.find? (fun i => (c.buf i).refcnt == 0) with
      | some j =>
        exact ⟨_, rfl⟩
      | none =>
        have hnone := List.find?_eq_none.mp hrec i (by
          rw [List.mem_reverse]
          exact h.mem_lru.mpr hi)
        exact absurd hfree (by simpa using hnone)

end Bio
end Xv6
