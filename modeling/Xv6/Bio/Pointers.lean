import Xv6.Bio.Cache
import Xv6.Lib.Result
import Xv6.Lib.Ring
import Xv6.Lib.Transition

/-!
# The list of buffers

`bcache` with the `next` and `prev` pointers of its buffers, and any number of
processes that use it.  A pointer is `none` for `bcache.head` and `some i` for
`bcache.buf[i]`.
-/

namespace Xv6
namespace Bio
namespace Pointers

open Lib Function

structure Cache where
  buf : Nat -> Buf
  links : Links (Option Nat)

def Cache.set (c : Cache) (i : Nat) (b : Buf) : Cache :=
  { c with buf := update c.buf i b }

theorem Cache.set_buf_self (c : Cache) (i : Nat) (b : Buf) : (c.set i b).buf i = b :=
  update_self ..

theorem Cache.set_buf_of_ne (c : Cache) {i j : Nat} (b : Buf) (h : j ≠ i) :
    (c.set i b).buf j = c.buf j :=
  update_of_ne h ..

def binit : Cache :=
  { buf := fun _ => zeroBuf
    links := (List.range NBUF).foldl (fun l i => l.insertAfter none (some i))
      { next := fun _ => none, prev := fun _ => none } }

/-- `bget` up to the `acquiresleep`.  The loops end at the head of the list. -/
def bget (c : Cache) (dev blockno : Nat) : Except Panic (Cache × Nat) :=
  match Links.scan c.links.next none (fun b => b.any (fun i => (c.buf i).key == (dev, blockno)))
      (NBUF + 1) (c.links.next none) with
  | some (some i) =>
    .ok (c.set i { c.buf i with refcnt := (c.buf i).refcnt + 1 }, i)
  | _ =>
    match Links.scan c.links.prev none (fun b => b.any (fun i => (c.buf i).refcnt == 0))
        (NBUF + 1) (c.links.prev none) with
    | some (some i) =>
      .ok (c.set i { c.buf i with
        dev := dev, blockno := blockno, valid := false, refcnt := 1 }, i)
    | _ => .error .bgetNoBuffers

def releasesleep (c : Cache) (i : Nat) : Cache :=
  c.set i { c.buf i with lock := none }

def brelseTail (c : Cache) (i : Nat) : Cache :=
  let c := c.set i { c.buf i with refcnt := (c.buf i).refcnt - 1 }
  if (c.buf i).refcnt = 0 then
    { c with links := (c.links.unlink (some i)).insertAfter none (some i) }
  else
    c

def bpin (c : Cache) (i : Nat) : Cache :=
  c.set i { c.buf i with refcnt := (c.buf i).refcnt + 1 }

def bunpin (c : Cache) (i : Nat) : Cache :=
  c.set i { c.buf i with refcnt := (c.buf i).refcnt - 1 }

/-!
## The list order

The pointers stand for the order in which `Bcache.lru` gives the buffers.
-/

structure Represents (c : Cache) (b : Bcache) : Prop where
  buf_eq : c.buf = b.buf
  ring : c.links.Ring none (b.lru.map some)

theorem Represents.set {c : Cache} {b : Bcache} (h : Represents c b) (i : Nat) (x : Buf) :
    Represents (c.set i x) (b.set i x) :=
  { buf_eq := by simp only [Cache.set, Bcache.set, h.buf_eq]
    ring := h.ring }

theorem repr_binit : Represents binit Bio.binit := by
  have hloop : forall (is done : List Nat) (l : Links (Option Nat)),
      l.Ring none (done.map some) -> (is ++ done).Nodup ->
      (is.foldl (fun l i => l.insertAfter none (some i)) l).Ring none
        ((is.reverse ++ done).map some) := by
    intro is
    induction is with
    | nil =>
      intro done l hring _
      exact hring
    | cons i is ih =>
      intro done l hring hnodup
      rw [List.cons_append, List.nodup_cons] at hnodup
      have hnew : some i ∉ (none : Option Nat) :: done.map some := by
        simp only [List.mem_cons, List.mem_map, reduceCtorEq, Option.some.injEq,
          exists_eq_right, false_or]
        exact fun hmem => hnodup.left (List.mem_append_right is hmem)
      have hnext := ih (i :: done) _ (hring.insertAfter hnew) (by
        exact List.perm_middle.nodup_iff.mpr (List.nodup_cons.mpr hnodup))
      rw [List.foldl_cons, List.reverse_cons, List.append_assoc]
      exact hnext
  have hring := hloop (List.range NBUF) [] { next := fun _ => none, prev := fun _ => none }
    { nodup := List.nodup_singleton none, path := ⟨rfl, rfl⟩ }
    (by rw [List.append_nil]; exact List.nodup_range)
  rw [List.append_nil] at hring
  exact { buf_eq := rfl, ring := hring }

theorem find_map_some (l : List Nat) (f : Nat -> Bool) :
    (l.map some).find? (fun b => b.any f) = (l.find? f).map some := by
  rw [List.find?_map]
  rfl

theorem bget_repr {c : Cache} {b : Bcache} (h : Represents c b)
    (hlru : b.lru.Perm (List.range NBUF)) (dev blockno : Nat) :
    bget c dev blockno =
      (Bio.bget b dev blockno).map (fun r => ({ c with buf := r.1.buf }, r.2)) := by
  have hn : (b.lru.map some).length < NBUF + 1 := by
    rw [List.length_map, hlru.length_eq, List.length_range]
    exact Nat.lt_succ_self NBUF
  unfold bget Bio.bget
  rw [h.ring.scan_next _ hn, h.ring.scan_prev _ hn, ← List.map_reverse, find_map_some,
    find_map_some, h.buf_eq]
  cases b.lru.find? (fun i => (b.buf i).key == (dev, blockno)) with
  | some i => simp only [Option.map_some, Cache.set, h.buf_eq, Except.map, Bcache.set]
  | none =>
    cases b.lru.reverse.find? (fun i => (b.buf i).refcnt == 0) with
    | some i =>
      simp only [Option.map_some, Option.map_none, Cache.set, h.buf_eq, Except.map, Bcache.set]
    | none => rfl

theorem Represents.moveToFront {c : Cache} {b : Bcache} (h : Represents c b) {i : Nat}
    (hi : i ∈ b.lru) :
    Represents { c with links := (c.links.unlink (some i)).insertAfter none (some i) }
      (b.moveToFront i) := by
  refine { buf_eq := h.buf_eq, ring := ?_ }
  have hring := h.ring
  have hnodup : b.lru.Nodup := List.Nodup.of_map some (List.nodup_cons.mp hring.nodup).right
  rcases List.append_of_mem hi with ⟨xs, ys, heq⟩
  have herase : b.lru.erase i = xs ++ ys := by
    rw [heq] at hnodup ⊢
    rw [List.erase_append_right, List.erase_cons_head]
    exact fun hmem => (List.nodup_append.mp hnodup).right.right i hmem i List.mem_cons_self rfl
  rw [heq, List.map_append, List.map_cons] at hring
  change Links.Ring _ none ((i :: b.lru.erase i).map some)
  rw [herase, List.map_cons, List.map_append]
  apply hring.unlink.insertAfter
  have hmiddle := List.perm_middle.nodup_iff.mp (List.nodup_cons.mp hring.nodup).right
  rw [List.mem_cons, not_or]
  exact ⟨by simp, (List.nodup_cons.mp hmiddle).left⟩

/-!
## Processes that use the cache
-/

inductive Phase where
  | waiting
  | holding
  | releasing
deriving DecidableEq

/-- A buffer that a process got from `bget` and has not given back: it waits for the
sleep-lock, holds it, or is inside `brelse` after `releasesleep`. -/
structure Handle where
  pid : Nat
  buf : Nat
  key : Key
  phase : Phase
deriving DecidableEq

structure Sys where
  disk : Key -> Block
  cache : Cache
  handles : List Handle
  pins : List Nat

inductive Label where
  | bget (pid dev blockno : Nat)
  | acquiresleep (h : Handle)
  | read (h : Handle)
  | modify (h : Handle) (v : Block)
  | bwrite (h : Handle)
  | releasesleep (h : Handle)
  | brelseTail (h : Handle)
  | bpin (h : Handle)
  | bunpin (i : Nat)

variable {s s' : Sys} {i : Nat} {c : Cache} {x : Handle}

def Sys.put (s : Sys) (i : Nat) (b : Buf) : Sys :=
  { s with cache := s.cache.set i b }

def Sys.move (s : Sys) (h : Handle) (phase : Phase) : Sys :=
  { s with handles := { h with phase := phase } :: s.handles.erase h }

inductive Step : Sys -> Label -> Sys -> Prop where
  | bget {s : Sys} {pid dev blockno i : Nat} {c : Cache} :
      bget s.cache dev blockno = .ok (c, i) ->
      Step s (.bget pid dev blockno)
        { s with
          cache := c
          handles := { pid := pid, buf := i, key := (dev, blockno), phase := .waiting } ::
            s.handles }
  | acquiresleep {s : Sys} {h : Handle} :
      h ∈ s.handles -> h.phase = .waiting -> (s.cache.buf h.buf).lock = none ->
      Step s (.acquiresleep h)
        ((s.move h .holding).put h.buf { s.cache.buf h.buf with lock := some h.pid })
  | read {s : Sys} {h : Handle} :
      h ∈ s.handles -> h.phase = .holding -> (s.cache.buf h.buf).valid = false ->
      Step s (.read h) (s.put h.buf
        { s.cache.buf h.buf with data := s.disk (s.cache.buf h.buf).key, valid := true })
  | modify {s : Sys} {h : Handle} {v : Block} :
      h ∈ s.handles -> h.phase = .holding ->
      Step s (.modify h v) (s.put h.buf { s.cache.buf h.buf with data := v })
  | bwrite {s : Sys} {h : Handle} :
      h ∈ s.handles -> h.phase = .holding ->
      Step s (.bwrite h)
        { s with
          disk := update s.disk (s.cache.buf h.buf).key (s.cache.buf h.buf).data }
  | releasesleep {s : Sys} {h : Handle} :
      h ∈ s.handles -> h.phase = .holding ->
      Step s (.releasesleep h)
        { s.move h .releasing with cache := releasesleep s.cache h.buf }
  | brelseTail {s : Sys} {h : Handle} :
      h ∈ s.handles -> h.phase = .releasing ->
      Step s (.brelseTail h)
        { s with cache := brelseTail s.cache h.buf, handles := s.handles.erase h }
  | bpin {s : Sys} {h : Handle} :
      h ∈ s.handles -> h.phase = .holding ->
      Step s (.bpin h) { s with cache := bpin s.cache h.buf, pins := h.buf :: s.pins }
  | bunpin {s : Sys} {i : Nat} :
      i ∈ s.pins ->
      Step s (.bunpin i) { s with cache := bunpin s.cache i, pins := s.pins.erase i }

def system : System Sys Label :=
  { init := fun s => exists disk, s = { disk := disk, cache := binit, handles := [], pins := [] }
    step := Step }

/-!
## The invariant
-/

def Ordered (c : Cache) : Prop :=
  exists b, Represents c b ∧ b.lru.Perm (List.range NBUF)

def Sys.holders (s : Sys) (i : Nat) : Nat :=
  s.handles.countP (fun h => h.buf == i)

structure CacheInv (s : Sys) : Prop where
  ordered : Ordered s.cache
  unique : forall i j, i < NBUF -> j < NBUF -> (s.cache.buf i).key = (s.cache.buf j).key ->
    (s.cache.buf i).dev ≠ 0 -> i = j
  refcnt_eq : forall i, i < NBUF ->
    (s.cache.buf i).refcnt = s.holders i + s.pins.count i
  handle_lt : forall h, h ∈ s.handles -> h.buf < NBUF
  handle_key : forall h, h ∈ s.handles -> (s.cache.buf h.buf).key = h.key

theorem bget_ordered {c' : Cache} {dev blockno : Nat} (h : Ordered c)
    (hget : bget c dev blockno = .ok (c', i)) :
    i < NBUF ∧
      (((c.buf i).key = (dev, blockno) ∧
          c' = c.set i { c.buf i with refcnt := (c.buf i).refcnt + 1 }) ∨
        ((forall j, j < NBUF -> (c.buf j).key ≠ (dev, blockno)) ∧
          (c.buf i).refcnt = 0 ∧
          c' = c.set i { c.buf i with
            dev := dev, blockno := blockno, valid := false, refcnt := 1 })) := by
  rcases h with ⟨b, hrepr, hlru⟩
  rw [bget_repr hrepr hlru] at hget
  rcases map_eq_ok.mp hget with ⟨⟨b', j⟩, hb, heq⟩
  cases heq
  rw [hrepr.buf_eq]
  rcases bget_cases hlru hb with ⟨hi, ⟨hkey, rfl⟩ | ⟨hmiss, hfree, rfl⟩⟩
  · exact ⟨hi, Or.inl ⟨hkey, by simp only [Cache.set, Bcache.set, hrepr.buf_eq]⟩⟩
  · exact ⟨hi, Or.inr ⟨hmiss, hfree, by simp only [Cache.set, Bcache.set, hrepr.buf_eq]⟩⟩

theorem Ordered.set (h : Ordered c) (i : Nat) (x : Buf) : Ordered (c.set i x) := by
  rcases h with ⟨b, hrepr, hlru⟩
  exact ⟨b.set i x, hrepr.set i x, hlru⟩

theorem brelseTail_ordered (h : Ordered c) (hi : i < NBUF) :
    Ordered (brelseTail c i) := by
  have hset := h.set i { c.buf i with refcnt := (c.buf i).refcnt - 1 }
  unfold brelseTail
  dsimp only
  split
  · rcases hset with ⟨b, hrepr, hlru⟩
    have hmem : i ∈ b.lru := hlru.mem_iff.mpr (List.mem_range.mpr hi)
    exact ⟨b.moveToFront i, hrepr.moveToFront hmem,
      (List.perm_cons_erase hmem).symm.trans hlru⟩
  · exact hset

theorem brelseTail_buf (c : Cache) (i : Nat) :
    (brelseTail c i).buf = (c.set i { c.buf i with refcnt := (c.buf i).refcnt - 1 }).buf := by
  unfold brelseTail
  dsimp only
  split <;> rfl

theorem set_key {b : Buf} (hkey : b.key = (c.buf i).key) (j : Nat) :
    ((c.set i b).buf j).key = (c.buf j).key := by
  by_cases hj : j = i
  · rw [hj, Cache.set_buf_self, hkey]
  · rw [Cache.set_buf_of_ne c b hj]

theorem holders_erase {h : Handle} (hh : h ∈ s.handles) (i : Nat) :
    s.holders i = (s.handles.erase h).countP (fun h => h.buf == i) +
      if h.buf = i then 1 else 0 := by
  unfold Sys.holders
  rw [(List.perm_cons_erase hh).countP_eq, List.countP_cons]
  simp only [beq_iff_eq]

theorem holders_move {h : Handle} (hh : h ∈ s.handles) (phase : Phase) (i : Nat) :
    (s.move h phase).holders i = s.holders i := by
  rw [holders_erase hh i]
  unfold Sys.holders Sys.move
  rw [List.countP_cons]
  simp only [beq_iff_eq]

section

variable (h : CacheInv s)
include h

theorem CacheInv.keep (hord : Ordered s'.cache)
    (hkey : forall j, (s'.cache.buf j).key = (s.cache.buf j).key)
    (hcnt : forall j, j < NBUF -> (s'.cache.buf j).refcnt = s'.holders j + s'.pins.count j)
    (hhandles : forall x, x ∈ s'.handles -> x.buf < NBUF ∧ (s.cache.buf x.buf).key = x.key) :
    CacheInv s' := by
  refine
    { ordered := hord
      unique := ?_
      refcnt_eq := hcnt
      handle_lt := fun x hx => (hhandles x hx).left
      handle_key := fun x hx => (hkey x.buf).trans (hhandles x hx).right }
  intro i j hi hj heq hdev
  rw [hkey i, hkey j] at heq
  apply h.unique i j hi hj heq
  have hfst : (s'.cache.buf i).dev = (s.cache.buf i).dev := congrArg Prod.fst (hkey i)
  rw [← hfst]
  exact hdev

theorem CacheInv.handles_move (hx : x ∈ s.handles)
    (phase : Phase) {y : Handle} (hy : y ∈ (s.move x phase).handles) :
    y.buf < NBUF ∧ (s.cache.buf y.buf).key = y.key := by
  rcases List.mem_cons.mp hy with rfl | hold
  · exact ⟨h.handle_lt x hx, h.handle_key x hx⟩
  · have hmem := List.mem_of_mem_erase hold
    exact ⟨h.handle_lt y hmem, h.handle_key y hmem⟩

theorem CacheInv.bget {pid dev blockno : Nat} (hget : bget s.cache dev blockno = .ok (c, i)) :
    CacheInv
      { s with
        cache := c
        handles := { pid := pid, buf := i, key := (dev, blockno), phase := .waiting } ::
          s.handles } := by
  have hcount : forall j, ({ s with
      cache := c
      handles := { pid := pid, buf := i, key := (dev, blockno), phase := .waiting } ::
        s.handles } : Sys).holders j = s.holders j + if i = j then 1 else 0 := by
    intro j
    unfold Sys.holders
    rw [List.countP_cons]
    simp only [beq_iff_eq]
  rcases bget_ordered h.ordered hget with ⟨hi, ⟨hkey, rfl⟩ | ⟨hmiss, hfree, rfl⟩⟩
  · apply h.keep
    · exact h.ordered.set _ _
    · exact set_key rfl
    · intro j hj
      rw [hcount j]
      dsimp only
      have hold := h.refcnt_eq j hj
      by_cases hij : i = j
      · subst hij
        rw [Cache.set_buf_self, if_pos rfl]
        dsimp only
        omega
      · rw [Cache.set_buf_of_ne _ _ (Ne.symm hij), if_neg hij]
        exact hold
    · intro x hx
      rcases List.mem_cons.mp hx with rfl | hold
      · exact ⟨hi, hkey⟩
      · exact ⟨h.handle_lt x hold, h.handle_key x hold⟩
  · have hzero := h.refcnt_eq i hi
    rw [hfree] at hzero
    have hunused : forall x, x ∈ s.handles -> x.buf ≠ i := by
      intro x hx heq
      have hpos : 0 < s.holders i := List.countP_pos_iff.mpr ⟨x, hx, by simp [heq]⟩
      omega
    refine
      { ordered := h.ordered.set _ _
        unique := ?_
        refcnt_eq := ?_
        handle_lt := ?_
        handle_key := ?_ }
    · intro j k hj hk heq hdev
      dsimp only at heq hdev
      by_cases hji : j = i
      · by_cases hki : k = i
        · rw [hji, hki]
        · rw [hji, Cache.set_buf_self, Cache.set_buf_of_ne _ _ hki] at heq
          exact absurd heq.symm (hmiss k hk)
      · by_cases hki : k = i
        · rw [hki, Cache.set_buf_self, Cache.set_buf_of_ne _ _ hji] at heq
          exact absurd heq (hmiss j hj)
        · rw [Cache.set_buf_of_ne _ _ hji] at heq hdev
          rw [Cache.set_buf_of_ne _ _ hki] at heq
          exact h.unique j k hj hk heq hdev
    · intro j hj
      rw [hcount j]
      dsimp only
      by_cases hij : i = j
      · subst hij
        rw [Cache.set_buf_self, if_pos rfl]
        dsimp only
        omega
      · rw [Cache.set_buf_of_ne _ _ (Ne.symm hij), if_neg hij]
        exact h.refcnt_eq j hj
    · intro x hx
      rcases List.mem_cons.mp hx with rfl | hold
      · exact hi
      · exact h.handle_lt x hold
    · intro x hx
      dsimp only
      rcases List.mem_cons.mp hx with rfl | hold
      · rw [Cache.set_buf_self]
        rfl
      · rw [Cache.set_buf_of_ne _ _ (hunused x hold)]
        exact h.handle_key x hold

theorem CacheInv.set {b : Buf}
    (hkey : b.key = (s.cache.buf i).key) (hcnt : b.refcnt = (s.cache.buf i).refcnt) :
    CacheInv (s.put i b) := by
  apply h.keep
  · exact h.ordered.set i b
  · exact set_key hkey
  · intro j hj
    change ((s.cache.set i b).buf j).refcnt = s.holders j + s.pins.count j
    by_cases hji : j = i
    · rw [hji, Cache.set_buf_self, hcnt]
      exact h.refcnt_eq i (hji ▸ hj)
    · rw [Cache.set_buf_of_ne _ _ hji]
      exact h.refcnt_eq j hj
  · intro x hx
    exact ⟨h.handle_lt x hx, h.handle_key x hx⟩

theorem CacheInv.move (hx : x ∈ s.handles) (phase : Phase) : CacheInv (s.move x phase) := by
  apply h.keep
  · exact h.ordered
  · intro j
    rfl
  · intro j hj
    rw [holders_move hx phase j]
    exact h.refcnt_eq j hj
  · intro y hy
    exact h.handles_move hx phase hy

theorem CacheInv.brelseTail (hx : x ∈ s.handles) :
    CacheInv { s with cache := brelseTail s.cache x.buf, handles := s.handles.erase x } := by
  have hlt := h.handle_lt x hx
  apply h.keep
  · exact brelseTail_ordered h.ordered hlt
  · intro j
    dsimp only
    rw [brelseTail_buf]
    apply set_key
    rfl
  · intro j hj
    dsimp only
    rw [brelseTail_buf]
    have hold := h.refcnt_eq j hj
    rw [holders_erase hx j] at hold
    change _ = (s.handles.erase x).countP (fun h => h.buf == j) + s.pins.count j
    by_cases hij : x.buf = j
    · rw [if_pos hij] at hold
      rw [hij, Cache.set_buf_self]
      dsimp only
      omega
    · rw [if_neg hij] at hold
      rw [Cache.set_buf_of_ne _ _ (Ne.symm hij)]
      omega
  · intro y hy
    have hmem := List.mem_of_mem_erase hy
    exact ⟨h.handle_lt y hmem, h.handle_key y hmem⟩

theorem CacheInv.bpin (i : Nat) :
    CacheInv { s with cache := bpin s.cache i, pins := i :: s.pins } := by
  apply h.keep
  · exact h.ordered.set _ _
  · exact set_key rfl
  · intro j hj
    have hold := h.refcnt_eq j hj
    change ((s.cache.set i _).buf j).refcnt = s.holders j + (i :: s.pins).count j
    by_cases hij : j = i
    · rw [hij, Cache.set_buf_self, List.count_cons_self]
      rw [hij] at hold
      dsimp only
      omega
    · rw [Cache.set_buf_of_ne _ _ hij, List.count_cons_of_ne (Ne.symm hij)]
      exact hold
  · intro x hx
    exact ⟨h.handle_lt x hx, h.handle_key x hx⟩

theorem CacheInv.bunpin (hi : i ∈ s.pins) :
    CacheInv { s with cache := bunpin s.cache i, pins := s.pins.erase i } := by
  apply h.keep
  · exact h.ordered.set _ _
  · exact set_key rfl
  · intro j hj
    have hold := h.refcnt_eq j hj
    change ((s.cache.set i _).buf j).refcnt = s.holders j + (s.pins.erase i).count j
    by_cases hij : j = i
    · have hpos : 0 < s.pins.count i := List.count_pos_iff.mpr hi
      rw [hij, Cache.set_buf_self, List.count_erase_self]
      rw [hij] at hold
      dsimp only
      omega
    · rw [Cache.set_buf_of_ne _ _ hij, List.count_erase_of_ne hij]
      exact hold
  · intro x hx
    exact ⟨h.handle_lt x hx, h.handle_key x hx⟩

theorem cacheInv_step {l : Label} (hstep : Step s l s') :
    CacheInv s' := by
  cases hstep with
  | bget hget => exact h.bget hget
  | acquiresleep hx _ _ => exact (h.move hx .holding).set rfl rfl
  | read hx _ _ => exact h.set rfl rfl
  | modify hx _ => exact h.set rfl rfl
  | bwrite hx _ =>
    exact
      { ordered := h.ordered
        unique := h.unique
        refcnt_eq := h.refcnt_eq
        handle_lt := h.handle_lt
        handle_key := h.handle_key }
  | releasesleep hx _ => exact (h.move hx .releasing).set rfl rfl
  | brelseTail hx _ => exact h.brelseTail hx
  | bpin hx _ => exact h.bpin _
  | bunpin hi => exact h.bunpin hi

end

theorem cacheInv_reachable (h : system.Reachable s) : CacheInv s := by
  apply h.invariant
  · intro s hinit
    rcases hinit with ⟨disk, rfl⟩
    refine
      { ordered := ⟨Bio.binit, repr_binit, List.reverse_perm _⟩
        unique := fun _ _ _ _ _ hdev => absurd rfl hdev
        refcnt_eq := fun _ _ => rfl
        handle_lt := fun _ hx => by cases hx
        handle_key := fun _ hx => by cases hx }
  · intro s l s' hinv _ hstep
    exact cacheInv_step hinv hstep

theorem key_step {l : Label} (h : CacheInv s) (hstep : Step s l s')
    (hused : 0 < (s.cache.buf i).refcnt) : (s'.cache.buf i).key = (s.cache.buf i).key := by
  cases hstep with
  | bget hget =>
    rcases bget_ordered h.ordered hget with ⟨_, ⟨_, rfl⟩ | ⟨_, hfree, rfl⟩⟩
    · apply set_key
      rfl
    · have hne : i ≠ _ := fun heq => by
        rw [heq, hfree] at hused
        exact Nat.lt_irrefl 0 hused
      dsimp only
      rw [Cache.set_buf_of_ne _ _ hne]
  | acquiresleep | read | modify | releasesleep | bpin | bunpin =>
    apply set_key
    rfl
  | bwrite => rfl
  | brelseTail =>
    dsimp only
    rw [brelseTail_buf]
    apply set_key
    rfl

theorem key_run (h : CacheInv s)
    (hrun : (system.restart s).ReachableVia (fun t _ => 0 < (t.cache.buf i).refcnt) s') :
    CacheInv s' ∧ (s'.cache.buf i).key = (s.cache.buf i).key := by
  apply hrun.invariant
  · intro t hinit
    cases hinit
    exact ⟨h, rfl⟩
  · intro t l t' hinv hused hstep
    exact ⟨cacheInv_step hinv.left hstep, (key_step hinv.left hstep hused).trans hinv.right⟩

/-- Following `next` from the head visits every buffer once, and `prev` goes back. -/
structure OneList (l : Links (Option Nat)) : Prop where
  visits : ((List.range NBUF).map (fun k => l.next^[k + 1] none)).Perm
    ((List.range NBUF).map some)
  closes : l.next^[NBUF + 1] none = none
  inverse : forall b : Option Nat, (forall i, b = some i -> i < NBUF) ->
    l.prev (l.next b) = b ∧ l.next (l.prev b) = b

theorem Ordered.oneList (h : Ordered c) : OneList c.links := by
  rcases h with ⟨b, hrepr, hlru⟩
  have hlen : (b.lru.map some).length = NBUF := by
    rw [List.length_map, hlru.length_eq, List.length_range]
  have hiter := hrepr.ring.path.iterate
  rw [hlen] at hiter
  refine { visits := ?_, closes := hiter.right, inverse := ?_ }
  · rw [hiter.left]
    exact hlru.map some
  · intro x hx
    apply hrepr.ring.prev_next
    cases x with
    | none => exact List.mem_cons_self
    | some i =>
      apply List.mem_cons_of_mem
      exact List.mem_map_of_mem (hlru.mem_iff.mpr (List.mem_range.mpr (hx i rfl)))

theorem one_copy_per_block {s : Sys} (h : system.Reachable s) :
    (forall i j, i < NBUF -> j < NBUF -> (s.cache.buf i).key = (s.cache.buf j).key ->
      (s.cache.buf i).dev ≠ 0 -> i = j) ∧
    OneList s.cache.links ∧
    (forall i, i < NBUF -> (s.cache.buf i).refcnt = s.holders i + s.pins.count i) ∧
    (forall i s', (system.restart s).ReachableVia
        (fun t _ => 0 < (t.cache.buf i).refcnt) s' ->
      (s'.cache.buf i).key = (s.cache.buf i).key) := by
  have hinv := cacheInv_reachable h
  refine ⟨hinv.unique, hinv.ordered.oneList, hinv.refcnt_eq, ?_⟩
  intro i s' hrun
  exact (key_run hinv hrun).right

/-- A process reads block 5 of the root device into the buffer that `binit` put last. -/
theorem one_copy_per_block_reader : exists s, system.Reachable s ∧ s.holders 0 = 1 ∧
    (s.cache.buf 0).refcnt = 1 ∧ OneList s.cache.links := by
  have hget : (bget binit ROOTDEV 5).map Prod.snd = .ok 0 := by decide +kernel
  rcases map_eq_ok.mp hget with ⟨⟨c, i⟩, hrun, hi⟩
  cases hi
  have hstart : system.Reachable _ := System.ReachableVia.init ⟨fun _ _ => 0, rfl⟩
  have hreach : system.Reachable _ :=
    System.ReachableVia.step (l := .bget 1 ROOTDEV 5) hstart trivial (Step.bget hrun)
  have hres := one_copy_per_block hreach
  refine ⟨_, hreach, rfl, ?_, hres.right.left⟩
  exact hres.right.right.left 0 (by decide)

end Pointers
end Bio
end Xv6
