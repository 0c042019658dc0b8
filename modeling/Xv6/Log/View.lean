import Xv6.Lib.Result
import Xv6.Log.Commit

/-!
# The cache in front of the disk

`Ok m users pins view` relates the cache and the disk to the contents `view` that
every reader of a block sees: valid buffers hold it, and so does the disk for
every block that is not pinned.
-/

namespace Xv6
namespace Log

open Lib Function
open Bio

variable {log : LogState} {tail : Nat} {b : Buf} {c' : Bcache} {v : Block}

def blockKey (n : Nat) : Key :=
  (ROOTDEV, n)

theorem blockKey_injective : Injective blockKey := by
  intro a b h
  exact congrArg Prod.snd h

structure Ok (m : Mem) (users pins : List Nat) (view : Nat -> Block) : Prop where
  inv : Inv m.cache ((users ++ pins).map blockKey)
  lock_users : forall i, i < NBUF -> (m.cache.buf i).lock ≠ none ->
    exists n, n ∈ users ∧ (m.cache.buf i).key = blockKey n ∧ (m.cache.buf i).valid = true
  clean : forall i n, i < NBUF -> (m.cache.buf i).key = blockKey n ->
    (m.cache.buf i).valid = true -> (m.cache.buf i).data = view n
  fresh : forall n, n ∉ pins -> m.disk n = view n
  pinned : forall n, n ∈ pins ->
    exists i, i < NBUF ∧ (m.cache.buf i).key = blockKey n ∧ (m.cache.buf i).valid = true

structure Holds (m : Mem) (pid i n : Nat) : Prop where
  lt : i < NBUF
  key : (m.cache.buf i).key = blockKey n
  lock : (m.cache.buf i).lock = some pid
  valid : (m.cache.buf i).valid = true

theorem key_dev {n : Nat} (h : b.key = blockKey n) : b.dev ≠ 0 := by
  have hdev : b.dev = ROOTDEV := congrArg Prod.fst h
  rw [hdev]
  decide

theorem key_blockno {n : Nat} (h : b.key = blockKey n) : b.blockno = n :=
  congrArg Prod.snd h

section

variable {m m' : Mem} {users pins : List Nat} {view : Nat -> Block} {c : Bcache}
variable {pid pid' i j n n' : Nat}

theorem Ok.index_unique (h : Ok m users pins view) (hi : i < NBUF) (hj : j < NBUF)
    (hik : (m.cache.buf i).key = blockKey n) (hjk : (m.cache.buf j).key = blockKey n) :
    i = j :=
  h.inv.unique i j hi hj (by rw [hik, hjk]) (key_dev hik)

theorem Ok.congr {pins' : List Nat} {view' : Nat -> Block} (h : Ok m users pins view)
    (hinv : Inv m'.cache ((users ++ pins').map blockKey))
    (hkey : forall j, (m'.cache.buf j).key = (m.cache.buf j).key)
    (hlock : forall j, (m'.cache.buf j).lock = (m.cache.buf j).lock)
    (hvalid : forall j, (m'.cache.buf j).valid = (m.cache.buf j).valid)
    (hclean : forall j n, j < NBUF -> (m.cache.buf j).key = blockKey n ->
      (m.cache.buf j).valid = true -> (m'.cache.buf j).data = view' n)
    (hfresh : forall n, n ∉ pins' -> m'.disk n = view' n) (hpinned : forall n, n ∈ pins' ->
      exists i, i < NBUF ∧ (m.cache.buf i).key = blockKey n ∧ (m.cache.buf i).valid = true) :
    Ok m' users pins' view' := by
  constructor
  · exact hinv
  · intro j hj hne
    rw [hlock] at hne
    rw [hkey, hvalid]
    exact h.lock_users j hj hne
  · intro j k hj hjk hjv
    rw [hkey] at hjk
    rw [hvalid] at hjv
    exact hclean j k hj hjk hjv
  · exact hfresh
  · intro k hk
    rcases hpinned k hk with ⟨j, hj, hjk, hjv⟩
    exact ⟨j, hj, (hkey j).trans hjk, (hvalid j).trans hjv⟩

theorem Holds.index_ne (h : Holds m pid i n) (h' : Holds m pid' j n') (hne : n ≠ n') : i ≠ j := by
  intro heq
  subst heq
  apply hne
  apply blockKey_injective
  rw [← h.key, ← h'.key]

theorem Holds.congr (h : Holds m pid i n) (hsame : m'.cache.buf i = m.cache.buf i) :
    Holds m' pid i n := by
  constructor
  · exact h.lt
  · rw [hsame]
    exact h.key
  · rw [hsame]
    exact h.lock
  · rw [hsame]
    exact h.valid

theorem Holds.set (h : Holds m pid i n) (disk : Nat -> Block)
    (hkey : b.key = (m.cache.buf j).key) (hlock : b.lock = (m.cache.buf j).lock)
    (hvalid : b.valid = (m.cache.buf j).valid) :
    Holds { disk := disk, cache := m.cache.set j b } pid i n := by
  constructor
  · exact h.lt
  · exact (set_field Buf.key m.cache hkey i).trans h.key
  · exact (set_field Buf.lock m.cache hlock i).trans h.lock
  · exact (set_field Buf.valid m.cache hvalid i).trans h.valid

def KeepsKeys (m m' : Mem) (ks : List Nat) : Prop :=
  forall j k, j < NBUF -> k ∈ ks -> (m.cache.buf j).key = blockKey k ->
    (m'.cache.buf j).key = blockKey k

theorem KeepsKeys.trans {m'' : Mem} {ks : List Nat} (h : KeepsKeys m m' ks)
    (h' : KeepsKeys m' m'' ks) : KeepsKeys m m'' ks := by
  intro j k hj hk hkey
  exact h' j k hj hk (h j k hj hk hkey)

theorem KeepsKeys.mono {ks ks' : List Nat} (h : KeepsKeys m m' ks')
    (hsub : forall k, k ∈ ks -> k ∈ ks') : KeepsKeys m m' ks := by
  intro j k hj hk hkey
  exact h j k hj (hsub k hk) hkey

theorem keepsKeys_of_key_eq (ks : List Nat)
    (h : forall j, (m'.cache.buf j).key = (m.cache.buf j).key) : KeepsKeys m m' ks := by
  intro j k _ _ hkey
  rw [h j]
  exact hkey

/-!
## `bget`

Finding or recycling a buffer takes a reference.  A pinned block is never the
one that is recycled.
-/

section

variable (h : Ok m users pins view) (hget : bget m.cache ROOTDEV n = .ok (c, i))
include h hget

theorem bget_pinned_ne {k : Nat} (hj : j < NBUF)
    (hk : k ∈ users ++ pins) (hkey : (m.cache.buf j).key = blockKey k) (hkn : k ≠ n) :
    j ≠ i := by
  intro heq
  subst heq
  rcases bget_cases h.inv.lru_perm hget with ⟨_, ⟨hkey', _⟩ | ⟨_, hfree, _⟩⟩
  · apply hkn
    apply blockKey_injective
    rw [← hkey, hkey']
    rfl
  · rw [h.inv.refcnt_eq j hj, hkey, List.count_eq_zero] at hfree
    exact hfree (List.mem_map_of_mem hk)

theorem bget_lock (j : Nat) :
    (c.buf j).lock = (m.cache.buf j).lock := by
  rcases bget_cases h.inv.lru_perm hget with ⟨_, ⟨_, rfl⟩ | ⟨_, _, rfl⟩⟩
  · exact set_field Buf.lock m.cache (by rfl) j
  · exact set_field Buf.lock m.cache (by rfl) j

theorem bget_key {k : Nat} (hj : j < NBUF)
    (hk : k ∈ users ++ pins) (hkey : (m.cache.buf j).key = blockKey k) :
    (c.buf j).key = blockKey k ∧ (c.buf j).valid = (m.cache.buf j).valid ∧
      (c.buf j).data = (m.cache.buf j).data := by
  by_cases hkn : k = n
  · subst hkn
    rcases bget_cases h.inv.lru_perm hget with ⟨hi, ⟨hkey', rfl⟩ | ⟨hmiss, _, _⟩⟩
    · have hji : j = i := h.index_unique hj hi hkey hkey'
      subst hji
      rw [set_buf_self]
      exact ⟨hkey, rfl, rfl⟩
    · exact absurd hkey (hmiss j hj)
  · have hji := bget_pinned_ne h hget hj hk hkey hkn
    rw [bget_of_ne h.inv hget hji]
    exact ⟨hkey, rfl, rfl⟩

theorem bget_ok :
    Ok { m with cache := c } (n :: users) pins view := by
  have hinv := bget_inv h.inv (by decide) hget
  constructor
  · exact hinv.left
  · intro j hj hlock
    change (c.buf j).lock ≠ none at hlock
    rw [bget_lock h hget] at hlock
    rcases h.lock_users j hj hlock with ⟨k, hk, hkey, hvalid⟩
    have hsame := bget_key h hget hj (List.mem_append_left pins hk) hkey
    exact ⟨k, List.mem_cons_of_mem n hk, hsame.left, hsame.right.left.trans hvalid⟩
  · intro j k hj hkey hvalid
    change (c.buf j).key = blockKey k at hkey
    change (c.buf j).valid = true at hvalid
    change (c.buf j).data = view k
    by_cases hji : j = i
    · subst hji
      rcases bget_cases h.inv.lru_perm hget with ⟨_, ⟨_, rfl⟩ | ⟨_, _, rfl⟩⟩
      · rw [set_buf_self] at hkey hvalid ⊢
        exact h.clean j k hj hkey hvalid
      · rw [set_buf_self] at hvalid
        cases hvalid
    · rw [bget_of_ne h.inv hget hji] at hkey hvalid ⊢
      exact h.clean j k hj hkey hvalid
  · exact h.fresh
  · intro k hk
    rcases h.pinned k hk with ⟨j, hj, hjk, hjv⟩
    have hsame := bget_key h hget hj (List.mem_append_right users hk) hjk
    exact ⟨j, hj, hsame.left, hsame.right.left.trans hjv⟩

end

/-!
## Locking and filling a referenced buffer
-/

theorem acquire_eq_some (h : acquire c pid i = some c') :
    (c.buf i).lock = none ∧ c' = c.set i { c.buf i with lock := some pid } := by
  unfold acquire at h
  cases hlock : (c.buf i).lock with
  | some p =>
    simp [hlock] at h
  | none =>
    simp only [hlock, Option.some.injEq] at h
    exact ⟨rfl, h.symm⟩

theorem fill_acquire (disk : Nat -> Block) (h : acquire c pid i = some c') :
    fill c' disk i = c.set i { c.buf i with
      lock := some pid
      valid := true
      data := if (c.buf i).valid then (c.buf i).data else disk (c.buf i).blockno } := by
  rcases acquire_eq_some h with ⟨_, rfl⟩
  unfold fill
  by_cases hv : (c.buf i).valid = true
  · simp [hv]
  · simp [hv, Bcache.set]

theorem fill_acquire_key (disk : Nat -> Block) (h : acquire c pid i = some c')
    (j : Nat) : ((fill c' disk i).buf j).key = (c.buf j).key := by
  rw [fill_acquire disk h]
  exact set_field Buf.key c (by rfl) j

theorem lock_holds (hi : i < NBUF) (hkey : (m.cache.buf i).key = blockKey n)
    (hacq : acquire m.cache pid i = some c) :
    Holds { m with cache := fill c m.disk i } pid i n := by
  rw [fill_acquire m.disk hacq]
  exact
    { lt := hi
      key := by rw [set_buf_self]; exact hkey
      lock := by rw [set_buf_self]
      valid := by rw [set_buf_self] }

theorem lock_ok (h : Ok m users pins view) (hi : i < NBUF)
    (hkey : (m.cache.buf i).key = blockKey n) (hn : n ∈ users)
    (hacq : acquire m.cache pid i = some c) :
    Ok { m with cache := fill c m.disk i } users pins view := by
  rw [fill_acquire m.disk hacq]
  have hdata : (if (m.cache.buf i).valid then (m.cache.buf i).data
      else m.disk (m.cache.buf i).blockno) = view n := by
    by_cases hv : (m.cache.buf i).valid = true
    · rw [if_pos hv]
      exact h.clean i n hi hkey hv
    · rw [if_neg hv, key_blockno hkey]
      apply h.fresh
      intro hpin
      rcases h.pinned n hpin with ⟨j, hj, hjk, hjv⟩
      rw [h.index_unique hi hj hkey hjk] at hv
      exact hv hjv
  constructor
  · exact h.inv.set_same rfl rfl
  · intro j hj hlock
    by_cases hji : j = i
    · subst hji
      rw [set_buf_self]
      exact ⟨n, hn, hkey, rfl⟩
    · rw [set_buf_of_ne _ _ hji] at hlock ⊢
      exact h.lock_users j hj hlock
  · intro j k hj hjk hvalid
    by_cases hji : j = i
    · subst hji
      rw [set_buf_self] at hjk ⊢
      have hkn : k = n := blockKey_injective (hjk.symm.trans hkey)
      rw [hkn]
      exact hdata
    · rw [set_buf_of_ne _ _ hji] at hjk hvalid ⊢
      exact h.clean j k hj hjk hvalid
  · exact h.fresh
  · intro k hk
    rcases h.pinned k hk with ⟨j, hj, hjk, hjv⟩
    refine ⟨j, hj, (set_field Buf.key m.cache (by rfl) j).trans hjk, ?_⟩
    by_cases hji : j = i
    · rw [hji, set_buf_self]
    · rw [set_buf_of_ne _ _ hji]
      exact hjv

/-!
## `bread`
-/

theorem bread_eq_ok {dev blockno : Nat} (h : bread m pid dev blockno = .ok (m', i)) :
    exists c c', bget m.cache dev blockno = .ok (c, i) ∧ acquire c pid i = some c' ∧
      m' = { m with cache := fill c' m.disk i } := by
  unfold bread at h
  cases hget : bget m.cache dev blockno with
  | error p =>
    rw [hget] at h
    cases h
  | ok r =>
    rcases r with ⟨c, j⟩
    simp only [hget] at h
    cases hacq : acquire c pid j with
    | none =>
      simp only [hacq] at h
      cases h
    | some c' =>
      simp only [hacq] at h
      cases h
      exact ⟨c, c', rfl, hacq, rfl⟩

theorem bread_disk {dev blockno : Nat} (h : bread m pid dev blockno = .ok (m', i)) :
    m'.disk = m.disk := by
  rcases bread_eq_ok h with ⟨_, _, _, _, rfl⟩
  rfl

section

variable (h : Ok m users pins view)
include h

theorem bread_holds (hread : bread m pid ROOTDEV n = .ok (m', i)) :
    Holds m' pid i n := by
  rcases bread_eq_ok hread with ⟨c, c', hget, hacq, rfl⟩
  have hinv := bget_inv h.inv (by decide) hget
  exact lock_holds (m := { m with cache := c }) hinv.right.left hinv.right.right hacq

theorem bread_ok (hread : bread m pid ROOTDEV n = .ok (m', i)) :
    Ok m' (n :: users) pins view := by
  rcases bread_eq_ok hread with ⟨c, c', hget, hacq, rfl⟩
  have hinv := bget_inv h.inv (by decide) hget
  exact lock_ok (m := { m with cache := c }) (bget_ok h hget) hinv.right.left
    hinv.right.right List.mem_cons_self hacq

theorem bread_data (hread : bread m pid ROOTDEV n = .ok (m', i)) :
    (m'.cache.buf i).data = view n := by
  have hhold := bread_holds h hread
  exact (bread_ok h hread).clean i n hhold.lt hhold.key hhold.valid

theorem Holds.bread (hold : Holds m pid' j n')
    (hread : bread m pid ROOTDEV n = .ok (m', i)) : Holds m' pid' j n' := by
  rcases bread_eq_ok hread with ⟨c, c', hget, hacq, rfl⟩
  have hlock : (c.buf j).lock = some pid' := by
    rw [bget_lock h hget]
    exact hold.lock
  have hji : j ≠ i := by
    intro heq
    subst heq
    rw [(acquire_eq_some hacq).left] at hlock
    cases hlock
  apply hold.congr
  rw [fill_acquire m.disk hacq, set_buf_of_ne _ _ hji, bget_of_ne h.inv hget hji]

theorem bread_keepsKeys (hread : bread m pid ROOTDEV n = .ok (m', i)) : KeepsKeys m m' users := by
  rcases bread_eq_ok hread with ⟨c, c', hget, hacq, rfl⟩
  intro j k hj hk hkey
  rw [fill_acquire_key m.disk hacq]
  exact (bget_key h hget hj (List.mem_append_left pins hk) hkey).left

end

/-!
## Writing a held buffer through to the disk
-/

theorem bwrite_setData_eq (hold : Holds m pid i n) (v : Block) :
    bwrite (setData m i v) pid i =
      .ok { disk := update m.disk n v
            cache := m.cache.set i { m.cache.buf i with data := v } } := by
  have hblock := key_blockno hold.key
  simp [bwrite, setData, hold.lock, hblock]

theorem Holds.setData (hold : Holds m pid' j n')
    (hwrite : bwrite (Log.setData m i v) pid i = .ok m') (hi : Holds m pid i n) :
    Holds m' pid' j n' := by
  rw [bwrite_setData_eq hi] at hwrite
  cases hwrite
  exact hold.set _ rfl rfl rfl

theorem setData_ok (h : Ok m users pins view) (hold : Holds m pid i n)
    (disk : Nat -> Block) (v : Block) (hfresh : forall k, k ∉ pins -> disk k = update view n v k) :
    Ok { disk := disk, cache := m.cache.set i { m.cache.buf i with data := v } }
      users pins (update view n v) := by
  refine h.congr (h.inv.set_same rfl rfl) (set_field Buf.key m.cache (by rfl))
    (set_field Buf.lock m.cache (by rfl)) (set_field Buf.valid m.cache (by rfl)) ?_ hfresh h.pinned
  intro j k hj hkey hvalid
  by_cases hji : j = i
  · subst hji
    have hkn : k = n := blockKey_injective (by rw [← hkey, hold.key])
    rw [hkn]
    simp
  · have hkn : k ≠ n := by
      intro heq
      subst heq
      exact hji (h.index_unique hj hold.lt hkey hold.key)
    simp only [set_buf_of_ne _ _ hji, update_of_ne hkn]
    exact h.clean j k hj hkey hvalid

theorem bwrite_setData_ok (h : Ok m users pins view) (hold : Holds m pid i n)
    (hwrite : bwrite (setData m i v) pid i = .ok m') :
    Ok m' users pins (update view n v) ∧
      m'.disk = update m.disk n v := by
  rw [bwrite_setData_eq hold] at hwrite
  cases hwrite
  refine ⟨setData_ok h hold _ v ?_, rfl⟩
  intro k hk
  by_cases hkn : k = n
  · rw [hkn, update_self, update_self]
  · rw [update_of_ne hkn, update_of_ne hkn]
    exact h.fresh k hk

theorem bwrite_setData_keepsKeys (hold : Holds m pid i n) (ks : List Nat)
    (hwrite : bwrite (setData m i v) pid i = .ok m') : KeepsKeys m m' ks := by
  rw [bwrite_setData_eq hold] at hwrite
  cases hwrite
  exact keepsKeys_of_key_eq ks (set_field Buf.key m.cache (by rfl))

/-!
## Dropping references
-/

theorem map_blockKey_erase (l : List Nat) (n : Nat) :
    (l.map blockKey).erase (blockKey n) = (l.erase n).map blockKey :=
  (List.map_erase blockKey_injective l).symm

theorem release_eq (hold : Holds m pid i n) :
    exists c, release m pid i = .ok { m with cache := c } ∧
      (c = m.cache.set i { m.cache.buf i with
          lock := none, refcnt := (m.cache.buf i).refcnt - 1 } ∨
        c = (m.cache.set i { m.cache.buf i with
          lock := none, refcnt := (m.cache.buf i).refcnt - 1 }).moveToFront i) := by
  unfold release brelse
  rw [if_pos hold.lock]
  by_cases hzero : (m.cache.buf i).refcnt - 1 = 0
  · exact ⟨_, by simp [hzero], Or.inr rfl⟩
  · exact ⟨_, by simp [hzero], Or.inl rfl⟩

theorem release_buf (hold : Holds m pid i n) (hrel : release m pid i = .ok m') :
    m'.disk = m.disk ∧ m'.cache.buf = (m.cache.set i { m.cache.buf i with
      lock := none, refcnt := (m.cache.buf i).refcnt - 1 }).buf := by
  rcases release_eq hold with ⟨c, heq, hc⟩
  rw [heq] at hrel
  cases hrel
  rcases hc with rfl | rfl
  · exact ⟨rfl, rfl⟩
  · exact ⟨rfl, rfl⟩

theorem release_inv (h : Ok m users pins view) (hold : Holds m pid i n) (hn : n ∈ users)
    (hrel : release m pid i = .ok m') :
    Inv m'.cache ((users.erase n ++ pins).map blockKey) := by
  have hdrop : Inv (m.cache.set i { m.cache.buf i with
      lock := none, refcnt := (m.cache.buf i).refcnt - 1 })
      ((users.erase n ++ pins).map blockKey) := by
    have hmem : (m.cache.buf i).key ∈ (users ++ pins).map blockKey := by
      rw [hold.key]
      exact List.mem_map_of_mem (List.mem_append_left pins hn)
    have hinv := h.inv.drop hold.lt hmem (b := { m.cache.buf i with
      lock := none, refcnt := (m.cache.buf i).refcnt - 1 }) rfl rfl
    rw [hold.key, map_blockKey_erase, List.erase_append_left _ hn] at hinv
    exact hinv
  rcases release_eq hold with ⟨c, heq, hc⟩
  rw [heq] at hrel
  cases hrel
  rcases hc with rfl | rfl
  · exact hdrop
  · exact hdrop.moveToFront hold.lt

theorem Holds.release (hold : Holds m pid' j n') (hi : Holds m pid i n) (hne : n' ≠ n)
    (hrel : Log.release m pid i = .ok m') : Holds m' pid' j n' := by
  apply hold.congr
  rw [(release_buf hi hrel).right]
  exact set_buf_of_ne _ _ (hold.index_ne hi hne)

theorem release_ok (h : Ok m users pins view) (hold : Holds m pid i n)
    (hn : n ∈ users) (hrel : release m pid i = .ok m') :
    Ok m' (users.erase n) pins view ∧ m'.disk = m.disk := by
  rcases release_buf hold hrel with ⟨hdisk, hbuf⟩
  refine ⟨?_, hdisk⟩
  constructor
  · exact release_inv h hold hn hrel
  · intro j hj hlock
    have hji : j ≠ i := by
      intro heq
      rw [hbuf, heq, set_buf_self] at hlock
      exact hlock rfl
    rw [hbuf, set_buf_of_ne _ _ hji] at hlock ⊢
    rcases h.lock_users j hj hlock with ⟨k, hk, hkey, hvalid⟩
    have hkn : k ≠ n := by
      intro heq
      subst heq
      exact hji (h.index_unique hj hold.lt hkey hold.key)
    exact ⟨k, (List.mem_erase_of_ne hkn).mpr hk, hkey, hvalid⟩
  · intro j k hj hkey hvalid
    rw [hbuf] at hkey hvalid ⊢
    exact (set_field Buf.data m.cache (by rfl) j).trans (h.clean j k hj
      ((set_field Buf.key m.cache (by rfl) j).symm.trans hkey)
      ((set_field Buf.valid m.cache (by rfl) j).symm.trans hvalid))
  · intro k hk
    rw [hdisk]
    exact h.fresh k hk
  · intro k hk
    rcases h.pinned k hk with ⟨j, hj, hjk, hjv⟩
    rw [hbuf]
    exact ⟨j, hj, (set_field Buf.key m.cache (by rfl) j).trans hjk,
      (set_field Buf.valid m.cache (by rfl) j).trans hjv⟩

theorem release_keepsKeys (hold : Holds m pid i n) (ks : List Nat)
    (hrel : release m pid i = .ok m') : KeepsKeys m m' ks := by
  apply keepsKeys_of_key_eq
  intro j
  rw [(release_buf hold hrel).right]
  exact set_field Buf.key m.cache (by rfl) j

theorem unpin_keepsKeys (m : Mem) (i : Nat) (ks : List Nat) :
    KeepsKeys m (unpin m i) ks :=
  keepsKeys_of_key_eq ks (set_field Buf.key m.cache (by rfl))

theorem Holds.unpin (hold : Holds m pid j n) : Holds (Log.unpin m i) pid j n :=
  hold.set _ rfl rfl rfl

theorem unpin_ok (h : Ok m users (n :: pins) view) (hold : Holds m pid i n)
    (hdisk : m.disk n = view n) :
    Ok (unpin m i) users pins view := by
  have hperm : ((users ++ n :: pins).map blockKey).Perm
      (blockKey n :: (users ++ pins).map blockKey) :=
    (List.perm_middle.map blockKey)
  have hdrop : Inv (bunpin m.cache i) ((users ++ pins).map blockKey) := by
    have hinv := (h.inv.perm hperm).drop hold.lt (by rw [hold.key]; exact List.mem_cons_self)
      (b := { m.cache.buf i with refcnt := (m.cache.buf i).refcnt - 1 }) rfl rfl
    rw [hold.key, List.erase_cons_head] at hinv
    exact hinv
  refine h.congr hdrop (set_field Buf.key m.cache (by rfl)) (set_field Buf.lock m.cache (by rfl))
    (set_field Buf.valid m.cache (by rfl)) ?_ ?_ ?_
  · intro j k hj hkey hvalid
    exact (set_field Buf.data m.cache (by rfl) j).trans (h.clean j k hj hkey hvalid)
  · intro k hk
    by_cases hkn : k = n
    · rw [hkn]
      exact hdisk
    · exact h.fresh k (by simp [hkn, hk])
  · intro k hk
    exact h.pinned k (List.mem_cons_of_mem n hk)

theorem Ok.perm_users {users' : List Nat} (h : Ok m users pins view)
    (hperm : users.Perm users') : Ok m users' pins view := by
  refine { h with inv := ?_, lock_users := fun i hi hlock => ?_ }
  · exact h.inv.perm ((hperm.append_right pins).map blockKey)
  · rcases h.lock_users i hi hlock with ⟨n, hn, hrest⟩
    exact ⟨n, hperm.mem_iff.mp hn, hrest⟩

/-!
## Pinning
-/

theorem bpin_fields (c : Bcache) (i j : Nat) :
    ((bpin c i).buf j).key = (c.buf j).key ∧
      ((bpin c i).buf j).lock = (c.buf j).lock ∧
      ((bpin c i).buf j).valid = (c.buf j).valid ∧
      ((bpin c i).buf j).data = (c.buf j).data :=
  ⟨set_field Buf.key c (by rfl) j, set_field Buf.lock c (by rfl) j,
    set_field Buf.valid c (by rfl) j,
    set_field Buf.data c (by rfl) j⟩

theorem Holds.bpin (hold : Holds m pid j n) :
    Holds { m with cache := Bio.bpin m.cache i } pid j n :=
  hold.set _ rfl rfl rfl

theorem bpin_ok (h : Ok m users pins view) (hold : Holds m pid i n) :
    Ok { m with cache := bpin m.cache i } users (pins ++ [n]) view := by
  have hperm : (blockKey n :: (users ++ pins).map blockKey).Perm
      ((users ++ (pins ++ [n])).map blockKey) := by
    rw [← List.append_assoc]
    exact (List.perm_append_singleton n (users ++ pins)).symm.map blockKey
  have htake := h.inv.take hold.lt (key_dev hold.key)
    (b := { m.cache.buf i with refcnt := (m.cache.buf i).refcnt + 1 }) rfl rfl
  rw [hold.key] at htake
  refine h.congr (htake.perm hperm) (set_field Buf.key m.cache (by rfl))
    (set_field Buf.lock m.cache (by rfl)) (set_field Buf.valid m.cache (by rfl)) ?_ ?_ ?_
  · intro j k hj hkey hvalid
    exact (set_field Buf.data m.cache (by rfl) j).trans (h.clean j k hj hkey hvalid)
  · intro k hk
    exact h.fresh k (fun hmem => hk (List.mem_append_left [n] hmem))
  · intro k hk
    rcases List.mem_append.mp hk with hold' | hnew
    · exact h.pinned k hold'
    · rw [List.mem_singleton.mp hnew]
      exact ⟨i, hold.lt, hold.key, hold.valid⟩

/-!
## The bodies of the loops

Each body has one disk write; the references it takes are dropped again.
-/

theorem bread_two {m1 m2 : Mem} {a b x y : Nat} (h : Ok m users pins view)
    (ha : bread m pid ROOTDEV a = .ok (m1, x)) (hb : bread m1 pid ROOTDEV b = .ok (m2, y)) :
    Ok m2 (b :: a :: users) pins view ∧ Holds m2 pid x a ∧ Holds m2 pid y b ∧
      m2.disk = m.disk ∧ KeepsKeys m m2 users := by
  have h1 := bread_ok h ha
  refine ⟨bread_ok h1 hb, (bread_holds h ha).bread h1 hb, bread_holds h1 hb, ?_, ?_⟩
  · rw [bread_disk hb, bread_disk ha]
  · exact (bread_keepsKeys h ha).trans
      ((bread_keepsKeys h1 hb).mono fun k hk => List.mem_cons_of_mem a hk)

theorem release_two {m1 m2 : Mem} {a b x y : Nat} (h : Ok m (a :: b :: users) pins view)
    (ha : Holds m pid x a) (hb : Holds m pid y b) (hne : b ≠ a)
    (hx : release m pid x = .ok m1) (hy : release m1 pid y = .ok m2) :
    Ok m2 users pins view ∧ m2.disk = m.disk ∧ KeepsKeys m m2 users := by
  have h1 := release_ok h ha List.mem_cons_self hx
  rw [List.erase_cons_head] at h1
  have hb1 := hb.release ha hne hx
  have h2 := release_ok h1.left hb1 List.mem_cons_self hy
  rw [List.erase_cons_head] at h2
  exact ⟨h2.left, h2.right.trans h1.right,
    (release_keepsKeys ha users hx).trans (release_keepsKeys hb1 users hy)⟩

theorem writeLogBody_ok (h : Ok m users pins view)
    (hdev : log.dev = ROOTDEV) (hne : log.lh.getD tail 0 ≠ log.start + tail + 1)
    (hbody : writeLogBody pid log m tail = .ok m') :
    Ok m' users pins
        (update view (log.start + tail + 1) (view (log.lh.getD tail 0))) ∧
      m'.disk = update m.disk (log.start + tail + 1)
        (view (log.lh.getD tail 0)) ∧
      KeepsKeys m m' users := by
  unfold writeLogBody at hbody
  rw [hdev] at hbody
  rcases bind_eq_ok.mp hbody with ⟨⟨m1, dst⟩, hdst, hbody⟩
  rcases bind_eq_ok.mp hbody with ⟨⟨m2, src⟩, hsrc, hbody⟩
  rcases bind_eq_ok.mp hbody with ⟨m3, hwrite, hbody⟩
  rcases bind_eq_ok.mp hbody with ⟨m4, hrel, hrel'⟩
  rcases bread_two h hdst hsrc with ⟨h2, hholdDst, hholdSrc, hdisk2, hkeys2⟩
  unfold copyData at hwrite
  rw [h2.clean src _ hholdSrc.lt hholdSrc.key hholdSrc.valid] at hwrite
  rcases bwrite_setData_ok h2 hholdDst hwrite with ⟨h3, hdisk3⟩
  rcases release_two h3 (hholdSrc.setData hwrite hholdDst) (hholdDst.setData hwrite hholdDst)
    hne.symm hrel hrel' with ⟨h5, hdisk5, hkeys5⟩
  refine ⟨h5, ?_, ?_⟩
  · rw [hdisk5, hdisk3, hdisk2]
  · exact (hkeys2.trans (bwrite_setData_keepsKeys hholdDst users hwrite)).trans hkeys5

theorem installBody_write {recovering : Bool} (h : Ok m users pins view) (hdev : log.dev = ROOTDEV)
    (hbody : installBody pid recovering log m tail = .ok m') :
    exists m3 lbuf dbuf m4,
      Ok m3 ((log.start + tail + 1) :: log.lh.getD tail 0 :: users) pins
        (update view (log.lh.getD tail 0) (view (log.start + tail + 1))) ∧
      Holds m3 pid lbuf (log.start + tail + 1) ∧ Holds m3 pid dbuf (log.lh.getD tail 0) ∧
      m3.disk = update m.disk (log.lh.getD tail 0) (view (log.start + tail + 1)) ∧
      KeepsKeys m m3 users ∧
      release (if recovering then m3 else unpin m3 dbuf) pid lbuf = .ok m4 ∧
      release m4 pid dbuf = .ok m' := by
  unfold installBody at hbody
  rw [hdev] at hbody
  rcases bind_eq_ok.mp hbody with ⟨⟨m1, lbuf⟩, hlbuf, hbody⟩
  rcases bind_eq_ok.mp hbody with ⟨⟨m2, dbuf⟩, hdbuf, hbody⟩
  rcases bind_eq_ok.mp hbody with ⟨m3, hwrite, hbody⟩
  rcases bind_eq_ok.mp hbody with ⟨m4, hrel, hrel'⟩
  rcases bread_two h hlbuf hdbuf with ⟨h2, hholdL, hholdD, hdisk2, hkeys2⟩
  unfold copyData at hwrite
  rw [h2.clean lbuf _ hholdL.lt hholdL.key hholdL.valid] at hwrite
  rcases bwrite_setData_ok h2 hholdD hwrite with ⟨h3, hdisk3⟩
  exact ⟨m3, lbuf, dbuf, m4, h3.perm_users (List.Perm.swap _ _ _),
    hholdL.setData hwrite hholdD, hholdD.setData hwrite hholdD, by rw [hdisk3, hdisk2],
    hkeys2.trans (bwrite_setData_keepsKeys hholdD users hwrite), hrel, hrel'⟩

/-!
During a commit the home block is pinned and the log block holds the contents
already seen by readers; the write makes the disk catch up and the pin goes.
-/

theorem installBody_commit_ok
    (h : Ok m users (log.lh.getD tail 0 :: pins) view) (hdev : log.dev = ROOTDEV)
    (hne : log.lh.getD tail 0 ≠ log.start + tail + 1)
    (hview : view (log.start + tail + 1) = view (log.lh.getD tail 0))
    (hbody : installBody pid false log m tail = .ok m') :
    Ok m' users pins view ∧
      m'.disk = update m.disk (log.lh.getD tail 0)
        (view (log.lh.getD tail 0)) ∧
      KeepsKeys m m' users := by
  rcases installBody_write h hdev hbody with
    ⟨m3, lbuf, dbuf, m4, h3, hholdL, hholdD, hdisk3, hkeys3, hrel, hrel'⟩
  rw [hview] at h3 hdisk3
  rw [update_eq_self] at h3
  have hunpin := unpin_ok h3 hholdD (by rw [hdisk3, update_self])
  rcases release_two hunpin hholdL.unpin hholdD.unpin hne hrel hrel' with ⟨h5, hdisk5, hkeys5⟩
  exact ⟨h5, hdisk5.trans hdisk3, (hkeys3.trans (unpin_keepsKeys m3 dbuf users)).trans hkeys5⟩

section

variable (h : Ok m users pins view) (hdev : log.dev = ROOTDEV)
include h hdev

theorem installBody_recover_ok (hne : log.lh.getD tail 0 ≠ log.start + tail + 1)
    (hbody : installBody pid true log m tail = .ok m') :
    Ok m' users pins
        (update view (log.lh.getD tail 0) (view (log.start + tail + 1))) ∧
      m'.disk = update m.disk (log.lh.getD tail 0)
        (view (log.start + tail + 1)) ∧
      KeepsKeys m m' users := by
  rcases installBody_write h hdev hbody with
    ⟨m3, lbuf, dbuf, m4, h3, hholdL, hholdD, hdisk3, hkeys3, hrel, hrel'⟩
  rcases release_two h3 hholdL hholdD hne hrel hrel' with ⟨h5, hdisk5, hkeys5⟩
  exact ⟨h5, hdisk5.trans hdisk3, hkeys3.trans hkeys5⟩

theorem writeHead_ok (hwrite : writeHead pid log m = .ok m') :
    Ok m' users pins
        (update view log.start (putHead (view log.start) log.lh)) ∧
      m'.disk = update m.disk log.start (putHead (view log.start) log.lh) ∧
      KeepsKeys m m' users := by
  unfold writeHead at hwrite
  rw [hdev] at hwrite
  rcases bind_eq_ok.mp hwrite with ⟨⟨m1, buf⟩, hbuf, hwrite⟩
  rcases bind_eq_ok.mp hwrite with ⟨m2, hput, hrel⟩
  have hhold := bread_holds h hbuf
  rw [bread_data h hbuf] at hput
  have h2 := bwrite_setData_ok (bread_ok h hbuf) hhold hput
  have hhold2 := hhold.setData hput hhold
  have h3 := release_ok h2.left hhold2 List.mem_cons_self hrel
  rw [List.erase_cons_head] at h3
  refine ⟨h3.left, ?_, ?_⟩
  · rw [h3.right, h2.right, bread_disk hbuf]
  · exact ((bread_keepsKeys h hbuf).trans (bwrite_setData_keepsKeys hhold users hput)).trans
      (release_keepsKeys hhold2 users hrel)

theorem readHead_ok {log' : LogState} (hread : readHead pid log m = .ok (log', m')) :
    Ok m' users pins view ∧ m'.disk = m.disk ∧
      log' = { log with lh := readHeadBlock (view log.start) } ∧ KeepsKeys m m' users := by
  unfold readHead at hread
  rw [hdev] at hread
  rcases bind_eq_ok.mp hread with ⟨⟨m1, buf⟩, hbuf, hread⟩
  rcases bind_eq_ok.mp hread with ⟨m2, hrel, hret⟩
  have hhold := bread_holds h hbuf
  have h2 := release_ok (bread_ok h hbuf) hhold List.mem_cons_self hrel
  rw [List.erase_cons_head] at h2
  rw [bread_data h hbuf] at hret
  cases hret
  exact ⟨h2.left, h2.right.trans (bread_disk hbuf), by rw [hdev],
    (bread_keepsKeys h hbuf).trans (release_keepsKeys hhold users hrel)⟩

end

end

end Log
end Xv6
