import Xv6.Log.System

/-!
# Processes in front of the cache

What the steps of the users of the cache do to the contents that readers see.
-/

namespace Xv6
namespace Log

open Lib Function
open Bio

/-- Every user refers to a buffer of its block, and readers see `view`. -/
structure Served (s : Sys) (pins : List Nat) (view : Nat -> Block) : Prop where
  users_key : forall u, u ∈ s.users ->
    u.buf < NBUF ∧ (s.cache.buf u.buf).key = blockKey u.blockno
  ok : Ok s.mem (s.users.map User.blockno) pins view

section

variable {s : Sys} {pins : List Nat} {view : Nat -> Block}

variable {u : User} {c : Bcache}

theorem Served.users_mem (_ : Served s pins view) (hu : u ∈ s.users) :
    u.blockno ∈ s.users.map User.blockno :=
  List.mem_map_of_mem hu

theorem Served.bget (h : Served s pins view) (pid : Nat) {n i : Nat}
    (hget : bget s.cache ROOTDEV n = .ok (c, i)) :
    Served { s with cache := c, users := { pid := pid, buf := i, blockno := n } :: s.users }
      pins view := by
  refine { users_key := fun u hu => ?_, ok := bget_ok h.ok hget }
  rcases List.mem_cons.mp hu with rfl | hold
  · exact (bget_inv h.ok.inv (by decide) hget).right
  · have hkey := h.users_key u hold
    exact ⟨hkey.left, (bget_key h.ok hget hkey.left
      (List.mem_append_left _ (h.users_mem hold)) hkey.right).left⟩

theorem Served.lock (h : Served s pins view) (hu : u ∈ s.users)
    (hacq : acquire s.cache u.pid u.buf = some c) :
    Served { s with cache := fill c s.disk u.buf } pins view := by
  refine { users_key := fun w hw => ?_, ok := ?_ }
  · rw [fill_acquire_key s.disk hacq]
    exact h.users_key w hw
  · have hkey := h.users_key u hu
    exact lock_ok h.ok hkey.left hkey.right (h.users_mem hu) hacq

theorem Served.holds (h : Served s pins view) (hu : u ∈ s.users)
    (hlock : (s.cache.buf u.buf).lock = some u.pid) :
    Holds s.mem u.pid u.buf u.blockno := by
  have hkey := h.users_key u hu
  rcases h.ok.lock_users u.buf hkey.left (by
    change (s.cache.buf u.buf).lock ≠ none
    rw [hlock]
    simp) with ⟨_, _, _, hvalid⟩
  exact { lt := hkey.left, key := hkey.right, lock := hlock, valid := hvalid }

theorem map_erase_perm {us : List User} (hu : u ∈ us) :
    ((us.map User.blockno).erase u.blockno).Perm ((us.erase u).map User.blockno) := by
  have hperm : (us.map User.blockno).Perm (u.blockno :: (us.erase u).map User.blockno) :=
    (List.perm_cons_erase hu).map User.blockno
  have herase := hperm.erase u.blockno
  rw [List.erase_cons_head] at herase
  exact herase

theorem Served.brelse (h : Served s pins view) (hu : u ∈ s.users)
    (hrel : brelse s.cache u.pid u.buf = .ok c) :
    Served { s with cache := c, users := s.users.erase u } pins view := by
  have hlock : (s.cache.buf u.buf).lock = some u.pid := by
    by_contra hne
    unfold Bio.brelse at hrel
    rw [if_neg hne] at hrel
    cases hrel
  have hhold := h.holds hu hlock
  have hmem := h.users_mem hu
  have hrelease : release s.mem u.pid u.buf = .ok { disk := s.disk, cache := c } := by
    simp only [release, Sys.mem, hrel]
  refine { users_key := fun w hw => ?_, ok := ?_ }
  · have hold := List.mem_of_mem_erase hw
    have hkey := h.users_key w hold
    exact ⟨hkey.left, release_keepsKeys hhold _ hrelease w.buf w.blockno
      hkey.left (h.users_mem hold) hkey.right⟩
  · exact (release_ok h.ok hhold hmem hrelease).left.perm_users (map_erase_perm hu)

theorem set_bpin (c : Bcache) (i : Nat) (v : Block) :
    bpin (c.set i { c.buf i with data := v }) i =
      (bpin c i).set i { (bpin c i).buf i with data := v } := by
  unfold bpin
  simp only [Bcache.set, update_self, update_idem]

theorem Served.logWrite (h : Served s s.op.log.lh view) {v : Block}
    {log : LogState} {fresh : Bool} (hu : u ∈ s.users)
    (hlock : (s.cache.buf u.buf).lock = some u.pid)
    (hlog : Log.logWrite s.op.log u.blockno = .ok (log, fresh))
    (op : OpState) (pending : List (Nat × Block)) :
    Served
      { s with
        op := op
        cache := if fresh then bpin (setData s.mem u.buf v).cache u.buf
          else (setData s.mem u.buf v).cache
        pending := pending }
      log.lh (update view u.blockno v) := by
  have hhold := h.holds hu hlock
  rcases logWrite_eq_ok hlog with ⟨_, _, hcases⟩
  have hsub : u.blockno ∈ log.lh ∧ forall k, k ∈ s.op.log.lh -> k ∈ log.lh := by
    rcases hcases with ⟨hmem, rfl, _⟩ | ⟨_, rfl, _⟩
    · exact ⟨hmem, fun _ hk => hk⟩
    · exact ⟨List.mem_append_right _ (List.mem_singleton_self _),
        fun k hk => List.mem_append_left _ hk⟩
  have hfresh : forall k, k ∉ log.lh -> s.disk k = update view u.blockno v k := by
    intro k hk
    have hkn : k ≠ u.blockno := by
      intro heq
      rw [heq] at hk
      exact hk hsub.left
    rw [update_of_ne hkn]
    exact h.ok.fresh k (fun hmem => hk (hsub.right k hmem))
  refine { users_key := fun w hw => ?_, ok := ?_ }
  · have hkey := h.users_key w hw
    refine ⟨hkey.left, ?_⟩
    have hset : ((setData s.mem u.buf v).cache.buf w.buf).key = (s.cache.buf w.buf).key :=
      set_field Buf.key s.cache (by rfl) w.buf
    rw [← hkey.right, ← hset]
    cases fresh with
    | true => exact (bpin_fields _ u.buf w.buf).left
    | false => rfl
  · rcases hcases with ⟨hmem, rfl, rfl⟩ | ⟨_, rfl, rfl⟩
    · exact setData_ok h.ok hhold s.disk v hfresh
    · have hset := setData_ok (bpin_ok h.ok hhold) hhold.bpin s.disk v hfresh
      simp only [if_true, setData]
      rw [set_bpin]
      exact hset

theorem Served.keeps {m : Mem} {pins' : List Nat} {view' : Nat -> Block}
    (h : Served s pins view) (hkeys : KeepsKeys s.mem m (s.users.map User.blockno))
    (hok : Ok m (s.users.map User.blockno) pins' view') :
    Served { s with disk := m.disk, cache := m.cache } pins' view' := by
  refine { users_key := fun w hw => ?_, ok := hok }
  have hkey := h.users_key w hw
  exact ⟨hkey.left, hkeys w.buf w.blockno hkey.left (h.users_mem hw) hkey.right⟩

end

end Log
end Xv6
