import Xv6.Fs.Mapping
import Mathlib.Data.Finset.Card
import Mathlib.Data.Finset.Image

/-!
# The contents of a file

`readi` and `writei` on an inode whose blocks are its own and that has no holes.
-/

namespace Xv6
namespace Fs

open Lib Function

namespace Part

/-- Every block below the size is there. -/
def NoHoles (v : Part) : Prop :=
  forall bn, bn * BSIZE < v.d.size -> v.blockAt bn ≠ 0

def bytes (v : Part) (o n : Nat) : List UInt8 :=
  (List.range n).map fun j => v.byte (o + j)

theorem NoHoles.mapped {v : Part} (h : v.NoHoles) {o : Nat} (ho : o < v.d.size) :
    v.blockAt (o / BSIZE) ≠ 0 := by
  refine h _ ?_
  have hle := Nat.div_mul_le_self o BSIZE
  omega

theorem NoHoles.size_le {v : Part} (h : v.NoHoles) : v.d.size <= MAXFILE * BSIZE := by
  by_contra hlt
  refine h MAXFILE (by omega) ?_
  unfold blockAt Dinode.blockAt
  exact dif_neg (Nat.lt_irrefl _)

theorem bytes_append (v : Part) (o m n : Nat) :
    v.bytes o (m + n) = v.bytes o m ++ v.bytes (o + m) n := by
  unfold bytes
  rw [List.range_add, List.map_append, List.map_map]
  congr 1
  refine List.map_congr_left ?_
  intro j _
  exact congrArg v.byte (Nat.add_assoc o m j).symm

theorem slice_eq (v : Part) {off m : Nat} (hm : m <= BSIZE - off % BSIZE) :
    slice (v.data (v.blockAt (off / BSIZE))) (off % BSIZE) m = v.bytes off m := by
  unfold slice bytes
  refine List.map_congr_left ?_
  intro j hj
  rw [List.mem_range] at hj
  change _ = v.data (v.blockAt ((off + j) / BSIZE)) ((off + j) % BSIZE)
  rw [BSIZE_eq] at hm ⊢
  have hdiv : (off + j) / 1024 = off / 1024 := by omega
  have hmod : (off + j) % 1024 = off % 1024 + j := by omega
  rw [hdiv, hmod]

/-!
## Reading

A read looks at the inode and at blocks, so what it returns is the same in every
machine that shows it these.
-/

section

variable {S E : Type} {exec : (a : Act) -> S -> Except E (Ans a × S)} {tol : E -> Prop} {s : S}
  {sb : Superblock} {i : Fin NINODE} {v : Part}

/-- In the state `s` a program sees the inode and the blocks of `v`. -/
structure Shows (sb : Superblock) (i : Fin NINODE) (exec : (a : Act) -> S -> Except E (Ans a × S))
    (s : S) (v : Part) : Prop where
  inode : exec (.getInode i) s = .ok (v.d, s)
  block : forall b, sb.IsData b -> exec (.readBlock b) s = .ok (v.data b, s)

theorem ends_bmap_mapped {bn : Nat} {reading : Bool} (hinode : exec (.getInode i) s = .ok (v.d, s))
    (hblock : v.d.ind ≠ 0 -> exec (.readBlock v.d.ind) s = .ok (v.data v.d.ind, s) ∨
      exists e, exec (.readBlock v.d.ind) s = .error e ∧ tol e)
    (hne : v.blockAt bn ≠ 0) :
    (bmap sb i bn reading).ends exec tol (fun addr s' => addr = v.blockAt bn ∧ s' = s) s := by
  have hbn := blockAt_lt hne
  rw [blockAt_eq_slots hbn] at hne ⊢
  unfold bmap
  split
  · next hdirect =>
      have hslot : Dinode.slotOf bn hbn = .direct ⟨bn, Nat.lt_succ_of_lt hdirect⟩ := dif_pos hdirect
      rw [hslot] at hne ⊢
      change v.d.addrs _ ≠ 0 at hne
      refine Program.ends_act hinode ?_
      rw [if_neg hne]
      exact Program.ends_ret ⟨rfl, rfl⟩
  · next hdirect =>
      have hj : bn - NDIRECT < NINDIRECT := by
        rw [MAXFILE] at hbn
        omega
      have hslot : Dinode.slotOf bn hbn = .entry ⟨bn - NDIRECT, hj⟩ := dif_neg hdirect
      rw [hslot] at hne ⊢
      have hind : v.d.ind ≠ 0 := by
        intro hzero
        exact hne (if_pos hzero)
      have hentry : v.slots (.entry ⟨bn - NDIRECT, hj⟩) =
          entry (v.data v.d.ind) (bn - NDIRECT) := if_neg hind
      rw [hentry] at hne ⊢
      rw [if_pos hj]
      refine Program.ends_act hinode ?_
      have hread := hblock hind
      rw [Dinode.ind] at hind hne hread ⊢
      rw [if_neg hind]
      unfold bmap.bmapIndirect
      rcases hread with hread | ⟨e, hread, he⟩
      · refine Program.ends_act hread ?_
        rw [if_neg hne]
        exact Program.ends_ret ⟨rfl, rfl⟩
      · exact Program.ends_stop hread he

theorem ends_readiLoop {dst : Dst} {n fuel off : Nat} {got : List UInt8}
    (hshows : Shows sb i exec s v) (hdata : forall b, b ∈ v.taken -> sb.IsData b)
    (hmap : forall o, off <= o -> o < off + (n - got.length) -> v.blockAt (o / BSIZE) ≠ 0)
    (hgot : got.length <= n) (hfuel : n - got.length <= fuel) :
    (readiLoop sb i dst n fuel off got).ends exec tol
      (fun r s' => s' = s ∧
        ((forall j, j < n -> dst j = true) ->
          r = ((n : Int), got ++ v.bytes off (n - got.length)))) s := by
  induction fuel generalizing off got with
  | zero =>
    have hlen : got.length = n := by omega
    refine Program.ends_ret ⟨rfl, fun _ => ?_⟩
    rw [hlen, Nat.sub_self]
    exact congrArg (Prod.mk _) (List.append_nil got).symm
  | succ fuel ih =>
    unfold readiLoop
    split
    · next hlt =>
        have hmapped := hmap off (Nat.le_refl _) (by omega)
        refine Program.ends_call (ends_bmap_mapped hshows.inode
          (fun hind => .inl (hshows.block _ (hdata _ (ind_taken hind)))) hmapped) ?_
        rintro addr s1 ⟨rfl, rfl⟩
        rw [if_neg hmapped]
        refine Program.ends_act (hshows.block _ (hdata _ (blockAt_mem hmapped))) ?_
        have hpos : 0 < BSIZE - off % BSIZE := Nat.sub_pos_of_lt (Nat.mod_lt _ (by decide))
        dsimp only
        generalize hm : min (n - got.length) (BSIZE - off % BSIZE) = m
        have hmle : m <= BSIZE - off % BSIZE := hm ▸ Nat.min_le_right _ _
        have hslice := slice_eq v hmle
        rw [hslice]
        have hlen : (v.bytes off m).length = m := by simp [bytes]
        have hnext : (got ++ v.bytes off m).length = got.length + m := by
          rw [List.length_append, hlen]
        split
        · have hrest : forall o, off + m <= o ->
              o < off + m + (n - (got ++ v.bytes off m).length) -> v.blockAt (o / BSIZE) ≠ 0 := by
            intro o hlow hhigh
            exact hmap o (by omega) (by omega)
          refine Program.ends_mono (ih hrest (by omega) (by omega)) ?_
          rintro r s' ⟨rfl, hr⟩
          refine ⟨rfl, fun hall => ?_⟩
          have hsum : n - got.length = m + (n - (got.length + m)) := by omega
          rw [hr hall, hnext, hsum, bytes_append, ← List.append_assoc]
        · next hbad =>
            refine Program.ends_ret ⟨rfl, fun hall => absurd ?_ hbad⟩
            rw [List.all_eq_true]
            intro j hj
            rw [List.mem_range] at hj
            exact hall _ (by omega)
    · next hge =>
        have hlen : got.length = n := by omega
        refine Program.ends_ret ⟨rfl, fun _ => ?_⟩
        rw [hlen, Nat.sub_self]
        exact congrArg (Prod.mk _) (List.append_nil got).symm

/-- The number of bytes that a read of `n` bytes at `off` returns. -/
def count (v : Part) (off n : Nat) : Nat :=
  min (wrap32 (off + n)) v.d.size - off

theorem ends_readi_mapped {dst : Dst} {off n : Nat} (hshows : Shows sb i exec s v)
    (hdata : forall b, b ∈ v.taken -> sb.IsData b)
    (hmap : forall o, off <= o -> o < off + n -> o < v.d.size -> v.blockAt (o / BSIZE) ≠ 0)
    (hn : n < 2 ^ 32) :
    (readi sb i dst off n).ends exec tol
      (fun r s' => s' = s ∧
        ((forall j, j < n -> dst j = true) ->
          r = ((v.count off n : Int), v.bytes off (v.count off n)))) s := by
  unfold readi
  refine Program.ends_act hshows.inode ?_
  split
  · next hbad =>
      have hzero : v.count off n = 0 := by
        unfold count
        omega
      refine Program.ends_ret ⟨rfl, fun _ => ?_⟩
      rw [hzero]
      rfl
  · next hgood =>
      have hwrap : wrap32 (off + n) = off + n := by
        unfold wrap32 at hgood ⊢
        omega
      rw [hwrap] at hgood ⊢
      generalize hlen : (if v.d.size < off + n then v.d.size - off else n) = m
      have hm : m = v.count off n ∧ m <= n ∧ off + m <= v.d.size := by
        unfold count
        rw [hwrap]
        split at hlen <;> omega
      have hrange : forall o, off <= o -> o < off + (m - ([] : List UInt8).length) ->
          v.blockAt (o / BSIZE) ≠ 0 := by
        intro o hlow hhigh
        rw [List.length_nil] at hhigh
        exact hmap o hlow (by omega) (by omega)
      refine Program.ends_mono
        (ends_readiLoop hshows hdata hrange (Nat.zero_le _) (Nat.le_refl _)) ?_
      rintro r s' ⟨rfl, hr⟩
      refine ⟨rfl, fun hall => ?_⟩
      rw [hr fun j hj => hall j (by omega), hm.1]
      rfl

end

section

variable {sb : Superblock} {i : Fin NINODE} {inum : Nat} {others : Bool} {v : Part}

/-!
## The source
-/

theorem readable_length (src : Src) (j m : Nat) : (src.readable j m).length <= m := by
  unfold Src.readable
  refine (List.length_filterMap_le _ _).trans ?_
  refine (List.takeWhile_prefix _).length_le.trans ?_
  rw [List.length_map, List.length_range]

theorem readable_zero (src : Src) (j : Nat) : src.readable j 0 = [] :=
  rfl

theorem readable_succ (src : Src) (j m : Nat) :
    src.readable j (m + 1) =
      match src j with
      | some x => x :: src.readable (j + 1) m
      | none => [] := by
  unfold Src.readable
  rw [List.range_succ_eq_map, List.map_cons, List.map_map]
  cases hsrc : src j with
  | none => rfl
  | some x =>
    have hshift : (fun l => src (j + l)) ∘ Nat.succ = fun l => src (j + 1 + l) := by
      funext l
      change src (j + (l + 1)) = src (j + 1 + l)
      congr 1
      omega
    rw [hshift]
    rfl

theorem readable_spec (src : Src) (j m : Nat) :
    (forall l x, (src.readable j m)[l]? = some x -> src (j + l) = some x) ∧
      ((src.readable j m).length < m -> src (j + (src.readable j m).length) = none) := by
  induction m generalizing j with
  | zero =>
    rw [readable_zero]
    refine ⟨fun l x hx => ?_, fun hlt => absurd hlt (Nat.lt_irrefl _)⟩
    simp at hx
  | succ m ih =>
    rw [readable_succ]
    cases hsrc : src j with
    | none =>
      refine ⟨fun l x hx => ?_, fun _ => hsrc⟩
      simp at hx
    | some y =>
      dsimp only
      rcases ih (j + 1) with ⟨hget, hstop⟩
      constructor
      · intro l x hx
        cases l with
        | zero =>
          cases hx
          exact hsrc
        | succ l =>
          rw [List.getElem?_cons_succ] at hx
          rw [← hget l x hx]
          congr 1
          omega
      · intro hlt
        rw [List.length_cons] at hlt ⊢
        rw [← hstop (by omega)]
        congr 1
        omega

/-!
## Storing into a block
-/

theorem Owned.log (h : v.Owned sb) (b : Nat) : (v.log b).Owned sb :=
  ⟨log_tx h.tx b, h.apart, h.data, h.marked, h.free⟩

variable {need : Slot -> Prop} {off n tot : Nat} {bytes : List UInt8} {src : Src}

theorem Wrote.log {v' : Part}
    (h : Wrote need v v' off bytes) (b : Nat) : Wrote need v (v'.log b) off bytes :=
  ⟨h.fields, h.kept, h.fresh, h.bitmap, h.apart, h.mapped, h.byte⟩

theorem Owned.write (h : v.Owned sb) (need : Slot -> Prop)
    (hne : v.blockAt (off / BSIZE) ≠ 0) (hfit : off % BSIZE + bytes.length <= BSIZE) :
    (v.store (v.blockAt (off / BSIZE))
        (Sys.overwrite (v.data (v.blockAt (off / BSIZE))) (off % BSIZE) bytes)).Owned sb ∧
      Wrote need v (v.store (v.blockAt (off / BSIZE))
        (Sys.overwrite (v.data (v.blockAt (off / BSIZE))) (off % BSIZE) bytes)) off bytes := by
  generalize haddr : v.blockAt (off / BSIZE) = addr at hne
  have hnotind : v.d.ind ≠ addr := by
    rw [← haddr] at hne ⊢
    exact (h.blockAt_ne_ind hne).symm
  generalize hv : v.store addr (Sys.overwrite (v.data addr) (off % BSIZE) bytes) = v'
  have hslots : v'.slots = v.slots := by
    rw [← hv]
    exact slots_congr fun _ => update_of_ne hnotind _ _
  have htaken : v'.taken = v.taken := by
    change Taken v'.slots = Taken v.slots
    rw [hslots]
  have hbitmap : v'.bitmap = v.bitmap := by
    rw [← hv]
    rfl
  have hblock : forall bn, v'.blockAt bn = v.blockAt bn := by
    intro bn
    change (if h : bn < MAXFILE then v'.slots (Dinode.slotOf bn h) else 0) = _
    rw [hslots]
    rfl
  have hother : forall b, b ≠ addr -> v'.data b = v.data b := by
    intro b hb
    rw [← hv]
    exact update_of_ne hb _ _
  have hsame : v'.data addr = Sys.overwrite (v.data addr) (off % BSIZE) bytes := by
    rw [← hv]
    exact update_self _ _ _
  constructor
  · refine ⟨?_, ?_, ?_, ?_, ?_⟩
    · rw [← hv]
      exact h.tx
    · rw [hslots]
      exact h.apart
    · rw [htaken]
      exact h.data
    · rw [htaken, hbitmap]
      exact h.marked
    · rw [hbitmap]
      exact h.free
  · constructor
    · rw [← hv]
      rfl
    · intro p _
      rw [hslots]
    · intro p hzero hnz
      rw [hslots] at hnz
      exact absurd hzero hnz
    · intro b
      rw [hbitmap, htaken]
      exact ⟨.inl, fun hor => hor.elim id (h.marked b)⟩
    · intro b _ hout
      refine hother b ?_
      rintro rfl
      refine hout ?_
      rw [← haddr] at hne ⊢
      exact blockAt_mem hne
    · intro o hlow hhigh
      have hdiv : o / BSIZE = off / BSIZE := by
        rw [BSIZE_eq] at hfit ⊢
        omega
      rw [hblock, hdiv, haddr]
      exact hne
    · intro o ho
      change v'.data (v'.blockAt (o / BSIZE)) (o % BSIZE) = _
      rw [hblock]
      by_cases hin : off <= o ∧ o < off + bytes.length
      · have hdiv : o / BSIZE = off / BSIZE := by
          rw [BSIZE_eq] at hfit ⊢
          omega
        have hmod : o % BSIZE = off % BSIZE + (o - off) := by
          rw [BSIZE_eq] at hfit ⊢
          omega
        rw [if_pos hin, hdiv, haddr, hsame, hmod,
          overwrite_inside (Nat.le_add_right _ _) (by omega), List.getD_eq_getElem _ _ (by omega)]
        congr 1
        omega
      · have hmapped : v.blockAt (o / BSIZE) ≠ 0 := ho.resolve_right hin
        rw [if_neg hin]
        change _ = v.data (v.blockAt (o / BSIZE)) (o % BSIZE)
        by_cases hb : v.blockAt (o / BSIZE) = addr
        · -- the block holds other bytes of the file as well
          have hdiv : o / BSIZE = off / BSIZE := by
            have hbn := blockAt_lt hmapped
            rw [← haddr] at hb hne
            have hbn' := blockAt_lt hne
            rw [blockAt_eq_slots hbn] at hmapped
            rw [blockAt_eq_slots hbn, blockAt_eq_slots hbn'] at hb
            exact slotOf_inj (h.apart _ _ hb hmapped)
          rw [hb, hsame]
          refine overwrite_outside ?_
          rw [BSIZE_eq] at hfit hdiv ⊢
          omega
        · rw [hother _ hb]

/-!
## Writing
-/

/-- How the loop of `writei` ends, `tot` bytes before and `r` after it.  It has written `bytes`, and
it has left `extra` behind in the buffer where the source failed. -/
structure Loop (sb : Superblock) (need : Slot -> Prop) (src : Src) (n off tot : Nat) (v : Part)
    (r : Nat × Nat) (v' : Part) (bytes extra : List UInt8) : Prop where
  owned : v'.Owned sb
  wrote : Wrote need v v' off (bytes ++ extra)
  covers : extra = [] -> Covers v v'
  changed : forall b, b ≠ v'.blockAt (r.2 / BSIZE) -> v'.data b ≠ v.data b -> v'.Logged b
  logged : forall b, v.Logged b -> v'.Logged b
  size_eq : v'.d.size = v.d.size
  copy_eq : v'.copy = v.copy
  tot_eq : r.1 = tot + bytes.length
  off_eq : r.2 = off + bytes.length
  source : forall l x, (bytes ++ extra)[l]? = some x -> src (tot + l) = some x
  why : (r.1 = n ∧ extra = []) ∨
    (r.1 < n ∧ extra = [] ∧ v'.Full sb ∧ v'.blockAt (r.2 / BSIZE) = 0) ∨
    (r.1 + extra.length < n ∧ src (r.1 + extra.length) = none ∧
      r.2 % BSIZE + extra.length < BSIZE ∧ (r.2 = off ∨ r.2 % BSIZE = 0))

theorem loop_stop (h : v.Owned sb)
    (heq : tot = n) : Loop sb need src n off tot v (tot, off) v [] [] where
  owned := h
  wrote := .refl h.marked
  covers := fun _ => .refl v
  changed := fun _ _ hne => absurd rfl hne
  logged := fun _ hb => hb
  size_eq := rfl
  copy_eq := rfl
  tot_eq := rfl
  off_eq := rfl
  source := by
    intro l x hx
    simp at hx
  why := .inl ⟨heq, rfl⟩

theorem Loop.cons {v1 v2 : Part}
    {r : Nat × Nat} {chunk extra : List UInt8} (hwrote : Wrote need v v1 off chunk)
    (hcovers : Covers v v1) (hsize : v1.d.size = v.d.size) (hcopy : v1.copy = v.copy)
    (hsource : forall l x, chunk[l]? = some x -> src (tot + l) = some x)
    (hblock : tot + chunk.length < n -> (off + chunk.length) % BSIZE = 0)
    (h : Loop sb need src n (off + chunk.length) (tot + chunk.length) v1 r v2 bytes extra) :
    Loop sb need src n off tot v r v2 (chunk ++ bytes) extra where
  owned := h.owned
  wrote := by
    rw [List.append_assoc]
    exact hwrote.trans h.wrote
  covers := fun hextra => hcovers.trans (h.covers hextra)
  changed := by
    intro b hb hne
    by_cases hmid : v2.data b = v1.data b
    · rw [hmid] at hne
      exact h.logged b (hcovers.changed b hne)
    · exact h.changed b hb hmid
  logged := fun b hb => h.logged b (hcovers.logged b hb)
  size_eq := h.size_eq.trans hsize
  copy_eq := h.copy_eq.trans hcopy
  tot_eq := by
    rw [h.tot_eq, List.length_append]
    omega
  off_eq := by
    rw [h.off_eq, List.length_append]
    omega
  source := by
    intro l x hx
    rw [List.append_assoc] at hx
    by_cases hl : l < chunk.length
    · rw [List.getElem?_append_left hl] at hx
      exact hsource l x hx
    · rw [List.getElem?_append_right (by omega)] at hx
      rw [← h.source _ x hx]
      congr 1
      omega
  why := by
    rcases h.why with hdone | hfull | ⟨hlt, hnone, hroom, hstart⟩
    · exact .inl hdone
    · exact .inr (.inl hfull)
    · refine .inr (.inr ⟨hlt, hnone, hroom, .inr (hstart.elim ?_ id)⟩)
      intro heq
      rw [heq]
      refine hblock ?_
      have htot := h.tot_eq
      omega

theorem ends_writeiLoop {fuel : Nat}
    (hsb : sb.Valid) (h : v.Owned sb) (htot : tot <= n) (hfuel : n - tot <= fuel)
    (hmax : off + (n - tot) <= MAXFILE * BSIZE)
    (hneed : forall o, off <= o -> o < off + (n - tot) -> forall p, Needs (o / BSIZE) p -> need p) :
    Ends sb i inum others (writeiLoop sb i src n fuel off tot : Prog (Nat × Nat))
      (fun r v' => exists bytes extra, Loop sb need src n off tot v r v' bytes extra) v := by
  induction fuel generalizing off tot v with
  | zero => exact Program.ends_ret ⟨[], [], loop_stop h (by omega)⟩
  | succ fuel ih =>
    unfold writeiLoop
    split
    · next hlt =>
        have hbn : off / BSIZE < MAXFILE := by
          rw [Nat.div_lt_iff_lt_mul (by decide)]
          omega
        refine Program.ends_call (ends_bmap off hsb h hbn) ?_
        intro addr v1 hmapped
        have hgrown : Wrote need v v1 off [] :=
          hmapped.wrote.mono fun p hp => hneed off (Nat.le_refl _) (by omega) p hp
        split
        · next hzero =>
            refine Program.ends_ret ⟨[], [], hmapped.owned, hgrown, fun _ => hmapped.covers,
              fun b _ => hmapped.covers.changed b, hmapped.covers.logged, hmapped.size_eq,
                hmapped.copy_eq, rfl, rfl, ?_, ?_⟩
            · intro l x hx
              simp at hx
            · exact .inr (.inl ⟨hlt, rfl, hmapped.full hzero, hmapped.addr_eq.trans hzero⟩)
        · next hne =>
            have haddr := hmapped.addr_eq
            subst haddr
            have hpos : 0 < BSIZE - off % BSIZE := Nat.sub_pos_of_lt (Nat.mod_lt _ (by decide))
            dsimp only
            generalize hm : min (n - tot) (BSIZE - off % BSIZE) = m
            rcases readable_spec src tot m with ⟨hget, hstop⟩
            have hlen := readable_length src tot m
            generalize src.readable tot m = chunk at hget hstop hlen ⊢
            have hfit : off % BSIZE + chunk.length <= BSIZE := by omega
            have hwrite := hmapped.owned.write need hne hfit
            have hdata := hmapped.owned.data _ (blockAt_mem hne)
            split
            · next hfull =>
                refine Program.ends_act (exec_writeBlock hmapped.owned.tx hdata _ _) ?_
                have hneed' : forall o, off + m <= o -> o < off + m + (n - (tot + m)) ->
                    forall p, Needs (o / BSIZE) p -> need p :=
                  fun o hlow hhigh => hneed o (by omega) (by omega)
                refine Program.ends_mono
                  (ih (hwrite.1.log _) (by omega) (by omega) (by omega) hneed') ?_
                rintro r v2 ⟨bytes, extra, hloop⟩
                rw [← hfull] at hloop
                refine ⟨chunk ++ bytes, extra, hloop.cons (hgrown.trans (hwrite.2.log _)) ?_
                  hmapped.size_eq hmapped.copy_eq hget ?_⟩
                · exact hmapped.covers.trans (covers_store hmapped.owned.tx _ _)
                · intro hmore
                  rw [BSIZE_eq] at hm ⊢
                  omega
            · next hshort =>
                refine Program.ends_act (exec_writeBlock_unlogged hdata _ _) ?_
                refine Program.ends_ret ⟨[], chunk, hwrite.1, hgrown.trans hwrite.2, ?_, ?_,
                  hmapped.covers.logged, hmapped.size_eq, hmapped.copy_eq, rfl, rfl, hget, ?_⟩
                · rintro rfl
                  refine hmapped.covers.trans (covers_same ?_ rfl)
                  change update v1.data _ _ = _
                  have hsame : Sys.overwrite (v1.data (v1.blockAt (off / BSIZE))) (off % BSIZE)
                      [] = v1.data (v1.blockAt (off / BSIZE)) := by
                    funext j
                    refine overwrite_outside ?_
                    rw [List.length_nil]
                    omega
                  rw [hsame]
                  exact update_eq_self _ _
                · intro b hb hne'
                  refine hmapped.covers.changed b ?_
                  rw [hwrite.2.blockAt_kept hne] at hb
                  change update v1.data _ _ b ≠ _ at hne'
                  rw [update_of_ne hb] at hne'
                  exact hne'
                · exact .inr (.inr ⟨by change tot + _ < n; omega, hstop (by omega), by
                    change off % BSIZE + _ < _; omega, .inl rfl⟩)
    · next hge => exact Program.ends_ret ⟨[], [], loop_stop h (by omega)⟩

end

end Part
end Fs
end Xv6
