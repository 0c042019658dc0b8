import Xv6.Process.Syscalls

/-!
# `fork`, `exit` and `wait`
-/

namespace Xv6
namespace Process

open Lib Vm Function

def listCount (ofile : Nat -> Option Nat) (l : List Nat) (f : Nat) : Nat :=
  (l.map (fun fd => if ofile fd = some f then 1 else 0)).sum

theorem listCount_range (ofile : Nat -> Option Nat) (n f : Nat) :
    listCount ofile (List.range n) f =
      ∑ fd ∈ Finset.range n, if ofile fd = some f then 1 else 0 := by
  unfold listCount
  induction n with
  | zero => rfl
  | succ n ih =>
    rw [List.range_succ, List.map_append, List.sum_append, ih, Finset.sum_range_succ]
    rfl

theorem listCount_congr {ofile ofile' : Nat -> Option Nat} {l : List Nat}
    (h : forall fd, fd ∈ l -> ofile' fd = ofile fd) (f : Nat) :
    listCount ofile' l f = listCount ofile l f := by
  unfold listCount
  congr 1
  apply List.map_congr_left
  intro fd hfd
  rw [h fd hfd]

section

variable {kept : Reserve} {pend : Nat -> Nat} {s s' : Kernel} {i j : Nat}

/-!
## Sharing the descriptors
-/

structure Shared (s s' : Kernel) (i j : Nat) (l : List Nat) : Prop where
  eq : s' = { s with file := s'.file }.setProc j { s.proc j with ofile := (s'.proc j).ofile }
  taken : forall fd, fd ∈ l -> (s'.proc j).ofile fd = (s.proc i).ofile fd
  kept : forall fd, fd ∉ l -> (s'.proc j).ofile fd = (s.proc j).ofile fd
  file_eq : forall f, s'.file f =
    { s.file f with ref := (s.file f).ref + listCount (s.proc i).ofile l f }

variable {fd : Nat} {l : List Nat}

theorem dupFiles_spec (h : Sound kept pend s) (hi : i < NPROC) (hj : j < NPROC)
    (ha : Active s j) (hfd : fd < NOFILE) (hfree : (s.proc j).ofile fd = none) :
    exists s', dupFiles i j s fd = .ok s' ∧ Sound kept pend s' ∧ Shared s s' i j [fd] := by
  unfold dupFiles
  cases hof : (s.proc i).ofile fd with
  | none =>
    refine ⟨s, rfl, h, ?_⟩
    refine
      { eq := (setProc_self s j).symm
        taken := fun k hk => ?_
        kept := fun _ _ => rfl
        file_eq := fun f => ?_ }
    · rw [List.mem_singleton.mp hk, hof, hfree]
    · simp [listCount, hof]
  | some f =>
    have hf := h.files.fds i hi fd hfd f hof
    rcases filedup_spec h hf (h.ref_pos hi hfd hof) with ⟨hrun, hdup⟩
    simp only [hrun, ok_bind]
    refine ⟨_, rfl, hdup.opened hj ha hf hfd hfree, ?_⟩
    refine
      { eq := ?_
        taken := fun k hk => ?_
        kept := fun k hk => ?_
        file_eq := fun g => ?_ }
    · unfold setFd
      rw [setProc_proc]
      rfl
    · rw [List.mem_singleton.mp hk, setFd_self, hof]
    · exact setFd_of_ne _ j (some f) (fun heq => hk (List.mem_singleton.mpr heq))
    · change update s.file f { s.file f with ref := (s.file f).ref + 1 } g = _
      by_cases hg : g = f
      · subst hg
        simp [listCount, hof]
      · rw [update_of_ne hg]
        have hne : f ≠ g := fun heq => hg heq.symm
        simp [listCount, hof, hne]

theorem Shared.cons {s1 : Kernel} (hij : i ≠ j) (hnew : fd ∉ l)
    (h : Shared s s1 i j [fd]) (h' : Shared s1 s' i j l) : Shared s s' i j (fd :: l) := by
  have hpi : s1.proc i = s.proc i := by
    rw [h.eq]
    exact update_of_ne hij ..
  refine
    { eq := ?_
      taken := fun k hk => ?_
      kept := fun k hk => ?_
      file_eq := fun f => ?_ }
  · have h2 := h'.eq
    rw [h.eq] at h2
    rw [h2]
    simp [Kernel.setProc]
  · rcases List.mem_cons.mp hk with heq | hmem
    · subst heq
      rw [h'.kept k hnew]
      exact h.taken k (List.mem_singleton.mpr rfl)
    · rw [h'.taken k hmem, hpi]
  · rw [h'.kept k (fun hmem => hk (List.mem_cons_of_mem fd hmem))]
    exact h.kept k (fun hmem => hk (by rw [List.mem_singleton.mp hmem]; exact List.mem_cons_self))
  · rw [h'.file_eq f, h.file_eq f, hpi]
    simp [listCount, Nat.add_assoc]

theorem Shared.active (h : Shared s s' i j l) (ha : Active s j) :
    Active s' j := by
  unfold Active
  rw [h.eq, setProc_proc]
  exact ha

theorem shareFiles_spec (hnodup : l.Nodup)
    (hl : forall fd, fd ∈ l -> fd < NOFILE ∧ (s.proc j).ofile fd = none)
    (h : Sound kept pend s) (hi : i < NPROC) (hj : j < NPROC) (hij : i ≠ j) (ha : Active s j) :
    exists s', l.foldlM (dupFiles i j) s = .ok s' ∧ Sound kept pend s' ∧ Shared s s' i j l := by
  induction l generalizing s with
  | nil =>
    refine ⟨s, rfl, h, ?_⟩
    exact
      { eq := (setProc_self s j).symm
        taken := fun k hk => absurd hk List.not_mem_nil
        kept := fun _ _ => rfl
        file_eq := fun f => by simp [listCount] }
  | cons fd l ih =>
    rcases List.nodup_cons.mp hnodup with ⟨hnew, hrest⟩
    rcases hl fd List.mem_cons_self with ⟨hfd, hfree⟩
    rcases dupFiles_spec h hi hj ha hfd hfree with ⟨s1, hrun, h1, hshared⟩
    have hl1 : forall k, k ∈ l -> k < NOFILE ∧ (s1.proc j).ofile k = none := by
      intro k hk
      rcases hl k (List.mem_cons_of_mem fd hk) with ⟨hlt, hnone⟩
      refine ⟨hlt, ?_⟩
      rw [hshared.kept k (fun hmem => hnew (by rw [← List.mem_singleton.mp hmem]; exact hk))]
      exact hnone
    rcases ih hrest hl1 h1 (hshared.active ha) with ⟨s', hfold, h', hshared'⟩
    refine ⟨s', ?_, h', hshared.cons hij hnew hshared'⟩
    rw [List.foldlM_cons, hrun]
    exact hfold

/-!
## `kfork`
-/

theorem Idle.memUse_eq {m : Kmem} {p : Proc} (h : Idle p) (q : Page) : memUse m p q = 0 := by
  unfold memUse
  rw [if_pos h.pagetable_eq, if_pos h.trapframe_eq, h.argv_eq]
  rfl

theorem Sound.idle (h : Sound kept pend s) (hj : j < NPROC) (hu : (s.proc j).state = .unused) :
    Idle (s.proc j) :=
  (h.owned.wf j hj).idle hu

theorem Sound.unchanged (h : Sound kept pend s) (hsame : Unchanged s s') :
    Sound kept pend s' := by
  rw [hsame.left]
  exact
    { owned := h.owned.update_extra hsame.right (fun q => (Nat.zero_add _).symm)
        (fun q => (Nat.zero_add _).symm)
      files := h.files
      quiet := h.quiet
      init_lt := h.init_lt
      init_runs := h.init_runs }

theorem Sound.fresh {sz : Nat} (h : Sound kept pend s) (hf : Fresh s s' j sz) :
    Sound kept pend s' := by
  have hidle := h.idle hf.lt hf.unused
  have hstate : (s'.proc j).state = .used := by rw [hf.proc_eq]
  have hlive := hf.live
  rw [show s'.trampoline = s.trampoline by rw [hf.eq]; rfl] at hlive
  rw [hf.eq]
  apply h.setSlot hf.lt (hf.conserve.congr hidle.memUse_eq (fun _ => rfl))
  · exact
      { idle := fun hu => by rw [hstate] at hu; cases hu
        live := fun _ => hlive }
  · rw [hf.proc_eq]
  · intro hquiet
    rw [hstate] at hquiet
    rcases hquiet with hu | hz
    · cases hu
    · cases hz
  · intro heq
    have hruns := h.init_runs
    rw [← heq, hf.unused] at hruns
    cases hruns

structure Forked (s s' : Kernel) (i j : Nat) : Prop where
  lt : j < NPROC
  unused : (s.proc j).state = .unused
  eq : s' = { s with kmem := s'.kmem, file := s'.file }.setProc j (s'.proc j)
  state_eq : (s'.proc j).state = .runnable
  parent_eq : (s'.proc j).parent = some i
  argv_eq : (s'.proc j).argv = []
  ofile_eq : forall fd, fd < NOFILE -> (s'.proc j).ofile fd = (s.proc i).ofile fd
  file_eq : forall f, s'.file f =
    { s.file f with ref := (s.file f).ref + fdCount (s.proc i).ofile f }
  conserve : Conserve s.kmem s'.kmem (fun _ => 0) (memUse s'.kmem (s'.proc j))

theorem kfork_spec (h : Sound kept pend s) (hi : i < NPROC) (ha : Active s i) :
    exists s' res, kfork s i = .ok (s', res) ∧ Sound kept pend s' ∧
      (res = none -> Unchanged s s') ∧ forall j, res = some j -> Forked s s' i j := by
  unfold kfork
  rcases kforkMemory_spec h.owned hi ha.left with ⟨s1, res, hrun, hnone, hsome⟩
  simp only [hrun, ok_bind]
  cases res with
  | none =>
    exact ⟨s1, none, rfl, h.unchanged (hnone rfl), fun _ => hnone rfl, fun j h => by cases h⟩
  | some j =>
    have hf := hsome j rfl
    have h1 := h.fresh hf
    have hij := hf.ne ha.left
    have hpi := hf.proc_ne hij
    have hstate1 : (s1.proc j).state = .used := by rw [hf.proc_eq]
    have ha1 : Active s1 j := by
      unfold Active
      rw [hstate1]
      decide
    have hquiet := h.quiet j hf.lt (Or.inl hf.unused)
    have hofile1 : forall fd, fd ∈ List.range NOFILE -> fd < NOFILE ∧
        (s1.proc j).ofile fd = none := by
      intro fd hfd
      refine ⟨List.mem_range.mp hfd, ?_⟩
      rw [hf.proc_eq]
      exact hquiet.right fd (List.mem_range.mp hfd)
    rcases shareFiles_spec List.nodup_range hofile1 h1 hi hf.lt hij ha1 with
      ⟨s2, hfold, h2, hshared⟩
    dsimp only
    rw [hfold, ok_bind]
    have hproc2 : s2.proc j = { s1.proc j with ofile := (s2.proc j).ofile } := by
      conv_lhs => rw [hshared.eq]
      exact setProc_proc ..
    have hmem2 : s2.kmem = s1.kmem := by rw [hshared.eq]; rfl
    have hlive2 := h2.live hf.lt (hshared.active ha1)
    have hcons2 : Conserve s2.kmem s2.kmem (memUse s2.kmem (s2.proc j))
        (memUse s2.kmem { s2.proc j with parent := some i, state := .runnable }) :=
      Conserve.refl _ _
    have h3 := h2.setSlot hf.lt hcons2
      { idle := fun hu => by cases hu
        live := fun _ =>
          { trapframe_ne := hlive2.trapframe_ne
            pagetable_ne := hlive2.pagetable_ne
            size_le := hlive2.size_le
            space := hlive2.space } } rfl
      (fun hquiet => by rcases hquiet with hu | hz <;> cases ‹_›) (fun _ => rfl)
    refine ⟨_, some j, rfl, h3, fun h => (by cases h), fun j' hj => ?_⟩
    cases hj
    have hself := setProc_proc s2 j { s2.proc j with parent := some i, state := .runnable }
    refine
      { lt := hf.lt
        unused := hf.unused
        eq := ?_
        state_eq := by rw [hself]
        parent_eq := by rw [hself]
        argv_eq := ?_
        ofile_eq := fun fd hfd => ?_
        file_eq := fun f => ?_
        conserve := ?_ }
    · rw [hself]
      conv_lhs => rw [hshared.eq, hf.eq]
      simp only [Kernel.setProc, update_self, update_idem, hmem2]
      rw [hproc2]
    · rw [hself, hproc2, hf.proc_eq]
      exact hquiet.left
    · rw [hself]
      dsimp only
      rw [hshared.taken fd (List.mem_range.mpr hfd), hpi]
    · change s2.file f = _
      rw [hshared.file_eq f, hpi, listCount_range]
      rw [show s1.file = s.file by rw [hf.eq]; rfl]
      rfl
    · rw [hself]
      have hcons := hf.conserve
      rw [← hmem2] at hcons
      rw [hproc2]
      exact hcons

/-!
## Closing the descriptors
-/

theorem pipeclose_setFd (s : Kernel) (i fd : Nat) (x : Option Nat) (pi : Page) (w : Bool) :
    pipeclose (setFd s i fd x) pi w = (pipeclose s pi w).map (fun s => setFd s i fd x) := by
  unfold pipeclose
  simp only [show (setFd s i fd x).pipe = s.pipe from rfl,
    show (setFd s i fd x).kmem = s.kmem from rfl]
  split_ifs
  · cases kfree s.kmem pi <;> rfl
  · rfl
  · cases kfree s.kmem pi <;> rfl
  · rfl

theorem fileclose_setFd (s : Kernel) (i fd f : Nat) (x : Option Nat) :
    fileclose (setFd s i fd x) f = (fileclose s f).map (fun s => setFd s i fd x) := by
  unfold fileclose
  simp only [show (setFd s i fd x).file = s.file from rfl]
  split_ifs
  · rfl
  · rfl
  · exact pipeclose_setFd (s.setFile f { s.file f with ref := 0, type := .none }) i fd x
      (s.file f).pipe (s.file f).writable
  · rfl

theorem fileclose_more {f : Nat} (h : 1 < (s.file f).ref) :
    fileclose s f = .ok (s.setFile f { s.file f with ref := (s.file f).ref - 1 }) := by
  unfold fileclose
  dsimp only
  rw [if_neg (by omega), if_pos (by omega)]
  rfl

theorem pipeclose_filesOnly {pi : Page} {w : Bool} (h : pipeclose s pi w = .ok s') :
    FilesOnly s s' := by
  unfold pipeclose at h
  dsimp only at h
  split_ifs at h
  · rcases bind_eq_ok.mp h with ⟨m, _, heq⟩
    cases heq
    rfl
  · cases h
    rfl
  · rcases bind_eq_ok.mp h with ⟨m, _, heq⟩
    cases heq
    rfl
  · cases h
    rfl

theorem fileclose_filesOnly {f : Nat} (h : fileclose s f = .ok s') : FilesOnly s s' := by
  unfold fileclose at h
  dsimp only at h
  split_ifs at h
  · cases h
    rfl
  · exact (filesOnly_setFile s f _).trans (pipeclose_filesOnly h)
  · cases h
    rfl

/-- The descriptors `l` of process `i` are closed.  Files that stay open elsewhere lose
references and nothing else changes. -/
structure Closed (s s' : Kernel) (i : Nat) (l : List Nat) : Prop where
  eq : s' = { s with kmem := s'.kmem, file := s'.file, pipe := s'.pipe }.setProc i
    { s.proc i with ofile := (s'.proc i).ofile }
  gone : forall fd, fd ∈ l -> (s'.proc i).ofile fd = none
  kept : forall fd, fd ∉ l -> (s'.proc i).ofile fd = (s.proc i).ofile fd
  shared : (forall f, listCount (s.proc i).ofile l f = 0 ∨
      listCount (s.proc i).ofile l f < (s.file f).ref) ->
    s'.kmem = s.kmem ∧ forall f, s'.file f =
      { s.file f with ref := (s.file f).ref - listCount (s.proc i).ofile l f }

theorem closeFd_spec (h : Sound kept pend s) (hi : i < NPROC) (ha : Active s i)
    (hfd : fd < NOFILE) :
    exists s', closeFd i s fd = .ok s' ∧ Sound kept pend s' ∧ Closed s s' i [fd] := by
  unfold closeFd
  cases hof : (s.proc i).ofile fd with
  | none =>
    refine ⟨s, rfl, h, ?_⟩
    exact
      { eq := (setProc_self s i).symm
        gone := fun k hk => by rw [List.mem_singleton.mp hk, hof]
        kept := fun _ _ => rfl
        shared := fun _ => ⟨rfl, fun f => by simp [listCount, hof]⟩ }
  | some f =>
    have hf := h.files.fds i hi fd hfd f hof
    rcases fileclose_spec (h.released hi ha hfd hof) hf with ⟨s', hrun, h', honly⟩
    rw [fileclose_setFd] at hrun
    rcases map_eq_ok.mp hrun with ⟨s1, hclose, heq⟩
    simp only [hclose, ok_bind]
    have honly := fileclose_filesOnly hclose
    refine ⟨_, rfl, heq ▸ h', ?_⟩
    refine
      { eq := ?_
        gone := fun k hk => ?_
        kept := fun k hk => ?_
        shared := fun hmore => ?_ }
    · unfold setFd
      rw [setProc_proc]
      conv_lhs => rw [honly]
      rw [honly.proc_eq]
      rfl
    · rw [List.mem_singleton.mp hk]
      exact setFd_self s1 i fd none
    · rw [setFd_of_ne s1 i none (fun heq => hk (List.mem_singleton.mpr heq)), honly.proc_eq]
    · have hcount : forall g, listCount (s.proc i).ofile [fd] g = if f = g then 1 else 0 := by
        intro g
        simp [listCount, hof]
      have href : 1 < (s.file f).ref := by
        rcases hmore f with hzero | hlt
        · rw [hcount, if_pos rfl] at hzero
          cases hzero
        · rw [hcount, if_pos rfl] at hlt
          exact hlt
      rw [fileclose_more href] at hclose
      cases hclose
      refine ⟨rfl, fun g => ?_⟩
      rw [hcount g]
      change update s.file f { s.file f with ref := (s.file f).ref - 1 } g = _
      by_cases hg : g = f
      · rw [hg, update_self, if_pos rfl]
      · rw [update_of_ne hg, if_neg (fun heq => hg heq.symm)]
        rfl

theorem Closed.cons {s1 : Kernel} (hnew : fd ∉ l)
    (h : Closed s s1 i [fd]) (h' : Closed s1 s' i l) : Closed s s' i (fd :: l) := by
  have hrest : forall f, listCount (s1.proc i).ofile l f = listCount (s.proc i).ofile l f := by
    apply listCount_congr
    intro k hk
    exact h.kept k (fun hmem => hnew (by rw [← List.mem_singleton.mp hmem]; exact hk))
  have hcount : forall f, listCount (s.proc i).ofile (fd :: l) f =
      listCount (s.proc i).ofile [fd] f + listCount (s.proc i).ofile l f := by
    intro f
    simp [listCount]
  refine
    { eq := ?_
      gone := fun k hk => ?_
      kept := fun k hk => ?_
      shared := fun hmore => ?_ }
  · have h2 := h'.eq
    rw [h.eq] at h2
    rw [h2]
    simp [Kernel.setProc]
  · rcases List.mem_cons.mp hk with heq | hmem
    · subst heq
      rw [h'.kept k hnew]
      exact h.gone k (List.mem_singleton.mpr rfl)
    · exact h'.gone k hmem
  · rw [h'.kept k (fun hmem => hk (List.mem_cons_of_mem fd hmem))]
    exact h.kept k (fun hmem => hk (by rw [List.mem_singleton.mp hmem]; exact List.mem_cons_self))
  · rcases h.shared (fun f => by have hf := hmore f; rw [hcount f] at hf; omega) with
      ⟨hmem1, hfile1⟩
    rcases h'.shared (fun f => by
      have hf := hmore f
      rw [hcount f] at hf
      rw [hrest f, hfile1 f]
      dsimp only
      omega) with ⟨hmem2, hfile2⟩
    refine ⟨hmem2.trans hmem1, fun f => ?_⟩
    rw [hfile2 f, hfile1 f, hrest f, hcount f, Nat.sub_sub]

theorem Closed.active (h : Closed s s' i l) (ha : Active s i) : Active s' i := by
  unfold Active
  rw [h.eq, setProc_proc]
  exact ha

theorem closeFiles_spec (hnodup : l.Nodup)
    (hl : forall fd, fd ∈ l -> fd < NOFILE) (h : Sound kept pend s) (hi : i < NPROC)
    (ha : Active s i) :
    exists s', l.foldlM (closeFd i) s = .ok s' ∧ Sound kept pend s' ∧ Closed s s' i l := by
  induction l generalizing s with
  | nil =>
    refine ⟨s, rfl, h, ?_⟩
    exact
      { eq := (setProc_self s i).symm
        gone := fun k hk => absurd hk List.not_mem_nil
        kept := fun _ _ => rfl
        shared := fun _ => ⟨rfl, fun f => by simp [listCount]⟩ }
  | cons fd l ih =>
    rcases List.nodup_cons.mp hnodup with ⟨hnew, hrest⟩
    rcases closeFd_spec h hi ha (hl fd List.mem_cons_self) with ⟨s1, hrun, h1, hclosed⟩
    rcases ih hrest (fun k hk => hl k (List.mem_cons_of_mem fd hk)) h1 (hclosed.active ha) with
      ⟨s', hfold, h', hclosed'⟩
    refine ⟨s', ?_, h', hclosed.cons hnew hclosed'⟩
    rw [List.foldlM_cons, hrun]
    exact hfold

/-!
## `kexit`
-/

structure Exited (s s' : Kernel) (i : Nat) : Prop where
  state_eq : forall k, (s'.proc k).state = if k = i then .zombie else (s.proc k).state
  mem_eq : forall m k q, memUse m (s'.proc k) q = memUse m (s.proc k) q
  shared : (forall f, fdCount (s.proc i).ofile f = 0 ∨
      fdCount (s.proc i).ofile f < (s.file f).ref) ->
    s'.kmem = s.kmem ∧ forall f, s'.file f =
      { s.file f with ref := (s.file f).ref - fdCount (s.proc i).ofile f }

/-- What `kexit` does to the process table after the files are closed. -/
def exitProc (s : Kernel) (i k : Nat) : Proc :=
  { s.proc k with
    parent := if (s.proc k).parent = some i then some s.initproc else (s.proc k).parent
    state := if k = i then .zombie else (s.proc k).state }

theorem exitProc_state (s : Kernel) {i k : Nat} (h : k ≠ i) :
    (exitProc s i k).state = (s.proc k).state :=
  if_neg h

theorem exit_eq (s : Kernel) (i : Nat) :
    (reparent s i).setProc i { (reparent s i).proc i with state := .zombie } =
      { s with proc := exitProc s i } := by
  unfold Kernel.setProc reparent
  dsimp only
  congr 1
  funext k
  unfold exitProc
  by_cases hk : k = i
  · rw [hk, update_self, if_pos rfl]
    split <;> rfl
  · rw [update_of_ne hk, if_neg hk]
    split <;> rfl

theorem Sound.exited (h : Sound kept pend s) (hi : i < NPROC) (ha : Active s i)
    (hinit : i ≠ s.initproc) (hargv : (s.proc i).argv = [])
    (hofile : forall fd, fd < NOFILE -> (s.proc i).ofile fd = none) :
    Sound kept pend { s with proc := exitProc s i } := by
  have hwf : forall k, k < NPROC -> WfProc s.kmem s.trampoline (exitProc s i k) := by
    intro k hk
    have hold := h.owned.wf k hk
    constructor
    · intro hu
      by_cases hki : k = i
      · unfold exitProc at hu
        rw [hki, if_pos rfl] at hu
        cases hu
      · rw [exitProc_state s hki] at hu
        have hidle := hold.idle hu
        refine
          { parent_eq := ?_
            trapframe_eq := hidle.trapframe_eq
            pagetable_eq := hidle.pagetable_eq
            size_eq := hidle.size_eq
            argv_eq := hidle.argv_eq }
        unfold exitProc
        dsimp only
        rw [hidle.parent_eq, if_neg (fun heq => by cases heq)]
    · intro hne
      have hlive : Live s.kmem s.trampoline (s.proc k) := by
        apply hold.live
        by_cases hki : k = i
        · rw [hki]
          exact ha.left
        · rw [exitProc_state s hki] at hne
          exact hne
      exact
        { trapframe_ne := hlive.trapframe_ne
          pagetable_ne := hlive.pagetable_ne
          size_le := hlive.size_le
          space := hlive.space }
  refine
    { owned := { ram := h.owned.ram, kend_eq := h.owned.kend_eq, total := h.owned.total, wf := hwf }
      files :=
        { refs := h.files.refs
          fds := h.files.fds
          closed := h.files.closed
          flags := h.files.flags }
      quiet := ?_
      init_lt := h.init_lt
      init_runs := ?_ }
  · intro k hk hstate
    by_cases hki : k = i
    · subst hki
      exact ⟨hargv, hofile⟩
    · change (exitProc s i k).state = _ ∨ (exitProc s i k).state = _ at hstate
      rw [exitProc_state s hki] at hstate
      exact h.quiet k hk hstate
  · change (exitProc s i s.initproc).state = _
    rw [exitProc_state s (fun heq => hinit heq.symm)]
    exact h.init_runs

theorem kexit_spec (h : Sound kept pend s) (hi : i < NPROC) (ha : Active s i)
    (hargv : (s.proc i).argv = []) (hinit : i ≠ s.initproc) :
    exists s', kexit s i = .ok s' ∧ Sound kept pend s' ∧ Exited s s' i := by
  unfold kexit
  rw [if_neg hinit]
  rcases closeFiles_spec List.nodup_range (fun fd hfd => List.mem_range.mp hfd) h hi ha with
    ⟨s1, hfold, h1, hclosed⟩
  have hproc : forall k, s1.proc k = { s.proc k with ofile := (s1.proc k).ofile } := by
    intro k
    by_cases hk : k = i
    · rw [hk]
      conv_lhs => rw [hclosed.eq]
      exact setProc_proc ..
    · have heq : s1.proc k = s.proc k := by
        rw [hclosed.eq]
        exact update_of_ne hk ..
      rw [heq]
  have hinit1 : s1.initproc = s.initproc := by rw [hclosed.eq]; rfl
  rw [hfold, ok_bind]
  refine ⟨_, rfl, ?_, ?_⟩
  · rw [exit_eq]
    apply h1.exited hi (hclosed.active ha) (by rw [hinit1]; exact hinit)
    · rw [hproc i]
      exact hargv
    · intro fd hfd
      exact hclosed.gone fd (List.mem_range.mpr hfd)
  · rw [exit_eq]
    refine { state_eq := fun k => ?_, mem_eq := fun m k q => ?_, shared := fun hmore => ?_ }
    · unfold exitProc
      dsimp only
      rw [hproc k]
    · change memUse m (exitProc s1 i k) q = _
      have hsame : memUse m (exitProc s1 i k) q = memUse m (s1.proc k) q := rfl
      rw [hsame, hproc k]
      rfl
    · have hcount : forall f, listCount (s.proc i).ofile (List.range NOFILE) f =
          fdCount (s.proc i).ofile f := listCount_range _ _
      rcases hclosed.shared (fun f => by rw [hcount f]; exact hmore f) with ⟨hmem, hfile⟩
      refine ⟨hmem, fun f => ?_⟩
      rw [← hcount f]
      exact hfile f

/-!
## `kwait`
-/

/-- `kwait` of process `i` reaps `j`; before that the status may fault in a page of the
parent. -/
structure Reaped (s s' : Kernel) (i j addr : Nat) : Prop where
  lt : j < NPROC
  ne : j ≠ i
  zombie : (s.proc j).state = .zombie
  eq : s' = { s with kmem := s'.kmem }.setProc j (s.proc j).freed
  memory : exists m, Private s { s with kmem := m } i ∧ (addr = 0 -> m = s.kmem) ∧
    Conserve m s'.kmem (memUse m (s.proc j)) (fun _ => 0)

theorem kwait_spec (h : Sound kept pend s) (hi : i < NPROC) (ha : Active s i) (addr : Nat) :
    exists s' res, kwait s i addr = .ok (s', res) ∧ Sound kept pend s' ∧
      forall j, res = some j -> Reaped s s' i j addr := by
  unfold kwait
  cases hfind : (List.range NPROC).find? (fun j =>
      decide ((s.proc j).parent = some i ∧ (s.proc j).state = .zombie)) with
  | none => exact ⟨s, none, rfl, h, fun j h => by cases h⟩
  | some j =>
    rcases find_range hfind with ⟨hj, hcond⟩
    rcases of_decide_eq_true hcond with ⟨_, hzombie⟩
    have hji : j ≠ i := by
      intro heq
      rw [heq] at hzombie
      exact ha.right hzombie
    have hstatus : exists m done,
        (if addr ≠ 0 then copyout s.kmem (s.myproc i) (s.proc i).pagetable addr 4
          else pure (s.kmem, true)) = .ok (m, done) ∧
        Private s { s with kmem := m } i ∧ (addr = 0 -> m = s.kmem) := by
      by_cases haddr : addr = 0
      · exact ⟨s.kmem, true, if_neg (fun hne => hne haddr), Private.refl (h.live hi ha),
          fun _ => rfl⟩
      · rcases copyout_private (h.live hi ha) (h.good hi) addr 4 with ⟨m, done, hrun, hp⟩
        exact ⟨m, done, (if_pos haddr).trans hrun, hp, fun hz => absurd hz haddr⟩
    rcases hstatus with ⟨m, done, hrun, hp, hzero⟩
    have h1 := h.private hi ha hp
    simp only [hrun, ok_bind]
    cases done with
    | false => exact ⟨_, none, rfl, h1, fun j h => by cases h⟩
    | true =>
      have hquiet := h1.quiet j hj (Or.inr hzombie)
      have hlive : Live m s.trampoline (s.proc j) := (h1.owned.wf j hj).live (by
        change (s.proc j).state ≠ _
        rw [hzombie]
        decide)
      rcases freeproc_spec (s := { s with kmem := m }) (i := j) rfl hquiet.left
        (fun _ => ⟨hlive.size_le, hlive.space⟩) (h1.good hj) with ⟨m', hfree, hcons⟩
      simp only [Bool.not_true, Bool.false_eq_true, if_false, hfree, ok_bind]
      have hidle : Idle (s.proc j).freed :=
        { parent_eq := rfl
          trapframe_eq := rfl
          pagetable_eq := rfl
          size_eq := rfl
          argv_eq := hquiet.left }
      refine ⟨_, some j, rfl, ?_, fun j' heq => ?_⟩
      · apply h1.setSlot hj (hcons.congr (fun _ => rfl) hidle.memUse_eq)
        · exact
            { idle := fun _ => hidle
              live := fun hne => absurd rfl hne }
        · rfl
        · exact fun _ => hquiet
        · intro heq
          have hruns := h.init_runs
          change (s.proc s.initproc).state = _ at hruns
          rw [show s.initproc = j from heq.symm, hzombie] at hruns
          cases hruns
      · cases heq
        exact
          { lt := hj
            ne := hji
            zombie := hzombie
            eq := rfl
            memory := ⟨m, hp, hzero, hcons⟩ }

end

end Process
end Xv6
