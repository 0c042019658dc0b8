import Xv6.Sched.Wait

/-!
# The process tree

`kfork` makes its caller the parent, `reparent` hands the children of a process that exits to
`initproc`, and `kwait` frees processes without children only.  At every point of every run the
parent of a process is there, it is not a zombie, and it is older than its child.
-/

namespace Xv6
namespace Sched

variable {nproc ncpu : Nat} {s s' : Sys nproc ncpu} {c : Fin ncpu} {p q v : Fin nproc}
  {ch : Choice nproc} {e : Eff nproc} {pc x : Pc nproc} {pid : Int}

structure TreeInv (s : Sys nproc ncpu) : Prop where
  parent : forall q v, (s.procs q).parent = some v ->
    (s.procs v).state ≠ .unused ∧ (s.procs v).birth < (s.procs q).birth
  -- `kfork` has allocated the slot `q` and has still to set the parent
  forking : forall p q pid, s.stack p = .forkParent q pid ->
    (s.procs p).birth < (s.procs q).birth

theorem stays (hsw : SwitchInv s) (hslot : SlotInv s) (hp : (s.cpus c).point = .process p)
    (hcode : Code s p ch (s.stack p) e pc) (hused : (s.procs q).state ≠ .unused)
    (hlive : (s.procs q).state ≠ .zombie) : ((s.apply c p e).procs q).state ≠ .unused ∧
      ((s.apply c p e).procs q).birth = (s.procs q).birth := by
  rcases kept_or_moved hsw hslot.bare hp hcode q with hk | ⟨r, rfl⟩ | ⟨b, rfl⟩
  · exact ⟨fun hun => hused (hk.unused.1 hun), hk.birth⟩
  · exact absurd hcode.alloc_unused hused
  · exact absurd hcode.reap_zombie.1 hlive

theorem SwitchInv.executes (h : SwitchInv s) (hpc : forall r, s.stack p ≠ .swtch r) :
    exists c, (s.cpus c).point = .process p := by
  by_cases hc : exists c, (s.cpus c).point.engaged = some p
  · rcases hc with ⟨c, hc⟩
    have hon := h.on c p hc
    refine ⟨c, ?_⟩
    cases hpt : (s.cpus c).point <;> rw [hpt] at hon hc <;> cases hc <;>
      first
        | rfl
        | exact absurd hon.2.choose_spec.1 (hpc _)
        | exact absurd hon.2.2.choose_spec.1 (hpc _)
  · exact absurd (h.off p fun c hc' => hc ⟨c, hc'⟩).2.choose_spec.1 (hpc _)

theorem SwitchInv.forking_running (h : SwitchInv s) (hpc : s.stack p = .forkParent q pid) :
    (s.procs p).state = .running := by
  rcases h.executes (p := p) (by rw [hpc]; exact nofun) with ⟨c, hc⟩
  have hon := h.on c p (by rw [hc]; rfl)
  rw [hc, hpc] at hon
  exact hon.2

namespace TreeInv

theorem process (h : TreeInv s) (hsw : SwitchInv s) (hslot : SlotInv s) (hinit : InitInv s)
    (hkid : KidInv s) (hp : (s.cpus c).point = .process p)
    (hcode : Code s p ch (s.stack p) e pc) : TreeInv ((s.apply c p e).goto p pc) := by
  have hmine := hsw.executing hp
  constructor
  · intro q v hq
    change ((s.apply c p e).procs v).state ≠ .unused ∧
      ((s.apply c p e).procs v).birth < ((s.apply c p e).procs q).birth
    rcases after_parent hq with hold | ⟨rfl, rfl⟩ | ⟨rfl, rfl⟩
    · rcases h.parent q v hold with ⟨hused, hlt⟩
      have hv := stays hsw hslot hp hcode hused fun hz => hkid.orphan q v (.inl hz) hold
      rcases kept_or_moved hsw hslot.bare hp hcode q with hk | ⟨r, rfl⟩ | ⟨b, rfl⟩
      · rw [hv.2, hk.birth]
        exact ⟨hv.1, hlt⟩
      · rw [(hslot.bare q hcode.alloc_unused).parent] at hold
        cases hold
      · change ((s.apply c p (.reap q b)).procs q).parent = some v at hq
        rw [apply_target rfl] at hq
        cases hq
    · have hv := stays hsw hslot hp hcode hinit.used fun hz => hinit.not_departed hsw (.inl hz)
      rw [hv.2, hinit.birth, apply_target (e := .adopt q) rfl]
      exact ⟨hv.1, Nat.zero_lt_of_lt (h.parent q p hcode.adopt_child).2⟩
    · rcases hcode.flow with ⟨pid, hpc, _⟩
      have hv := stays hsw hslot hp hcode hmine (by rw [hsw.forking_running hpc]; decide)
      rw [hv.2, apply_target (e := .father q) rfl]
      exact ⟨hv.1, h.forking v q pid hpc⟩
  · intro r q pid hr
    change ((s.apply c p e).procs r).birth < ((s.apply c p e).procs q).birth
    rcases eq_or_ne r p with rfl | hne
    · rw [Sys.goto_self] at hr
      obtain rfl := hcode.into_forkParent hr
      have hother : q ≠ r := by
        rintro rfl
        exact hmine hcode.alloc_unused
      rw [apply_other (e := .alloc q .ok) fun heq => hother (Option.some.inj heq),
        apply_target rfl]
      exact (hslot.born r hmine).1
    · rcases after_stack s c e pc hne with heq | ⟨_, hnew⟩
      · rw [heq] at hr
        have hrun := hsw.forking_running hr
        have hchild := hsw.child r q (by rw [hr]; rfl)
        rw [(stays hsw hslot hp hcode (by rw [hrun]; decide) (by rw [hrun]; decide)).2,
          (stays hsw hslot hp hcode (by rw [hchild]; decide) (by rw [hchild]; decide)).2]
        exact h.forking r q pid hr
      · rw [hnew] at hr
        cases hr

theorem move (h : TreeInv s) (hsw : SwitchInv s) (hslot : SlotInv s) (hinit : InitInv s)
    (hkid : KidInv s) (hmove : Move s c ch s') : TreeInv s' := by
  cases hmove with
  | run p hpt =>
    generalize hs1 : s.setProc p { s.procs p with state := .running } = s1
    have hproc : forall q, (s1.procs q).parent = (s.procs q).parent ∧
        (s1.procs q).birth = (s.procs q).birth ∧
        ((s.procs q).state ≠ .unused -> (s1.procs q).state ≠ .unused) := by
      intro q
      rcases eq_or_ne q p with rfl | hq <;> simp [← hs1, Sys.setProc, *]
    constructor
    · intro q v hq
      have hold := h.parent q v ((hproc q).1.symm.trans hq)
      exact ⟨(hproc v).2.2 hold.1, (hproc v).2.1 ▸ (hproc q).2.1 ▸ hold.2⟩
    · intro r q pid hr
      have hstack : s1.stack = s.stack := by rw [← hs1]; rfl
      exact (hproc r).2.1 ▸ (hproc q).2.1 ▸ h.forking r q pid (hstack ▸ hr)
  | switch p hpt =>
    refine ⟨h.parent, fun r q pid hr => h.forking r q pid ?_⟩
    change (s.goto p (s.stack p).resume).stack r = _ at hr
    rcases eq_or_ne r p with rfl | hne
    · rw [Sys.goto_self] at hr
      cases hpc : s.stack r with
      | swtch k =>
        rw [hpc] at hr
        cases k <;> cases hr
      | _ =>
        rw [hpc] at hr
        exact hr
    · exact (Sys.goto_ne _ _ hne).symm.trans hr
  | process p e pc hpt hcode hen => exact h.process hsw hslot hinit hkid hpt hcode
  | _ => exact ⟨h.parent, h.forking⟩

theorem of_booted (h : s.Booted) : TreeInv s where
  parent := by
    intro q v hq
    rcases eq_or_ne q s.initproc with rfl | hne
    · rw [h.init_parent] at hq
      cases hq
    · rw [(h.clean q hne).parent] at hq
      cases hq
  forking := by
    intro p q pid hpc
    rcases eq_or_ne p s.initproc with rfl | hne
    · rw [h.init_stack] at hpc
      cases hpc
    · rw [h.stack p hne] at hpc
      cases hpc

end TreeInv

theorem process_tree {s : Sys nproc ncpu} (h : (system nproc ncpu).Reachable s) :
    (forall q v, (s.procs q).parent = some v -> (s.procs v).state ≠ .unused ∧
      (s.procs v).state ≠ .zombie ∧ (s.procs v).birth < (s.procs q).birth) ∧
    forall q, ¬ Relation.TransGen (fun x y => (s.procs x).parent = some y) q q := by
  have hinv : InitInv s ∧ TreeInv s := by
    induction h with
    | init hs => exact ⟨InitInv.of_booted hs, TreeInv.of_booted hs⟩
    | step hreach _ hstep ih =>
      have hmove := step_move hstep
      rcases slotInv_reachable hreach with ⟨hsw, hslot⟩
      rcases kidInv_reachable hreach with ⟨_, _, hkid⟩
      exact ⟨(ih.1.move hsw hslot hmove).1, ih.2.move hsw hslot ih.1 hkid hmove⟩
  rcases kidInv_reachable h with ⟨_, _, hkid⟩
  refine ⟨fun q v hq => ?_, fun q hcycle => ?_⟩
  · rcases hinv.2.parent q v hq with ⟨hv, hlt⟩
    exact ⟨hv, fun hz => hkid.orphan q v (.inl hz) hq, hlt⟩
  · -- along a chain of parents the births decrease
    have hless : forall v, Relation.TransGen (fun x y => (s.procs x).parent = some y) q v ->
        (s.procs v).birth < (s.procs q).birth := by
      intro v hv
      induction hv with
      | single hq => exact (hinv.2.parent q _ hq).2
      | tail _ hq ih => exact (hinv.2.parent _ _ hq).2.trans ih
    exact Nat.lt_irrefl _ (hless q hcycle)

theorem process_tree_child : exists s : Sys 2 2, (system 2 2).Reachable s ∧
    (s.procs 1).parent = some 0 ∧ (s.procs 0).birth < (s.procs 1).birth := by
  have hcheck : (Lib.System.run (fun s l => Sys.step s l.1 l.2) (fun _ _ => True) (Sys.boot 2 2)
      (exitAndWait.take 11)).any (fun s => (s.procs 1).parent = some 0) = true := by
    decide +kernel
  have hinit : (system 2 2).Reachable _ := .init (Sys.booted_boot 2 2)
  obtain ⟨s, hreach, hcheck⟩ := hinit.run_any (fun _ _ _ h => h) hcheck
  have hparent := of_decide_eq_true hcheck
  exact ⟨s, hreach, hparent, ((process_tree hreach).1 1 0 hparent).2.2⟩

end Sched
end Xv6
