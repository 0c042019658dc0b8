import Xv6.Sched.Wakeup

/-!
# Process slots

What the entries of the table hold: a slot nobody uses is bare, a process past
`kexit` has no files, and every process has the number of its `allocpid`.
-/

namespace Xv6
namespace Sched

variable {nproc ncpu : Nat}

/-!
## Files

`kexit` closes the descriptors in order and then drops the current directory.
The number of descriptors known to be closed, one more once the directory is
dropped, is read off the point of the thread.
-/

def Mode.closedTo : Mode -> Nat
  | .normal => 0
  | .exiting _ fd => min fd NOFILE

def WakeKont.closedTo : WakeKont -> Nat
  | .client m _ => m.closedTo
  | .reparent _ _ => NOFILE + 1
  | .exitOwn _ => NOFILE + 1

def SleepKont.closedTo : SleepKont -> Nat
  | .client m _ => m.closedTo
  | .wait _ => 0

def Resume.closedTo : Resume nproc -> Nat
  | .sleep _ k => k.closedTo
  | .yield m => m.closedTo
  | .forkret => 0
  | .dead => NOFILE + 1

def Pc.closedTo : Pc nproc -> Nat
  | .client m _ => m.closedTo
  | .wake _ _ k => k.closedTo
  | .sleepAcquire _ k => k.closedTo
  | .sleepRelease _ k => k.closedTo
  | .sleepSet _ k => k.closedTo
  | .swtch r => r.closedTo
  | .sleepTidy k => k.closedTo
  | .sleepUnlock k => k.closedTo
  | .sleepRelock k => k.closedTo
  | .yieldAcquire m => m.closedTo
  | .yieldSet m => m.closedTo
  | .unlock m => m.closedTo
  | .exitLock _ => NOFILE + 1
  | .reparent _ _ => NOFILE + 1
  | .exitOwn _ => NOFILE + 1
  | .exitSet _ => NOFILE + 1
  | .exitUnlock => NOFILE + 1
  | _ => 0

def Proc.ClosedTo (x : Proc nproc) (n : Nat) : Prop :=
  (forall fd : Fin NOFILE, fd < n -> x.ofile fd = false) ∧ (NOFILE < n -> x.cwd = false)

theorem Proc.closedTo_zero (x : Proc nproc) : x.ClosedTo 0 :=
  ⟨fun _ h => absurd h (Nat.not_lt_zero _), fun h => absurd h (Nat.not_lt_zero _)⟩

theorem Proc.ClosedTo.congr {x y : Proc nproc} {n : Nat} (h : x.ClosedTo n)
    (hofile : y.ofile = x.ofile) (hcwd : y.cwd = x.cwd) : y.ClosedTo n := by
  unfold Proc.ClosedTo
  rw [hofile, hcwd]
  exact h

theorem Pc.closedTo_resume (pc : Pc nproc) : pc.resume.closedTo = pc.closedTo := by
  cases pc with
  | swtch r => cases r <;> rfl
  | _ => rfl

section

variable {s : Sys nproc ncpu} {p : Fin nproc} {ch : Choice nproc} {e : Eff nproc}
  {pc pc' : Pc nproc}

theorem Code.closedTo_eq (h : Code s p ch pc e pc')
    (hpriv : forall sz ofile cwd, e ≠ .priv sz ofile cwd) : pc'.closedTo = pc.closedTo := by
  cases h with
  | wakeDone _ => next k _ => cases k <;> rfl
  | sleepRelock => next k => cases k <;> rfl
  | priv => exact absurd rfl (hpriv _ _ _)
  | closeFd _ => exact absurd rfl (hpriv _ _ _)
  | closeDone _ => exact absurd rfl (hpriv _ _ _)
  | _ => rfl

theorem Code.priv_closes {sz : Nat} {ofile : Fin NOFILE -> Bool} {cwd : Bool}
    (h : Code s p ch pc (.priv sz ofile cwd) pc') (hx : (s.procs p).ClosedTo pc.closedTo) :
    { s.procs p with sz := sz, ofile := ofile, cwd := cwd : Proc nproc }.ClosedTo
      pc'.closedTo := by
  cases h with
  | priv => exact Proc.closedTo_zero _
  | closeFd hfd =>
    next status fd =>
    refine ⟨?_, ?_⟩
    · intro i hi
      change Function.update (s.procs p).ofile ⟨fd, hfd⟩ false i = false
      rcases eq_or_ne i ⟨fd, hfd⟩ with rfl | hne
      · exact Function.update_self _ _ _
      · rw [Function.update_of_ne hne]
        refine hx.1 i ?_
        have hval : (i : Nat) ≠ fd := fun heq => hne (Fin.ext heq)
        simp only [Pc.closedTo, Mode.closedTo] at hi ⊢
        omega
    · intro hn
      simp only [Pc.closedTo, Mode.closedTo] at hn
      omega
  | closeDone hfd =>
    refine ⟨?_, fun _ => rfl⟩
    intro i _
    refine hx.1 i ?_
    have hi := i.isLt
    simp only [Pc.closedTo, Mode.closedTo]
    omega

end

/-!
## The invariant
-/

structure SlotInv (s : Sys nproc ncpu) : Prop where
  bare : forall q, (s.procs q).state = .unused -> Sys.Bare (s.procs q)
  files : forall q, (s.procs q).ClosedTo (s.stack q).closedTo
  born : forall q, (s.procs q).state ≠ .unused ->
    (s.procs q).birth < s.births ∧ (s.procs q).pid = Sys.wrap32 ((s.procs q).birth + 1)
  distinct : forall q q', (s.procs q).state ≠ .unused -> (s.procs q').state ≠ .unused ->
    (s.procs q).birth = (s.procs q').birth -> q = q'
  nextpid : s.nextpid = Sys.wrap32 (s.births + 1)

theorem bare_freeproc {x : Proc nproc} (hofile : forall fd, x.ofile fd = false)
    (hcwd : x.cwd = false) : Sys.Bare (freeproc x) :=
  ⟨rfl, rfl, rfl, rfl, rfl, rfl, rfl, hofile, hcwd⟩

theorem bare_allocproc {parent x : Proc nproc} {pid : Int} {birth : Nat} {r : Alloc}
    (hx : Sys.Bare x) (hr : r ≠ .ok) : Sys.Bare (allocproc parent x pid birth r) := by
  cases r with
  | ok => exact absurd rfl hr
  | noTrapframe => exact bare_freeproc hx.ofile hx.cwd
  | noPagetable => exact bare_freeproc hx.ofile hx.cwd
  | noCopy => exact bare_freeproc hx.ofile hx.cwd

theorem SwitchInv.executing {s : Sys nproc ncpu} (h : SwitchInv s) {c : Fin ncpu} {p : Fin nproc}
    (hp : (s.cpus c).point = .process p) : (s.procs p).state ≠ .unused := by
  have hon := h.on c p (by rw [hp]; rfl)
  rw [hp] at hon
  rw [hon.2]
  cases hpc : s.stack p with
  | swtch r => cases r <;> simp [Pc.state]
  | _ => simp [Pc.state]

structure Kept (x x' : Proc nproc) : Prop where
  unused : x'.state = .unused <-> x.state = .unused
  pid : x'.pid = x.pid
  birth : x'.birth = x.birth
  bare : x.state = .unused -> Sys.Bare x -> Sys.Bare x'

theorem Kept.refl (x : Proc nproc) : Kept x x :=
  ⟨Iff.rfl, rfl, rfl, fun _ h => h⟩

theorem Kept.of_used {x x' : Proc nproc} (hx : x.state ≠ .unused) (hx' : x'.state ≠ .unused)
    (hpid : x'.pid = x.pid) (hbirth : x'.birth = x.birth) : Kept x x' :=
  ⟨⟨fun h => absurd h hx', fun h => absurd h hx⟩, hpid, hbirth, fun h => absurd h hx⟩

theorem kept_wakeup (chan : Chan nproc) (x : Proc nproc) : Kept x (wakeup chan x) := by
  unfold wakeup
  split
  · next hsleep =>
      refine Kept.of_used ?_ nofun rfl rfl
      rw [hsleep.1]
      decide
  · exact Kept.refl x

theorem kept_kkill (x : Proc nproc) : Kept x (kkill x) where
  unused := by
    unfold kkill
    dsimp only
    split
    · next hsleep => simp [hsleep]
    · exact Iff.rfl
  pid := rfl
  birth := rfl
  bare := fun _ h => ⟨h.pid, h.xstate, h.chan, h.sz, h.pagetable, h.trapframe, h.parent, h.ofile,
    h.cwd⟩

section

variable {s : Sys nproc ncpu} {c : Fin ncpu} {p : Fin nproc} {ch : Choice nproc} {e : Eff nproc}
  {pc pc' : Pc nproc}

theorem Code.adopt_child {q : Fin nproc} (h : Code s p ch pc (.adopt q) pc') :
    (s.procs q).parent = some p := by
  cases h with
  | reparentHit hparent => exact hparent

theorem kept_or_moved (hsw : SwitchInv s) (hbare : forall q, (s.procs q).state = .unused ->
      Sys.Bare (s.procs q)) (hp : (s.cpus c).point = .process p)
    (hcode : Code s p ch (s.stack p) e pc') (q : Fin nproc) :
    Kept (s.procs q) ((s.apply c p e).procs q) ∨ (exists r, e = .alloc q r) ∨
      exists b, e = .reap q b := by
  have hmine := hsw.executing hp
  have hchild := hsw.child p
  by_cases ht : e.target p = some q
  · rw [apply_target ht]
    cases e with
    | wake q' chan => exact .inl (kept_wakeup chan _)
    | kill q' => exact .inl (kept_kkill _)
    | adopt q' =>
      cases ht
      have hused : (s.procs q).state ≠ .unused := by
        intro hun
        have hnone := (hbare q hun).parent
        rw [hcode.adopt_child] at hnone
        cases hnone
      exact .inl (Kept.of_used hused hused rfl rfl)
    | father q' =>
      cases ht
      have hstate : (s.procs q).state = .used := by
        rcases hcode.flow with ⟨pid, hpc, _⟩
        exact hchild q (by rw [hpc]; rfl)
      have hused : (s.procs q).state ≠ .unused := by
        rw [hstate]
        decide
      exact .inl (Kept.of_used hused hused rfl rfl)
    | ready q' =>
      cases ht
      have hstate : (s.procs q).state = .used := by
        rcases hcode.flow with ⟨pid, hpc, _⟩
        exact hchild q (by rw [hpc]; rfl)
      refine .inl (Kept.of_used ?_ nofun rfl rfl)
      rw [hstate]
      decide
    | alloc q' r =>
      cases ht
      exact .inr (.inl ⟨r, rfl⟩)
    | reap q' b =>
      cases ht
      exact .inr (.inr ⟨b, rfl⟩)
    | priv sz ofile cwd =>
      cases ht
      exact .inl (Kept.of_used hmine hmine rfl rfl)
    | setkilled =>
      cases ht
      exact .inl (Kept.of_used hmine hmine rfl rfl)
    | tidy =>
      cases ht
      exact .inl (Kept.of_used hmine hmine rfl rfl)
    | sleep chan =>
      cases ht
      exact .inl (Kept.of_used hmine nofun rfl rfl)
    | giveUp =>
      cases ht
      exact .inl (Kept.of_used hmine nofun rfl rfl)
    | zombie status =>
      cases ht
      exact .inl (Kept.of_used hmine nofun rfl rfl)
    | _ => cases ht
  · rw [apply_other ht]
    exact .inl (Kept.refl _)

theorem apply_births (hr : forall q r, e ≠ .alloc q r) :
    (s.apply c p e).births = s.births ∧ (s.apply c p e).nextpid = s.nextpid := by
  cases e with
  | alloc q r => exact absurd rfl (hr q r)
  | _ => exact ⟨rfl, rfl⟩

theorem after_files {q : Fin nproc} (hpriv : forall sz ofile cwd, q = p -> e ≠ .priv sz ofile cwd)
    (halloc : e ≠ .alloc q .ok) :
    ((s.apply c p e).procs q).ofile = (s.procs q).ofile ∧
      ((s.apply c p e).procs q).cwd = (s.procs q).cwd := by
  by_cases ht : e.target p = some q
  · rw [apply_target ht]
    cases e with
    | wake q' chan =>
      simp only [Eff.write, wakeup]
      split <;> exact ⟨rfl, rfl⟩
    | priv sz ofile cwd =>
      cases ht
      exact absurd rfl (hpriv sz ofile cwd rfl)
    | alloc q' r =>
      cases ht
      cases r with
      | ok => exact absurd rfl halloc
      | _ => exact ⟨rfl, rfl⟩
    | _ => exact ⟨rfl, rfl⟩
  · rw [apply_other ht]
    exact ⟨rfl, rfl⟩

end

namespace SlotInv

variable {s : Sys nproc ncpu} {c : Fin ncpu} {p : Fin nproc}

theorem process (h : SlotInv s) (hsw : SwitchInv s) (hp : (s.cpus c).point = .process p)
    {ch : Choice nproc} {e : Eff nproc} {pc : Pc nproc} (hcode : Code s p ch (s.stack p) e pc)
    (hen : s.Enabled p e) : SlotInv ((s.apply c p e).goto p pc) := by
  have hkept := kept_or_moved hsw h.bare hp hcode
  have hdead : forall q b, e = .reap q b -> (s.procs q).ClosedTo (NOFILE + 1) := by
    rintro q b rfl
    have hstack := hsw.dead_of_gone hen (.inl hcode.reap_zombie.1)
    have hfiles := h.files q
    rw [hstack] at hfiles
    exact hfiles
  have hback : forall q, ((s.apply c p e).procs q).state ≠ .unused ->
      (e = .alloc q .ok ∧ ((s.apply c p e).procs q).birth = s.births ∧
        ((s.apply c p e).procs q).pid = s.nextpid) ∨
      ((s.procs q).state ≠ .unused ∧ ((s.apply c p e).procs q).birth = (s.procs q).birth ∧
        ((s.apply c p e).procs q).pid = (s.procs q).pid) := by
    intro q hq
    rcases hkept q with hk | ⟨r, rfl⟩ | ⟨b, rfl⟩
    · exact .inr ⟨fun hun => hq (hk.unused.2 hun), hk.birth, hk.pid⟩
    · rw [apply_target rfl] at hq ⊢
      cases r with
      | ok => exact .inl ⟨rfl, rfl, rfl⟩
      | _ => exact absurd rfl hq
    · rw [apply_target rfl] at hq
      exact absurd rfl hq
  have hmono : s.births <= (s.apply c p e).births := by
    cases e with
    | alloc q r => exact Nat.le_succ _
    | _ => exact Nat.le_refl _
  constructor
  · intro q hq
    change ((s.apply c p e).procs q).state = .unused at hq
    change Sys.Bare ((s.apply c p e).procs q)
    rcases hkept q with hk | ⟨r, rfl⟩ | ⟨b, rfl⟩
    · have hold := hk.unused.1 hq
      exact hk.bare hold (h.bare q hold)
    · rw [apply_target rfl] at hq ⊢
      refine bare_allocproc (h.bare q hcode.alloc_unused) ?_
      rintro rfl
      cases hq
    · rw [apply_target rfl]
      have hclosed := hdead q b rfl
      exact bare_freeproc (fun fd => hclosed.1 fd (Nat.lt_succ_of_lt fd.isLt))
        (hclosed.2 (Nat.lt_succ_self _))
  · intro q
    change ((s.apply c p e).procs q).ClosedTo _
    rcases eq_or_ne q p with rfl | hq
    · rw [Sys.goto_self]
      by_cases hpriv : exists sz ofile cwd, e = .priv sz ofile cwd
      · rcases hpriv with ⟨sz, ofile, cwd, rfl⟩
        rw [apply_target rfl]
        exact hcode.priv_closes (h.files q)
      · have hno : forall sz ofile cwd, e ≠ .priv sz ofile cwd :=
          fun sz ofile cwd heq => hpriv ⟨sz, ofile, cwd, heq⟩
        rw [hcode.closedTo_eq hno]
        have hnoalloc : e ≠ .alloc q .ok := by
          rintro rfl
          exact hsw.executing hp hcode.alloc_unused
        rcases after_files (c := c) (fun sz ofile cwd _ => hno sz ofile cwd) hnoalloc with ⟨ho, hc⟩
        exact (h.files q).congr ho hc
    · by_cases halloc : e = .alloc q .ok
      · rcases after_stack s c e pc hq with heq | ⟨_, hnew⟩
        · subst halloc
          rw [Sys.goto_ne _ _ hq] at heq
          have hnew : (s.apply c p (.alloc q .ok)).stack q = .swtch .forkret := by
            simp [Sys.apply]
          rw [Sys.goto_ne _ _ hq, hnew]
          exact Proc.closedTo_zero _
        · rw [hnew]
          exact Proc.closedTo_zero _
      · rcases after_stack s c e pc hq with heq | ⟨hal, _⟩
        · rw [heq]
          rcases after_files (s := s) (c := c) (fun _ _ _ heq => absurd heq hq) halloc with ⟨ho, hc⟩
          exact (h.files q).congr ho hc
        · exact absurd hal halloc
  · intro q hq
    change ((s.apply c p e).procs q).birth < (s.apply c p e).births ∧ _
    rcases hback q hq with ⟨rfl, hbirth, hpid⟩ | ⟨hused, hbirth, hpid⟩
    · refine ⟨?_, ?_⟩
      · rw [hbirth]
        exact Nat.lt_succ_self _
      · change ((s.apply c p (.alloc q .ok)).procs q).pid =
          Sys.wrap32 (((s.apply c p (.alloc q .ok)).procs q).birth + 1)
        rw [hpid, hbirth, h.nextpid]
    · have hold := h.born q hused
      refine ⟨?_, ?_⟩
      · rw [hbirth]
        exact Nat.lt_of_lt_of_le hold.1 hmono
      · change ((s.apply c p e).procs q).pid =
          Sys.wrap32 (((s.apply c p e).procs q).birth + 1)
        rw [hpid, hbirth]
        exact hold.2
  · intro q q' hq hq' heq
    change ((s.apply c p e).procs q).birth = ((s.apply c p e).procs q').birth at heq
    rcases hback q hq with ⟨hal, hbirth, _⟩ | ⟨hused, hbirth, _⟩
    · rcases hback q' hq' with ⟨hal', _, _⟩ | ⟨hused', hbirth', _⟩
      · rw [hal] at hal'
        cases hal'
        rfl
      · have hlt := (h.born q' hused').1
        omega
    · rcases hback q' hq' with ⟨_, hbirth', _⟩ | ⟨hused', hbirth', _⟩
      · have hlt := (h.born q hused).1
        omega
      · exact h.distinct q q' hused hused' (by omega)
  · change (s.apply c p e).nextpid = Sys.wrap32 ((s.apply c p e).births + 1)
    by_cases halloc : exists q r, e = .alloc q r
    · rcases halloc with ⟨q, r, rfl⟩
      change Sys.wrap32 (s.nextpid + 1) = Sys.wrap32 ((s.births + 1 : Nat) + 1)
      rw [h.nextpid]
      unfold Sys.wrap32
      push_cast
      exact Int.bmod_add_bmod
    · rcases apply_births (s := s) (c := c) (p := p) (e := e)
        (fun q r heq => halloc ⟨q, r, heq⟩) with ⟨hb, hn⟩
      rw [hb, hn]
      exact h.nextpid

theorem move (h : SlotInv s) (hsw : SwitchInv s) {ch : Choice nproc} {s' : Sys nproc ncpu}
    (hmove : Move s c ch s') : SlotInv s' := by
  cases hmove with
  | run p hpt =>
    have hon := hsw.on c p (by rw [hpt]; rfl)
    rw [hpt] at hon
    have hused : (s.procs p).state ≠ .unused := by
      rw [hon.2.1]
      decide
    have hkept : forall q,
        Kept (s.procs q) ((s.setProc p { s.procs p with state := .running }).procs q) := by
      intro q
      rcases eq_or_ne q p with rfl | hq
      · rw [Sys.setProc_self]
        exact Kept.of_used hused nofun rfl rfl
      · rw [Sys.setProc_ne _ _ hq]
        exact Kept.refl _
    have hin : forall q,
        ((s.setProc p { s.procs p with state := .running }).procs q).state ≠ .unused ->
        (s.procs q).state ≠ .unused := fun q hq hun => hq ((hkept q).unused.2 hun)
    constructor
    · intro q hq
      have hold := (hkept q).unused.1 hq
      exact (hkept q).bare hold (h.bare q hold)
    · intro q
      change ((s.setProc p _).procs q).ClosedTo (s.stack q).closedTo
      rcases eq_or_ne q p with rfl | hq
      · rw [Sys.setProc_self]
        exact (h.files q).congr rfl rfl
      · rw [Sys.setProc_ne _ _ hq]
        exact h.files q
    · intro q hq
      change ((s.setProc p _).procs q).birth < s.births ∧ ((s.setProc p _).procs q).pid =
        Sys.wrap32 (((s.setProc p _).procs q).birth + 1)
      rw [(hkept q).birth, (hkept q).pid]
      exact h.born q (hin q hq)
    · intro q q' hq hq' heq
      change ((s.setProc p _).procs q).birth = ((s.setProc p _).procs q').birth at heq
      rw [(hkept q).birth, (hkept q').birth] at heq
      exact h.distinct q q' (hin q hq) (hin q' hq') heq
    · exact h.nextpid
  | switch p hpt =>
    refine ⟨h.bare, ?_, h.born, h.distinct, h.nextpid⟩
    intro q
    change (s.procs q).ClosedTo ((s.goto p _).stack q).closedTo
    rcases eq_or_ne q p with rfl | hq
    · rw [Sys.goto_self, Pc.closedTo_resume]
      exact h.files q
    · rw [Sys.goto_ne _ _ hq]
      exact h.files q
  | process p e pc hpt hcode hen => exact h.process hsw hpt hcode hen
  | _ => exact ⟨h.bare, h.files, h.born, h.distinct, h.nextpid⟩

theorem of_booted (h : s.Booted) : SlotInv s := by
  have hinit : forall q, (s.procs q).state ≠ .unused -> q = s.initproc := by
    intro q hq
    by_contra hne
    exact hq (h.unused q hne)
  constructor
  · intro q hq
    have hne : q ≠ s.initproc := by
      rintro rfl
      rw [h.init_state] at hq
      cases hq
    exact (h.clean q hne).toBare
  · intro q
    rcases eq_or_ne q s.initproc with rfl | hne
    · rw [h.init_stack]
      exact Proc.closedTo_zero _
    · exact ⟨fun fd _ => (h.clean q hne).ofile fd, fun _ => (h.clean q hne).cwd⟩
  · intro q hq
    rw [hinit q hq, h.init_birth, h.init_pid, h.births]
    exact ⟨Nat.zero_lt_one, by decide⟩
  · intro q q' hq hq' _
    rw [hinit q hq, hinit q' hq']
  · rw [h.nextpid, h.births]
    decide

end SlotInv

theorem slotInv_reachable {s : Sys nproc ncpu} {ok : Sys nproc ncpu -> _ -> Prop}
    (h : (system nproc ncpu).ReachableVia ok s) : SwitchInv s ∧ SlotInv s := by
  refine h.invariant (I := fun s => SwitchInv s ∧ SlotInv s) ?_ ?_
  · intro s hs
    exact ⟨SwitchInv.of_booted hs, SlotInv.of_booted hs⟩
  · rintro s l s' ⟨hsw, hslot⟩ _ hstep
    have hmove := step_move hstep
    exact ⟨hsw.move hmove, hslot.move hsw hmove⟩

end Sched
end Xv6
