import Xv6.Process.ExecCommit

/-!
# What `exec` leaves

The program, the arguments and the registers of a process whose `exec` has succeeded.
-/

namespace Xv6
namespace Process

open Lib Vm Function

section

variable {s s' : Machine} {i : Nat} {path : List UInt8} {file : Option (Nat × Readi)}
  {args : List (List UInt8)}

theorem kexec_returns (hlive : Live s.kernel.kmem s.kernel.trampoline (s.kernel.proc i))
    (h : Holder s.kernel i) (hargs : forall arg, arg ∈ args -> arg.length < 2 ^ 31) :
    exists s' res, s.kexec i path file args = .ok (s', res) := by
  have hlens : forall len, len ∈ args.map List.length -> len < 2 ^ 31 := by
    intro len hlen
    rcases List.mem_map.mp hlen with ⟨arg, harg, rfl⟩
    exact hargs arg harg
  rcases kexec_spec (p := s.kernel.myproc i) (file.map Prod.snd) hlens hlive.size_le hlive.space
    h.good_use with ⟨m, res, hrun, _⟩
  have hforget := kexec_forget s i path file args
  rw [hrun] at hforget
  rcases map_eq_ok.mp hforget with ⟨⟨s', res'⟩, hrun', _⟩
  exact ⟨s', res', hrun'⟩

/-!
## The program
-/

def programHeader (contents : List UInt8) (k : Nat) : Proghdr :=
  headers contents ((Elfhdr.ofBytes (contents.take Elfhdr.size)).phoff % 2 ^ 32) k

def programHeaders (contents : List UInt8) : Nat :=
  (Elfhdr.ofBytes (contents.take Elfhdr.size)).phnum

def IsLoad (contents : List UInt8) (k : Nat) : Prop :=
  k < programHeaders contents ∧ (programHeader contents k).type = ELF_PROG_LOAD

theorem ExecRun.loaded (h : Holder s.kernel i) {contents : List UInt8} {ip argc : Nat}
    {readi : Readi} (hdel : Delivers contents readi) (hlen : contents.length < 2 ^ 32)
    (hargs : forall arg, arg ∈ args -> arg.length < 2 ^ 31)
    (hinc : Increasing (programHeader contents) (programHeaders contents) 0)
    (hrun : ExecRun s i path args (some (ip, readi)) s' (some argc)) :
    forall k, IsLoad contents k -> Untruncated (programHeader contents k) ->
      SegmentLoaded contents s'.ram (s'.kernel.proc i).pagetable (programHeader contents k) := by
  have hgood : Good s.kernel.kmem fun _ => 0 := h.good.mono fun _ => Nat.zero_le _
  cases hrun with
  | @done _ _ x1 x2 x3 x4 r sz top sp ustack hfull _ htable hload hbuild hfree =>
    have hbytes : readi 0 Elfhdr.size = contents.take Elfhdr.size := (hdel.full hfull).1
    rw [hbytes] at hload
    rcases procPagetable_image hgood htable with ⟨hmoves1, himage1⟩
    rcases loadProgram_loaded hdel hlen himage1 (hgood.conserve hmoves1.conserve) hinc hload with
      ⟨_, _, hloaded⟩
    rcases loadProgram_image hdel.length_le hgood htable hload with ⟨_, hsz, _, _⟩
    rcases buildStack_image hdel.length_le hgood hargs htable hload hbuild with
      ⟨hmoves, _, _, hstack⟩
    rcases exec_replaced h hmoves hfree with ⟨_, _, hkept, _⟩
    have hle : sz <= pages sz * PGSIZE := by
      rw [← pgroundup_eq]
      exact le_pgroundup hsz
    have hboth : Kept x2 x4 r (pages sz) :=
      (hstack ustack sp rfl).kept.trans (hkept.mono (pages_le hsz))
    intro k hk hcut
    rcases hloaded k hk.1 hk.2 with ⟨hsegment, haccepted, hend⟩
    rw [committed_proc]
    exact (hsegment hcut).kept hboth (hend.trans hle) haccepted.filesz_le

/-- Any file is survived, and a program is loaded as its file has it. -/
theorem exec_program (hlive : Live s.kernel.kmem s.kernel.trampoline (s.kernel.proc i))
    (hactive : (s.kernel.proc i).state ≠ .unused)
    (hgood : Good s.kernel.kmem (memUse s.kernel.kmem (s.kernel.proc i)))
    (hargs : forall arg, arg ∈ args -> arg.length < 2 ^ 31) :
    (exists s' res, s.kexec i path file args = .ok (s', res)) ∧
      forall contents ip readi s' argc, file = some (ip, readi) -> Delivers contents readi ->
        contents.length < 2 ^ 32 -> s.kexec i path file args = .ok (s', some argc) ->
        Increasing (programHeader contents) (programHeaders contents) 0 ->
        forall k, IsLoad contents k ->
          (SegmentLoaded contents s'.ram (s'.kernel.proc i).pagetable (programHeader contents k) <->
            Untruncated (programHeader contents k)) := by
  have h := hlive.holder hactive hgood
  refine ⟨kexec_returns hlive h hargs, ?_⟩
  rintro contents ip readi s' argc rfl hdel hlen hrun hinc k hk
  exact ⟨fun hloaded => hloaded.untruncated hlen,
    (kexec_run hrun).loaded h hdel hlen hargs hinc k hk⟩

end

def littleEndian (k w : Nat) : List UInt8 :=
  (List.range k).map fun j => UInt8.ofNat (w / 256 ^ j)

/-- A program with one byte from the file at the offset `off`, and one byte of zeros. -/
def smallElf (off : Nat) : List UInt8 :=
  [0x7f, 0x45, 0x4c, 0x46] ++ List.replicate 28 0 ++ littleEndian 8 64 ++ List.replicate 16 0 ++
    littleEndian 2 1 ++ List.replicate 6 0 ++
    littleEndian 4 1 ++ littleEndian 4 5 ++ littleEndian 8 off ++ littleEndian 8 0 ++
    littleEndian 8 0 ++ littleEndian 8 1 ++ littleEndian 8 2 ++ littleEndian 8 4096

theorem increasing_one (ph : Nat -> Proghdr) : Increasing ph 1 0 := by
  refine ⟨fun k _ _ => ?_, fun k l hkl hl => absurd (Nat.lt_of_le_of_lt hkl hl) (by omega)⟩
  rw [show pgroundup 0 = 0 by decide]
  exact Nat.zero_le _

theorem exec_program_small : exists s s' : Machine,
    Live s.kernel.kmem s.kernel.trampoline (s.kernel.proc 0) ∧
      Good s.kernel.kmem (memUse s.kernel.kmem (s.kernel.proc 0)) ∧
      s.kexec 0 [] (some (7, readFile (smallElf 1))) [] = .ok (s', some 0) ∧
      IsLoad (smallElf 1) 0 ∧
      SegmentLoaded (smallElf 1) s'.ram (s'.kernel.proc 0).pagetable
        (programHeader (smallElf 1) 0) := by
  have hcheck : passes (userinit (tightBoot 13 (by decide)).kernel) (fun k =>
      passes (k.machine.kexec 0 [] (some (7, readFile (smallElf 1))) []) fun r =>
        decide (r.2 = some 0 ∧ (k.proc 0).state ≠ .unused)) = true := by
    decide +kernel
  obtain ⟨k, hk, hcheck⟩ := passes_eq_true.mp hcheck
  obtain ⟨⟨s', _⟩, hrun, hcheck⟩ := passes_eq_true.mp hcheck
  rcases of_decide_eq_true hcheck with ⟨rfl, hactive⟩
  have hlive := Kernel.machine_live (.init hk) (by decide) hactive
  have hgood := (Kernel.machine_caller (.init hk) (by decide) hactive).good
  have hone : programHeaders (smallElf 1) = 1 := by decide +kernel
  have hload : IsLoad (smallElf 1) 0 := by
    refine ⟨?_, ?_⟩
    · rw [hone]
      decide
    · decide +kernel
  have hinc := increasing_one (programHeader (smallElf 1))
  rw [← hone] at hinc
  have hcut : Untruncated (programHeader (smallElf 1) 0) := .inr (by decide +kernel)
  refine ⟨k.machine, s', hlive, hgood, hrun, hload, ?_⟩
  exact ((exec_program hlive hactive hgood (fun _ h => by cases h)).2 (smallElf 1) 7
    (readFile (smallElf 1)) s' 0 rfl (readFile_delivers _) (by decide +kernel) hrun hinc 0
    hload).mpr hcut

/-- The offset of a segment is cut to 32 bits: the byte comes from the start of the file. -/
theorem exec_offset_cut : exists s s' : Machine,
    Live s.kernel.kmem s.kernel.trampoline (s.kernel.proc 0) ∧
      (s.kernel.proc 0).state ≠ .unused ∧
      Good s.kernel.kmem (memUse s.kernel.kmem (s.kernel.proc 0)) ∧
      (smallElf (2 ^ 32)).length < 2 ^ 32 ∧
      Increasing (programHeader (smallElf (2 ^ 32))) (programHeaders (smallElf (2 ^ 32))) 0 ∧
      IsLoad (smallElf (2 ^ 32)) 0 ∧ (programHeader (smallElf (2 ^ 32)) 0).filesz = 1 ∧
      (programHeader (smallElf (2 ^ 32)) 0).off = 2 ^ 32 ∧
      (programHeader (smallElf (2 ^ 32)) 0).vaddr = 0 ∧
      s.kexec 0 [] (some (7, readFile (smallElf (2 ^ 32)))) [] = .ok (s', some 0) ∧
      s'.ram.userByte (s'.kernel.proc 0).pagetable 0 = some 0x7f ∧
      ¬ SegmentLoaded (smallElf (2 ^ 32)) s'.ram (s'.kernel.proc 0).pagetable
        (programHeader (smallElf (2 ^ 32)) 0) := by
  have hcheck : passes (userinit (tightBoot 13 (by decide)).kernel) (fun k =>
      passes (k.machine.kexec 0 [] (some (7, readFile (smallElf (2 ^ 32)))) []) fun r =>
        decide (r.2 = some 0 ∧ (k.proc 0).state ≠ .unused ∧
          r.1.ram.userByte (r.1.kernel.proc 0).pagetable 0 = some 0x7f)) = true := by
    decide +kernel
  obtain ⟨k, hk, hcheck⟩ := passes_eq_true.mp hcheck
  obtain ⟨⟨s', _⟩, hrun, hcheck⟩ := passes_eq_true.mp hcheck
  rcases of_decide_eq_true hcheck with ⟨rfl, hactive, hbyte⟩
  have hone : programHeaders (smallElf (2 ^ 32)) = 1 := by decide +kernel
  have hload : IsLoad (smallElf (2 ^ 32)) 0 := by
    refine ⟨?_, ?_⟩
    · rw [hone]
      decide
    · decide +kernel
  have hinc := increasing_one (programHeader (smallElf (2 ^ 32)))
  rw [← hone] at hinc
  refine ⟨k.machine, s', Kernel.machine_live (.init hk) (by decide) hactive, hactive,
    (Kernel.machine_caller (.init hk) (by decide) hactive).good, by decide +kernel, hinc,
    hload, by decide +kernel, by decide +kernel, by decide +kernel, hrun, hbyte, ?_⟩
  intro hloaded
  exact absurd (hloaded.file 0 (by decide +kernel)).1 (by decide +kernel)

/-!
## The arguments
-/

section

variable {s s' : Machine} {i : Nat} {path : List UInt8} {file : Option (Nat × Readi)}
  {args : List (List UInt8)}

theorem pointers_pairwise {sp : Nat} (hpos : 0 < below sp (args.map List.length)) :
    List.Pairwise (fun first second => second.2 + second.1.length < first.2)
      (args.zip (pointers sp (args.map List.length))) := by
  induction args generalizing sp with
  | nil => exact List.Pairwise.nil
  | cons arg args ih =>
    rw [List.map_cons] at hpos ⊢
    unfold below at hpos
    unfold pointers
    rw [List.zip_cons_cons, List.pairwise_cons]
    refine ⟨?_, ih hpos⟩
    rintro ⟨arg', u⟩ hmem
    exact (List.forall₂_zip (pointers_between hpos) hmem).2

theorem setReg_self (s : Machine) (i off : Nat) {w : Nat} (hw : w < 2 ^ 64) :
    Bytes.getLE ((s.setReg i off w).data (s.kernel.proc i).trapframe) off 8 = w := by
  have hdigits : Bytes.getLE ((s.setReg i off w).data (s.kernel.proc i).trapframe) off 8 =
      w % 256 ^ 8 := by
    refine Bytes.getLE_digits fun j hj => ?_
    change update s.data _ _ _ _ = _
    rw [update_self, if_pos (by omega)]
    unfold Ram.words
    rw [show (off + j - off) / 8 = 0 by omega, show (off + j - off) % 8 = j by omega]
    rfl
  rw [hdigits, Nat.mod_eq_of_lt (by omega)]

theorem setReg_apart (s : Machine) (i off off' w : Nat)
    (hapart : off + 8 <= off' ∨ off' + 8 <= off) :
    Bytes.getLE ((s.setReg i off w).data (s.kernel.proc i).trapframe) off' 8 =
      Bytes.getLE (s.data (s.kernel.proc i).trapframe) off' 8 := by
  refine Bytes.getLE_congr fun j hlo hhi => ?_
  change update s.data _ _ _ _ = _
  rw [update_self, if_neg (by omega)]
  rfl

theorem commit_regs (s : Machine) (i : Nat) (path : List UInt8) (entry : Nat) (pagetable : Page)
    (sz sp : Nat) (hsp : sp < 2 ^ 64) :
    Bytes.getLE ((s.commit i path entry pagetable sz sp).data (s.kernel.proc i).trapframe) A1 8 =
        sp ∧
      Bytes.getLE ((s.commit i path entry pagetable sz sp).data (s.kernel.proc i).trapframe) SP 8 =
        sp := by
  let s1 := s.setReg i A1 sp
  let s2 := (s1.setSlot i { s1.slot i with
    name := safestrcpy (s1.slot i).name (fun k => (lastElem path path).getD k 0) 16 }).setProc i
      { s.kernel.proc i with
        pagetable := pagetable
        sz := sz }
  have hproc : s2.kernel.proc i = { s.kernel.proc i with
      pagetable := pagetable
      sz := sz } := update_self _ _ _
  have htf : (s2.kernel.proc i).trapframe = (s.kernel.proc i).trapframe := by
    rw [hproc]
  have hcommit : s.commit i path entry pagetable sz sp = (s2.setReg i EPC entry).setReg i SP sp :=
    rfl
  rw [hcommit, ← htf]
  constructor
  · calc
      Bytes.getLE (((s2.setReg i EPC entry).setReg i SP sp).data (s2.kernel.proc i).trapframe) A1 8
        = Bytes.getLE ((s2.setReg i EPC entry).data (s2.kernel.proc i).trapframe) A1 8 :=
          setReg_apart (s2.setReg i EPC entry) i SP A1 sp (Or.inl (by decide))
      _ = Bytes.getLE (s2.data (s2.kernel.proc i).trapframe) A1 8 :=
          setReg_apart s2 i EPC A1 entry (Or.inl (by decide))
      _ = Bytes.getLE (s1.data (s.kernel.proc i).trapframe) A1 8 := by
          rw [htf]
          rfl
      _ = sp := setReg_self s i A1 hsp
  · exact setReg_self (s2.setReg i EPC entry) i SP hsp

structure ArgumentStack (x : Ram) (p : Proc) (args : List (List UInt8)) (ustack : List Nat)
    (sp : Nat) : Prop where
  aligned : sp % 16 = 0
  a1 : Bytes.getLE (x.data p.trapframe) A1 8 = sp
  stack : Bytes.getLE (x.data p.trapframe) SP 8 = sp
  arguments : Arguments x p.pagetable args ustack sp
  base_le : p.sz - USERSTACK * PGSIZE <= sp
  inside : List.Forall₂ (fun arg u => sp + (args.length + 1) * 8 <= u ∧ u + arg.length < p.sz)
    args ustack
  apart : List.Pairwise (fun first second => second.2 + second.1.length < first.2)
    (args.zip ustack)
  writable : Writable x.kmem p.pagetable (p.sz - USERSTACK * PGSIZE) p.sz
  guard : PGSIZE <= p.sz - USERSTACK * PGSIZE ∧
    forall a, p.sz - USERSTACK * PGSIZE - PGSIZE <= a -> a < p.sz - USERSTACK * PGSIZE ->
      x.userByte p.pagetable a = none

theorem Arguments.kept {x y : Ram} {r : Page} {ustack : List Nat} {lo sp top : Nat}
    (h : Arguments x r args ustack sp) (hkept : Kept x y r USERTOP)
    (hwritable : Writable x.kmem r lo top) (htop : top <= TRAPFRAME) (hlo : lo <= sp)
    (hin : List.Forall₂ (fun arg u => sp + (args.length + 1) * 8 <= u ∧ u + arg.length < top)
      args ustack) (harray : sp + (args.length + 1) * 8 <= top) : Arguments y r args ustack sp := by
  have hbyte : forall a, lo <= a -> a < top -> y.byteAt r a = x.byteAt r a := by
    intro a h1 h2
    refine hkept.bytes a ?_ (hwritable a h1 h2).2.1
    have hmax : TRAPFRAME = USERTOP * PGSIZE := by decide
    rw [Nat.div_lt_iff_lt_mul (by decide)]
    omega
  have hlen : ustack.length = args.length := hin.length_eq.symm
  refine ⟨?_, ?_⟩
  · refine List.Forall₂.mp ?_ hin h.strings
    rintro arg u ⟨h1, h2⟩ hstring j hj
    rw [hbyte (u + j) (by omega) (by omega)]
    exact hstring j hj
  · intro k hk
    rw [← h.words k hk]
    unfold wordAt
    refine Bytes.getLE_congr fun j h1 h2 => hbyte j (by omega) ?_
    have hk' : k * 8 <= args.length * 8 := Nat.mul_le_mul_right 8 (hlen ▸ hk)
    omega

theorem ExecRun.stacked (h : Holder s.kernel i)
    (hread : forall ip readi, file = some (ip, readi) -> forall off n, (readi off n).length <= n)
    (hargs : forall arg, arg ∈ args -> arg.length < 2 ^ 31) {argc : Nat}
    (hrun : ExecRun s i path args file s' (some argc)) :
    argc = args.length ∧
      exists ustack sp, ArgumentStack s'.ram (s'.kernel.proc i) args ustack sp := by
  have hgood : Good s.kernel.kmem fun _ => 0 := h.good.mono fun _ => Nat.zero_le _
  cases hrun with
  | @done ip readi x1 x2 x3 x4 r sz top sp ustack _ _ htable hload hbuild hfree =>
    rcases buildStack_image (hread _ _ rfl) hgood hargs htable hload hbuild with
      ⟨hmoves, htop, _, hstack⟩
    have hbuilt := hstack ustack sp rfl
    rcases exec_replaced h hmoves hfree with ⟨_, _, hkept, htf⟩
    have hlen : ustack.length = args.length := by
      rw [hbuilt.ustack_eq, pointers_length, List.length_map]
    have hmax : TRAPFRAME = USERTOP * PGSIZE := by decide
    have hstackpages : USERSTACK = 2 := rfl
    have hpage : PGSIZE = 4096 := rfl
    have htopEq := hbuilt.top_eq
    have hfits := hbuilt.fits
    have hsp := hbuilt.sp_eq
    have hbase : top - USERSTACK * PGSIZE = (pages sz + 1) * PGSIZE := by
      rw [htopEq, hstackpages, hpage]
      omega
    have hbelow : sp + (args.length + 1) * 8 <= below top (args.map List.length) := by
      have hdown := down16_le (below top (args.map List.length) -
        ((args.map List.length).length + 1) * 8)
      unfold stackPointer at hsp
      rw [List.length_map] at hsp hdown
      rw [hbase, hpage] at hfits
      omega
    have hpos : 0 < below top (args.map List.length) := by omega
    have hle := below_le top (args.map List.length)
    have hinside : List.Forall₂
        (fun arg u => sp + (args.length + 1) * 8 <= u ∧ u + arg.length < top) args ustack := by
      rw [hbuilt.ustack_eq]
      exact (pointers_between hpos).imp fun arg u hu => ⟨hbelow.trans hu.1, hu.2⟩
    have hregs := commit_regs ((s.released ip).setRam x3) i path
      (Elfhdr.entry (readi 0 Elfhdr.size)) r top sp (by
        have h64 : TRAPFRAME < 2 ^ 64 := by decide
        omega)
    refine ⟨hlen, ustack, sp, ?_⟩
    rw [committed_proc]
    refine
      { aligned := ?_
        a1 := ?_
        stack := ?_
        arguments := hbuilt.arguments.kept hkept hbuilt.writable htop hfits hinside (by omega)
        base_le := hfits
        inside := hinside
        apart := ?_
        writable := ?_
        guard := ⟨?_, ?_⟩ }
    · rw [hsp]
      exact down16_mod _
    · exact (congrArg (fun page => Bytes.getLE page A1 8) htf).trans hregs.1
    · exact (congrArg (fun page => Bytes.getLE page SP 8) htf).trans hregs.2
    · rw [hbuilt.ustack_eq]
      exact pointers_pairwise hpos
    · intro a h1 h2
      have hlt : a / PGSIZE < USERTOP := by
        rw [Nat.div_lt_iff_lt_mul (by decide)]
        exact Nat.lt_of_lt_of_le h2 (htop.trans (Nat.le_of_eq hmax))
      have hold := hbuilt.writable a h1 h2
      rw [← hkept.leaf _ hlt] at hold
      exact hold
    · change PGSIZE <= top - USERSTACK * PGSIZE
      rw [hbase, hpage]
      omega
    · intro a h1 h2
      change top - USERSTACK * PGSIZE - PGSIZE <= a at h1
      change a < top - USERSTACK * PGSIZE at h2
      rw [hbase, hpage] at h1 h2
      have hdiv : a / PGSIZE = pages sz := by
        rw [hpage]
        omega
      change x4.userByte r a = none
      rw [userByte_eq, hdiv, hkept.leaf _ (by rw [htopEq, hmax, hpage] at htop; omega),
        hbuilt.guard]
      exact if_neg fun hcond => by cases hcond.2.2

theorem kexec_fits (hlive : Live s.kernel.kmem s.kernel.trampoline (s.kernel.proc i))
    (h : Holder s.kernel i)
    (hread : forall ip readi, file = some (ip, readi) -> forall off n, (readi off n).length <= n)
    (hargs : forall arg, arg ∈ args -> arg.length < 2 ^ 31) (hcount : args.length <= MAXARG)
    {s0 : Machine} {argc : Nat} (hrun0 : s.kexec i path file [] = .ok (s0, some argc)) :
    exists s' res, s.kexec i path file args = .ok (s', res) ∧
      (res = none <-> stackPointer (s0.kernel.proc i).sz (args.map List.length) <
        (s0.kernel.proc i).sz - USERSTACK * PGSIZE) := by
  have hgood : Good s.kernel.kmem fun _ => 0 := h.good.mono fun _ => Nat.zero_le _
  have hreturns : exists s' res, s.kexec i path file args = .ok (s', res) :=
    kexec_returns hlive h hargs
  rcases hreturns with ⟨s', res, hrun⟩
  refine ⟨s', res, hrun, ?_⟩
  have hexec := kexec_run hrun
  cases kexec_run hrun0 with
  | @done ip readi x1 x2 x3 x4 r sz top sp ustack hfull hmagic htable hload hbuild hfree =>
    rcases loadProgram_image (hread _ _ rfl) hgood htable hload with ⟨hmoves, _, _, himage⟩
    rcases buildStack_isSome (s.kernel.myproc i) hargs (himage rfl)
      (hgood.conserve hmoves.conserve) hbuild with ⟨y, built, hbuild', _, hsome⟩
    rw [committed_proc]
    change res = none <-> stackPointer top (args.map List.length) < top - USERSTACK * PGSIZE
    cases hexec with
    | header hbad => exact absurd hmagic (hbad hfull)
    | memory htable' =>
      rw [htable] at htable'
      cases htable'
    | program htable' hload' =>
      rw [htable] at htable'
      cases htable'
      rw [hload] at hload'
      cases hload'
    | stack htable' hload' hbuild'' =>
      rw [htable] at htable'
      cases htable'
      rw [hload] at hload'
      cases hload'
      rw [hbuild'] at hbuild''
      cases hbuild''
      refine ⟨fun _ => Nat.not_le.mp fun hle => ?_, fun _ => rfl⟩
      have hcontra := hsome.mpr ⟨hcount, hle⟩
      cases hcontra
    | done _ _ htable' hload' hbuild'' =>
      rw [htable] at htable'
      cases htable'
      rw [hload] at hload'
      cases hload'
      rw [hbuild'] at hbuild''
      cases hbuild''
      refine ⟨fun hnone => (by cases hnone), fun hlt => ?_⟩
      exact absurd (hsome.mp rfl).2 (Nat.not_le.mpr hlt)

/-- The stack of a program that has been given its arguments. -/
theorem exec_arguments (path : List UInt8)
    (hlive : Live s.kernel.kmem s.kernel.trampoline (s.kernel.proc i))
    (hactive : (s.kernel.proc i).state ≠ .unused)
    (hgood : Good s.kernel.kmem (memUse s.kernel.kmem (s.kernel.proc i)))
    (hread : forall ip readi, file = some (ip, readi) -> forall off n, (readi off n).length <= n)
    (hcount : args.length < MAXARG) (hargs : forall arg, arg ∈ args -> arg.length < PGSIZE) :
    (forall s' argc, s.kexec i path file args = .ok (s', some argc) ->
        argc = args.length ∧
          exists ustack sp, ArgumentStack s'.ram (s'.kernel.proc i) args ustack sp) ∧
      forall s0 argc, s.kexec i path file [] = .ok (s0, some argc) ->
        exists s' res, s.kexec i path file args = .ok (s', res) ∧
          (res = none <-> stackPointer (s0.kernel.proc i).sz (args.map List.length) <
            (s0.kernel.proc i).sz - USERSTACK * PGSIZE) := by
  have h := hlive.holder hactive hgood
  have hshort : forall arg, arg ∈ args -> arg.length < 2 ^ 31 := fun arg harg =>
    (hargs arg harg).trans (by decide)
  constructor
  · intro s' argc hrun
    exact (kexec_run hrun).stacked h hread hshort
  · intro s0 argc hrun0
    exact kexec_fits hlive h hread hshort (Nat.le_of_lt hcount) hrun0

end

theorem exec_arguments_two : exists s s' s0 : Machine,
    Live s.kernel.kmem s.kernel.trampoline (s.kernel.proc 0) ∧
      Good s.kernel.kmem (memUse s.kernel.kmem (s.kernel.proc 0)) ∧
      s.kexec 0 [] (some (7, readFile bareElf)) [[97], [98, 99]] = .ok (s', some 2) ∧
      (exists ustack sp,
        ArgumentStack s'.ram (s'.kernel.proc 0) [[97], [98, 99]] ustack sp) ∧
      s.kexec 0 [] (some (7, readFile bareElf)) [] = .ok (s0, some 0) ∧
      ¬ stackPointer (s0.kernel.proc 0).sz [1, 2] <
        (s0.kernel.proc 0).sz - USERSTACK * PGSIZE := by
  have hcheck : passes (userinit (tightBoot 12 (by decide)).kernel) (fun k =>
      passes (k.machine.kexec 0 [] (some (7, readFile bareElf)) [[97], [98, 99]]) fun a =>
        passes (k.machine.kexec 0 [] (some (7, readFile bareElf)) []) fun b =>
          decide (a.2 = some 2 ∧ b.2 = some 0 ∧ (k.proc 0).state ≠ .unused)) = true := by
    decide +kernel
  obtain ⟨k, hk, hcheck⟩ := passes_eq_true.mp hcheck
  obtain ⟨⟨s', _⟩, hrun, hcheck⟩ := passes_eq_true.mp hcheck
  obtain ⟨⟨s0, _⟩, hrun0, hcheck⟩ := passes_eq_true.mp hcheck
  rcases of_decide_eq_true hcheck with ⟨rfl, rfl, hactive⟩
  have hlive := Kernel.machine_live (.init hk) (by decide) hactive
  have hgood := (Kernel.machine_caller (.init hk) (by decide) hactive).good
  have hread : forall ip readi, some (7, readFile bareElf) = some (ip, readi) ->
      forall off n, (readi off n).length <= n := by
    rintro ip readi ⟨⟩
    exact (readFile_delivers bareElf).length_le
  have hcount : [[(97 : UInt8)], [98, 99]].length < MAXARG := by decide
  have hexec := exec_arguments [] hlive hactive hgood hread hcount (by decide)
  rcases hexec.2 s0 0 hrun0 with ⟨s1, res, hrun1, hfits⟩
  rw [hrun] at hrun1
  cases hrun1
  refine ⟨k.machine, s', s0, hlive, hgood, hrun, (hexec.1 s' 2 hrun).2, hrun0, fun hlt => ?_⟩
  have hnone := hfits.mpr hlt
  cases hnone

end Process
end Xv6
