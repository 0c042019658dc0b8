import Xv6.Process.ExecImage
import Xv6.Vm.Allocation
import Xv6.Vm.Written

/-!
# Loading the program

The loops of `loadseg` and of `kexec` over the program headers, with the bytes that they bring
into memory.
-/

namespace Xv6
namespace Process

open Lib Vm

variable {n pg va len off sz' sz1 : Nat} {readi : Readi} {contents : List UInt8} {loaded : Bool}
variable {ph : Proghdr}

section

variable {x y : Ram} {trampoline trapframe r : Page} {sz : Nat}

/-!
## One segment
-/

theorem walkaddr_backed {m : Kmem} {pa : Page}
    (hspace : Space m trampoline trapframe r n) (h : walkaddr m r va = .ok (some pa)) :
    Backed m r va ∧ (leafAt m r (va / PGSIZE)).ppn = pa := by
  have hbound := hspace.bound
  rw [walkaddr_eq] at h
  by_cases hcond : va < MAXVA ∧ (leafAt m r (va / PGSIZE)).v = true ∧
      (leafAt m r (va / PGSIZE)).u = true
  · rw [if_pos hcond] at h
    cases h
    have hlt := hspace.user_lt (vpn_lt hcond.1) hcond.2.1 hcond.2.2
    exact ⟨⟨by omega, hcond.2.1⟩, rfl⟩
  · rw [if_neg hcond] at h
    cases h

def segRead (readi : Readi) (off len t : Nat) : List UInt8 :=
  readi ((off + t / PGSIZE * PGSIZE) % 2 ^ 32) (min (len - t / PGSIZE * PGSIZE) PGSIZE)

def segFull (readi : Readi) (off len t : Nat) : Prop :=
  (segRead readi off len t).length = min (len - t / PGSIZE * PGSIZE) PGSIZE

def segByte (readi : Readi) (off len t : Nat) : UInt8 :=
  (segRead readi off len t).getD (t % PGSIZE) 0

theorem min_step {i p w : Nat} (hw : p <= w) (h : i + p + w < len + p) :
    p + min (len - (i + p)) w = min (len - i) (w + p) := by
  omega

theorem loadsegLoop_wrote (hread : forall off n, (readi off n).length <= n)
    (hspace : Space x.kmem trampoline trapframe r pg) (hgood : Good x.kmem (use x.kmem r)) {i : Nat}
    (hva : va % PGSIZE = 0) (hi : i % PGSIZE = 0) (hbits : va + len < 2 ^ 64)
    (hturns : n ≠ 0 -> i + n * PGSIZE < len + PGSIZE)
    (hrun : Ram.loadsegLoop readi r va off len n x i = .ok (y, loaded)) :
    exists k src, Wrote x y r (va + i) k src ∧
      (loaded = true -> k = min (len - i) (n * PGSIZE) ∧
        forall j, j < k -> segFull readi off len (i + j) ∧
          src j = segByte readi off len (i + j)) := by
  induction n generalizing x i with
  | zero =>
    cases hrun
    refine ⟨0, fun _ => 0, Wrote.refl _ r _ _, fun _ => ⟨by omega, ?_⟩⟩
    intro j hj
    omega
  | succ n ih =>
    have hstart : i + PGSIZE + n * PGSIZE < len + PGSIZE := by
      have hlt := hturns (Nat.succ_ne_zero n)
      rw [Nat.succ_mul] at hlt
      omega
    unfold Ram.loadsegLoop at hrun
    rw [Nat.mod_eq_of_lt (by omega)] at hrun
    rcases bind_eq_ok.mp hrun with ⟨pa, hwalk, hturn⟩
    cases pa with
    | none => cases hturn
    | some pa =>
      rcases walkaddr_backed hspace hwalk with ⟨hback, hpa⟩
      subst hpa
      have hoff : (va + i) % PGSIZE = 0 := by
        unfold PGSIZE at *
        omega
      have hsize : (if len - i < PGSIZE then len - i else PGSIZE) = min (len - i) PGSIZE := by
        split
        · omega
        · omega
      dsimp only at hturn
      rw [hsize] at hturn
      have hlen := hread ((off + i) % 2 ^ 32) (min (len - i) PGSIZE)
      have hpage : forall j, j < PGSIZE -> segRead readi off len (i + j) =
          readi ((off + i) % 2 ^ 32) (min (len - i) PGSIZE) ∧ (i + j) % PGSIZE = j := by
        intro j hj
        have hdiv : (i + j) / PGSIZE * PGSIZE = i := by
          unfold PGSIZE at *
          omega
        unfold segRead
        rw [hdiv]
        refine ⟨rfl, ?_⟩
        unfold PGSIZE at *
        omega
      generalize hbytes : readi ((off + i) % 2 ^ 32) (min (len - i) PGSIZE) = bytes at *
      have hwrote := wrote_store (n := bytes.length) (fun j => bytes.getD j 0) hgood hback
        (by rw [hoff]; omega)
      rw [hoff] at hwrote
      by_cases hshort : bytes.length ≠ min (len - i) PGSIZE
      · rw [if_pos hshort] at hturn
        cases hturn
        exact ⟨bytes.length, _, hwrote, fun h => by cases h⟩
      rw [if_neg hshort] at hturn
      have hfull : bytes.length = min (len - i) PGSIZE := by omega
      have hbyte : forall j, j < bytes.length ->
          segFull readi off len (i + j) ∧ bytes.getD j 0 = segByte readi off len (i + j) := by
        intro j hj
        rcases hpage j (by omega) with ⟨hsame, hmod⟩
        refine ⟨?_, ?_⟩
        · unfold segFull
          rw [hsame, hfull]
          have hdiv : (i + j) / PGSIZE * PGSIZE = i := by
            unfold PGSIZE at *
            omega
          rw [hdiv]
        · unfold segByte
          rw [hsame, hmod]
      cases n with
      | zero =>
        cases hturn
        refine ⟨bytes.length, _, hwrote, fun _ => ⟨by omega, hbyte⟩⟩
      | succ n =>
        have hmul : (n + 1 + 1) * PGSIZE = (n + 1) * PGSIZE + PGSIZE := Nat.succ_mul (n + 1) PGSIZE
        have hpos : PGSIZE <= (n + 1) * PGSIZE := Nat.le_mul_of_pos_left _ (Nat.succ_pos n)
        have hwhole : bytes.length = PGSIZE := by omega
        rcases ih (by rw [hwrote.kmem_eq]; exact hspace)
          (by rw [hwrote.kmem_eq]; exact hgood)
          (by unfold PGSIZE at *; omega) (fun _ => hstart) hturn with ⟨k, src, hrest, hall⟩
        have happend : Wrote x y r (va + i) (bytes.length + k)
            (fun j => if j < PGSIZE then bytes.getD j 0 else src (j - PGSIZE)) := by
          refine (hwrote.congr fun j hj => ?_).append ?_
          · rw [if_pos (hwhole ▸ hj)]
          · rw [show va + i + bytes.length = va + (i + PGSIZE) by rw [hwhole, Nat.add_assoc]]
            refine hrest.congr fun j hj => ?_
            rw [hwhole, if_neg (Nat.not_lt.mpr (Nat.le_add_right _ _)),
              Nat.add_sub_cancel_left]
        refine ⟨bytes.length + k, _, happend, fun hyes => ?_⟩
        rcases hall hyes with ⟨hk, hbytes'⟩
        refine ⟨?_, ?_⟩
        · rw [hk, hwhole, hmul]
          exact min_step hpos hstart
        · intro j hj
          by_cases hfirst : j < PGSIZE
          · rw [if_pos hfirst]
            exact hbyte j (by rw [hwhole]; exact hfirst)
          · have hge := Nat.not_lt.mp hfirst
            rw [hwhole] at hj
            rw [if_neg hfirst]
            have hnext := hbytes' (j - PGSIZE) (Nat.sub_lt_left_of_lt_add hge hj)
            rw [Nat.add_assoc, Nat.add_sub_cancel' hge] at hnext
            exact hnext

theorem loadseg_wrote (hread : forall off n, (readi off n).length <= n)
    (hspace : Space x.kmem trampoline trapframe r pg) (hgood : Good x.kmem (use x.kmem r))
    (hva : va % PGSIZE = 0) (hbits : va + len < 2 ^ 64)
    (hrun : x.loadseg readi r va off len = .ok (y, loaded)) :
    exists k src, Wrote x y r va k src ∧
      (loaded = true -> k = len ∧
        forall j, j < k -> segFull readi off len j ∧ src j = segByte readi off len j) := by
  rcases loadsegLoop_wrote hread hspace hgood hva (Nat.zero_mod _) hbits (fun _ => by
    unfold pagesBetween PGSIZE
    omega) hrun with ⟨k, src, hwrote, hall⟩
  refine ⟨k, src, hwrote, fun hyes => ?_⟩
  rcases hall hyes with ⟨hk, hbytes⟩
  refine ⟨?_, fun j hj => ?_⟩
  · rw [hk]
    unfold pagesBetween PGSIZE
    omega
  · have hbyte := hbytes j hj
    rw [Nat.zero_add] at hbyte
    exact hbyte

/-!
## The loop over the program headers
-/

structure Accepted (ph : Proghdr) : Prop where
  type_eq : ph.type = ELF_PROG_LOAD
  filesz_le : ph.filesz <= ph.memsz
  end_lt : ph.vaddr + ph.memsz < 2 ^ 64
  aligned : ph.vaddr % PGSIZE = 0

def header (readi : Readi) (off : Nat) : Proghdr :=
  Proghdr.ofBytes (readi off Proghdr.size)

inductive LoadTurn (readi : Readi) (r : Page) (n : Nat) (x : Ram) (off sz : Nat) :
    Ram -> Nat -> Bool -> Prop where
  | bad : LoadTurn readi r n x off sz x sz false
  | skip {y : Ram} {sz' : Nat} {loaded : Bool} : (readi off Proghdr.size).length = Proghdr.size ->
      (header readi off).type ≠ ELF_PROG_LOAD ->
      Ram.loadProgram readi r n x ((off + Proghdr.size) % 2 ^ 32) sz = .ok (y, sz', loaded) ->
      LoadTurn readi r n x off sz y sz' loaded
  | full {x1 : Ram} : Accepted (header readi off) ->
      x.uvmalloc r sz ((header readi off).vaddr + (header readi off).memsz)
        (flags2perm (header readi off).flags) = .ok (x1, 0) ->
      LoadTurn readi r n x off sz x1 sz false
  | short {x1 x2 : Ram} {sz1 : Nat} : Accepted (header readi off) ->
      x.uvmalloc r sz ((header readi off).vaddr + (header readi off).memsz)
        (flags2perm (header readi off).flags) = .ok (x1, sz1) -> sz1 ≠ 0 ->
      x1.loadseg readi r (header readi off).vaddr ((header readi off).off % 2 ^ 32)
        ((header readi off).filesz % 2 ^ 32) = .ok (x2, false) ->
      LoadTurn readi r n x off sz x2 sz1 false
  | load {x1 x2 y : Ram} {sz1 sz' : Nat} {loaded : Bool} :
      (readi off Proghdr.size).length = Proghdr.size -> Accepted (header readi off) ->
      x.uvmalloc r sz ((header readi off).vaddr + (header readi off).memsz)
        (flags2perm (header readi off).flags) = .ok (x1, sz1) -> sz1 ≠ 0 ->
      x1.loadseg readi r (header readi off).vaddr ((header readi off).off % 2 ^ 32)
        ((header readi off).filesz % 2 ^ 32) = .ok (x2, true) ->
      Ram.loadProgram readi r n x2 ((off + Proghdr.size) % 2 ^ 32) sz1 = .ok (y, sz', loaded) ->
      LoadTurn readi r n x off sz y sz' loaded

theorem loadProgram_turn (hrun : Ram.loadProgram readi r (n + 1) x off sz = .ok (y, sz', loaded)) :
    LoadTurn readi r n x off sz y sz' loaded := by
  unfold Ram.loadProgram at hrun
  dsimp only at hrun
  have hfields := Proghdr.ofBytes_lt (readi off Proghdr.size)
  change (header readi off).vaddr < 2 ^ 64 ∧ (header readi off).memsz < 2 ^ 64 at hfields
  change (if (readi off Proghdr.size).length ≠ Proghdr.size then _ else
    if (header readi off).type ≠ ELF_PROG_LOAD then _ else
    if (header readi off).memsz < (header readi off).filesz then _ else
    if ((header readi off).vaddr + (header readi off).memsz) % 2 ^ 64 < (header readi off).vaddr
      then _ else
    if (header readi off).vaddr % PGSIZE ≠ 0 then _ else _) = _ at hrun
  split at hrun
  · cases hrun
    exact .bad
  next hread =>
  split at hrun
  next htype => exact .skip (Decidable.not_not.mp hread) htype hrun
  next htype =>
  split at hrun
  · cases hrun
    exact .bad
  next hmem =>
  split at hrun
  · cases hrun
    exact .bad
  next hwrap =>
  split at hrun
  · cases hrun
    exact .bad
  next halign =>
  have haccepted : Accepted (header readi off) :=
    { type_eq := Decidable.not_not.mp htype
      filesz_le := Nat.not_lt.mp hmem
      end_lt := by omega
      aligned := Decidable.not_not.mp halign }
  rcases bind_eq_ok.mp hrun with ⟨⟨x1, sz1⟩, halloc, hrest⟩
  change x.uvmalloc r sz (((header readi off).vaddr + (header readi off).memsz) % 2 ^ 64)
    (flags2perm (header readi off).flags) = .ok (x1, sz1) at halloc
  rw [Nat.mod_eq_of_lt haccepted.end_lt] at halloc
  dsimp only at hrest
  split at hrest
  next hzero =>
    cases hrest
    subst hzero
    exact .full haccepted halloc
  next hpos =>
    rcases bind_eq_ok.mp hrest with ⟨⟨x2, done⟩, hload, hlast⟩
    cases done with
    | false =>
      cases hlast
      exact .short haccepted halloc hpos hload
    | true => exact .load (Decidable.not_not.mp hread) haccepted halloc hpos hload hlast

theorem Image.uvmalloc_moves (h : Image x.kmem trampoline trapframe r sz)
    (hgood : Good x.kmem (use x.kmem r)) {newsz : Nat} {xperm : Perm}
    (hrun : x.uvmalloc r sz newsz xperm = .ok (y, sz1)) :
    Moves x y (use x.kmem r) (use y.kmem r) ∧
      (sz1 = 0 -> Space y.kmem trampoline trapframe r (pages sz)) ∧
      (sz1 ≠ 0 -> Image y.kmem trampoline trapframe r sz1 ∧ newsz <= sz1 ∧
        (sz <= newsz -> sz1 = newsz ∧
          Grown x.kmem y.kmem r (pages sz) (pages newsz - pages sz) xperm)) := by
  rcases h.uvmalloc_spec hgood newsz xperm with ⟨m', sz2, hrun', hcons, hspec⟩
  rw [← uvmalloc_kmem, hrun] at hrun'
  cases hrun'
  have htree : Tree x.kmem r := ⟨h.space.inner, hgood.mono (nodes_le_use x.kmem r)⟩
  refine ⟨⟨hcons, fun q hq => uvmalloc_data htree hrun q ?_⟩, hspec⟩
  have hnodes := nodes_le_use x.kmem r q
  omega

theorem loadseg_moves (hread : forall off n, (readi off n).length <= n)
    (hspace : Space x.kmem trampoline trapframe r pg) (hgood : Good x.kmem (use x.kmem r))
    (hva : va % PGSIZE = 0) (hbits : va + len < 2 ^ 64)
    (hrun : x.loadseg readi r va off len = .ok (y, loaded)) :
    y.kmem = x.kmem ∧ Moves x y (use x.kmem r) (use y.kmem r) := by
  rcases loadseg_wrote hread hspace hgood hva hbits hrun with ⟨_, _, hwrote, _⟩
  exact ⟨hwrote.kmem_eq, hwrote.moves⟩

theorem Accepted.file_lt (h : Accepted ph) :
    ph.vaddr + ph.filesz % 2 ^ 32 < 2 ^ 64 := by
  have hle := h.filesz_le
  have hend := h.end_lt
  omega

theorem loadProgram_moves (hread : forall off n, (readi off n).length <= n)
    (h : Image x.kmem trampoline trapframe r sz) (hgood : Good x.kmem (use x.kmem r))
    (hrun : Ram.loadProgram readi r n x off sz = .ok (y, sz', loaded)) :
    Moves x y (use x.kmem r) (use y.kmem r) ∧ sz' <= TRAPFRAME ∧
      Space y.kmem trampoline trapframe r (pages sz') ∧
      (loaded = true -> Image y.kmem trampoline trapframe r sz') := by
  induction n generalizing x off sz with
  | zero =>
    cases hrun
    exact ⟨Moves.refl _ _, h.size_le, h.space, fun _ => h⟩
  | succ n ih =>
    cases loadProgram_turn hrun with
    | bad => exact ⟨Moves.refl _ _, h.size_le, h.space, fun h => by cases h⟩
    | skip _ _ hrest => exact ih h hgood hrest
    | full _ halloc =>
      rcases h.uvmalloc_moves hgood halloc with ⟨hmoves, hzero, _⟩
      exact ⟨hmoves, h.size_le, hzero rfl, fun h => by cases h⟩
    | short haccepted halloc hpos hload =>
      rcases h.uvmalloc_moves hgood halloc with ⟨hmoves, _, hgrow⟩
      have himage := (hgrow hpos).1
      rcases loadseg_moves hread himage.space (hgood.conserve hmoves.conserve)
        haccepted.aligned haccepted.file_lt hload with ⟨hkmem, hmoves'⟩
      refine ⟨hmoves.trans hmoves', himage.size_le, ?_, fun h => by cases h⟩
      rw [hkmem]
      exact himage.space
    | load _ haccepted halloc hpos hload hrest =>
      rcases h.uvmalloc_moves hgood halloc with ⟨hmoves, _, hgrow⟩
      have himage := (hgrow hpos).1
      have hgood1 := hgood.conserve hmoves.conserve
      rcases loadseg_moves hread himage.space hgood1 haccepted.aligned haccepted.file_lt
        hload with ⟨hkmem, hmoves'⟩
      rw [← hkmem] at himage
      rcases ih himage (hgood1.conserve hmoves'.conserve) hrest with ⟨hmoves'', hspec⟩
      exact ⟨(hmoves.trans hmoves').trans hmoves'', hspec⟩

/-!
## The bytes of the file
-/

/-- `readi` delivers bytes of the file, not necessarily all that it is asked for. -/
def Delivers (contents : List UInt8) (readi : Readi) : Prop :=
  forall off n, readi off n <+: (contents.drop off).take n

def headerAt (contents : List UInt8) (off : Nat) : Proghdr :=
  Proghdr.ofBytes ((contents.drop off).take Proghdr.size)

theorem Delivers.length_le (h : Delivers contents readi)
    (off n : Nat) : (readi off n).length <= n :=
  (h off n).length_le.trans (List.length_take_le _ _)

theorem Delivers.full (h : Delivers contents readi) (hlen : (readi off n).length = n) :
    readi off n = (contents.drop off).take n ∧ (n ≠ 0 -> off + n <= contents.length) := by
  have hle := (h off n).length_le
  have hmin : ((contents.drop off).take n).length = min n (contents.length - off) := by
    rw [List.length_take, List.length_drop]
  refine ⟨(h off n).eq_of_length_le (by omega), ?_⟩
  intro hn
  omega

structure SegmentLoaded (contents : List UInt8) (x : Ram) (r : Page) (ph : Proghdr) : Prop where
  file : forall j, j < ph.filesz -> ph.off + j < contents.length ∧
    x.userByte r (ph.vaddr + j) = contents[ph.off + j]?
  zero : forall j, ph.filesz <= j -> j < ph.memsz -> x.userByte r (ph.vaddr + j) = some 0
  perm : forall v, ph.vaddr / PGSIZE <= v -> v * PGSIZE < ph.vaddr + ph.memsz ->
    (leafAt x.kmem r v).v = true ∧
      (leafAt x.kmem r v).perm = { flags2perm ph.flags with r := true, u := true }

theorem SegmentLoaded.kept (hloaded : SegmentLoaded contents x r ph) (h : Kept x y r n)
    (hend : ph.vaddr + ph.memsz <= n * PGSIZE) (hle : ph.filesz <= ph.memsz) :
    SegmentLoaded contents y r ph := by
  have hlt : forall j, j < ph.memsz -> (ph.vaddr + j) / PGSIZE < n := by
    intro j hj
    rw [Nat.div_lt_iff_lt_mul (by decide)]
    omega
  refine ⟨?_, ?_, ?_⟩
  · intro j hj
    rw [h.userByte_eq (hlt j (by omega))]
    exact hloaded.file j hj
  · intro j h1 h2
    rw [h.userByte_eq (hlt j h2)]
    exact hloaded.zero j h1 h2
  · intro v h1 h2
    rw [h.leaf v (Nat.lt_of_mul_lt_mul_right (h2.trans_le hend))]
    exact hloaded.perm v h1 h2

theorem Image.uvmalloc_kept (h : Image x.kmem trampoline trapframe r sz)
    (hgood : Good x.kmem (use x.kmem r)) {newsz : Nat} {xperm : Perm} (hle : sz <= newsz)
    (hpos : sz1 ≠ 0) (hrun : x.uvmalloc r sz newsz xperm = .ok (y, sz1)) :
    Kept x y r (pages sz) := by
  have htop := USERTOP_le
  have hpages := pages_le h.size_le
  have htree : Tree x.kmem r := ⟨h.space.inner, hgood.mono (nodes_le_use x.kmem r)⟩
  rcases uvmalloc_filled htree hle hpos hrun with ⟨_, hfilled⟩
  refine ⟨fun v hv => hfilled.kept v (by omega) (Or.inl hv), fun a ha hvalid => ?_⟩
  unfold Ram.byteAt
  rw [hfilled.kept _ (by omega) (Or.inl ha)]
  rw [uvmalloc_data htree hrun _ (leaf_apart hgood (by omega) hvalid)]

theorem Image.size_lt (h : Image x.kmem trampoline trapframe r sz)
    (hgood : Good x.kmem (use x.kmem r)) : sz < 2 ^ 32 := by
  have hpages := pages_le h.size_le
  have hcard : (Finset.range (pages sz)).card <= (Finset.range (PHYSTOP / PGSIZE)).card := by
    refine Finset.card_le_card_of_injOn (fun v => (leafAt x.kmem r v).ppn) ?_ ?_
    · intro v hv
      have hlt : v < pages sz := Finset.mem_range.mp hv
      have hvalid := (h.present v hlt).1
      have huse := leaf_in_use (m := x.kmem) (r := r) (v := v) (by omega) hvalid
      have hmanaged := hgood.managed (leafAt x.kmem r v).ppn (by omega)
      exact Finset.mem_coe.mpr (Finset.mem_range.mpr hmanaged.2)
    · intro v hv w hw heq
      have hv' : v < pages sz := Finset.mem_range.mp hv
      have hw' : w < pages sz := Finset.mem_range.mp hw
      exact leaf_inj hgood (by omega) (by omega) (h.present v hv').1 (h.present w hw').1 heq
  rw [Finset.card_range, Finset.card_range, pages_eq h.size_le] at hcard
  have hmax : PHYSTOP / PGSIZE * 4096 < 2 ^ 32 := by decide
  omega

theorem seg_offset (hdel : Delivers contents readi)
    (hlen : contents.length < 2 ^ 32) (hoff : off < 2 ^ 32)
    (hfull : forall j, j < len -> segFull readi off len j) (m : Nat) (hm : m * PGSIZE < len) :
    off + m * PGSIZE < 2 ^ 32 := by
  induction m with
  | zero =>
    rw [Nat.zero_mul]
    exact hoff
  | succ m ih =>
    have hmul : (m + 1) * PGSIZE = m * PGSIZE + PGSIZE := Nat.succ_mul m PGSIZE
    have hread := hfull (m * PGSIZE) (by omega)
    have hbefore := ih (by omega)
    unfold segFull segRead at hread
    rw [(page_addr m).2, Nat.mod_eq_of_lt hbefore, Nat.min_eq_right (by omega)] at hread
    have hin := (hdel.full hread).2 (by decide)
    omega

theorem segByte_eq (hdel : Delivers contents readi)
    (hlen : contents.length < 2 ^ 32) (hoff : off < 2 ^ 32)
    (hfull : forall j, j < len -> segFull readi off len j) {j : Nat} (hj : j < len) :
    off + j < contents.length ∧ contents[off + j]? = some (segByte readi off len j) := by
  have hsplit := Nat.div_add_mod' j PGSIZE
  have hmod := Nat.mod_lt j (show 0 < PGSIZE by decide)
  have hwrap := seg_offset hdel hlen hoff hfull (j / PGSIZE) (by omega)
  have hread := hfull j hj
  unfold segFull at hread
  unfold segRead at hread
  unfold segByte segRead
  rw [Nat.mod_eq_of_lt hwrap] at hread ⊢
  generalize hc : j / PGSIZE * PGSIZE = c at *
  rcases hdel.full hread with ⟨heq, hin⟩
  have hinside := hin (by omega)
  have hlt : off + j < contents.length := by omega
  refine ⟨hlt, ?_⟩
  rw [heq, List.getD_eq_getElem?_getD, List.getElem?_take_of_lt (by omega), List.getElem?_drop,
    show off + c + j % PGSIZE = off + j by omega, List.getElem?_eq_getElem hlt]
  rfl

/-!
## All segments
-/

def headers (contents : List UInt8) (off k : Nat) : Proghdr :=
  headerAt contents (off + k * Proghdr.size)

/-- The segments to load lie above `lo`, in increasing order, and no two of them share a page. -/
structure Increasing (ph : Nat -> Proghdr) (n lo : Nat) : Prop where
  above : forall k, k < n -> (ph k).type = ELF_PROG_LOAD -> pgroundup lo <= (ph k).vaddr
  apart : forall k l, k < l -> l < n -> (ph k).type = ELF_PROG_LOAD ->
    (ph l).type = ELF_PROG_LOAD -> pgroundup ((ph k).vaddr + (ph k).memsz) <= (ph l).vaddr

theorem Increasing.skip {ph : Nat -> Proghdr} {lo : Nat} (h : Increasing ph (n + 1) lo) :
    Increasing (fun k => ph (k + 1)) n lo :=
  ⟨fun k hk => h.above (k + 1) (by omega),
    fun k l hkl hl => h.apart (k + 1) (l + 1) (by omega) (by omega)⟩

theorem Increasing.next {ph : Nat -> Proghdr} {lo : Nat} (h : Increasing ph (n + 1) lo)
    (htype : (ph 0).type = ELF_PROG_LOAD) :
    Increasing (fun k => ph (k + 1)) n ((ph 0).vaddr + (ph 0).memsz) :=
  ⟨fun k hk hload => h.apart 0 (k + 1) (Nat.succ_pos k) (by omega) htype hload,
    h.skip.apart⟩

/-- No field that `loadseg` cuts to 32 bits is cut. -/
def Untruncated (ph : Proghdr) : Prop :=
  ph.filesz = 0 ∨ ph.off < 2 ^ 32

theorem SegmentLoaded.untruncated (h : SegmentLoaded contents x r ph)
    (hlen : contents.length < 2 ^ 32) : Untruncated ph := by
  rcases Nat.eq_zero_or_pos ph.filesz with hzero | hpos
  · exact .inl hzero
  · exact .inr (Nat.lt_trans (h.file 0 hpos).1 hlen)

theorem headers_succ (contents : List UInt8) (off k : Nat) :
    headers contents off (k + 1) = headers contents (off + Proghdr.size) k := by
  unfold headers
  rw [Nat.add_mul, Nat.one_mul, Nat.add_comm (k * Proghdr.size), Nat.add_assoc]

theorem le_pgroundup (hsz : sz <= TRAPFRAME) : sz <= pgroundup sz := by
  rw [pgroundup_eq, pages_eq hsz]
  unfold PGSIZE
  omega

theorem segment_loaded (hdel : Delivers contents readi)
    (hlen : contents.length < 2 ^ 32) (h : Image x.kmem trampoline trapframe r sz)
    (hgood : Good x.kmem (use x.kmem r)) (haccepted : Accepted ph)
    (habove : pgroundup sz <= ph.vaddr) {x1 x2 : Ram}
    (halloc : x.uvmalloc r sz (ph.vaddr + ph.memsz) (flags2perm ph.flags) = .ok (x1, sz1))
    (hpos : sz1 ≠ 0)
    (hload : x1.loadseg readi r ph.vaddr (ph.off % 2 ^ 32) (ph.filesz % 2 ^ 32) = .ok (x2, true)) :
    sz1 = ph.vaddr + ph.memsz ∧ Image x2.kmem trampoline trapframe r sz1 ∧
      Good x2.kmem (use x2.kmem r) ∧ Kept x x2 r (pages sz) ∧
      (Untruncated ph -> SegmentLoaded contents x2 r ph) := by
  have htop := USERTOP_le
  have hfile := haccepted.filesz_le
  have hround := le_pgroundup h.size_le
  have hle : sz <= ph.vaddr + ph.memsz := by omega
  rw [pgroundup_eq] at habove
  have htree : Tree x.kmem r := ⟨h.space.inner, hgood.mono (nodes_le_use x.kmem r)⟩
  rcases h.uvmalloc_moves hgood halloc with ⟨hmoves, _, hgrow⟩
  rcases hgrow hpos with ⟨himage, _, _⟩
  have hgood1 := hgood.conserve hmoves.conserve
  have hkept1 := h.uvmalloc_kept hgood hle hpos halloc
  rcases uvmalloc_filled htree hle hpos halloc with ⟨heq, hfilled⟩
  subst heq
  have hpages : pages sz + pagesBetween (pgroundup sz) (ph.vaddr + ph.memsz) =
      pages (ph.vaddr + ph.memsz) := (pages_add_pagesBetween h.size_le hle).2 himage.size_le
  have hend := pages_le himage.size_le
  have hsize := himage.size_lt hgood1
  have hsz : ph.filesz % 2 ^ 32 = ph.filesz := Nat.mod_eq_of_lt (by omega)
  have hfirst : pages sz <= ph.vaddr / PGSIZE := (Nat.le_div_iff_mul_le (by decide)).mpr habove
  rcases loadseg_wrote hdel.length_le himage.space hgood1 haccepted.aligned haccepted.file_lt
    hload with ⟨k, src, hwrote, hbytes⟩
  rcases hbytes rfl with ⟨hk, hbytes⟩
  rw [hsz] at hk hbytes
  subst hk
  have hpage : forall v, ph.vaddr / PGSIZE <= v -> v < pages (ph.vaddr + ph.memsz) -> exists pa,
      leafAt x1.kmem r v = Perm.pte { flags2perm ph.flags with r := true, u := true } pa ∧
        x1.data pa = fun _ => 0 := by
    intro v h1 h2
    rcases hfilled.fresh v (by omega) (by omega) with ⟨pa, _, hleaf, hzero⟩
    exact ⟨pa, hleaf, hzero⟩
  have hsee : forall j, j < ph.memsz -> x2.userByte r (ph.vaddr + j) =
      some (if j < ph.filesz then src j else 0) := by
    intro j hj
    have hv : (ph.vaddr + j) / PGSIZE < pages (ph.vaddr + ph.memsz) :=
      vpn_lt_pages (by omega) himage.size_le
    rcases hpage _ (Nat.div_le_div_right (Nat.le_add_right _ _)) hv with ⟨pa, hleaf, hzero⟩
    have hvalid : (leafAt x1.kmem r ((ph.vaddr + j) / PGSIZE)).v = true := by
      rw [hleaf]
      rfl
    have huser : (leafAt x1.kmem r ((ph.vaddr + j) / PGSIZE)).u = true := by
      rw [hleaf]
      rfl
    have hmax : TRAPFRAME < MAXVA := by decide
    have hszle := himage.size_le
    rw [userByte_eq, hwrote.kmem_eq, if_pos ⟨by omega, hvalid, huser⟩,
      hwrote.bytes _ ⟨by omega, hvalid⟩]
    by_cases hin : j < ph.filesz
    · rw [if_pos (by omega), if_pos hin, Nat.add_sub_cancel_left]
    · rw [if_neg (by omega), if_neg hin]
      unfold Ram.byteAt
      rw [hleaf]
      change some (x1.data pa _) = _
      rw [hzero]
  refine ⟨rfl, by rw [hwrote.kmem_eq]; exact himage, ?_,
    hkept1.trans (hwrote.kept (by omega) habove),
    fun hcut => ⟨?_, ?_, ?_⟩⟩
  · rw [hwrote.kmem_eq]
    exact hgood1
  · intro j hj
    have hoff : ph.off < 2 ^ 32 := hcut.resolve_left (by omega)
    rw [Nat.mod_eq_of_lt hoff] at hbytes
    rcases segByte_eq hdel hlen hoff (fun j hj => (hbytes j hj).1) hj with ⟨hlt, hbyte⟩
    refine ⟨hlt, ?_⟩
    rw [hsee j (by omega), if_pos hj, hbyte, (hbytes j hj).2]
  · intro j h1 h2
    rw [hsee j h2, if_neg (by omega)]
  · intro v h1 h2
    have hv : v < pages (ph.vaddr + ph.memsz) := by
      have hlt := vpn_lt_pages h2 himage.size_le
      rw [(page_addr v).2] at hlt
      exact hlt
    rcases hpage v h1 hv with ⟨pa, hleaf, _⟩
    rw [hwrote.kmem_eq, hleaf]
    exact ⟨rfl, rfl⟩

theorem loadProgram_loaded (hdel : Delivers contents readi)
    (hlen : contents.length < 2 ^ 32) (h : Image x.kmem trampoline trapframe r sz)
    (hgood : Good x.kmem (use x.kmem r)) (hinc : Increasing (headers contents off) n sz)
    (hrun : Ram.loadProgram readi r n x off sz = .ok (y, sz', true)) :
    Kept x y r (pages sz) ∧ sz <= sz' ∧
      forall k, k < n -> (headers contents off k).type = ELF_PROG_LOAD ->
        (Untruncated (headers contents off k) ->
          SegmentLoaded contents y r (headers contents off k)) ∧ Accepted (headers contents off k) ∧
          (headers contents off k).vaddr + (headers contents off k).memsz <= sz' := by
  induction n generalizing x off sz with
  | zero =>
    cases hrun
    exact ⟨Kept.refl _ _ _, Nat.le_refl _, fun k hk => absurd hk (Nat.not_lt_zero k)⟩
  | succ n ih =>
    have hread : (readi off Proghdr.size).length = Proghdr.size ->
        header readi off = headers contents off 0 ∧
          (off + Proghdr.size) % 2 ^ 32 = off + Proghdr.size := by
      intro hfull
      rcases hdel.full hfull with ⟨heq, hin⟩
      refine ⟨?_, Nat.mod_eq_of_lt ?_⟩
      · unfold header headers headerAt
        rw [heq, Nat.zero_mul, Nat.add_zero]
      · have hle := hin (by decide)
        omega
    have hshift : (fun k => headers contents off (k + 1)) =
        headers contents (off + Proghdr.size) := funext (headers_succ contents off)
    cases loadProgram_turn hrun with
    | skip hfull htype hrest =>
      rcases hread hfull with ⟨hheader, hnext⟩
      rw [hheader] at htype
      rw [hnext] at hrest
      rcases ih h hgood (hshift ▸ hinc.skip) hrest with ⟨hkept, hgrow, hloaded⟩
      refine ⟨hkept, hgrow, fun k hk hload => ?_⟩
      cases k with
      | zero => exact absurd hload htype
      | succ k =>
        rw [headers_succ] at hload ⊢
        exact hloaded k (by omega) hload
    | load hfull haccepted halloc hpos hseg hrest =>
      rcases hread hfull with ⟨hheader, hnext⟩
      rw [hheader] at haccepted halloc hseg
      rw [hnext] at hrest
      have htype := haccepted.type_eq
      rcases segment_loaded hdel hlen h hgood haccepted (hinc.above 0 (Nat.succ_pos n) htype)
        halloc hpos hseg with
        ⟨heq, himage, hgood2, hkept, hfirst⟩
      rw [heq] at himage hrest
      rcases ih himage hgood2 (hshift ▸ hinc.next htype) hrest with
        ⟨hkept', hgrow, hloaded⟩
      have hle : sz <= (headers contents off 0).vaddr + (headers contents off 0).memsz := by
        have hround := le_pgroundup h.size_le
        have habove := hinc.above 0 (Nat.succ_pos n) htype
        omega
      refine ⟨hkept.trans (hkept'.mono (pages_mono hle himage.size_le)), hle.trans hgrow,
        fun k hk hload => ?_⟩
      cases k with
      | zero =>
        refine ⟨fun hcut => ?_, haccepted, hgrow⟩
        refine (hfirst hcut).kept hkept' ?_ haccepted.filesz_le
        rw [← pgroundup_eq]
        exact le_pgroundup himage.size_le
      | succ k =>
        rw [headers_succ] at hload ⊢
        exact hloaded k (by omega) hload

end

end Process
end Xv6
