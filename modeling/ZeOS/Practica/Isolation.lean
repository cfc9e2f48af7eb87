import ZeOS.Practica.AccessOk
import ZeOS.Practica.CopyBranch

/-!
# System calls that write to user memory

`sys_read` and `sys_get_stats` store through the page table of the caller
and in kernel mode, where the processor does not look at the `rw` bit. A
store to a page that is shared copy-on-write therefore does not fault, and
the bytes arrive in the frame all its owners have. Another process is left
alone by such a call exactly if the bytes that arrive in its frames are
those that are there.
-/

namespace ZeOS.Practica

/-! ## The bytes a call writes -/

/-- The `i`-th character that will be taken out of the buffer. -/
def CircularBuffer.peek (cb : CircularBuffer) (i : ℕ) : Byte :=
  ((fun cb => cb.dequeue.2)^[i] cb).dequeue.1

namespace Kernel

/-- The byte of physical memory behind an address of the current process. -/
def dest (k : Kernel) (addr : ℕ) : Location :=
  (getFrame k.currentPt (addr / pageSize), addr % pageSize)

/-- How many characters `sys_read` delivers. -/
def readCount (k : Kernel) (maxchars : DWord) : ℕ :=
  (if (k.cb.count : ℤ) < maxchars.toInt then (k.cb.count : ℤ) else maxchars.toInt).toNat

/-- **Nothing of another process is overwritten** by `n` bytes stored from an
address on: a byte that arrives in a frame behind a data page of the process,
and that is not overwritten by a later one, is the byte that is there. -/
def Spares (k : Kernel) (q : Slot) (addr n : ℕ) (bytes : ℕ → Byte) : Prop :=
  ∀ i < n, (∃ j, getFrame (k.ptOf q) (dataPage j) = (k.dest (addr + i)).1) →
    (∀ i', i < i' → i' < n → k.dest (addr + i') ≠ k.dest (addr + i)) →
    bytes i = k.mm.ram (k.dest (addr + i))

end Kernel

/-- A block that lies in the data pages. -/
def InData (addr : DWord) (size : ℕ) : Prop :=
  pagLogInitData * pageSize ≤ addr.toNat ∧ addr.toNat + size ≤ pagLogInitShared * pageSize

instance (addr : DWord) (size : ℕ) : Decidable (InData addr size) :=
  inferInstanceAs (Decidable (_ ∧ _))

section Writes

variable {M : Machine} {k : Kernel} {a : Schedule} {m : Mm} {s q : Slot} {b size : DWord} {n : ℕ}

theorem InData.dataAddr (h : InData b n) {i : ℕ} (hi : i < n) : DataAddr (b.toNat + i) := by
  obtain ⟨h₁, h₂⟩ := h
  exact ⟨by omega, by omega⟩

/-- **A block in the data pages is accepted for writing.** -/
theorem accessOk_of_inData {pt : PageTable} (h : InData b size.toNat) :
    accessOk pt .verifyWrite b size = true := by
  obtain ⟨h₁, h₂⟩ := h
  replace h₁ : 264 * 4096 ≤ b.toNat := h₁
  replace h₂ : b.toNat + size.toNat ≤ 284 * 4096 := h₂
  have hini := pageOf_eq b
  have hfin : pageOf (b + size) = (b.toNat + size.toNat) / pageSize := pageOf_add (by omega)
  simp only [pageSize] at hini hfin
  refine accessOk_iff.mpr ⟨by omega, fun p hw => absurd ?_ hw.1.2.2⟩
  refine ⟨rfl, ?_, ?_⟩
  · show 264 ≤ _
    omega
  · show _ ≤ 284
    omega

/-- The bytes behind a block of the current process. -/
theorem translate_dest (hf : k.Follows a) (hm : Mapped M a k.mm) (hu : a.User a.current)
    {addr : ℕ} (hd : DataAddr addr) :
    k.mm.translate a.current addr = some (k.dest addr) ∧ numPagKernel ≤ (k.dest addr).1 := by
  obtain ⟨i, hip, hi⟩ := hd.exists_page
  obtain ⟨h₁, h₂⟩ := dataPage_bounds i
  have hdest : k.dest addr = ((dataTable a k.mm).frame a.current i, addr % pageSize) := by
    rw [Kernel.dest, Kernel.currentPt_eq hf.threads, ← hip]
    rfl
  rw [hdest]
  exact ⟨translate_data hm hu hi, Nat.not_lt.mp fun hlt =>
    ((hm.user_table _ hu).data _ h₁ h₂).2.2 (Or.inl hlt)⟩

/-- **What a run of bytes stored by a call does to another process.** -/
theorem reads_writeRun (hf : k.Follows a) (hm : Mapped M a k.mm) (hbusy : a.current ≠ a.idle)
    {k' : Kernel} {a' : Schedule} (hf' : k'.Follows a') (hlive : a'.Live q) (hq : a.Live q)
    {bytes : ℕ → Byte}
    (hblock : ∀ i < n, DataAddr (b.toNat + i))
    (hmm : k'.mm = { k.mm with
      ram := writeRun k.mm.ram (fun i => k.dest (b.toNat + i)) bytes n }) :
    (∀ addr, DataAddr addr → k'.reads q addr = k.reads q addr)
      ↔ k.Spares q b.toNat n bytes := by
  have hm' : Mapped M a k'.mm := by
    rw [hmm]
    exact hm.of_eq rfl rfl (fun _ => rfl)
  have hpt := Kernel.ptOf_eq hf.threads hq
  simp only [Kernel.reads_eq hf.threads hq, Kernel.reads_eq hf'.threads hlive]
  rcases (a.live_iff_user q).mp hq with hu | hidle
  · have hframe : ∀ j, (dataTable a k'.mm).frame q j = getFrame (k.ptOf q) (dataPage j) := by
      intro j
      rw [hmm, hpt]
      rfl
    -- a load reads the byte behind it, before and after
    have hload : ∀ j addr, addr % 2 ^ 32 / pageSize = dataPage j →
        (k'.mm.userLoad q addr = k.mm.userLoad q addr
          ↔ writeRun k.mm.ram (fun i => k.dest (b.toNat + i)) bytes n
              (getFrame (k.ptOf q) (dataPage j), addr % pageSize)
            = k.mm.ram (getFrame (k.ptOf q) (dataPage j), addr % pageSize)) := by
      intro j addr hj
      rw [userLoad_data hm hu hj, userLoad_data hm' hu hj, Option.some_inj, SharedPages.view,
        SharedPages.view, hframe, Mm.contents, Mm.contents, hmm, hpt]
      exact Iff.rfl
    constructor
    · rintro h i hi ⟨j, hj⟩ hlast
      -- the address of that byte in the other process
      have hoff : (k.dest (b.toNat + i)).2 < pageSize := Nat.mod_lt _ (by decide)
      have hjlt := dataPage_bounds j
      set addr := dataPage j * pageSize + (k.dest (b.toNat + i)).2 with haddr
      replace hjlt : 264 ≤ dataPage j ∧ dataPage j < 284 := hjlt
      replace hoff : (k.dest (b.toNat + i)).2 < 4096 := hoff
      have haddr' : addr = dataPage j * 4096 + (k.dest (b.toNat + i)).2 := haddr
      have hd : DataAddr addr := by
        constructor
        · show 264 * 4096 ≤ addr
          omega
        · show addr < 284 * 4096
          omega
      have hpage : addr % 2 ^ 32 / pageSize = dataPage j := by
        show addr % 2 ^ 32 / 4096 = _
        omega
      have hmod : addr % pageSize = (k.dest (b.toNat + i)).2 := by
        show addr % 4096 = _
        omega
      have he := (hload j addr hpage).mp (h addr hd)
      rw [hmod, hj, Prod.mk.eta] at he
      exact (writeRun.eq_iff.mp he) i hi rfl hlast
    · intro h addr hd
      obtain ⟨j, -, hj⟩ := hd.exists_page
      refine (hload j addr hj).mpr (writeRun.eq_iff.mpr (fun i hi hx hlast => ?_))
      have hfst : (k.dest (b.toNat + i)).1 = getFrame (k.ptOf q) (dataPage j) :=
        congrArg Prod.fst hx
      rw [← hx] at hlast ⊢
      exact h i hi ⟨j, hfst.symm⟩ hlast
  · -- the idle task has no data pages, and nothing is stored where it maps
    refine iff_of_true (fun addr hd => ?_) (fun i hi hj => ?_)
    · obtain ⟨j, -, hj⟩ := hd.exists_page
      rw [hidle, userLoad_idle hm hj, userLoad_idle hm' hj]
    · obtain ⟨j, hj⟩ := hj
      have hge := (translate_dest hf hm (a.user_current hbusy) (hblock i hi)).2
      rw [← hj, hpt, hidle, getFrame, hm.idle_table,
        Mapped.initTablePages_of_ge M (le_trans (by decide) (dataPage_bounds j).1)] at hge
      exact absurd hge (by decide)

/-! ## The two calls -/

/-- The copies of `sys_read`, one character after the other. -/
theorem foldl_readChar_eq (k : Kernel) (b : DWord) (n : ℕ) :
    (List.range n).foldl (Kernel.readChar b) k =
      { k with
        cb := (fun cb => cb.dequeue.2)^[n] k.cb
        mm := storeRun (Mm.kernelStore k.sched.cr3) b.toNat k.cb.peek k.mm n } := by
  induction n with
  | zero => rfl
  | succ n ih =>
    rw [List.range_succ, List.foldl_append, ih, List.foldl_cons, List.foldl_nil, Kernel.readChar,
      Function.iterate_succ_apply']
    rfl

/-- Where the characters go to bytes that are mapped. -/
theorem foldl_readChar (hblock : ∀ i < n, k.mm.translate k.sched.cr3 (b.toNat + i)
      = some (k.dest (b.toNat + i)) ∧ numPagKernel ≤ (k.dest (b.toNat + i)).1) :
    (List.range n).foldl (Kernel.readChar b) k =
      { k with
        cb := (fun cb => cb.dequeue.2)^[n] k.cb
        mm := { k.mm with
          ram := writeRun k.mm.ram (fun i => k.dest (b.toNat + i)) k.cb.peek n } } := by
  rw [foldl_readChar_eq, Mm.storeRun_kernelStore (fun i hi => (hblock i hi).1)
    (fun i hi => (hblock i hi).2)]

theorem dest_entered (hf : k.Follows a) : k.entered.dest = k.dest := by
  funext addr
  rw [Kernel.dest, Kernel.dest, Kernel.currentPt_eq hf.entered.threads,
    Kernel.currentPt_eq hf.threads]
  rfl

/-- The block of a call, as the call finds it. -/
theorem translate_entered (hf : k.Follows a) (hm : Mapped M a k.mm) (hbusy : a.current ≠ a.idle)
    {addr : ℕ} (hd : DataAddr addr) :
    k.entered.mm.translate k.entered.sched.cr3 addr = some (k.entered.dest addr)
      ∧ numPagKernel ≤ (k.entered.dest addr).1 := by
  rw [hf.entered.threads.cr3_eq, dest_entered hf]
  exact translate_dest hf hm (a.user_current hbusy) hd

theorem readCount_le (k : Kernel) (maxchars : DWord) :
    k.readCount maxchars ≤ maxchars.toNat := by
  have h : maxchars.toInt ≤ maxchars.toNat := by
    rw [BitVec.toInt_eq_toNat_cond]
    split_ifs <;> omega
  unfold Kernel.readCount
  split_ifs <;> omega

/-- **`sys_read` into the data pages.** -/
theorem step_read (hf : k.Follows a) (hm : Mapped M a k.mm) (hbusy : a.current ≠ a.idle)
    (h : InData b size.toNat) :
    ∃ k', k.step (.read b size) = some k' ∧ k'.Follows a
      ∧ k'.mm = { k.mm with
          ram := writeRun k.mm.ram (fun i => k.dest (b.toNat + i)) k.cb.peek
            (k.readCount size) } := by
  have hblock : ∀ i < k.readCount size, DataAddr (b.toNat + i) :=
    fun i hi => h.dataAddr (hi.trans_le (readCount_le k size))
  have hread : (k.entered.sysRead b size).2
      = (List.range (k.readCount size)).foldl (Kernel.readChar b) k.entered := by
    rw [Kernel.sysRead, accessOk_of_inData h]
    rfl
  have hres := hread.trans
    (foldl_readChar (fun i hi => translate_entered hf hm hbusy (hblock i hi)))
  rw [dest_entered hf] at hres
  have hmm : (k.entered.sysRead b size).2.mm = { k.mm with
      ram := writeRun k.mm.ram (fun i => k.dest (b.toNat + i)) k.cb.peek
        (k.readCount size) } := by
    rw [hres]
    rfl
  have hsched := (Kernel.ramOnly_sysRead k.entered b size).2
  have hdown : (k.entered.sysRead b size).2.mm.stuck = false := by
    rw [hmm]
    exact hf.mm_down
  obtain ⟨k', hst, hf', hmm', -⟩ := Kernel.exists_step (e := .read b size)
    (f := fun k => (k.sysRead b size).2) hf hbusy rfl
    ⟨hsched ▸ hf.entered.threads, hdown, (congrArg Sched.stuck hsched).trans hf.entered.sched_down,
      hf.counts_fit.congr (Kernel.ramOnly_sysRead k.entered b size).1.shmMem⟩
  exact ⟨k', hst, hf', hmm'.trans hmm⟩

/-- **`sys_get_stats` into the data pages.** -/
theorem step_getStats (hf : k.Follows a) (hm : Mapped M a k.mm) (hbusy : a.current ≠ a.idle)
    (pid : DWord) {st : DWord} (h : InData st Stats.size) :
    ∃ k', k.step (.getStats pid st) = some k' ∧ k'.Follows a
      ∧ k'.mm = match k.entered.statsSlot pid with
        | none => k.mm
        | some i => { k.mm with
            ram := writeRun k.mm.ram (fun j => k.dest (st.toNat + j)) (k.entered.statsOf i).byte
              Stats.size } := by
  have hok : accessOk k.entered.currentPt .verifyWrite st (BitVec.ofNat 32 Stats.size) = true :=
    accessOk_of_inData h
  have hmm : (k.entered.sysGetStats pid st).2.mm = match k.entered.statsSlot pid with
      | none => k.mm
      | some i => { k.mm with
          ram := writeRun k.mm.ram (fun j => k.dest (st.toNat + j)) (k.entered.statsOf i).byte
            Stats.size } := by
    cases hslot : k.entered.statsSlot pid with
    | none =>
      rw [Kernel.sysGetStats_of_none hok hslot]
      rfl
    | some i =>
      rw [(Kernel.sysGetStats_of_some hok hslot).2, Mm.copyToUser_eq
        (fun j hj => (translate_entered hf hm hbusy (h.dataAddr hj)).1)
        (fun j hj => (translate_entered hf hm hbusy (h.dataAddr hj)).2), dest_entered hf]
      rfl
  have hsame := (Kernel.ramOnly_sysGetStats k.entered pid st).2
  have hdown : (k.entered.sysGetStats pid st).2.mm.stuck = false := by
    rw [hmm]
    split
    · exact hf.mm_down
    · exact hf.mm_down
  obtain ⟨k', hst, hf', hmm', -⟩ := Kernel.exists_step (e := .getStats pid st)
    (f := fun k => (k.sysGetStats pid st).2) hf hbusy rfl
    ⟨hf.entered.threads.same hsame, hdown, hsame.stuck.trans hf.entered.sched_down,
      hf.counts_fit.congr (Kernel.ramOnly_sysGetStats k.entered pid st).1.shmMem⟩
  exact ⟨k', hst, hf', hmm'.trans hmm⟩

end Writes

/-- **What a process reads in its data pages is unchanged.** -/
def Kernel.Unseen (k k' : Kernel) (q : Slot) : Prop :=
  ∀ addr, DataAddr addr → k'.reads q addr = k.reads q addr

/-- **When a call respects the isolation of copy-on-write.** A call of
`sys_read` or `sys_get_stats` with a destination in the data pages leaves
what a process reads unchanged exactly if the bytes it stores into frames of
that process are those that are there. -/
theorem unseen_iff (M : Machine) (k : Kernel) (hk : Reachable M k)
    (hbusy : k.sched.current ≠ k.sched.idleTask) (q : Slot) (hq : k.Live q) :
    (∀ b maxchars, InData b maxchars.toNat → ∃ k', k.step (.read b maxchars) = some k'
      ∧ (k.Unseen k' q ↔ k.Spares q b.toNat (k.readCount maxchars) k.cb.peek))
    ∧ ∀ pid st, InData st Stats.size → ∃ k', k.step (.getStats pid st) = some k'
      ∧ (k.Unseen k' q ↔ ∀ i, k.entered.statsSlot pid = some i →
          k.Spares q st.toNat Stats.size (k.entered.statsOf i).byte) := by
  obtain ⟨a, hf, hm⟩ := hk.mapped
  rw [hf.threads.current_eq, hf.threads.idle_eq] at hbusy
  have hlive := (Kernel.live_iff hf.threads q).mp hq
  constructor
  · intro b maxchars h
    obtain ⟨k', hst, hf', hmm⟩ := step_read hf hm hbusy h
    exact ⟨k', hst, reads_writeRun hf hm hbusy hf' hlive hlive
      (fun i hi => h.dataAddr (hi.trans_le (readCount_le k maxchars))) hmm⟩
  · intro pid st h
    obtain ⟨k', hst, hf', hmm⟩ := step_getStats hf hm hbusy pid h
    refine ⟨k', hst, ?_⟩
    cases hslot : k.entered.statsSlot pid with
    | none =>
      rw [hslot] at hmm
      refine iff_of_true (fun addr hd => ?_) (fun i hi => absurd hi (by simp))
      rw [Kernel.reads_eq hf'.threads hlive, Kernel.reads_eq hf.threads hlive, hmm]
    | some i =>
      rw [hslot] at hmm
      rw [Kernel.Unseen, reads_writeRun hf hm hbusy hf' hlive hlive
        (fun j hj => h.dataAddr hj) hmm]
      simp only [Option.some_inj, forall_eq']

/-- The first task has forked and written to its first data page. A key is
typed, and the task reads the character into that page: the child does not
see it. -/
theorem unseen_iff_key :
    ∃ cr2 k k', Run Kernel.step (fun _ _ => True) Machine.sample.boot
        [.fork 0, .fault cr2, .key 0x9e#8 0#8] k
      ∧ k.Live 2 ∧ 2 ≠ k.sched.current ∧ k.readCount 1#32 = 1
      ∧ k.step (.read 0x108000#32 1#32) = some k' ∧ k.Unseen k' 2 := by
  obtain ⟨k₁, cr2, k₂, g, hst₁, hst₂, h, hcb₂, hj, hs⟩ := Tidy.first_split Machine.sample
  obtain ⟨k, hst, hf, hmm, hcb⟩ := Kernel.exists_key (c := 0x9e#8) h.follows
    (by rw [hcb₂]; rfl) (by decide) 0#8
  have hrun : Run Kernel.step (fun _ _ => True) Machine.sample.boot
      [.fork 0, .fault cr2, .key 0x9e#8 0#8] k :=
    ((Run.single trivial hst₁).snoc trivial hst₂).snoc trivial hst
  have hlive' : firstFork.Live 2 := by decide
  have hlive : k.Live 2 := (Kernel.live_iff hf.threads 2).mpr hlive'
  have hbusy : k.sched.current ≠ k.sched.idleTask := hf.ne (by decide)
  have hone : k.readCount 1#32 = 1 := by
    rw [Kernel.readCount, hcb, hcb₂]
    rfl
  -- the page of the parent is not one of the child
  have hdest : (k.dest (0x108000#32).toNat).1 = g := by
    rw [← hs.frame_self, Kernel.dest, Kernel.currentPt_eq hf.threads, hmm]
    rfl
  have hchild : ∀ j, getFrame (k.ptOf 2) (dataPage j) ≠ g := by
    intro j
    have hown : (2 : Slot) ∈ (dataTable firstFork k₁.mm).owners :=
      hj.owners ▸ Finset.mem_insert_self _ _
    have hframe := hs.frame 2 hown j (fun he => absurd he.1 (by decide))
    rw [Kernel.ptOf_eq hf.threads hlive', hmm]
    show (dataTable firstFork k₂.mm).frame 2 j ≠ g
    rw [hframe]
    exact hs.fresh 2 hown j
  obtain ⟨k', hst', hiff⟩ := (unseen_iff Machine.sample k ⟨_, hrun⟩ hbusy 2 hlive).1
    0x108000#32 1#32 (by decide)
  refine ⟨cr2, k, k', hrun, hlive, ?_, hone, hst', hiff.mpr ?_⟩
  · rw [hf.threads.current_eq]
    decide
  · rw [hone]
    intro i hi hshared
    obtain rfl : i = 0 := Nat.lt_one_iff.mp hi
    obtain ⟨j, hj'⟩ := hshared
    exact absurd (hj'.trans hdest) (hchild j)

/-- **A process that reads a character into a page it shares** changes what
the other owner of the page reads. -/
theorem not_unseen_key :
    ∃ k k', Run Kernel.step (fun _ _ => True) Machine.sample.boot [.fork 0, .key 0x9e#8 0#8] k
      ∧ k.Live 2 ∧ 2 ≠ k.sched.current ∧ InData 0x108000#32 1
      ∧ getFrame (k.ptOf 2) (dataPage 0) = getFrame k.currentPt (dataPage 0)
      ∧ k.step (.read 0x108000#32 1#32) = some k' ∧ ¬ k.Unseen k' 2 := by
  obtain ⟨k₁, hst₁, hf₁, hmm₁, hcb₁⟩ := exists_first_fork Machine.sample 0
  obtain ⟨k, hst, hf, hmm, hcb⟩ := Kernel.exists_key (c := 0x9e#8) hf₁ (by rw [hcb₁]; rfl)
    (by decide) 0#8
  have hrun : Run Kernel.step (fun _ _ => True) Machine.sample.boot [.fork 0, .key 0x9e#8 0#8] k :=
    (Run.single trivial hst₁).append (Run.single trivial hst)
  have hlive' : firstFork.Live 2 := by decide
  have hlive : k.Live 2 := (Kernel.live_iff hf.threads 2).mpr hlive'
  have hbusy : firstFork.current ≠ firstFork.idle := by decide
  rw [hmm₁] at hmm
  rw [hcb₁] at hcb
  have hm : Mapped Machine.sample firstFork k.mm := by
    rw [hmm]
    exact (Mapped.boot Machine.sample).forkOk rfl (by decide)
  rw [Mm.forkPages_withFrames _ (by decide)] at hmm
  have hshared : getFrame (k.ptOf 2) (dataPage 0) = getFrame k.currentPt (dataPage 0) := by
    rw [Kernel.ptOf_eq hf.threads hlive', Kernel.currentPt_eq hf.threads, hmm]
    rfl
  have hram : ∀ loc, k.mm.ram loc = 0 := by
    rw [hmm]
    dsimp only
    rw [boot_mm]
    exact fun _ => rfl
  have hin : InData 0x108000#32 1 := by decide
  obtain ⟨k', hst', hf', hmm'⟩ := step_read hf hm hbusy (show InData _ (1#32).toNat from hin)
  have hone : k.readCount 1#32 = 1 := by
    rw [Kernel.readCount, hcb]
    rfl
  rw [hone] at hmm'
  refine ⟨k, k', hrun, hlive, ?_, by decide, hshared, hst', fun h => ?_⟩
  · rw [hf.threads.current_eq]
    decide
  · have hspare := (reads_writeRun hf hm hbusy hf' hlive' hlive'
      (fun i hi => hin.dataAddr hi) hmm').mp h
    have hbyte := hspare 0 (by decide) ⟨0, hshared⟩ (fun i' h₁ h₂ => by omega)
    rw [hram, CircularBuffer.peek, hcb] at hbyte
    exact absurd hbyte (by decide)

end ZeOS.Practica
