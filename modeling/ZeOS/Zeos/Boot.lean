import ZeOS.Practica.Boot
import ZeOS.Zeos.Steps

/-!
# The booted state

`init_sched` adds the slots at the front of the free queue, so they are handed
out from the last one on: the idle task has slot 9 and the initial process
slot 8. The initial process has the first frames of the allocator, those of
its code pages before those of its data pages.
-/

namespace ZeOS.Zeos

open Practica (freeFrames frameScan bootPhys freeFrames_bootPhys bootPhys_apply)

namespace Kernel

variable {k : Kernel} {l : Queue → List Slot}

/-! ## The queues -/

/-- The loop of `init_sched`, over slots that are in no queue. -/
theorem foldl_link {ts : List Slot} (hr : Rings k.links l) (hnd : ts.Nodup)
    (hts : ∀ s ∈ ts, ∀ q, s ∉ l q) :
    ∃ h', ts.foldl (fun k t => k.link (.task t) .freequeue) k = { k with links := h' }
      ∧ Rings h' (Function.update l .free (ts.reverse ++ l .free)) := by
  induction ts generalizing k l with
  | nil =>
    refine ⟨k.links, rfl, ?_⟩
    rw [List.reverse_nil, List.nil_append, Function.update_eq_self]
    exact hr
  | cons t ts ih =>
    obtain ⟨htn, hnd'⟩ := List.nodup_cons.mp hnd
    obtain ⟨h₁, hadd, hr₁⟩ := hr.pushFront .free (hts t List.mem_cons_self)
    have hlink : k.link (.task t) .freequeue = { k with links := h₁ } := by
      rw [link, show listAdd k.links (.task t) .freequeue = some h₁ from hadd]
    have hts₁ : ∀ s ∈ ts, ∀ q, s ∉ Function.update l .free (t :: l .free) q := by
      intro s hs q
      have hsq := hts s (List.mem_cons_of_mem t hs)
      rw [Function.update_apply]
      split_ifs with hq
      · rw [List.mem_cons, not_or]
        exact ⟨fun he => htn (he ▸ hs), hsq .free⟩
      · exact hsq q
    obtain ⟨h₂, hfold, hr₂⟩ := ih (k := { k with links := h₁ }) hr₁ hnd' hts₁
    refine ⟨h₂, ?_, ?_⟩
    · rw [List.foldl_cons, hlink, hfold]
    · rw [Function.update_self, Function.update_idem] at hr₂
      rwa [List.reverse_cons, List.append_assoc]

/-- The heads `init_sched` initializes. -/
theorem rings_initListHead (h : Links Node) :
    Rings (initListHead (initListHead (initListHead h .freequeue) .readyqueue) .blocked)
      (fun _ => []) where
  ring q := by
    have hne : Node.freequeue ≠ .readyqueue ∧ Node.freequeue ≠ .blocked
        ∧ Node.readyqueue ≠ .blocked := by decide
    cases q with
    | free =>
      refine (isRing_initListHead h Node.freequeue).congr (fun y hy => ?_)
      rw [List.mem_singleton.mp hy, initListHead_of_ne _ hne.2.1, initListHead_of_ne _ hne.1]
    | ready =>
      refine (isRing_initListHead (initListHead h Node.freequeue) .readyqueue).congr
        (fun y hy => ?_)
      rw [List.mem_singleton.mp hy, initListHead_of_ne _ hne.2.2]
    | blocked => exact isRing_initListHead _ Node.blocked
  disjoint _ _ _ hs := absurd hs List.not_mem_nil

/-- **`init_idle` and `init_task1`** take the first free slot. -/
theorem initTask_eq (hr : Rings k.links l) {c : Slot} {cs : List Slot} (hl : l .free = c :: cs)
    (pid : ℤ) :
    ∃ h', k.initTask pid c = { k with
        links := h'
        family := initListHead k.family (.childs c)
        task := Function.update k.task c
          { k.task c with
            pid := pid, quantum := Zeos.quantum, pParent := none, dirPagesBaseAddr := c } }
      ∧ Rings h' (Function.update l .free cs) ∧ h' (.task c) = ⟨none, none⟩
      ∧ ∀ u, (∀ q, u ∉ l q) → h' (.task u) = k.links (.task u) := by
  obtain ⟨h', hunlink, hr', hnone, hframe⟩ := unlink_eq hr (show l .free = [] ++ c :: cs from hl)
  refine ⟨h', ?_, hr', hnone, hframe⟩
  rw [initTask, hunlink]
  simp only [modifyTask, allocateDir, Function.update_self, Function.update_idem]

/-- **The queues after boot.** -/
def bootQueues : Queue → List Slot
  | .free => [7, 6, 5, 4, 3, 2, 1, 0]
  | .ready => []
  | .blocked => []

/-- The pointers of the families after boot. -/
def bootFamily : Links Kin :=
  initListHead (initListHead (fun _ => ⟨none, none⟩) (.childs 9)) (.childs 8)

/-- The task structs after boot. -/
def bootTask : Slot → TaskStruct :=
  Function.update (Function.update (fun _ => ⟨0, 0, .run, 0, 0, none⟩)
    9 ⟨0, 9, .run, Zeos.quantum, 0, none⟩) 8 ⟨1, 8, .run, Zeos.quantum, 0, none⟩

/-- **The booted kernel.** -/
theorem boot_eq (ram : Location → Byte) :
    ∃ h', boot ram = { loaded ram with
        mm := setUserPages (loadedMm ram) 8
        links := h'
        family := bootFamily
        task := bootTask
        current := 8
        idleTask := 9
        cr3 := 8 }
      ∧ Rings h' bootQueues ∧ h' (.task 8) = ⟨none, none⟩ ∧ h' (.task 9) = ⟨none, none⟩ := by
  set k₀ : Kernel := { loaded ram with cr3 := 0 } with hk₀
  have hdir : ((loaded ram).allocateDir 0).setCr3 (((loaded ram).allocateDir 0).getPt 0) = k₀ := by
    have hsame : (loaded ram).allocateDir 0 = loaded ram :=
      congrArg (fun t => ({ loaded ram with task := t } : Kernel))
        (Function.update_eq_self (0 : Slot) (loaded ram).task)
    rw [hsame]
    rfl
  have hfin : (List.finRange nrTasks).reverse ++ [] = [9, 8, 7, 6, 5, 4, 3, 2, 1, 0] := rfl
  obtain ⟨h₁, hinit, hr₁⟩ := foldl_link
    (k := { k₀ with
      links := initListHead (initListHead (initListHead k₀.links .freequeue) .readyqueue)
        .blocked })
    (rings_initListHead k₀.links) (List.nodup_finRange nrTasks) (fun _ _ _ => List.not_mem_nil)
  rw [hfin] at hr₁
  set k₁ : Kernel := { k₀ with links := h₁ } with hk₁
  have hsched : k₀.initSched = k₁ := hinit
  -- the idle task
  obtain ⟨h₂, hidle, hr₂, hnone₂, -⟩ := initTask_eq (k := k₁) hr₁ (Function.update_self _ _ _) 0
  have hnext₁ : (listFirst k₁.links .freequeue).bind listHeadToTaskStruct = some 9 :=
    nextFree_eq (k := k₁) hr₁
  have hinitIdle : k₁.initIdle = { k₁.initTask 0 9 with idleTask := 9 } := by
    rw [initIdle, hnext₁]
  rw [hidle] at hinitIdle
  rw [Function.update_idem] at hr₂
  -- the initial process
  obtain ⟨h₃, htask1, hr₃, hnone₃, hframe₃⟩ :=
    initTask_eq (k := k₁.initIdle) (by rw [hinitIdle]; exact hr₂) (Function.update_self _ _ _) 1
  have hnext₂ : (listFirst k₁.initIdle.links .freequeue).bind listHeadToTaskStruct = some 8 := by
    rw [hinitIdle]
    exact nextFree_eq (k := { k₁ with links := h₂ }) hr₂
  rw [Function.update_idem] at hr₃
  have hqueues : Function.update (fun _ => []) .free [7, 6, 5, 4, 3, 2, 1, 0] = bootQueues := by
    funext q
    cases q <;> rfl
  set k₃ : Kernel := { k₀ with
    links := h₃
    family := bootFamily
    task := bootTask
    idleTask := 9 } with hk₃
  have hinitTask : k₁.initIdle.initTask 1 8 = k₃ := by
    rw [htask1, hinitIdle]
    rfl
  have hpt : k₃.getPt 8 = 8 := rfl
  refine ⟨h₃, ?_, hqueues ▸ hr₃, hnone₃, ?_⟩
  · rw [boot, hdir, hsched, initTask1, hnext₂]
    dsimp only
    rw [hinitTask, hpt, show k₃.mm = loadedMm ram from rfl]
    generalize setUserPages (loadedMm ram) 8 = m
    rfl
  · refine (hframe₃ 9 (fun q => ?_)).trans ?_
    · cases q <;> decide
    · rw [hinitIdle]
      exact hnone₂

end Kernel

/-! ## The memory -/

/-- The page table of the initial process. -/
def bootTable : PageTable := fun p =>
  if pagLogInitData ≤ p ∧ p < pagLogInitCode then
    ⟨true, true, true, BitVec.ofNat 20 (numPagKernel + 2 * (numPagCode + (p - pagLogInitData)))⟩
  else if pagLogInitCode ≤ p ∧ p < pagLogEnd then
    ⟨true, false, true, BitVec.ofNat 20 (numPagKernel + 2 * (p - pagLogInitCode))⟩
  else initTablePages p

/-- **The memory after boot.** -/
theorem setUserPages_loadedMm (ram : Location → Byte) (s : Slot) :
    setUserPages (loadedMm ram) s
      = { (loadedMm ram).setTable s bootTable with physMem := bootPhys (numPagCode + numPagData) }
    := by
  have hphys : (loadedMm ram).physMem = bootPhys 0 := (Practica.markUsed_nil _).symm
  rw [setUserPages, Practica.Mm.foldl_setUserPage s pagLogInitCode false hphys (by decide),
    Practica.Mm.foldl_setUserPage (k := 0 + numPagCode) s pagLogInitData true rfl (by decide)]
  refine Practica.Mm.ext rfl ?_ rfl rfl rfl
  funext u
  simp only [Practica.Mm.withRun, Practica.Mm.setTable_apply, if_true]
  split_ifs with hus
  · funext p
    simp only [bootTable, pagLogInitData, pagLogInitCode, pagLogEnd, numPagKernel, numPagCode,
      numPagData, Nat.zero_add]
    rfl
  · rfl

/-- The frame of a user page of the initial process. -/
theorem getFrame_bootTable {p : ℕ} (h₁ : numPagKernel ≤ p) (h₂ : p < pagLogEnd) :
    (bootTable p).present = true ∧ getFrame bootTable p
      = if p < pagLogInitCode then numPagKernel + 2 * (numPagCode + (p - pagLogInitData))
        else numPagKernel + 2 * (p - pagLogInitCode) := by
  have hmod : ∀ n < totalPages, (BitVec.ofNat 20 n).toNat = n := by
    intro n hn
    rw [BitVec.toNat_ofNat]
    exact Nat.mod_eq_of_lt (hn.trans (by decide))
  rw [getFrame, bootTable]
  by_cases hd : p < pagLogInitCode
  · rw [if_pos ⟨h₁, hd⟩, if_pos hd]
    refine ⟨rfl, hmod _ ?_⟩
    simp only [pagLogInitCode, pagLogInitData, numPagKernel, numPagCode, numPagData,
      totalPages] at hd ⊢
    omega
  · rw [if_neg (fun h => hd h.2), if_pos ⟨Nat.not_lt.mp hd, h₂⟩, if_neg hd]
    refine ⟨rfl, hmod _ ?_⟩
    simp only [pagLogInitCode, pagLogInitData, pagLogEnd, numPagKernel, numPagCode, numPagData,
      totalPages] at h₂ ⊢
    omega

theorem userTable_bootTable : UserTable bootTable where
  kernel p hp := by
    have hd : ¬ (pagLogInitData ≤ p ∧ p < pagLogInitCode) := fun h => Nat.not_lt.mpr h.1 hp
    have hc : ¬ (pagLogInitCode ≤ p ∧ p < pagLogEnd) :=
      fun h => Nat.not_lt.mpr (le_trans (by decide) h.1) hp
    rw [getFrame, bootTable, if_neg hd, if_neg hc, initTablePages]
    split_ifs
    · rw [BitVec.toNat_ofNat]
      exact lt_of_le_of_lt (Nat.mod_le _ _) hp
    · decide
  user p h₁ h₂ := by
    obtain ⟨hpres, hframe⟩ := getFrame_bootTable h₁ h₂
    refine ⟨hpres, ?_⟩
    rw [hframe]
    simp only [pagLogInitCode, pagLogInitData, pagLogEnd, numPagKernel, numPagCode, numPagData,
      totalPages] at h₁ h₂ ⊢
    split_ifs <;> omega
  beyond p hp := by
    have hle : numPagKernel ≤ p := le_trans (by decide) hp
    have hd : ¬ (pagLogInitData ≤ p ∧ p < pagLogInitCode) :=
      fun h => Nat.not_lt.mpr hp (h.2.trans (by decide))
    rw [bootTable, if_neg hd, if_neg (fun h => Nat.not_lt.mpr hp h.2), initTablePages,
      if_neg (fun h => Nat.not_lt.mpr hle h.2)]

/-! ## The world -/

namespace World

variable (ram : Location → Byte)

/-- What the booted world is made of. -/
theorem boot_frame :
    (boot ram).tree = ⟨{8}, fun _ => none⟩ ∧ (boot ram).kernel.current = 8
      ∧ (boot ram).kernel.idleTask = 9 ∧ (boot ram).kernel.mm = setUserPages (loadedMm ram) 8
      ∧ (boot ram).kernel.family = Kernel.bootFamily ∧ (boot ram).kernel.startingPid = 1000
      ∧ (boot ram).kernel.task = Kernel.bootTask ∧ (boot ram).kernel.stuck = false
      ∧ (boot ram).kernel.nextFree = some 7 := by
  obtain ⟨h', heq, hr, -, -⟩ := Kernel.boot_eq ram
  have hcur : (Kernel.boot ram).current = 8 := by rw [heq]
  have hlinks : (Kernel.boot ram).links = h' := by rw [heq]
  rw [← hlinks] at hr
  have hnext : (Kernel.boot ram).nextFree = some 7 := Kernel.nextFree_eq hr
  have hmm : (Kernel.boot ram).mm = setUserPages (loadedMm ram) 8 := by rw [heq]
  have htree : (boot ram).tree = ⟨{8}, fun _ => none⟩ :=
    congrArg (fun s => (⟨{s}, fun _ => none⟩ : Tree)) hcur
  exact ⟨htree, hcur, congrArg Kernel.idleTask heq, hmm,
    congrArg Kernel.family heq, congrArg Kernel.startingPid heq, congrArg Kernel.task heq,
    congrArg Kernel.stuck heq, hnext⟩

/-- The queues and the tasks after boot. -/
theorem queued_boot : (boot ram).kernel.Queued (boot ram).tree Kernel.bootQueues := by
  obtain ⟨h', heq, hr, h8, h9⟩ := Kernel.boot_eq ram
  obtain ⟨htree, hcur, hidle, -, -, -, htask, -, -⟩ := boot_frame ram
  have hlinks : (boot ram).kernel.links = h' := congrArg Kernel.links heq
  have hcr3 : (boot ram).kernel.cr3 = 8 := congrArg Kernel.cr3 heq
  have htended : ∀ s, (boot ram).kernel.Tended (boot ram).tree s ↔ s = 8 ∨ s = 9 := by
    intro s
    rw [Kernel.Tended, htree, hidle, Finset.mem_singleton]
  have hrun : ∀ s, (Kernel.bootTask s).state = .run := by decide
  refine ⟨⟨hlinks.symm ▸ hr, fun s => ⟨?_, ?_, ?_, ?_, ?_, ?_, ?_⟩⟩, ?_, ?_, ?_, fun _ => ?_, ?_⟩
  · rw [htended]
    revert s
    decide
  · exact fun hs => absurd hs List.not_mem_nil
  · exact fun hs => absurd hs List.not_mem_nil
  · rw [htree, hidle, Finset.mem_singleton]
    rintro rfl
    decide
  · intro _
    rw [htask, hrun]
    exact iff_of_false (by decide) List.not_mem_nil
  · rw [htended, hlinks]
    rintro (rfl | rfl) -
    · exact h8
    · exact h9
  · rw [htended, Kernel.getPt, htask]
    rintro (rfl | rfl) <;> rfl
  · rw [hcur]
    decide
  · exact List.not_mem_nil
  · rw [htended]
    exact Or.inl hcur
  · rw [htask]
    exact hrun _
  · exact hcr3.trans hcur.symm

/-- The families after boot: two empty lists. -/
theorem kinLists_boot : KinLists Kernel.bootFamily (fun q => q = 8 ∨ q = 9)
    (⟨{8}, fun _ => none⟩ : Tree).Child 9 := by
  have hnone : ∀ q s, ¬ (⟨{8}, fun _ => none⟩ : Tree).Child q s :=
    fun q s hs => Option.some_ne_none q hs.2.symm
  have h9 : Kernel.bootFamily.IsRing (.childs 9) [] := by
    refine (isRing_initListHead (fun _ => ⟨none, none⟩) (Kin.childs 9)).congr (fun y hy => ?_)
    rw [List.mem_singleton.mp hy]
    exact initListHead_of_ne _ (by decide)
  have horphans : orphans (⟨{8}, fun _ => none⟩ : Tree).Child 9 = {y | y ∈ ([] : List Kin)} := by
    ext y
    exact iff_of_false (fun ⟨s, hs, _⟩ => hnone 9 s hs) List.not_mem_nil
  refine ⟨fun q hq => ⟨[], ?_, fun s => iff_of_false List.not_mem_nil (hnone q s)⟩, ?_,
    fun q _ s hs => absurd hs (hnone q s)⟩
  · rcases hq with rfl | rfl
    · exact isRing_initListHead _ (Kin.childs 8)
    · exact h9
  · rw [horphans]
    exact h9.loose

/-- The table of the initial process. -/
theorem boot_table : (boot ram).kernel.mm.pagusrTable 8 = bootTable := by
  obtain ⟨-, -, -, hmm, -⟩ := boot_frame ram
  rw [hmm, setUserPages_loadedMm]
  show ((loadedMm ram).setTable 8 bootTable).pagusrTable 8 = _
  rw [Practica.Mm.setTable_apply, if_pos rfl]

/-- The tables after boot. -/
theorem tabled_boot : Tabled (boot ram).kernel.mm (boot ram).tree := by
  obtain ⟨htree, -, -, hmm, -⟩ := boot_frame ram
  rw [htree, hmm, setUserPages_loadedMm]
  refine ⟨fun s hs => ?_, fun s p hp => ?_, fun f hf => ?_⟩
  · rw [Finset.mem_singleton.mp hs]
    show UserTable (((loadedMm ram).setTable 8 bootTable).pagusrTable 8)
    rw [Practica.Mm.setTable_apply, if_pos rfl]
    exact userTable_bootTable
  · show ((loadedMm ram).setTable 8 bootTable).pagusrTable s p = _
    rw [Practica.Mm.setTable_apply]
    split_ifs
    · exact userTable_bootTable.beyond p hp
    · exact if_neg (fun h => Nat.not_lt.mpr (le_trans (by decide) hp) h.2)
  · show bootPhys (numPagCode + numPagData) f ≠ 0
    rw [bootPhys_apply (by decide)]
    rcases Nat.lt_or_eq_of_le hf with hlt | rfl
    · rw [if_pos (Or.inl hlt)]
      exact Nat.one_ne_zero
    · decide

/-- **The booted world is sound**, its idle task's list a ring. -/
theorem sound_boot : (boot ram).Sound ∧ (boot ram).AllFamilies := by
  obtain ⟨htree, -, hidle, -, hfam, hstart, htask, -, -⟩ := boot_frame ram
  have hkin := kinLists_boot
  refine ⟨⟨⟨_, queued_boot ram⟩, ?_, ?_, ?_, ?_, tabled_boot ram⟩, ?_⟩
  · show KinLists (boot ram).kernel.family _ _ _
    rw [hfam, htree, hidle]
    exact hkin.congr (fun q hq => Or.inl (Finset.mem_singleton.mp hq)) (fun _ _ => Iff.rfl)
  · rw [htree]
    exact fun s _ q hg => absurd hg.symm (Option.some_ne_none q)
  · rw [htree, htask]
    intro s hs
    rw [Finset.mem_singleton.mp hs]
    exact ⟨by decide, iff_of_true rfl rfl⟩
  · rw [hstart]
  · show KinLists (boot ram).kernel.family _ _ _
    rw [hfam, htree, hidle]
    exact hkin.congr (fun q hq => hq.imp Finset.mem_singleton.mp id) (fun _ _ => Iff.rfl)

/-! ## The first fork -/

/-- The frames that boot leaves free. -/
theorem freeFrames_boot :
    freeFrames (boot ram).kernel.mm.physMem = frameScan.drop (numPagCode + numPagData) := by
  obtain ⟨-, -, -, hmm, -⟩ := boot_frame ram
  rw [hmm, setUserPages_loadedMm]
  exact freeFrames_bootPhys _

theorem length_freeFrames_boot : (freeFrames (boot ram).kernel.mm.physMem).length = 356 := by
  rw [freeFrames_boot, List.length_drop, frameScan, List.length_range']
  rfl

/-- The initial process forks: its child gets slot 7. -/
theorem exists_fork_boot :
    ∃ w, (boot ram).step .fork = some w ∧ 0 < (boot ram).kernel.sysFork.1
      ∧ w.tree = (boot ram).tree.fork 8 7 ∧ w.kernel.mm = forkedMm (boot ram).kernel.mm 8 7
      ∧ w.kernel.idleTask = 9 ∧ w.kernel.stuck = false ∧ w.kernel.mm.stuck = false
      ∧ Spawned (boot ram) w Kernel.bootQueues 7 := by
  obtain ⟨-, hcur, hidle, hmm, -, hstart, -, hstuck, hnext⟩ := boot_frame ram
  have hi : (boot ram).kernel.current ≠ (boot ram).kernel.idleTask := by
    rw [hcur, hidle]
    decide
  have hlen : numPagData ≤ (freeFrames (boot ram).kernel.mm.physMem).length := by
    rw [length_freeFrames_boot]
    decide
  have hmstuck : (boot ram).kernel.mm.stuck = false := by
    rw [hmm, setUserPages_loadedMm]
    rfl
  have hpid : (boot ram).kernel.startingPid ≠ intMax := by
    rw [hstart]
    decide
  have h := (sound_boot ram).1.exists_fork (queued_boot ram) hi hstuck hmstuck hnext hlen hpid
  rwa [hcur, hidle] at h

end World

/-- Every reachable world is sound. -/
theorem Reachable.sound {ram : Location → Byte} {w : World} (h : Reachable ram w) : w.Sound := by
  obtain ⟨es, hrun⟩ := h
  exact hrun.invariant (I := World.Sound) (fun _ _ _ hs _ hst => (hs.step hst).1)
    (World.sound_boot ram).1

end ZeOS.Zeos
