import ZeOS.Practica.Erase
import ZeOS.Practica.ExitShared
import ZeOS.Practica.FaultRoutine
import ZeOS.Practica.Isolation
import ZeOS.Practica.Quantum

/-!
# The events the kernel takes

An event has no next state where the kernel leaves what the model describes:
where it loops in the fault handler or faults again and again, where it reads
or writes past one of its tables, where it stores into its own image through a
pointer it has accepted, and where the last identifier or a count of
references would leave its `int`. Here it is said of each event when this is
not so, in terms of the state before it, and shown that these are exactly the
events with a next state.
-/

namespace ZeOS.Practica

namespace Kernel

/-! ## The condition -/

/-- The `n` bytes from an address on lie in mapped pages, and not in the
kernel's image. -/
def Delivers (k : Kernel) (addr : DWord) (n : ℕ) : Prop :=
  ∀ i < n, (addr.toNat + i) / pageSize < totalPages
    ∧ (k.currentPt ((addr.toNat + i) / pageSize)).present = true
    ∧ numPagKernel ≤ getFrame k.currentPt ((addr.toNat + i) / pageSize)

/-- **The handler returns from a fault at an address**, within its tables:
the frame in the entry is one of the machine, and it is counted. -/
structure FaultServed (k : Kernel) (addr : DWord) : Prop where
  page : pageOf addr < totalPages
  frame : getFrame k.currentPt (pageOf addr) < totalPages
  count : k.mm.physMem (getFrame k.currentPt (pageOf addr)) ≠ 0

/-- **A store goes through**, after a fault if the page is read-only: the page
is a mapped page of the user, and not one of the kernel's image. -/
structure StoreServed (k : Kernel) (addr : DWord) : Prop where
  page : pageOf addr < totalPages
  present : (k.currentPt (pageOf addr)).present = true
  user : (k.currentPt (pageOf addr)).user = true
  image : numPagKernel ≤ getFrame k.currentPt (pageOf addr)
  fault : (k.currentPt (pageOf addr)).rw = false → k.FaultServed addr

/-- The counts of references stay in their `int` when each changes by its
`d`. -/
def CountsFitAfter (k : Kernel) (d : ℕ → ℤ) : Prop :=
  ∀ i < shmLength, -2 ^ 31 ≤ (k.mm.shmMem i).referencias + d i
    ∧ (k.mm.shmMem i).referencias + d i < 2 ^ 31

/-- In how many shared pages the current process maps the frame of a
segment. -/
def mapsSegment (k : Kernel) (i : ℕ) : ℕ :=
  mapCount k.currentPt sharedPages (k.mm.shmMem i).shmMemFrameAddr

/-- **What an event must meet to be taken**: an access of the current task is
served, a fork stays within its tables and its `int`, an attachment and a mark
name a page and a segment of their tables, what a call stores through a
pointer it has accepted is delivered, and a call that moves counts of
references leaves them in their `int`. -/
def Takes (k : Kernel) : Event → Prop
  | .load addr => (k.mm.userLoad k.sched.cr3 addr.toNat).isSome = true
  | .store addr _ => k.StoreServed addr
  | .fault cr2 => k.mm.userCanStore k.sched.cr3 cr2.toNat = false ∧ k.FaultServed cr2
  | .fork _ => k.freeSlots = [] ∨ (freeFrames k.mm.physMem).length < numPagData
      ∨ k.sched.globalPid + 1 < 2 ^ 31 ∧ (∀ p ∈ dataPages, getFrame k.currentPt p < totalPages)
        ∧ k.CountsFitAfter (fun i => k.mapsSegment i)
  | .exit _ => k.CountsFitAfter (fun i => -k.mapsSegment i)
  | .shmat id addr => Mm.ShmatAccepts id addr → pageOf addr < totalPages
      ∧ (Mm.findFreePage k.currentPt (addr.sshiftRight 12).toNat ≠ none →
          k.CountsFitAfter (fun i => if i = id.toNat then 1 else 0))
  | .shmdt addr => k.CountsFitAfter
      (fun i => if k.mm.segmentAt k.sched.cr3 (Mm.shmdtPage addr) = some i then -1 else 0)
  | .shmrm id => id ≠ 10#32
  | .read b n => accessOk k.currentPt .verifyWrite b n = true → k.Delivers b (k.readCount n)
  | .getStats pid st =>
    accessOk k.currentPt .verifyWrite st (BitVec.ofNat 32 Stats.size) = true →
      k.statsSlot pid ≠ none → k.Delivers st Stats.size
  | _ => True

/-! ## Calls -/

variable {k : Kernel}

/-- How many characters a call delivers is never more than there are. -/
theorem readCount_le_count (k : Kernel) (maxchars : DWord) : k.readCount maxchars ≤ k.cb.count := by
  unfold readCount
  split_ifs <;> omega

/-- The smaller of the two, for a count that is not negative. -/
theorem readCount_eq {maxchars : DWord} (h : 0 ≤ maxchars.toInt) :
    (k.readCount maxchars : ℤ) = min maxchars.toInt k.cb.count := by
  unfold readCount
  split_ifs <;> omega

/-- **`sys_read`**, accepted or not. -/
theorem sysRead_eq (k : Kernel) (b maxchars : DWord) :
    k.sysRead b maxchars =
      if accessOk k.currentPt .verifyWrite b maxchars then
        (if (k.cb.count : ℤ) < maxchars.toInt then (k.cb.count : ℤ) else maxchars.toInt,
          { k with
            cb := (fun cb => cb.dequeue.2)^[k.readCount maxchars] k.cb
            mm := storeRun (Mm.kernelStore k.sched.cr3) b.toNat k.cb.peek k.mm
              (k.readCount maxchars) })
      else (-eFAULT, k) := by
  unfold sysRead
  cases accessOk k.currentPt .verifyWrite b maxchars with
  | false => rfl
  | true => exact Prod.ext rfl (foldl_readChar_eq k b (k.readCount maxchars))

/-- A system call has a next state if it raises no mark and leaves the counts
in their `int`. -/
theorem exists_systemCall_iff {e : Event} {f : Kernel → Kernel}
    (hperf : k.perform e = some (k.systemCall f)) :
    (∃ k', k.step e = some k') ↔ (e.byTask = true → k.sched.current ≠ k.sched.idleTask)
      ∧ (f k.entered).mm.stuck = false ∧ (f k.entered).sched.stuck = false
      ∧ (f k.entered).mm.CountsFit := by
  have hsame := Sched.same_leave (f k.entered).sched
  constructor
  · rintro ⟨k', hst⟩
    obtain ⟨hen, hp, hmm, hsc, hfit⟩ := step_eq_some_iff.mp hst
    obtain rfl := Option.some_inj.mp (hperf.symm.trans hp)
    exact ⟨hen, hmm, hsame.stuck.symm.trans hsc, hfit⟩
  · rintro ⟨hen, hmm, hsc, hfit⟩
    exact ⟨_, step_eq_some_iff.mpr ⟨hen, hperf, hmm, hsame.stuck.trans hsc, hfit⟩⟩

/-! ## Counts of references -/

/-- A memory whose counts have changed by `d`. -/
theorem countsFit_iff {m : Mm} {d : ℕ → ℤ}
    (h : ∀ i < shmLength, (m.shmMem i).referencias = (k.mm.shmMem i).referencias + d i) :
    m.CountsFit ↔ k.CountsFitAfter d := by
  refine forall₂_congr fun i hi => ?_
  rw [h i hi]

variable {a : Schedule}

theorem countsFit_forkPages (hf : k.Follows a) {c : Slot} (hc : a.current ≠ c) :
    ((k.mm.withFrames c numPagData).forkPages a.current c).CountsFit
      ↔ k.CountsFitAfter (fun i => k.mapsSegment i) := by
  refine countsFit_iff fun i hi => ?_
  rw [Mm.forkPages_withFrames k.mm hc, mapsSegment, Kernel.currentPt_eq hf.threads]
  dsimp only
  rw [if_pos hi]

theorem countsFit_exitPages (hf : k.Follows a) :
    (k.mm.exitPages a.current).CountsFit ↔ k.CountsFitAfter (fun i => -k.mapsSegment i) := by
  refine countsFit_iff fun i hi => ?_
  rw [(Mm.exitPages_dropped k.mm a.current).shmMem, if_pos hi, mapsSegment,
    Kernel.currentPt_eq hf.threads]
  exact sub_eq_add_neg _ _

theorem countsFit_attach (s : Slot) (j page : ℕ) :
    (k.mm.attach s j page).CountsFit ↔ k.CountsFitAfter (fun i => if i = j then 1 else 0) := by
  refine countsFit_iff fun i _ => ?_
  show (Function.update k.mm.shmMem j _ i).referencias = _
  by_cases hij : i = j
  · subst hij
    rw [Function.update_self, if_pos rfl]
  · rw [Function.update_of_ne hij, if_neg hij, add_zero]

theorem countsFit_sysShmdt (hf : k.Follows a) {addr : DWord}
    (hdown : (k.mm.sysShmdt a.current a.current addr).2.stuck = false) :
    (k.mm.sysShmdt a.current a.current addr).2.CountsFit
      ↔ k.CountsFitAfter
          (fun i => if k.mm.segmentAt k.sched.cr3 (Mm.shmdtPage addr) = some i then -1 else 0) := by
  refine countsFit_iff fun i _ => ?_
  rw [Mm.sysShmdt_referencias hdown, hf.threads.cr3_eq]
  split_ifs
  · exact sub_eq_add_neg _ _
  · rw [sub_zero, add_zero]

/-- Where the counts are far from their bound, every detachment is taken. -/
theorem takes_shmdt {b : ℤ} (h : k.mm.CountsWithin b) (hb : b < 2 ^ 31) (addr : DWord) :
    k.Takes (.shmdt addr) := by
  intro i hi
  obtain ⟨h₁, h₂⟩ := h i hi
  dsimp only
  split_ifs
  · exact ⟨by omega, by omega⟩
  · exact ⟨by omega, by omega⟩

end Kernel

/-! ## Stores in kernel mode -/

section Stores

variable {k : Kernel} {a : Schedule} {addr : DWord} {n : ℕ}

theorem currentPt_entered (hf : k.Follows a) : k.entered.currentPt = k.currentPt := by
  rw [Kernel.currentPt_eq hf.entered.threads, Kernel.currentPt_eq hf.threads]
  rfl

/-- A run of kernel stores that raises no mark goes to mapped bytes. -/
theorem Mm.storeRun_down {m : Mm} {s : Slot} {q n : ℕ} {bytes : ℕ → Byte}
    (h : (storeRun (kernelStore s) q bytes m n).stuck = false) {i : ℕ} (hi : i < n) :
    ∃ loc, m.translate s (q + i) = some loc ∧ numPagKernel ≤ loc.1 := by
  induction n with
  | zero => exact absurd hi (Nat.not_lt_zero i)
  | succ n ih =>
    have hpre := (ramOnly_kernelStore (storeRun (kernelStore s) q bytes m n) s (q + n)
      (bytes n)).stuck h
    rcases Nat.lt_succ_iff_lt_or_eq.mp hi with hlt | rfl
    · exact ih hpre hlt
    · -- the stores before it have not changed the table
      have hsame : (storeRun (kernelStore s) q bytes m i).translate s (q + i)
          = m.translate s (q + i) := by
        have htab : ∀ j, (storeRun (kernelStore s) q bytes m j).pagusrTable = m.pagusrTable := by
          intro j
          induction j with
          | zero => rfl
          | succ j ihj => exact (ramOnly_kernelStore _ s (q + j) (bytes j)).pagusrTable.trans ihj
        rw [translate, translate, htab]
      rw [storeRun, kernelStore, hsame] at h
      cases hloc : m.translate s (q + i) with
      | none =>
        rw [hloc] at h
        exact absurd h (by simp)
      | some loc =>
        rw [hloc] at h
        exact ⟨loc, rfl, ((require_stuck _ _).mp h).2⟩

/-- What is mapped for the current process. -/
theorem translate_eq_some_iff (hf : k.Follows a) {addr : ℕ} {loc : Location} :
    k.mm.translate k.sched.cr3 addr = some loc
      ↔ addr % 2 ^ 32 / pageSize < totalPages
        ∧ (k.currentPt (addr % 2 ^ 32 / pageSize)).present = true
        ∧ (getFrame k.currentPt (addr % 2 ^ 32 / pageSize), addr % pageSize) = loc := by
  rw [Mm.translate, hf.threads.cr3_eq, Kernel.currentPt_eq hf.threads]
  split_ifs with h
  · rw [Option.some_inj]
    exact ⟨fun he => ⟨h.1, h.2, he⟩, fun he => he.2.2⟩
  · exact ⟨fun he => absurd he (by simp), fun he => absurd ⟨he.1, he.2.1⟩ h⟩

/-- Bytes are delivered exactly if each goes to a byte of user memory. -/
theorem delivers_iff (hf : k.Follows a) :
    k.Delivers addr n ↔ ∀ i < n, ∃ loc,
      k.mm.translate k.sched.cr3 (addr.toNat + i) = some loc ∧ numPagKernel ≤ loc.1 := by
  have hb := addr.isLt
  constructor
  · intro h i hi
    obtain ⟨hlt, hpres, hframe⟩ := h i hi
    have hmod : (addr.toNat + i) % 2 ^ 32 = addr.toNat + i := by
      refine Nat.mod_eq_of_lt ?_
      simp only [pageSize, totalPages] at hlt
      omega
    refine ⟨_, (translate_eq_some_iff hf).mpr ⟨?_, ?_, rfl⟩, ?_⟩
    · rwa [hmod]
    · rwa [hmod]
    · rwa [hmod]
  · intro h i hi
    -- a block that wraps has a byte on the last page
    have hmod : (addr.toNat + i) % 2 ^ 32 = addr.toNat + i := by
      refine Nat.mod_eq_of_lt (Nat.not_le.mp fun hle => ?_)
      obtain ⟨loc, hloc, -⟩ := h (2 ^ 32 - 1 - addr.toNat) (by omega)
      have hlt := ((translate_eq_some_iff hf).mp hloc).1
      rw [Nat.add_sub_cancel' (by omega)] at hlt
      exact absurd hlt (by decide)
    obtain ⟨loc, hloc, hframe⟩ := h i hi
    obtain ⟨hlt, hpres, rfl⟩ := (translate_eq_some_iff hf).mp hloc
    rw [hmod] at hlt hpres hframe
    exact ⟨hlt, hpres, hframe⟩

/-- The byte behind an address that can be delivered to. -/
theorem Kernel.Delivers.translate_dest (hf : k.Follows a) (h : k.Delivers addr n) {i : ℕ}
    (hi : i < n) :
    k.mm.translate k.sched.cr3 (addr.toNat + i) = some (k.dest (addr.toNat + i))
      ∧ numPagKernel ≤ (k.dest (addr.toNat + i)).1 := by
  obtain ⟨hlt, hpres, hframe⟩ := h i hi
  have hmod : (addr.toNat + i) % 2 ^ 32 = addr.toNat + i := by
    refine Nat.mod_eq_of_lt ?_
    simp only [pageSize, totalPages] at hlt
    omega
  refine ⟨(translate_eq_some_iff hf).mpr ⟨?_, ?_, ?_⟩, hframe⟩
  · rwa [hmod]
  · rwa [hmod]
  · rw [hmod, Kernel.dest]

/-- **Stores that are delivered** write the bytes behind their addresses. -/
theorem Kernel.Delivers.storeRun (hf : k.Follows a) (h : k.Delivers addr n)
    (bytes : ℕ → Byte) :
    storeRun (Mm.kernelStore k.sched.cr3) addr.toNat bytes k.mm n = { k.mm with
      ram := writeRun k.mm.ram (fun i => k.dest (addr.toNat + i)) bytes n } :=
  Mm.storeRun_kernelStore (fun _ hi => (h.translate_dest hf hi).1)
    (fun _ hi => (h.translate_dest hf hi).2)

/-- **Stores raise no mark exactly if they are delivered.** -/
theorem storeRun_down_iff (hf : k.Follows a) {bytes : ℕ → Byte} :
    (storeRun (Mm.kernelStore k.sched.cr3) addr.toNat bytes k.mm n).stuck = false
      ↔ k.Delivers addr n := by
  constructor
  · exact fun h => (delivers_iff hf).mpr (fun i hi => Mm.storeRun_down h hi)
  · intro h
    rw [h.storeRun hf]
    exact hf.mm_down

end Stores

/-! ## Faults and stores in user mode -/

section Faults

variable {M : Machine} {k : Kernel} {a : Schedule} {m m' : Mm} {s : Slot} {addr cr2 : DWord}

/-- With the mark down, the handler has stayed in its tables. -/
theorem Mm.bounds_of_pagefaultRoutine (h : m.pagefaultRoutine s s cr2 = some m')
    (hs : m'.stuck = false) :
    pageOf cr2 < totalPages ∧ getFrame (m.pagusrTable s) (pageOf cr2) < totalPages
      ∧ m.physMem (getFrame (m.pagusrTable s) (pageOf cr2)) ≠ 0 := by
  unfold pagefaultRoutine at h
  dsimp only at h
  set m₁ := (m.require (pageOf cr2 < totalPages)).require
    (getFrame ((m.require (pageOf cr2 < totalPages)).pagusrTable s) (pageOf cr2) < totalPages)
  have hbounds : m₁.stuck = false → pageOf cr2 < totalPages
      ∧ getFrame (m.pagusrTable s) (pageOf cr2) < totalPages := by
    intro hst
    obtain ⟨hst₁, hframe⟩ := (require_stuck _ _).mp hst
    exact ⟨((require_stuck _ _).mp hst₁).2, hframe⟩
  split_ifs at h with h0 h1
  · obtain rfl := Option.some_inj.mp h
    obtain ⟨hpage, hframe⟩ := hbounds hs
    exact ⟨hpage, hframe, h0⟩
  · obtain rfl := Option.some_inj.mp h
    obtain ⟨hpage, hframe⟩ := hbounds (stuck_copyOnWrite hs)
    exact ⟨hpage, hframe, h0⟩

/-- The exception of the current task. -/
theorem Kernel.pagefault_eq (hf : k.Follows a) (cr2 : DWord) :
    k.pagefault cr2 = (k.mm.pagefaultRoutine a.current a.current cr2).map
      (fun m => { k with mm := m, sched := k.interrupted.leave }) := by
  have henter := Kernel.threads_interrupt hf.threads
  have hpt := henter.dir_eq a.current a.current_notMem.1
  rw [pagefault, henter.cr3_eq, henter.current_eq, hpt]
  rfl

theorem Kernel.Follows.interrupted_leave (hf : k.Follows a) {m : Mm} (hm : m.stuck = false)
    (hfit : m.CountsFit) :
    ({ k with mm := m, sched := k.interrupted.leave } : Kernel).Follows a := by
  have hsame : k.sched.Same k.interrupted.leave :=
    k.same_interrupted.trans (Sched.same_leave _)
  exact ⟨hf.threads.same hsame, hm, hsame.stuck.trans hf.sched_down, hfit⟩

/-- **The handler returns exactly if the fault is served.** -/
theorem faultServed_iff (hf : k.Follows a) (hm : Mapped M a k.mm) (hbusy : a.current ≠ a.idle) :
    k.FaultServed cr2 ↔ ∃ m', k.mm.pagefaultRoutine a.current a.current cr2 = some m'
      ∧ m'.stuck = false := by
  have hpt := Kernel.currentPt_eq hf.threads
  constructor
  · rintro ⟨hpage, hframe, hcount⟩
    rw [hpt] at hframe hcount
    obtain ⟨m₁, -, -, hm₁, he⟩ := Mm.pagefaultRoutine_eq k.mm a.current a.current cr2
    rw [hm₁ hpage hframe, if_neg hcount] at he
    refine ⟨_, he.trans (apply_ite some _ _ _).symm, ?_⟩
    split_ifs with h1
    · exact hf.mm_down
    · -- a frame that is counted twice is that of a data page
      have hdata := hm.data_of_count (a.user_current hbusy) hpage (by omega)
      have hpres := ((hm.user_table _ (a.user_current hbusy)).data _ hdata.1 hdata.2).1
      rw [Mm.copyOnWrite_eq hpage (ne_paginaAUsar hdata.2) hpres]
      exact hf.mm_down
  · rintro ⟨m', he, hdown⟩
    obtain ⟨hpage, hframe, hcount⟩ := Mm.bounds_of_pagefaultRoutine he hdown
    exact ⟨hpage, hpt ▸ hframe, hpt ▸ hcount⟩

/-- A store that does not fault has a next state exactly if it does not go to
the kernel's image. -/
theorem exists_userStore_iff (hf : k.Follows a) (addr : DWord) (b : Byte) :
    (∃ k', k.userStore addr b = some k' ∧ k'.mm.stuck = false ∧ k'.sched.stuck = false
        ∧ k'.mm.CountsFit)
      ↔ k.mm.userCanStore a.current addr.toNat = true
        ∧ numPagKernel ≤ getFrame (k.mm.pagusrTable a.current) (pageOf addr) := by
  have hcr3 := hf.threads.cr3_eq
  have hpage : addr.toNat % 2 ^ 32 / pageSize = pageOf addr := by
    rw [pageOf_eq, Nat.mod_eq_of_lt addr.isLt]
  have hloc : k.mm.userCanStore a.current addr.toNat = true →
      k.mm.translate a.current addr.toNat
        = some (getFrame (k.mm.pagusrTable a.current) (pageOf addr), addr.toNat % pageSize) := by
    intro hcan
    obtain ⟨hlt, hpres, -⟩ := Mm.userCanStore_iff.mp hcan
    rw [Mm.translate, hpage]
    exact if_pos ⟨hlt, hpres⟩
  constructor
  · rintro ⟨k', hst, hmm, -⟩
    obtain ⟨loc, hcan, htr, hframe, -⟩ := Kernel.userStore_eq_some hst hmm
    rw [hcr3] at hcan htr
    obtain rfl := Option.some_inj.mp ((hloc hcan).symm.trans htr)
    exact ⟨hcan, hframe⟩
  · rintro ⟨hcan, hframe⟩
    refine ⟨{ k with mm := k.mm.store (getFrame (k.mm.pagusrTable a.current) (pageOf addr),
      addr.toNat % pageSize) b }, ?_, ?_, hf.sched_down, hf.counts_fit⟩
    · rw [Kernel.userStore, hcr3, if_pos hcan, hloc hcan]
      rfl
    · exact (Mm.require_stuck _ _).mpr ⟨hf.mm_down, hframe⟩

/-- **What a fault leaves of the entry it was for**: it is writable, and else
as open as it was. -/
theorem entry_of_faulted (hm : Mapped M a m) (hs : a.User s) {p : ℕ} (h : m.Faulted s p m') :
    (m'.pagusrTable s p).present = (m.pagusrTable s p).present
      ∧ (m'.pagusrTable s p).user = (m.pagusrTable s p).user
      ∧ (m'.pagusrTable s p).rw = true
      ∧ (numPagKernel ≤ getFrame (m'.pagusrTable s) p
        ↔ numPagKernel ≤ getFrame (m.pagusrTable s) p) := by
  cases h with
  | opened hp hcount =>
    rw [Mm.setTable_apply, if_pos rfl, getFrame, setRw, if_pos rfl]
    exact ⟨rfl, rfl, rfl, Iff.rfl⟩
  | copied hp hframe hcount =>
    obtain ⟨h₁, h₂⟩ := hm.data_of_count hs hp hcount
    obtain ⟨hpres, huser, hfix⟩ := (hm.user_table s hs).data p h₁ h₂
    have hold : numPagKernel ≤ getFrame (m.pagusrTable s) p :=
      Nat.not_lt.mp fun hlt => hfix (Or.inl hlt)
    rw [Mm.copyOnWrite_eq hp (ne_paginaAUsar h₂) hpres]
    dsimp only
    rw [Mm.setTable_apply, if_pos rfl, hpres, huser]
    generalize Function.update m.physMem _ _ = phys
    have hentry : privateTable (m.pagusrTable s) p (allocFrame phys).1 p
        = PageTableEntry.mapping (allocFrame phys).1 := if_pos rfl
    have hnew : numPagKernel
        ≤ getFrame (privateTable (m.pagusrTable s) p (allocFrame phys).1) p := by
      rw [getFrame, hentry]
      exact numPagKernel_le_nextFrame phys
    rw [hentry]
    exact ⟨rfl, rfl, rfl, iff_of_true hnew hold⟩

/-- **A store has a next state exactly if it is served.** -/
theorem exists_store_iff (hf : k.Follows a) (hm : Mapped M a k.mm) (hbusy : a.current ≠ a.idle)
    (b : Byte) :
    (∃ k', k.perform (.store addr b) = some k' ∧ k'.mm.stuck = false ∧ k'.sched.stuck = false
        ∧ k'.mm.CountsFit)
      ↔ k.StoreServed addr := by
  have hu := a.user_current hbusy
  have hpt := Kernel.currentPt_eq hf.threads
  have hcr3 := hf.threads.cr3_eq
  rw [Kernel.perform, hcr3]
  by_cases hcan : k.mm.userCanStore a.current addr.toNat = true
  · rw [if_pos hcan, exists_userStore_iff hf, and_iff_right hcan]
    obtain ⟨hlt, hpres, huser, hrw⟩ := Mm.userCanStore_iff.mp hcan
    rw [← hpt] at hpres huser hrw ⊢
    refine ⟨fun hframe => ⟨hlt, hpres, huser, hframe, fun hc => ?_⟩, fun h => h.image⟩
    rw [hrw] at hc
    exact absurd hc (by decide)
  rw [if_neg hcan, Kernel.pagefault_eq hf]
  constructor
  · rintro ⟨k', hbind, hmm, hsc⟩
    obtain ⟨k₁, hfault, hstore⟩ := Option.bind_eq_some_iff.mp hbind
    obtain ⟨m', he, rfl⟩ := Option.map_eq_some_iff.mp hfault
    have hdown : m'.stuck = false := by
      obtain ⟨loc, -, -, -, rfl⟩ := Kernel.userStore_eq_some hstore hmm
      exact hmm
    have hfaulted := Mm.faulted_of_pagefaultRoutine he hdown
    have hleave := hf.interrupted_leave hdown (hf.counts_fit.congr hfaulted.shmMem)
    obtain ⟨hcan', hframe⟩ := (exists_userStore_iff hleave addr b).mp ⟨k', hstore, hmm, hsc⟩
    obtain ⟨hlt, hpres, huser, -⟩ := Mm.userCanStore_iff.mp hcan'
    obtain ⟨hp, hus, -, him⟩ := entry_of_faulted hm hu hfaulted
    dsimp only at hpres huser hframe
    rw [hp, ← hpt] at hpres
    rw [hus, ← hpt] at huser
    rw [him, ← hpt] at hframe
    exact ⟨hlt, hpres, huser, hframe, fun _ => (faultServed_iff hf hm hbusy).mpr ⟨m', he, hdown⟩⟩
  · rintro ⟨hlt, hpres, huser, hframe, hfault⟩
    rw [hpt] at hpres huser hframe hfault
    have hrw : (k.mm.pagusrTable a.current (pageOf addr)).rw = false := by
      by_contra hc
      rw [Bool.not_eq_false] at hc
      exact hcan (Mm.userCanStore_iff.mpr ⟨hlt, hpres, huser, hc⟩)
    obtain ⟨m', he, hdown⟩ := (faultServed_iff hf hm hbusy).mp (hfault hrw)
    have hfaulted := Mm.faulted_of_pagefaultRoutine he hdown
    have hleave := hf.interrupted_leave hdown (hf.counts_fit.congr hfaulted.shmMem)
    obtain ⟨hp, hus, hrw', him⟩ := entry_of_faulted hm hu hfaulted
    have hcan' : m'.userCanStore a.current addr.toNat = true :=
      Mm.userCanStore_iff.mpr ⟨hlt, hp.trans hpres, hus.trans huser, hrw'⟩
    obtain ⟨k', hstore, hmm, hsc⟩ := (exists_userStore_iff hleave addr b).mpr
      ⟨hcan', him.mpr hframe⟩
    exact ⟨k', by rw [he]; exact hstore, hmm, hsc⟩

end Faults

/-! ## The calls that may raise a mark -/

section Marks

variable {M : Machine} {k : Kernel} {a : Schedule}

/-- `sys_fork`. -/
theorem sysFork_down_iff (hf : k.Follows a) (hm : Mapped M a k.mm) (hbusy : a.current ≠ a.idle)
    (ebp : DWord) :
    ((k.entered.sysFork ebp).2.mm.stuck = false ∧ (k.entered.sysFork ebp).2.sched.stuck = false
        ∧ (k.entered.sysFork ebp).2.mm.CountsFit)
      ↔ k.Takes (.fork ebp) := by
  have hlast : k.sched.globalPid = a.lastPid := hf.threads.lastPid_eq
  rw [Kernel.Takes, Kernel.freeSlots_eq hf.threads, Kernel.currentPt_eq hf.threads, hlast]
  cases hfree : a.free with
  | nil =>
    rw [Kernel.sysFork_none hf.entered.threads hfree]
    exact iff_of_true ⟨hf.mm_down, hf.entered.sched_down, hf.counts_fit⟩ (Or.inl rfl)
  | cons c cs =>
    rw [or_iff_right (List.cons_ne_nil c cs)]
    rcases Nat.lt_or_ge (freeFrames k.mm.physMem).length numPagData with hlen | hlen
    · obtain ⟨s', hres, -, hst⟩ := Kernel.sysFork_fail hf.entered.threads hfree hlen ebp
      rw [hres]
      have hsame : (k.mm.allocDataPages c 0 numPagData).2 = k.mm :=
        hm.forkFail_mm (hfree ▸ List.mem_cons_self) hlen
      refine iff_of_true ⟨?_, hst.trans hf.entered.sched_down, ?_⟩ (Or.inl hlen)
      · exact (congrArg Mm.stuck hsame).trans hf.mm_down
      · exact hf.counts_fit.congr (congrArg Mm.shmMem hsame)
    · obtain ⟨s', hres, -, hst⟩ := Kernel.sysFork_ok hf.entered.threads hfree hbusy hlen ebp
      have hcc : a.current ≠ c := fun he => a.current_notMem.1 (hfree ▸ he ▸ List.mem_cons_self)
      rw [hres, or_iff_right (Nat.not_lt.mpr hlen), and_left_comm]
      refine and_congr ?_ (and_congr ?_ ?_)
      · rw [hst, hf.entered.sched_down, Bool.false_or, Bool.not_eq_false', decide_eq_true_iff]
      · show ((k.mm.withFrames c numPagData).forkPages a.current c).stuck = false ↔ _
        rw [Mm.forkPages_withFrames k.mm hcc]
        dsimp only
        rw [hf.mm_down, Bool.false_or, List.any_eq_false]
        simp only [decide_eq_true_iff, Nat.not_le]
      · dsimp only [Kernel.entered]
        exact Kernel.countsFit_forkPages hf hcc

/-- `sys_shmat`. -/
theorem sysShmat_down_iff (hf : k.Follows a) (id addr : DWord) :
    ((k.mm.sysShmat a.current id addr).2.stuck = false
        ∧ (k.mm.sysShmat a.current id addr).2.CountsFit)
      ↔ k.Takes (.shmat id addr) := by
  rw [Kernel.Takes, Kernel.currentPt_eq hf.threads]
  by_cases hacc : Mm.ShmatAccepts id addr
  · rw [forall_prop_of_true hacc]
    by_cases hlt : pageOf addr < totalPages
    · rw [and_iff_right hlt, Mm.sysShmat_of_accepts hacc ((sshiftRight_lt_iff addr).mpr hlt)]
      cases Mm.findFreePage (k.mm.pagusrTable a.current) (addr.sshiftRight 12).toNat with
      | none => exact iff_of_true ⟨hf.mm_down, hf.counts_fit⟩ (fun hc => absurd rfl hc)
      | some page =>
        rw [forall_prop_of_true (Option.some_ne_none page)]
        exact (and_iff_right hf.mm_down).trans (Kernel.countsFit_attach a.current id.toNat page)
    · refine iff_of_false (fun hc => hlt ?_) (fun hc => hlt hc.1)
      exact (sshiftRight_lt_iff addr).mp (Mm.lt_of_sysShmat hc.1 hacc)
  · rw [(Mm.sysShmat_of_not_accepts hacc).2]
    exact iff_of_true ⟨hf.mm_down, hf.counts_fit⟩ (fun hc => absurd hc hacc)

/-- `sys_shmdt` never raises one: what it clears is a segment. -/
theorem sysShmdt_down (hm : Mapped M a k.mm) (hdown : k.mm.stuck = false) (addr : DWord) :
    (k.mm.sysShmdt a.current a.current addr).2.stuck = false := by
  have hpage := shmdtPage_eq addr
  cases hseg : k.mm.segmentAt a.current (Mm.shmdtPage addr) with
  | none =>
    rw [Mm.sysShmdt_none hseg]
    exact hdown
  | some i =>
    by_cases hearly : (k.mm.shmMem i).aBorrar = false ∨ (k.mm.shmMem i).referencias ≠ 1
    · rw [(Mm.sysShmdt_some hseg).2, if_pos hearly]
      exact hdown
    · push Not at hearly
      obtain ⟨hlt, hpres, hi, haddr⟩ := Mm.segmentAt_eq_some hseg
      have hframe : numPagKernel ≤ getFrame (k.mm.pagusrTable a.current) (Mm.shmdtPage addr) := by
        rw [← haddr, hm.shm_addr i hi]
        exact le_trans (by decide) (IsShm.bounds ⟨i, hi, rfl⟩).1
      rw [hpage] at hseg hframe
      rw [Mm.sysShmdt_last hseg (by simpa using hearly.1) hearly.2 hframe]
      exact hdown

/-- `sys_shmrm`. -/
theorem sysShmrm_down_iff {m : Mm} {id : DWord} (hm : m.stuck = false) :
    (m.sysShmrm id).2.stuck = false ↔ id ≠ 10#32 := by
  unfold Mm.sysShmrm
  by_cases hid : 10 < id.toInt ∨ id.toInt < 0
  · rw [if_pos hid]
    refine iff_of_true hm ?_
    rintro rfl
    exact absurd hid (by decide)
  · rw [if_neg hid]
    refine (Mm.require_stuck _ _).trans ((and_iff_right hm).trans ?_)
    have hnat : (id.toNat : ℤ) = id.toInt := (toInt_eq_toNat_of_nonneg (by omega)).symm
    rw [ne_eq, ← BitVec.toNat_inj]
    show id.toNat < 10 ↔ ¬ id.toNat = 10
    omega

/-- `sys_read`. -/
theorem sysRead_down_iff (hf : k.Follows a) (b n : DWord) :
    (k.entered.sysRead b n).2.mm.stuck = false
      ↔ (accessOk k.currentPt .verifyWrite b n = true → k.Delivers b (k.readCount n)) := by
  rw [Kernel.sysRead_eq, currentPt_entered hf]
  by_cases hok : accessOk k.currentPt .verifyWrite b n = true
  · rw [if_pos hok, forall_prop_of_true hok]
    exact storeRun_down_iff hf
  · rw [if_neg hok]
    exact iff_of_true hf.mm_down (fun hc => absurd hc hok)

/-- The identifiers are those of the state the call was made in. -/
theorem statsSlot_entered (hf : k.Follows a) (pid : DWord) :
    k.entered.statsSlot pid = k.statsSlot pid := by
  have hpid : ∀ i, (k.entered.sched.task i).pid = (k.sched.task i).pid :=
    fun i => (hf.entered.threads.pid_eq i).trans (hf.threads.pid_eq i).symm
  simp only [Kernel.statsSlot, hpid]

/-- `sys_get_stats`. -/
theorem sysGetStats_down_iff (hf : k.Follows a) (pid st : DWord) :
    (k.entered.sysGetStats pid st).2.mm.stuck = false
      ↔ (accessOk k.currentPt .verifyWrite st (BitVec.ofNat 32 Stats.size) = true →
          k.statsSlot pid ≠ none → k.Delivers st Stats.size) := by
  rw [← currentPt_entered hf, ← statsSlot_entered hf]
  by_cases hok : accessOk k.entered.currentPt .verifyWrite st (BitVec.ofNat 32 Stats.size) = true
  · rw [forall_prop_of_true hok]
    cases hslot : k.entered.statsSlot pid with
    | none =>
      rw [Kernel.sysGetStats_of_none hok hslot]
      exact iff_of_true hf.mm_down (fun hc => absurd rfl hc)
    | some i =>
      rw [(Kernel.sysGetStats_of_some hok hslot).2, Mm.copyToUser_storeRun,
        forall_prop_of_true (Option.some_ne_none i)]
      exact storeRun_down_iff hf
  · rw [Kernel.sysGetStats, if_pos (by simpa using hok)]
    exact iff_of_true hf.mm_down (fun hc => absurd hc hok)

end Marks

/-! ## The events with a next state -/

section Takes

variable {M : Machine} {k : Kernel} {a : Schedule}

/-- An event has a next state if it is enabled and performed without a
mark. -/
theorem Kernel.exists_step_iff (hf : k.Follows a) {e : Event} (hbusy : a.current ≠ a.idle) :
    (∃ k', k.step e = some k') ↔ ∃ k', k.perform e = some k' ∧ k'.mm.stuck = false
      ∧ k'.sched.stuck = false ∧ k'.mm.CountsFit :=
  exists_congr fun _ => step_eq_some_iff.trans (and_iff_right fun _ => hf.ne hbusy)

/-- A key is always taken. -/
theorem Kernel.exists_step_key (hf : k.Follows a) (c past : Byte) :
    ∃ k', k.step (.key c past) = some k' := by
  obtain ⟨hm, hs⟩ := keyboardRoutine_frame
    { k with sched := (k.sched.enter .interruptHandler).userToSystem } c past
  refine ⟨k.keyboardHandler c past, step_eq_some_iff.mpr
    ⟨fun he => absurd he Bool.false_ne_true, rfl, ?_, ?_, ?_⟩⟩
  · exact (congrArg Mm.stuck hm).trans hf.mm_down
  · show (keyboardRoutine c past _).sched.leave.stuck = false
    rw [(Sched.same_leave _).stuck, hs]
    exact hf.sched_down
  · exact hf.counts_fit.congr (congrArg Mm.shmMem hm)

theorem exists_fault_iff (hf : k.Follows a) (hm : Mapped M a k.mm) (hbusy : a.current ≠ a.idle)
    (cr2 : DWord) : (∃ k', k.step (.fault cr2) = some k') ↔ k.Takes (.fault cr2) := by
  rw [Kernel.exists_step_iff hf hbusy, Kernel.Takes, Kernel.perform, faultServed_iff hf hm hbusy,
    Kernel.pagefault_eq hf]
  by_cases hcan : k.mm.userCanStore k.sched.cr3 cr2.toNat = true
  · rw [if_pos hcan, hcan]
    refine iff_of_false ?_ (fun hc => Bool.false_ne_true hc.1.symm)
    rintro ⟨k', hc, -⟩
    exact absurd hc (by simp)
  · rw [if_neg hcan, and_iff_right (Bool.eq_false_iff.mpr hcan)]
    constructor
    · rintro ⟨k', hk', hdown, -⟩
      obtain ⟨m', he, rfl⟩ := Option.map_eq_some_iff.mp hk'
      exact ⟨m', he, hdown⟩
    · rintro ⟨m', he, hdown⟩
      have hfit := hf.counts_fit.congr (Mm.faulted_of_pagefaultRoutine he hdown).shmMem
      rw [he]
      exact ⟨_, rfl, hdown, (hf.interrupted_leave hdown hfit).sched_down, hfit⟩

/-- An exit, and a detachment below, are refused only where a count would leave
its `int`. -/
theorem exists_exit_iff (hf : k.Follows a) (hbusy : a.current ≠ a.idle) (ebp : DWord) :
    (∃ k', k.step (.exit ebp) = some k') ↔ k.Takes (.exit ebp) := by
  rw [Kernel.Takes, ← Kernel.countsFit_exitPages hf]
  constructor
  · rintro ⟨k', hst⟩
    obtain ⟨-, hperf, -, -, hfit⟩ := Kernel.step_eq_some_iff.mp hst
    obtain ⟨s', hres, -⟩ := Kernel.sysExit_spec hf.entered.threads hbusy ebp
    obtain rfl := Option.some_inj.mp hperf
    rw [Kernel.systemCall_mm, hres] at hfit
    dsimp only [Kernel.entered] at hfit
    exact hfit
  · intro hfit
    obtain ⟨k', hst, -⟩ := hf.exists_exit hbusy hfit ebp
    exact ⟨k', hst⟩

theorem exists_shmdt_iff (hf : k.Follows a) (hm : Mapped M a k.mm) (hbusy : a.current ≠ a.idle)
    (addr : DWord) : (∃ k', k.step (.shmdt addr) = some k') ↔ k.Takes (.shmdt addr) := by
  have hdown := sysShmdt_down hm hf.mm_down addr
  rw [Kernel.Takes, ← Kernel.countsFit_sysShmdt hf hdown]
  constructor
  · rintro ⟨k', hst⟩
    obtain ⟨-, hperf, -, -, hfit⟩ := Kernel.step_eq_some_iff.mp hst
    obtain rfl := Option.some_inj.mp hperf
    have hmm : (k.mm.sysShmdt k.entered.sched.cr3
        (k.entered.sched.getPt k.entered.sched.current) addr).2.CountsFit := hfit
    rwa [hf.entered.threads.getPt_current, hf.entered.threads.cr3_eq] at hmm
  · intro hfit
    obtain ⟨k', hst, -⟩ := Kernel.exists_shmdt hf hbusy addr rfl hdown hfit
    exact ⟨k', hst⟩

/-- The acts of a task that is not the idle one. -/
theorem exists_step_iff_takes (hf : k.Follows a) (hm : Mapped M a k.mm) (hbusy : a.current ≠ a.idle)
    (e : Event) : (∃ k', k.step e = some k') ↔ k.Takes e := by
  have hen : e.byTask = true → k.sched.current ≠ k.sched.idleTask := fun _ => hf.ne hbusy
  cases e with
  | tick ebp => exact iff_of_true (Kernel.exists_tick hf ebp) trivial
  | key c past => exact iff_of_true (Kernel.exists_step_key hf c past) trivial
  | load addr =>
    rw [Kernel.exists_step_iff hf hbusy, Kernel.Takes, Kernel.perform]
    split_ifs with hload
    · exact iff_of_true ⟨k, rfl, hf.mm_down, hf.sched_down, hf.counts_fit⟩ hload
    · refine iff_of_false ?_ hload
      rintro ⟨k', hc, -⟩
      exact absurd hc (by simp)
  | store addr b => exact (Kernel.exists_step_iff hf hbusy).trans (exists_store_iff hf hm hbusy b)
  | fault cr2 => exact exists_fault_iff hf hm hbusy cr2
  | fork ebp =>
    rw [Kernel.exists_systemCall_iff (f := fun k => (k.sysFork ebp).2) rfl, and_iff_right hen]
    exact sysFork_down_iff hf hm hbusy ebp
  | exit ebp => exact exists_exit_iff hf hbusy ebp
  | yield ebp =>
    obtain ⟨k', hst, -⟩ := Kernel.exists_yield hf hbusy ebp
    exact iff_of_true ⟨k', hst⟩ trivial
  | shmat id addr =>
    rw [Kernel.exists_systemCall_iff (f := fun k => { k with
      mm := (k.mm.sysShmat (k.sched.getPt k.sched.current) id addr).2 }) rfl, and_iff_right hen,
      and_iff_right hf.entered.sched_down]
    rw [hf.entered.threads.getPt_current]
    exact sysShmat_down_iff hf id addr
  | shmdt addr => exact exists_shmdt_iff hf hm hbusy addr
  | shmrm id =>
    rw [Kernel.exists_systemCall_iff (f := fun k => { k with mm := (k.mm.sysShmrm id).2 }) rfl,
      and_iff_right hen, and_iff_right hf.entered.sched_down, and_iff_left]
    · exact sysShmrm_down_iff hf.mm_down
    · exact hf.counts_fit.sysShmrm id
  | read b n =>
    have hram := Kernel.ramOnly_sysRead k.entered b n
    rw [Kernel.exists_systemCall_iff (f := fun k => (k.sysRead b n).2) rfl, and_iff_right hen,
      and_iff_left]
    · exact sysRead_down_iff hf b n
    · exact ⟨(congrArg Sched.stuck hram.2).trans hf.entered.sched_down,
        hf.entered.counts_fit.congr hram.1.shmMem⟩
  | getStats pid st =>
    have hram := Kernel.ramOnly_sysGetStats k.entered pid st
    rw [Kernel.exists_systemCall_iff (f := fun k => (k.sysGetStats pid st).2) rfl,
      and_iff_right hen, and_iff_left]
    · exact sysGetStats_down_iff hf pid st
    · exact ⟨hram.2.stuck.trans hf.entered.sched_down,
        hf.entered.counts_fit.congr hram.1.shmMem⟩

/-- **The events the kernel takes are those with a next state**, the acts of
the current task only where it is not the idle one. -/
theorem takes_iff (h : Reachable M k) (e : Event) :
    (∃ k', k.step e = some k')
      ↔ (e.byTask = true → k.sched.current ≠ k.sched.idleTask) ∧ k.Takes e := by
  obtain ⟨a, hf, hm⟩ := h.mapped
  by_cases hbusy : a.current = a.idle
  · have hidle : k.sched.current = k.sched.idleTask := by
      rw [hf.threads.current_eq, hf.threads.idle_eq, hbusy]
    by_cases htask : e.byTask = true
    · refine iff_of_false (fun ⟨k', hst⟩ => ?_) (fun hc => hc.1 htask hidle)
      exact (Kernel.step_eq_some_iff.mp hst).1 htask hidle
    · refine iff_of_true ?_ ⟨fun hc => absurd hc htask, ?_⟩
      · cases e with
        | tick ebp => exact Kernel.exists_tick hf ebp
        | key c past => exact Kernel.exists_step_key hf c past
        | _ => exact absurd rfl htask
      · cases e with
        | tick ebp => exact trivial
        | key c past => exact trivial
        | _ => exact absurd rfl htask
  · rw [exists_step_iff_takes hf hm hbusy, and_iff_right fun _ => hf.ne hbusy]

end Takes

/-- **The first task attaches a segment and writes to the page behind it**,
which is not mapped: its entry has the frame 0, and the handler serves the
fault. -/
theorem exists_attach_fault (M : Machine) :
    ∃ k₁ k, M.boot.step (.shmat 0#32 0x11c000#32) = some k₁
      ∧ k₁.Takes (.fault 0x11d000#32) ∧ k₁.step (.fault 0x11d000#32) = some k
      ∧ k.sched.current ≠ k.sched.idleTask ∧ k.mm.CountsWithin 1 := by
  obtain ⟨k₁, hst₁, hf₁, hmm₁⟩ := exists_first_attach M
  have hcounts₁ : k₁.mm.CountsWithin 1 := hmm₁ ▸ (countsWithin_boot M).attach 1 0 284
  have hreach : Reachable M k₁ := ⟨_, Run.single trivial hst₁⟩
  obtain ⟨a₁, hf₁', hm₁⟩ := hreach.mapped
  have hpage : pageOf 0x11d000#32 = 285 := by decide
  have habsent : (k₁.mm.pagusrTable 1 285).present = false := by
    rw [hmm₁, Mm.attach, Mm.setTable_apply, if_pos rfl, setSsPag_apply, if_neg (by decide)]
    exact boot_absent M (by decide)
  have hcan : k₁.mm.userCanStore k₁.sched.cr3 (0x11d000#32).toNat = false := by
    rw [← Bool.not_eq_true, Mm.userCanStore_iff, hf₁.threads.cr3_eq, hpage,
      show bootSchedule.current = 1 from rfl, habsent]
    exact fun hc => absurd hc.2.1 (by decide)
  have hfixed : Fixed (getFrame k₁.currentPt (pageOf 0x11d000#32)) := by
    rw [Kernel.currentPt_eq hf₁'.threads]
    exact hm₁.fixed_of_not_data a₁.live_current (by decide) (fun hc => absurd hc.2.2 (by decide))
  have hserved : k₁.FaultServed 0x11d000#32 :=
    ⟨by decide, hfixed.lt, by rw [hm₁.fixed_used _ hfixed]; exact one_ne_zero⟩
  have htakes : k₁.Takes (.fault 0x11d000#32) := ⟨hcan, hserved⟩
  obtain ⟨k, hst⟩ := (takes_iff hreach _).mpr ⟨fun _ => hf₁.ne (by decide), htakes⟩
  obtain ⟨a, hf, ho, -⟩ := hf₁.step hst
  refine ⟨k₁, k, hst₁, htakes, hst, ?_⟩
  generalize k₁.mm = m, k.mm = m' at ho hcounts₁ ⊢
  cases ho with
  | fault cr2 _ _ hfault =>
    refine ⟨hf.ne (by decide), ?_⟩
    rwa [Mm.CountsWithin, hfault.shmMem]

end ZeOS.Practica
