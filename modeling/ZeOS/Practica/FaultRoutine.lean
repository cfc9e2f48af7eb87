import ZeOS.Practica.Attach
import ZeOS.Practica.LiveFrames

/-!
# Which faults the handler returns from

`pagefault_routine` decides by the count of the frame in the entry and by
nothing else. A page that is not present has frame 0 in its entry, a kernel
page its own frame, a code page or a segment a frame that is never shared by
this count: all of them are in use once, so the handler takes each of these
faults for the last owner's write to a data page, sets the `rw` bit and
returns to an access that faults again. Only the data pages are told apart.

A copy that finds no frame is not noticed at all.
-/

namespace ZeOS.Practica

/-- A data page that is present and currently read-only. -/
def IsReadOnlyData (pt : PageTable) (p : ℕ) : Prop :=
  pagLogInitData ≤ p ∧ p < pagLogInitShared ∧ (pt p).present = true ∧ (pt p).rw = false

namespace Mm

variable {m m' : Mm} {s cr3 : Slot} {cr2 : DWord}

/-- **The handler classifies a fault**: it returns for a read-only data page
only, with the access then allowed, and takes every other address for fatal,
having stayed in its tables. -/
structure Classifies (m : Mm) (cr3 s : Slot) (cr2 : DWord) : Prop where
  retry : IsReadOnlyData (m.pagusrTable s) (pageOf cr2) →
    ∀ m', m.pagefaultRoutine cr3 s cr2 = some m' → m'.userCanStore cr3 cr2.toNat = true
  fatal : ¬ IsReadOnlyData (m.pagusrTable s) (pageOf cr2) →
    m.pagefaultRoutine cr3 s cr2 = none
      ∧ pageOf cr2 < totalPages ∧ getFrame (m.pagusrTable s) (pageOf cr2) < totalPages

/-- What a store asks of the entry. -/
theorem userCanStore_iff {addr : DWord} :
    m.userCanStore s addr.toNat = true ↔ pageOf addr < totalPages
      ∧ (m.pagusrTable s (pageOf addr)).present = true
      ∧ (m.pagusrTable s (pageOf addr)).user = true
      ∧ (m.pagusrTable s (pageOf addr)).rw = true := by
  have hpage : addr.toNat % 2 ^ 32 / pageSize = pageOf addr := by
    rw [pageOf_eq, Nat.mod_eq_of_lt addr.isLt]
  unfold userCanStore translate
  simp only [hpage]
  split_ifs with h
  · simp [h.1, h.2]
  · simp only [Option.isSome_none, Bool.false_and, Bool.false_eq_true, false_iff]
    exact fun hc => h ⟨hc.1, hc.2.1⟩

/-- **The handler by the count of the frame.** The marks it may raise leave
the tables as they are. -/
theorem pagefaultRoutine_eq (m : Mm) (cr3 s : Slot) (cr2 : DWord) :
    ∃ m₁ : Mm, m₁.physMem = m.physMem ∧ m₁.pagusrTable = m.pagusrTable ∧
      (pageOf cr2 < totalPages → getFrame (m.pagusrTable s) (pageOf cr2) < totalPages → m₁ = m) ∧
      m.pagefaultRoutine cr3 s cr2 =
        if m.physMem (getFrame (m.pagusrTable s) (pageOf cr2)) = 0 then none
        else if m.physMem (getFrame (m.pagusrTable s) (pageOf cr2)) = 1 then
          some (m₁.setTable s (setRw (m.pagusrTable s) (pageOf cr2) true))
        else some (m₁.copyOnWrite cr3 s (pageOf cr2)) := by
  refine ⟨(m.require (pageOf cr2 < totalPages)).require
    (getFrame (m.pagusrTable s) (pageOf cr2) < totalPages), rfl, rfl, fun h₁ h₂ => ?_, rfl⟩
  refine Mm.ext rfl rfl rfl rfl ?_
  rw [require, require, decide_eq_true h₁, decide_eq_true h₂]
  simp

/-- The entry a fault on a present data page leaves, whichever branch is
taken. -/
theorem entry_of_pagefaultRoutine (hp : pageOf cr2 < pagLogInitShared)
    (hpres : (m.pagusrTable s (pageOf cr2)).present = true)
    (huser : (m.pagusrTable s (pageOf cr2)).user = true)
    (h : m.pagefaultRoutine s s cr2 = some m') :
    (m'.pagusrTable s (pageOf cr2)).present = true ∧ (m'.pagusrTable s (pageOf cr2)).user = true
      ∧ (m'.pagusrTable s (pageOf cr2)).rw = true := by
  obtain ⟨m₁, -, htab, -, he⟩ := pagefaultRoutine_eq m s s cr2
  rw [he] at h
  split_ifs at h with h0 h1
  · -- the last owner
    obtain rfl := Option.some_inj.mp h
    rw [setTable_apply, if_pos rfl, setRw, if_pos rfl]
    exact ⟨hpres, huser, rfl⟩
  · -- a private copy
    obtain rfl := Option.some_inj.mp h
    rw [copyOnWrite_eq (hp.trans (by decide)) (ne_paginaAUsar hp) (htab ▸ hpres)]
    dsimp only
    rw [setTable_apply, if_pos rfl, privateTable, if_pos rfl]
    exact ⟨rfl, rfl, rfl⟩

end Mm

section Classification

variable {M : Machine} {a : Schedule} {m : Mm} {s : Slot}

/-- **The frame in the entry of any page but a data page of a process is a
fixed one**, whether the page is present or not. -/
theorem Mapped.fixed_of_not_data (h : Mapped M a m) (hs : a.Live s) {p : ℕ} (hp : p < totalPages)
    (hnot : ¬ (a.User s ∧ pagLogInitData ≤ p ∧ p < pagLogInitShared)) :
    Fixed (getFrame (m.pagusrTable s) p) := by
  by_cases hpres : (m.pagusrTable s p).present = true
  · rcases h.fixed_or_data hs hp hpres with hf | ⟨hu, i, rfl⟩
    · exact hf
    · exact absurd ⟨hu, dataPage_bounds i⟩ hnot
  -- a page without a mapping
  show Fixed (m.pagusrTable s p).frame
  rcases (a.live_iff_user s).mp hs with hu | rfl
  · have hut := h.user_table s hu
    rcases Nat.lt_or_ge p numPagKernel with h₁ | h₁
    · exact (hut.low p h₁).elim Or.inl (fun hc => absurd hc.1 hpres)
    rcases Nat.lt_or_ge p pagLogInitData with h₂ | h₂
    · exact absurd (hut.code p h₁ h₂).1 hpres
    rcases Nat.lt_or_ge p pagLogInitShared with h₃ | h₃
    · exact absurd ⟨hu, h₂, h₃⟩ hnot
    · exact (h.shared s p h₃ hp).elim (fun hc => hc.2 ▸ fixed_zero)
        (fun hc => absurd hc.1 hpres)
  · rw [h.idle_table, initTablePages]
    split_ifs with hk
    · refine Or.inl ?_
      show (BitVec.ofNat 20 p).toNat < numPagKernel
      rw [BitVec.toNat_ofNat]
      exact (Nat.mod_le p _).trans_lt hk.2
    · exact fixed_zero

/-- It is in use once. -/
theorem Mapped.count_eq_one (h : Mapped M a m) (hs : a.Live s) {p : ℕ} (hp : p < totalPages)
    (hnot : ¬ (a.User s ∧ pagLogInitData ≤ p ∧ p < pagLogInitShared)) :
    m.physMem (getFrame (m.pagusrTable s) p) = 1 :=
  h.fixed_used _ (h.fixed_of_not_data hs hp hnot)

/-- **A fault is classified only where it is on a read-only data page.** -/
theorem Mapped.classifies_iff_isReadOnlyData (h : Mapped M a m) (hs : a.Live s) {cr2 : DWord}
    (hfault : m.userCanStore s cr2.toNat = false) :
    m.Classifies s s cr2 ↔ IsReadOnlyData (m.pagusrTable s) (pageOf cr2) := by
  constructor
  · intro hc
    by_contra hnot
    obtain ⟨hnone, hp, hframe⟩ := hc.fatal hnot
    -- a data page of a process that faults is read-only
    have hdata : ¬ (a.User s ∧ pagLogInitData ≤ pageOf cr2 ∧ pageOf cr2 < pagLogInitShared) := by
      rintro ⟨hu, h₁, h₂⟩
      obtain ⟨hpres, huser, -⟩ := (h.user_table s hu).data _ h₁ h₂
      refine hnot ⟨h₁, h₂, hpres, Bool.eq_false_iff.mpr (fun hrw => ?_)⟩
      rw [Mm.userCanStore_iff.mpr ⟨hp, hpres, huser, hrw⟩] at hfault
      exact absurd hfault (by decide)
    have hcount := h.count_eq_one hs hp hdata
    obtain ⟨m₁, -, -, -, he⟩ := Mm.pagefaultRoutine_eq m s s cr2
    rw [hnone, if_neg (by rw [hcount]; exact one_ne_zero), if_pos hcount] at he
    exact Option.some_ne_none _ he.symm
  · intro hgood
    refine ⟨fun _ m' hm' => ?_, fun hnot => absurd hgood hnot⟩
    obtain ⟨h₁, h₂, hpres, -⟩ := hgood
    have hu := h.user_of_present hs h₁ hpres
    obtain ⟨-, huser, -⟩ := (h.user_table s hu).data _ h₁ h₂
    exact Mm.userCanStore_iff.mpr
      ⟨h₂.trans (by decide), Mm.entry_of_pagefaultRoutine h₂ hpres huser hm'⟩

end Classification

/-- **The fault handler classifies the fault at an address exactly if it lies
in a read-only data page of the current process.** For every other address
it returns, or looks at an entry or a count past its tables. -/
theorem classifies_iff (M : Machine) (k : Kernel) (h : Reachable M k) (cr2 : DWord)
    (hfault : k.mm.userCanStore k.sched.cr3 cr2.toNat = false) :
    k.mm.Classifies k.sched.cr3 k.currentPtSlot cr2
      ↔ IsReadOnlyData k.currentPt (pageOf cr2) := by
  obtain ⟨a, hf, hm⟩ := h.mapped
  rw [hf.threads.cr3_eq] at hfault ⊢
  rw [Kernel.currentPt_eq hf.threads, Kernel.currentPtSlot_eq hf.threads]
  exact hm.classifies_iff_isReadOnlyData a.live_current hfault

/-- The data pages of the process that has forked are read-only. -/
theorem isReadOnlyData_of_forked {m : Mm} {s c : Slot} (hsc : s ≠ c) {p : ℕ}
    (h₁ : pagLogInitData ≤ p) (h₂ : p < pagLogInitShared)
    (hpres : (m.pagusrTable s p).present = true) :
    IsReadOnlyData (((m.withFrames c numPagData).forkPages s c).pagusrTable s) p := by
  rw [Mm.forkPages_withFrames m hsc]
  dsimp only
  rw [if_neg hsc, if_pos rfl, IsReadOnlyData, Mm.parentTable, if_pos ⟨h₁, h₂⟩]
  exact ⟨h₁, h₂, hpres, rfl⟩

/-- The first process writes to its data after it has forked. -/
theorem classifies_iff_fork :
    ∃ k, Run Kernel.step (fun _ _ => True) Machine.sample.boot [.fork 0] k
      ∧ k.mm.Classifies k.sched.cr3 k.currentPtSlot 0x108000#32 := by
  obtain ⟨k, hst, hf, hmm, -⟩ := exists_first_fork Machine.sample 0
  have hrun : Run Kernel.step (fun _ _ => True) Machine.sample.boot [.fork 0] k :=
    Run.single trivial hst
  have hdata := ((Mapped.boot Machine.sample).user_table 1 (by decide)).data
    (pageOf 0x108000#32) (by decide) (by decide)
  have hro : IsReadOnlyData k.currentPt (pageOf 0x108000#32) := by
    rw [Kernel.currentPt_eq hf.threads, hmm, show firstFork.current = 1 from rfl]
    exact isReadOnlyData_of_forked (by decide) (by decide) (by decide) hdata.1
  have hfault : k.mm.userCanStore k.sched.cr3 (0x108000#32).toNat = false := by
    rw [← Bool.not_eq_true, Mm.userCanStore_iff, hf.threads.cr3_eq,
      ← Kernel.currentPt_eq hf.threads, hro.2.2.2]
    exact fun hc => absurd hc.2.2.2 (by decide)
  exact ⟨k, hrun, (classifies_iff Machine.sample k ⟨_, hrun⟩ _ hfault).mpr hro⟩

/-- **A write through the null pointer**: the handler returns, and the write
faults again. -/
theorem not_classifies_null :
    Reachable Machine.sample Machine.sample.boot
      ∧ (∃ m', Machine.sample.boot.mm.pagefaultRoutine 1 1 0#32 = some m'
        ∧ m'.userCanStore 1 (0#32).toNat = false)
      ∧ ¬ Machine.sample.boot.mm.Classifies 1 1 0#32 := by
  have hpage : pageOf 0#32 = 0 := by decide
  have habs : (Machine.sample.boot.mm.pagusrTable 1 0).present = false := by
    rw [boot_mm]
    rfl
  have hcount : Machine.sample.boot.mm.physMem
      (getFrame (Machine.sample.boot.mm.pagusrTable 1) (pageOf 0#32)) = 1 :=
    (Mapped.boot Machine.sample).count_eq_one (by decide) (by decide)
      (fun hc => absurd hc.2.1 (by decide))
  obtain ⟨m₁, -, -, -, he⟩ := Mm.pagefaultRoutine_eq Machine.sample.boot.mm 1 1 0#32
  rw [if_neg (by rw [hcount]; exact one_ne_zero), if_pos hcount] at he
  refine ⟨⟨[], Run.nil _⟩, ⟨_, he, ?_⟩, fun h => ?_⟩
  · rw [← Bool.not_eq_true, Mm.userCanStore_iff, Mm.setTable_apply, if_pos rfl, hpage, setRw,
      if_pos rfl]
    dsimp only
    rw [habs]
    exact fun hc => absurd hc.2.1 (by decide)
  · have hdata : ¬ pagLogInitData ≤ pageOf 0#32 := by decide
    rw [(h.fatal (fun hc => hdata hc.1)).1] at he
    exact Option.some_ne_none _ he.symm

/-! ## A copy without a frame -/

namespace Mm

/-- What the handler installs are frames of the machine. -/
def InstallsFrames (m : Mm) (s : Slot) (m' : Mm) : Prop :=
  ∀ q, m'.pagusrTable s q ≠ m.pagusrTable s q → (m'.pagusrTable s q).present = true →
    getFrame (m'.pagusrTable s) q < totalPages

/-- The old mapping of the page is not lost. -/
def KeepsMapping (m : Mm) (s : Slot) (p : ℕ) (m' : Mm) : Prop :=
  (m'.pagusrTable s p).present = true ∧ getFrame (m'.pagusrTable s) p = getFrame (m.pagusrTable s) p

/-- The frame the page still needs is counted as before. -/
def KeepsCount (m : Mm) (s : Slot) (p : ℕ) (m' : Mm) : Prop :=
  m'.physMem (getFrame (m.pagusrTable s) p) = m.physMem (getFrame (m.pagusrTable s) p)

/-- **A copy that finds no frame** keeps nothing of this. -/
theorem copyOnWrite_of_full {m : Mm} {s : Slot} {p : ℕ} (hp : p < pagLogInitShared)
    (hpres : (m.pagusrTable s p).present = true)
    (hframe : getFrame (m.pagusrTable s) p < totalPages)
    (hcount : 2 ≤ m.physMem (getFrame (m.pagusrTable s) p))
    (hfull : (allocFrame m.physMem).1 = -1) :
    ¬ m.InstallsFrames s (m.copyOnWrite s s p) ∧ ¬ m.KeepsMapping s p (m.copyOnWrite s s p)
      ∧ ¬ m.KeepsCount s p (m.copyOnWrite s s p) := by
  have heq := copyOnWrite_of_nil hp hpres hcount (freeFrames_eq_nil_of_allocFrame hfull)
  have hentry : (m.copyOnWrite s s p).pagusrTable s p = PageTableEntry.mapping (-1) := by
    rw [heq]
    dsimp only
    rw [setTable_apply, if_pos rfl, privateTable, if_pos rfl]
  have hnew : getFrame ((m.copyOnWrite s s p).pagusrTable s) p = 0xfffff := by
    rw [getFrame, hentry]
    exact frameField_neg_one
  have hout : ¬ getFrame ((m.copyOnWrite s s p).pagusrTable s) p < totalPages := by
    rw [hnew]
    decide
  refine ⟨fun h => hout (h p (fun he => ?_) ?_), fun h => ?_, fun h => ?_⟩
  · rw [getFrame, he] at hout
    exact hout hframe
  · rw [hentry]
    rfl
  · exact hout (h.2 ▸ hframe)
  · rw [KeepsCount, heq] at h
    dsimp only at h
    rw [Function.update_self] at h
    omega

end Mm

/-- **A copy that finds no frame is never noticed**: the handler returns with
a frame past the end of memory behind the page, the page's own frame lost
and its count lowered. -/
theorem not_survives_of_full (M : Machine) (k : Kernel) (h : Reachable M k) (cr2 : DWord)
    (hro : IsReadOnlyData k.currentPt (pageOf cr2))
    (hframe : getFrame k.currentPt (pageOf cr2) < totalPages)
    (hcount : 2 ≤ k.mm.physMem (getFrame k.currentPt (pageOf cr2)))
    (hfull : (allocFrame k.mm.physMem).1 = -1) :
    ∃ m', k.mm.pagefaultRoutine k.sched.cr3 k.currentPtSlot cr2 = some m'
      ∧ ¬ k.mm.InstallsFrames k.currentPtSlot m'
      ∧ ¬ k.mm.KeepsMapping k.currentPtSlot (pageOf cr2) m'
      ∧ ¬ k.mm.KeepsCount k.currentPtSlot (pageOf cr2) m' := by
  obtain ⟨a, hf, -⟩ := h.mapped
  rw [Kernel.currentPt_eq hf.threads] at hro hframe hcount
  rw [Kernel.currentPtSlot_eq hf.threads, hf.threads.cr3_eq]
  obtain ⟨m₁, -, -, hm₁, he⟩ := Mm.pagefaultRoutine_eq k.mm a.current a.current cr2
  rw [hm₁ (hro.2.1.trans (by decide)) hframe, if_neg (by omega), if_neg (by omega)] at he
  exact ⟨_, he, Mm.copyOnWrite_of_full hro.2.1 hro.2.2.1 hframe hcount hfull⟩

/-! ## Filling the memory -/

/-- **A write fault that copies is taken.** -/
theorem Kernel.exists_fault {k : Kernel} {a : Schedule} (h : k.Follows a)
    (hidle : a.current ≠ a.idle) (cr2 : DWord)
    (hro : IsReadOnlyData (k.mm.pagusrTable a.current) (pageOf cr2))
    (hframe : getFrame (k.mm.pagusrTable a.current) (pageOf cr2) < totalPages)
    (hcount : 2 ≤ k.mm.physMem (getFrame (k.mm.pagusrTable a.current) (pageOf cr2))) :
    ∃ k', k.step (.fault cr2) = some k' ∧ k'.Follows a
      ∧ k'.mm = k.mm.copyOnWrite a.current a.current (pageOf cr2) ∧ k'.cb = k.cb := by
  obtain ⟨-, hp, hpres, hrw⟩ := hro
  have hcan : k.mm.userCanStore k.sched.cr3 cr2.toNat = false := by
    rw [← Bool.not_eq_true, h.threads.cr3_eq, Mm.userCanStore_iff, hrw]
    exact fun hc => absurd hc.2.2.2 (by decide)
  obtain ⟨m₁, -, -, hm₁, he⟩ := Mm.pagefaultRoutine_eq k.mm a.current a.current cr2
  rw [hm₁ (hp.trans (by decide)) hframe, if_neg (by omega), if_neg (by omega)] at he
  have hdown : (k.mm.copyOnWrite a.current a.current (pageOf cr2)).stuck = false := by
    rw [Mm.copyOnWrite_eq (hp.trans (by decide)) (ne_paginaAUsar hp) hpres]
    exact h.mm_down
  -- the handler runs between the entry and the exit of the exception
  have henter := Kernel.threads_interrupt h.threads
  have hpt := henter.dir_eq a.current a.current_notMem.1
  set s₁ := ((k.sched.enter .interruptHandler).userToSystem).leave with hs₁
  have hfault : k.pagefault cr2
      = some { k with mm := k.mm.copyOnWrite a.current a.current (pageOf cr2), sched := s₁ } := by
    rw [Kernel.pagefault, henter.cr3_eq, henter.current_eq, hpt, he]
    rfl
  have hsame : k.sched.Same s₁ := k.same_interrupted.trans (Sched.same_leave _)
  have hsched : s₁.stuck = false := hsame.stuck.trans h.sched_down
  have hfit : (k.mm.copyOnWrite a.current a.current (pageOf cr2)).CountsFit :=
    h.counts_fit.congr (Mm.Faulted.copied (hp.trans (by decide)) hframe hcount).shmMem
  refine ⟨{ k with mm := k.mm.copyOnWrite a.current a.current (pageOf cr2), sched := s₁ },
    Kernel.step_eq_some_iff.mpr ⟨fun _ => h.ne hidle, ?_, hdown, hsched, hfit⟩,
    ⟨h.threads.same hsame, hdown, hsched, hfit⟩, rfl, rfl⟩
  rw [Kernel.perform, if_neg (by rw [hcan]; decide), hfault]

/-- **A process about to fill the memory**: it still shares its data pages
from the `n`th on, and `t` frames are free. -/
structure Crowded (k : Kernel) (a : Schedule) (n t : ℕ) : Prop where
  follows : k.Follows a
  busy : a.current ≠ a.idle
  pages : ∀ p, pagLogInitData + n ≤ p → p < pagLogInitShared →
    IsReadOnlyData (k.mm.pagusrTable a.current) p
      ∧ getFrame (k.mm.pagusrTable a.current) p = codeFrame p
      ∧ 2 ≤ k.mm.physMem (codeFrame p)
  total : (freeFrames k.mm.physMem).length = t

theorem codeFrame_injective {p q : ℕ} (hp : pagLogInitCode ≤ p) (hq : pagLogInitCode ≤ q)
    (h : codeFrame p = codeFrame q) : p = q := by
  unfold codeFrame at h
  simp only [pagLogInitCode] at hp hq
  omega

theorem codeFrame_lt_totalPages {p : ℕ} (hp : p < pagLogInitShared) :
    codeFrame p < totalPages := by
  replace hp : p < 284 := hp
  unfold codeFrame
  simp only [totalPages]
  omega

namespace Crowded

variable {k : Kernel} {a : Schedule} {n t : ℕ}

/-- **A write to the next page** takes one frame. -/
theorem copy (h : Crowded k a n (t + 1)) (hn : n < numPagData) :
    ∃ cr2 k', k.step (.fault cr2) = some k' ∧ Crowded k' a (n + 1) t := by
  have hlt : pagLogInitData + n < pagLogInitShared := Nat.add_lt_add_left hn pagLogInitData
  obtain ⟨hro, hframe, hcount⟩ := h.pages _ le_rfl hlt
  have hlt' : pagLogInitData + n < totalPages := hlt.trans (by decide)
  obtain ⟨hpage, -⟩ := Mm.pageOf_page hlt'
  obtain ⟨g, gs, hfree⟩ : ∃ g gs, freeFrames k.mm.physMem = g :: gs :=
    List.exists_cons_of_length_pos (by rw [h.total]; exact Nat.succ_pos t)
  set cr2 := BitVec.ofNat 32 ((pagLogInitData + n) * pageSize)
  rw [← hframe] at hcount
  obtain ⟨k', hst, hf, hk', -⟩ := Kernel.exists_fault h.follows h.busy cr2
    (hpage ▸ hro) (by rw [hpage, hframe]; exact codeFrame_lt_totalPages hlt)
    (by rw [hpage]; exact hcount)
  refine ⟨cr2, k', hst, ?_⟩
  rw [hpage, Mm.copyOnWrite_of_cons hlt hro.2.2.1 hcount hfree, hframe] at hk'
  refine ⟨hf, h.busy, fun p h₁ h₂ => ?_, ?_⟩
  · -- the pages after it, and their frames, are not touched
    have hne : p ≠ pagLogInitData + n := by omega
    obtain ⟨hro', hframe', hcount'⟩ := h.pages p (by omega) h₂
    have hentry : k'.mm.pagusrTable a.current p = k.mm.pagusrTable a.current p := by
      rw [hk']
      dsimp only
      rw [Mm.setTable_apply, if_pos rfl, privateTable_of_ne _ _ hne (ne_paginaAUsar h₂)]
    have hg : codeFrame p ≠ g := by
      rintro rfl
      have h0 := (mem_freeFrames.mp (hfree ▸ List.mem_cons_self)).2
      rw [h0] at hcount'
      exact absurd hcount' (by decide)
    have hf' : codeFrame p ≠ codeFrame (pagLogInitData + n) := fun he =>
      hne (codeFrame_injective (le_trans (by simp only [pagLogInitData, pagLogInitCode]; omega) h₁)
        (by simp only [pagLogInitData, pagLogInitCode]; omega) he)
    refine ⟨?_, ?_, ?_⟩
    · rw [IsReadOnlyData, hentry]
      exact hro'
    · rw [getFrame, hentry]
      exact hframe'
    · rw [hk']
      dsimp only
      rw [Function.update_of_ne hg, Function.update_of_ne hf']
      exact hcount'
  · rw [hframe] at hcount
    have hrest := (freeFrames_countDown hcount).trans hfree
    have htotal := h.total
    rw [hfree] at htotal
    rw [hk']
    dsimp only
    rw [freeFrames_update_one hrest]
    exact Nat.succ_injective htotal

/-- **Writes to the pages that follow** take a frame each. -/
theorem copies (j : ℕ) (h : Crowded k a n (t + j)) (hn : n + j ≤ numPagData) :
    ∃ es k', Run Kernel.step (fun _ _ => True) k es k' ∧ Crowded k' a (n + j) t := by
  induction j generalizing t with
  | zero => exact ⟨[], k, Run.nil k, h⟩
  | succ j ih =>
    obtain ⟨es, k₁, hrun, h₁⟩ := ih (t := t + 1) (by rwa [Nat.add_assoc, Nat.add_comm 1 j])
      (by omega)
    obtain ⟨cr2, k₂, hst, h₂⟩ := h₁.copy (by omega)
    exact ⟨es ++ [.fault cr2], k₂, hrun.snoc trivial hst, h₂⟩

end Crowded

/-- The frames of the processes of a drained state are shared, and after a
fork its caller may not write to them. -/
theorem Drained.crowded {M : Machine} {k : Kernel} {a : Schedule} {u f r t v : ℕ}
    (h : Drained M k a u (f + 1) r t v) (ht : numPagData ≤ t) (hu : u ≤ 200) :
    ∃ k' a', FindsFrames k (.fork 0) ∧ k.step (.fork 0) = some k'
      ∧ Crowded k' a' 0 (t - numPagData) := by
  obtain ⟨k', a', hP, hst, h'⟩ := h.fork ht hu
  refine ⟨k', a', hP, hst, h'.follows, h'.busy, fun p h₁ h₂ => ?_, h'.total⟩
  have hframe := h'.frames a'.current (a'.user_current h'.busy) p h₁ h₂
  have hmem : codeFrame p ∈ firstDataFrames := by
    rw [← dataPages_map_codeFrame]
    exact List.mem_map_of_mem (List.mem_range'_1.mpr ⟨h₁, h₂⟩)
  refine ⟨?_, hframe, ?_⟩
  · -- the fork has found a slot and its frames
    obtain ⟨a₁, hf₁, ho, -⟩ := h.follows.step hst
    have hcur : a'.current = a₁.current := by
      rw [← h'.follows.threads.current_eq, hf₁.threads.current_eq]
    have hfree := h.free
    have htotal := h.total
    rw [hcur]
    generalize hm' : k'.mm = m' at ho
    cases ho with
    | forkNone ebp hnil =>
      rw [hnil] at hfree
      exact absurd hfree.symm (Nat.succ_ne_zero f)
    | forkFail ebp c cs hcons hlen => omega
    | forkOk ebp c cs hcons hidle hlen =>
      have hcc : a.current ≠ c := fun he =>
        a.current_notMem.1 (hcons ▸ he ▸ List.mem_cons_self)
      rw [show (a.spawn c cs hcons hidle).current = a.current from rfl]
      exact isReadOnlyData_of_forked hcc h₁ h₂
        ((h.mapped.user_table a.current (a.user_current hidle)).data p h₁ h₂).1
  · rw [h'.count _ hmem]
    exact Nat.succ_le_succ (le_max_right v 1)

/-- **The memory can be filled**: forks and exits leave six frames, and six
writes take them. -/
theorem exists_full (M : Machine) :
    ∃ k a, Reachable M k ∧ k.Follows a
      ∧ IsReadOnlyData (k.mm.pagusrTable a.current) (pageOf 0x10e000#32)
      ∧ getFrame (k.mm.pagusrTable a.current) (pageOf 0x10e000#32) < totalPages
      ∧ 2 ≤ k.mm.physMem (getFrame (k.mm.pagusrTable a.current) (pageOf 0x10e000#32))
      ∧ (allocFrame k.mm.physMem).1 = -1 := by
  obtain ⟨k₁, a₁, v, hr₁, h₁⟩ := exists_nearly_drained M
  obtain ⟨k₂, a₂, -, hst₂, h₂⟩ := h₁.crowded (by decide) (by decide)
  obtain ⟨es, k, hr, h⟩ := h₂.copies (t := 0) 6 (by decide)
  have hreach : Reachable M k :=
    ⟨_, ((hr₁.mono (fun _ _ _ => trivial)).snoc trivial hst₂).append hr⟩
  have hpage : pageOf 0x10e000#32 = 270 := by decide
  obtain ⟨hro, hframe, hcount⟩ := h.pages 270 (by decide) (by decide)
  refine ⟨k, a₂, hreach, h.follows, ?_⟩
  rw [hpage, hframe]
  refine ⟨hro, codeFrame_lt_totalPages (by decide), hcount, ?_⟩
  rw [allocFrame_of_nil (List.eq_nil_of_length_eq_zero h.total)]

/-- A write to a shared page where the memory is full. -/
theorem not_survives_of_full_drained :
    ∃ k m', Reachable Machine.sample k
      ∧ k.mm.pagefaultRoutine k.sched.cr3 k.currentPtSlot 0x10e000#32 = some m'
      ∧ ¬ k.mm.InstallsFrames k.currentPtSlot m' := by
  obtain ⟨k, a, hreach, hf, hro, hframe, hcount, hfull⟩ := exists_full Machine.sample
  rw [← Kernel.currentPt_eq hf.threads] at hro hframe hcount
  obtain ⟨m', he, hnot, -⟩ :=
    not_survives_of_full Machine.sample k hreach 0x10e000#32 hro hframe hcount hfull
  exact ⟨k, m', hreach, he, hnot⟩

/-- **The page behind the fault maps frame `0xfffff`** and the frame it has
lost is counted down. -/
theorem exists_frame_lost :
    ∃ k a, Reachable Machine.sample k ∧ k.Follows a
      ∧ (allocFrame k.mm.physMem).1 = -1
      ∧ ∃ m', k.mm.pagefaultRoutine a.current a.current 0x10e000#32 = some m'
        ∧ ¬ k.mm.InstallsFrames a.current m'
        ∧ ¬ k.mm.KeepsMapping a.current (pageOf 0x10e000#32) m'
        ∧ ¬ k.mm.KeepsCount a.current (pageOf 0x10e000#32) m' := by
  obtain ⟨k, a, hreach, hf, hro, hframe, hcount, hfull⟩ := exists_full Machine.sample
  obtain ⟨m₁, -, -, hm₁, he⟩ := Mm.pagefaultRoutine_eq k.mm a.current a.current 0x10e000#32
  rw [hm₁ (hro.2.1.trans (by decide)) hframe, if_neg (by omega), if_neg (by omega)] at he
  exact ⟨k, a, hreach, hf, hfull, _, he,
    Mm.copyOnWrite_of_full hro.2.1 hro.2.2.1 hframe hcount hfull⟩

end ZeOS.Practica
