import ZeOS.Practica.Taken

/-!
# The protection bits

Boot maps the kernel's pages for the kernel only, leaves out page 0 and the
pages on either side of the task array, and maps the code pages read-only.
Every entry the kernel writes later goes through `set_ss_pag`, which grants
everything. What protection there is survives as long as no such entry is
written below the data pages: the fork writes all of them, an attachment
may write those boot left out, and the fault handler opens a code page to
the process that tries to write to it.
-/

namespace ZeOS.Practica

/-- **The protection bits of a table.** -/
structure Protected (M : Machine) (pt : PageTable) : Prop where
  kernel : ∀ p, 1 ≤ p → p < numPagKernel → (pt p).user = false
  null : (pt 0).present = false
  guards : (pt M.tasksPage).present = false ∧ (pt (M.tasksPage + 11)).present = false
  code : ∀ p, pagLogInitCode ≤ p → p < pagLogInitData → (pt p).rw = false

/-- **The events that keep the protection bits**: of those the kernel takes,
a fork that fails, a store or a fault that is not on a code page, an
attachment that is refused or asked for past the guard pages, and every event
of another kind. -/
def KeepsProtection (M : Machine) (k : Kernel) (e : Event) : Prop :=
  k.Takes e ∧ match e with
    | .fork _ => k.freeSlots = [] ∨ (freeFrames k.mm.physMem).length < numPagData
    | .store addr _ => ¬ (pagLogInitCode ≤ pageOf addr ∧ pageOf addr < pagLogInitData)
    | .fault cr2 => ¬ (pagLogInitCode ≤ pageOf cr2 ∧ pageOf cr2 < pagLogInitData)
    | .shmat id addr => Mm.ShmatAccepts id addr → M.tasksPage + 11 < pageOf addr
    | _ => True

/-- The entries below the data pages are those of boot, but for the `rw` bit
of a kernel page. -/
structure Pristine (M : Machine) (pt : PageTable) : Prop where
  low : ∀ p < numPagKernel, (pt p).present = (initTablePages M.tasksPage p).present
    ∧ (pt p).user = (initTablePages M.tasksPage p).user
    ∧ (pt p).frame = (initTablePages M.tasksPage p).frame
  code : ∀ p, pagLogInitCode ≤ p → p < pagLogInitData → (pt p).rw = false

namespace Pristine

variable {M : Machine} {pt : PageTable}

theorem protection (h : Pristine M pt) : Protected M pt := by
  have hlt := M.tasksPage_lt
  have hpos := M.tasksPage_pos
  refine ⟨fun p h₁ h₂ => ?_, ?_, ⟨?_, ?_⟩, h.code⟩
  · rw [(h.low p h₂).2.1, initTablePages, if_pos ⟨h₁, h₂⟩]
  · rw [(h.low 0 (by decide)).1, initTablePages, if_neg (fun hc => absurd hc.1 (by decide))]
    rfl
  · rw [(h.low _ (by omega)).1, initTablePages, if_pos ⟨hpos, by omega⟩]
    exact decide_eq_false (fun hc => hc.1 rfl)
  · rw [(h.low _ hlt).1, initTablePages, if_pos ⟨by omega, hlt⟩]
    exact decide_eq_false (fun hc => hc.2 rfl)

/-- A kernel page past the guards is present. -/
theorem present_of_lt (h : Pristine M pt) {p : ℕ} (h₁ : M.tasksPage + 11 < p)
    (h₂ : p < numPagKernel) : (pt p).present = true := by
  rw [(h.low p h₂).1, initTablePages, if_pos ⟨by omega, h₂⟩]
  exact decide_eq_true ⟨by omega, by omega⟩

/-- A kernel page does not map a segment. -/
theorem not_isShm (h : Pristine M pt) {p : ℕ} (hp : p < numPagKernel) : ¬ IsShm (pt p).frame := by
  intro hs
  have hb := hs.bounds.1
  have hf : (initTablePages M.tasksPage p).frame ≤ p := by
    rw [initTablePages]
    split_ifs
    · show (BitVec.ofNat 20 p).toNat ≤ p
      rw [BitVec.toNat_ofNat]
      exact Nat.mod_le p _
    · exact Nat.zero_le p
  replace hp : p < 256 := hp
  rw [(h.low p hp).2.2] at hb
  omega

/-- What is written from the data pages on does not matter. -/
theorem congr (h : Pristine M pt) {pt' : PageTable}
    (he : ∀ p < pagLogInitData, pt' p = pt p) : Pristine M pt' where
  low p hp := by
    rw [he p (hp.trans (by decide))]
    exact h.low p hp
  code p h₁ h₂ := by
    rw [he p h₂]
    exact h.code p h₁ h₂

theorem initTable (M : Machine) : Pristine M (initTablePages M.tasksPage) where
  low _ _ := ⟨rfl, rfl, rfl⟩
  code p h₁ _ := by
    rw [Mapped.initTablePages_of_ge M h₁]
    rfl

/-- The `rw` bit set of a page that is not a code page. -/
theorem setRw (h : Pristine M pt) {p : ℕ} (hp : ¬ (pagLogInitCode ≤ p ∧ p < pagLogInitData)) :
    Pristine M (setRw pt p true) where
  low q hq := by
    rw [setRw_apply]
    split_ifs <;> exact h.low q hq
  code q h₁ h₂ := by
    have hqp : q ≠ p := fun he => hp (he ▸ ⟨h₁, h₂⟩)
    rw [setRw_apply, if_neg hqp]
    exact h.code q h₁ h₂

end Pristine

section Steps

variable {M : Machine} {a a' : Schedule} {m m' : Mm}

/-- A page fault that is not on a code page. -/
theorem pristine_faulted (h : Mapped M a m) {s : Slot} (hs : a.User s)
    (hp : Pristine M (m.pagusrTable s)) {p : ℕ}
    (hcode : ¬ (pagLogInitCode ≤ p ∧ p < pagLogInitData)) {m₁ : Mm} (hf : m.Faulted s p m₁) :
    Pristine M (m₁.pagusrTable s) ∧ ∀ t, t ≠ s → m₁.pagusrTable t = m.pagusrTable t := by
  cases hf with
  | opened hlt hcount =>
    refine ⟨?_, fun t ht => by rw [Mm.setTable_apply, if_neg ht]⟩
    rw [Mm.setTable_apply, if_pos rfl]
    exact hp.setRw hcode
  | copied hlt hframe hcount =>
    obtain ⟨hd₁, hd₂⟩ := h.data_of_count hs hlt hcount
    have hpres := ((h.user_table s hs).data p hd₁ hd₂).1
    have hne : p ≠ paginaAUsar := ne_paginaAUsar hd₂
    rw [Mm.copyOnWrite_eq hlt hne hpres]
    dsimp only
    refine ⟨?_, fun t ht => by rw [Mm.setTable_apply, if_neg ht]⟩
    rw [Mm.setTable_apply, if_pos rfl]
    refine hp.congr (fun q hq => ?_)
    have hqp : q ≠ p := fun he => Nat.not_lt.mpr hd₁ (he ▸ hq)
    exact privateTable_of_ne _ _ hqp (ne_paginaAUsar (hq.trans (by decide)))

/-- One live table replaced by a pristine one. -/
theorem pristine_live (hI : ∀ s, a.Live s → Pristine M (m.pagusrTable s)) {s : Slot}
    (hs : Pristine M (m'.pagusrTable s)) (ht : ∀ t, t ≠ s → m'.pagusrTable t = m.pagusrTable t) :
    ∀ t, a.Live t → Pristine M (m'.pagusrTable t) := by
  intro t hlive
  by_cases he : t = s
  · rw [he]
    exact hs
  · rw [ht t he]
    exact hI t hlive

/-- **A step that keeps the protection bits keeps the low entries.** -/
theorem pristine_outcome {k : Kernel} (hk : k.Follows a) (hkm : k.mm = m) (h : Mapped M a m)
    {e : Event} (hen : e.byTask = true → a.current ≠ a.idle)
    (hI : ∀ s, a.Live s → Pristine M (m.pagusrTable s)) (hP : KeepsProtection M k e)
    (ho : Outcome a m e a' m') (hdown : m'.stuck = false) :
    ∀ s, a'.Live s → Pristine M (m'.pagusrTable s) := by
  have hcur := hI a.current a.live_current
  cases ho with
  | stay | key | load | store | forkNone | read | getStats => exact hI
  | switch | yield => exact fun s hs => hI s ((a.live_rotate s).mp hs)
  | storeFault addr b m₁ loc hcan hfault =>
    obtain ⟨h₁, h₂⟩ := pristine_faulted h (a.user_current (hen rfl)) hcur hP.2 hfault
    exact pristine_live hI h₁ h₂
  | fault cr2 m₁ hcan hfault =>
    obtain ⟨h₁, h₂⟩ := pristine_faulted h (a.user_current (hen rfl)) hcur hP.2 hfault
    exact pristine_live hI h₁ h₂
  | forkFail ebp c cs hfree hlen =>
    rw [h.forkFail_mm (hfree ▸ List.mem_cons_self) hlen]
    exact hI
  | forkOk ebp c cs hfree hidle hlen =>
    -- excluded: there is a slot, and there are frames
    rcases hP.2 with hnil | hfew
    · rw [Kernel.freeSlots_eq hk.threads, hfree] at hnil
      exact absurd hnil (List.cons_ne_nil c cs)
    · rw [hkm] at hfew
      exact absurd hfew (Nat.not_lt.mpr hlen)
  | exit ebp hidle =>
    intro s hs
    have hs' : s ∉ a.free ∧ s ≠ a.current := by
      have hnot := (Schedule.live_iff _ s).mp hs
      rw [Schedule.mem_free_retire, not_or] at hnot
      exact hnot
    rw [Mm.exitPages_other hs'.2]
    exact hI s ((a.live_iff s).mpr hs'.1)
  | shmat id addr =>
    rcases Mm.sysShmat_cases hdown with he | ⟨i, page, hi, -, hpres, hacc, hle, he⟩
    · rw [he]
      exact hI
    · rw [he]
      -- the page found lies past the code
      have hpage : pagLogInitData ≤ page := by
        by_contra hlt
        rw [Nat.not_le] at hlt
        have hcode : (m.pagusrTable a.current page).present = true := by
          rcases Nat.lt_or_ge page numPagKernel with hk | hk
          · rw [Mm.sshiftRight_eq_pageOf (hP.1 hacc).1] at hle
            exact hcur.present_of_lt ((hP.2 hacc).trans_le hle) hk
          · exact ((h.user_table _ (a.user_current (hen rfl))).code page hk hlt).1
        rw [hpres] at hcode
        exact absurd hcode (by decide)
      refine pristine_live hI (s := a.current) ?_ (fun t ht => ?_)
      · rw [Mm.attach, Mm.setTable_apply, if_pos rfl]
        refine hcur.congr (fun q hq => ?_)
        have hqp : q ≠ page := fun hc => Nat.not_lt.mpr hpage (hc ▸ hq)
        rw [setSsPag_apply, if_neg hqp]
      · exact (Mm.setTable_apply m a.current _ t).trans (if_neg ht)
  | shmdt addr =>
    rcases Mm.sysShmdt_cases hdown with ⟨-, he⟩ | ⟨i, hseg, ⟨-, he⟩ | ⟨-, ram, he⟩⟩
    · rw [he]
      exact hI
    · rw [he]
      exact hI
    · rw [he]
      obtain ⟨-, hframe, hi, hpage⟩ := h.page_of_segment (a.user_current (hen rfl)) hseg
      have hge : pagLogInitData ≤ Mm.shmdtPage addr := by
        rcases hpage with hlt | hge
        · exact absurd ⟨i, hi, hframe⟩ (hcur.not_isShm hlt)
        · exact le_trans (by decide) hge
      refine pristine_live hI (s := a.current) ?_ (fun t ht => ?_)
      · rw [Mm.setTable_apply, if_pos rfl]
        refine hcur.congr (fun q hq => ?_)
        have hqp : q ≠ Mm.shmdtPage addr := fun hc => Nat.not_lt.mpr hge (hc ▸ hq)
        rw [delSsPag_apply, if_neg hqp]
      · exact (Mm.setTable_apply m a.current _ t).trans (if_neg ht)
  | shmrm id =>
    rcases Mm.sysShmrm_cases hdown with he | ⟨i, -, he⟩
    · rw [he]
      exact hI
    · rw [he]
      exact hI

end Steps

/-- The tables at boot. -/
theorem pristine_boot (M : Machine) (s : Slot) : Pristine M (M.boot.mm.pagusrTable s) := by
  rw [boot_mm]
  dsimp only
  split_ifs
  · refine ⟨fun p hp => ?_, fun p h₁ h₂ => ?_⟩
    · rw [bootTable, if_neg (fun hc => Nat.not_lt.mpr hc.1 hp)]
      exact ⟨rfl, rfl, rfl⟩
    · rw [bootTable, if_pos ⟨h₁, h₂.trans (by decide)⟩]
      exact decide_eq_false (Nat.not_le.mpr h₂)
  · exact Pristine.initTable M

/-- **Protection is kept by every run without the events that lose it**: each
live process has its protection bits as boot set them. -/
theorem protection_of_run (M : Machine) (es : List Event) (k : Kernel)
    (h : Run Kernel.step (KeepsProtection M) M.boot es k) (s : Slot) (hs : k.Live s) :
    Protected M (k.ptOf s) := by
  obtain ⟨a, hf, -, hI⟩ := run_invariant
    (I := fun a m => Mapped M a m ∧ ∀ s, a.Live s → Pristine M (m.pagusrTable s))
    ⟨Mapped.boot M, fun s _ => pristine_boot M s⟩
    (fun _ _ _ _ _ hk hen hI hP ho hdown =>
      ⟨hI.1.outcome hen ho hdown, pristine_outcome hk rfl hI.1 hen hI.2 hP ho hdown⟩) h
  have hs' := (Kernel.live_iff hf.threads s).mp hs
  rw [Kernel.ptOf_eq hf.threads hs']
  exact (hI s hs').protection

/-- The first task attaches a segment, writes to a page that is not mapped, and
detaches the segment. -/
theorem protection_of_run_fault :
    ∃ k, Run Kernel.step (KeepsProtection Machine.sample) Machine.sample.boot
        [.shmat 0#32 0x11c000#32, .fault 0x11d000#32, .shmdt 0x11c000#32] k
      ∧ k.Live k.sched.current ∧ Protected Machine.sample (k.ptOf k.sched.current) := by
  obtain ⟨k₁, k₂, hst₁, htakes, hst₂, hbusy, hcounts⟩ := exists_attach_fault Machine.sample
  have hkeep₁ : KeepsProtection Machine.sample Machine.sample.boot (.shmat 0#32 0x11c000#32) :=
    ⟨((takes_iff ⟨[], .nil _⟩ _).mp ⟨k₁, hst₁⟩).2, fun _ => by decide⟩
  have hkeep₂ : KeepsProtection Machine.sample k₁ (.fault 0x11d000#32) :=
    ⟨htakes, fun hc => absurd hc.2 (by decide)⟩
  have hrun₂ := (Run.single hkeep₁ hst₁).snoc hkeep₂ hst₂
  have htakes₃ : k₂.Takes (.shmdt 0x11c000#32) := Kernel.takes_shmdt hcounts (by decide) _
  obtain ⟨k, hst⟩ := (takes_iff (reachable_of_run hrun₂) (.shmdt 0x11c000#32)).mpr
    ⟨fun _ => hbusy, htakes₃⟩
  have hkeep₃ : KeepsProtection Machine.sample k₂ (.shmdt 0x11c000#32) := ⟨htakes₃, trivial⟩
  have hrun := hrun₂.snoc hkeep₃ hst
  exact ⟨k, hrun, Or.inl rfl, protection_of_run Machine.sample _ k hrun _ (Or.inl rfl)⟩

/-- **A fork loses them**: the child may read and write the kernel's pages. -/
theorem not_protected_child :
    ∃ k, Run Kernel.step (fun _ _ => True) Machine.sample.boot [.fork 0] k ∧ k.Live 2
      ∧ ¬ Protected Machine.sample (k.ptOf 2) := by
  obtain ⟨k, hst, hf, hmm, -⟩ := exists_first_fork Machine.sample 0
  have hlive : firstFork.Live 2 := by decide
  refine ⟨k, Run.single trivial hst, (Kernel.live_iff hf.threads 2).mpr hlive, fun h => ?_⟩
  have huser := h.kernel 1 le_rfl (by decide)
  rw [Kernel.ptOf_eq hf.threads hlive, hmm, Mm.forkPages_withFrames _ (by decide)] at huser
  dsimp only at huser
  rw [if_pos rfl, Mm.childTable, if_pos (by decide)] at huser
  exact absurd huser (by decide)

end ZeOS.Practica
