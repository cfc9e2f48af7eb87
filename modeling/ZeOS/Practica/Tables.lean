import ZeOS.Practica.ExitPages
import ZeOS.Practica.Runs
import ZeOS.Practica.Shm

/-!
# The page tables of a run

What holds of the tables in every reachable state, whatever the processes
do. Some frames are fixed – those of the kernel's image, of the code and of
the shared segments – and stay in use for good. A process maps its code
pages to the code's frames and its data pages to frames that are not fixed;
the rest of its table maps fixed frames only. The table of a free slot has
no data pages, but it keeps the shared pages its last owner had.
-/

namespace ZeOS.Practica

/-- The frame of an entry. -/
abbrev PageTableEntry.frame (e : PageTableEntry) : ℕ := e.pbaseAddr.toNat

/-- The frame boot gives to a code page, the first of its sequence. -/
def codeFrame (p : ℕ) : ℕ := 256 + 2 * (p - 256)

/-- The frame boot gives to a shared segment: the first of its sequence that
the code and data pages of the first task leave. -/
def shmFrame (i : ℕ) : ℕ := 312 + 2 * i

/-- The frames of the segments. -/
def IsShm (f : ℕ) : Prop := ∃ i < shmLength, f = shmFrame i

/-- The frames no process gives up: those of the kernel's image, of the code
and of the segments. -/
def Fixed (f : ℕ) : Prop :=
  f < numPagKernel ∨ (∃ p, pagLogInitCode ≤ p ∧ p < pagLogInitData ∧ f = codeFrame p) ∨ IsShm f

theorem fixed_zero : Fixed 0 := Or.inl (by decide)

theorem IsShm.fixed {f : ℕ} (h : IsShm f) : Fixed f := Or.inr (Or.inr h)

theorem IsShm.bounds {f : ℕ} (h : IsShm f) : 312 ≤ f ∧ f < 332 := by
  obtain ⟨i, hi, rfl⟩ := h
  replace hi : i < 10 := hi
  unfold shmFrame
  omega

theorem shmFrame_injective {i j : ℕ} (h : shmFrame i = shmFrame j) : i = j := by
  rw [shmFrame, shmFrame] at h
  omega

theorem codeFrame_lt {p : ℕ} (hp : p < pagLogInitData) : codeFrame p < 272 := by
  replace hp : p < 264 := hp
  unfold codeFrame
  omega

/-- The frame of a code page is not that of a segment. -/
theorem not_isShm_codeFrame {p : ℕ} (hp : p < pagLogInitData) : ¬ IsShm (codeFrame p) := by
  intro h
  have h₁ := codeFrame_lt hp
  have h₂ := h.bounds.1
  omega

theorem Fixed.lt {f : ℕ} (h : Fixed f) : f < totalPages := by
  rcases h with h | ⟨p, -, hp, hf⟩ | h
  · exact h.trans (by decide)
  · have hlt := codeFrame_lt hp
    simp only [totalPages]
    omega
  · have hlt := h.bounds.2
    simp only [totalPages]
    omega

/-! ## Entries -/

/-- **The entries of a process**, kernel pages, code and data. -/
structure UserTable (pt : PageTable) : Prop where
  /-- A kernel page maps the kernel's image, or it has been given to a
  segment. -/
  low : ∀ p < numPagKernel,
    (pt p).frame < numPagKernel ∨ (pt p).present = true ∧ IsShm (pt p).frame
  code : ∀ p, pagLogInitCode ≤ p → p < pagLogInitData →
    (pt p).present = true ∧ (pt p).user = true ∧ (pt p).frame = codeFrame p
  data : ∀ p, pagLogInitData ≤ p → p < pagLogInitShared →
    (pt p).present = true ∧ (pt p).user = true ∧ ¬ Fixed (pt p).frame

/-- **The entries of the shared region**: no page without a frame is
present, and what is mapped is a segment. -/
def SharedRegion (pt : PageTable) : Prop :=
  ∀ p, pagLogInitShared ≤ p → p < totalPages →
    (pt p).present = false ∧ (pt p).frame = 0
      ∨ (pt p).present = true ∧ (pt p).user = true ∧ (pt p).rw = true ∧ IsShm (pt p).frame

/-- **The tables of a state**, and the frames behind them. -/
structure Mapped (M : Machine) (a : Schedule) (m : Mm) : Prop where
  fixed_used : ∀ f, Fixed f → m.physMem f = 1
  shm_addr : ∀ i < shmLength, (m.shmMem i).shmMemFrameAddr = shmFrame i
  idle_table : m.pagusrTable a.idle = initTablePages M.tasksPage
  user_table : ∀ s, a.User s → UserTable (m.pagusrTable s)
  shared : ∀ s, SharedRegion (m.pagusrTable s)
  free_data : ∀ s ∈ a.free, ∀ p, pagLogInitData ≤ p → p < pagLogInitShared →
    m.pagusrTable s p = PageTableEntry.zero
  /-- No identifier given to a child is one of those given at boot. -/
  pid_base : 1000 ≤ a.lastPid

namespace Mapped

variable {M : Machine} {a a' : Schedule} {m m' : Mm}

/-- The tables of a schedule are those of any other with the same processes
and the same free slots. -/
theorem move (h : Mapped M a m) (hidle : a'.idle = a.idle) (hfree : ∀ s, s ∈ a'.free ↔ s ∈ a.free)
    (hpid : a.lastPid ≤ a'.lastPid) : Mapped M a' m where
  fixed_used := h.fixed_used
  shm_addr := h.shm_addr
  idle_table := hidle ▸ h.idle_table
  user_table s hs := h.user_table s ⟨fun hm => hs.1 ((hfree s).mpr hm), hidle ▸ hs.2⟩
  shared := h.shared
  free_data s hs := h.free_data s ((hfree s).mp hs)
  pid_base := h.pid_base.trans hpid

theorem rotate (h : Mapped M a m) : Mapped M a.rotate m := by
  obtain ⟨hfree, hidle, -, hlast, -⟩ := a.rotate_eq
  exact h.move hidle (fun s => by rw [hfree]) (le_of_eq hlast.symm)

/-- Bytes, and the marks of segments, do not matter. -/
theorem of_eq (h : Mapped M a m) (hphys : m'.physMem = m.physMem)
    (htab : m'.pagusrTable = m.pagusrTable)
    (hshm : ∀ i, (m'.shmMem i).shmMemFrameAddr = (m.shmMem i).shmMemFrameAddr) :
    Mapped M a m' where
  fixed_used := hphys ▸ h.fixed_used
  shm_addr i hi := (hshm i).trans (h.shm_addr i hi)
  idle_table := htab ▸ h.idle_table
  user_table := htab ▸ h.user_table
  shared := htab ▸ h.shared
  free_data := htab ▸ h.free_data
  pid_base := h.pid_base

/-- A process of the schedule has its table replaced. -/
theorem setTable (h : Mapped M a m) {s : Slot} (hs : a.User s) {pt : PageTable}
    (hu : UserTable pt) (hr : SharedRegion pt) : Mapped M a (m.setTable s pt) where
  fixed_used := h.fixed_used
  shm_addr := h.shm_addr
  idle_table := by
    rw [Mm.setTable_apply, if_neg hs.2.symm]
    exact h.idle_table
  user_table t ht := by
    rw [Mm.setTable_apply]
    split_ifs
    · exact hu
    · exact h.user_table t ht
  shared t := by
    rw [Mm.setTable_apply]
    split_ifs
    · exact hr
    · exact h.shared t
  free_data t ht := by
    have hne : t ≠ s := fun he => hs.1 (he ▸ ht)
    rw [Mm.setTable_apply, if_neg hne]
    exact h.free_data t ht
  pid_base := h.pid_base

/-- The byte map changes where no frame is fixed. -/
theorem setPhys (h : Mapped M a m) {phys : PhysMem}
    (hphys : ∀ f, Fixed f → phys f = m.physMem f) : Mapped M a { m with physMem := phys } where
  fixed_used f hf := (hphys f hf).trans (h.fixed_used f hf)
  shm_addr := h.shm_addr
  idle_table := h.idle_table
  user_table := h.user_table
  shared := h.shared
  free_data := h.free_data
  pid_base := h.pid_base

/-! ## Page faults -/

/-- A frame with a count above one is behind a data page. -/
theorem data_of_count (h : Mapped M a m) {s : Slot} (hs : a.User s) {p : ℕ} (hp : p < totalPages)
    (hcount : 2 ≤ m.physMem (getFrame (m.pagusrTable s) p)) :
    pagLogInitData ≤ p ∧ p < pagLogInitShared := by
  have hfix : ¬ Fixed (m.pagusrTable s p).frame := by
    intro hf
    have h1 := h.fixed_used _ hf
    rw [show getFrame (m.pagusrTable s) p = (m.pagusrTable s p).frame from rfl, h1] at hcount
    omega
  have hu := h.user_table s hs
  refine ⟨Nat.not_lt.mp fun hlt => hfix ?_, Nat.not_le.mp fun hle => hfix ?_⟩
  · rcases Nat.lt_or_ge p numPagKernel with hk | hk
    · exact (hu.low p hk).elim Or.inl (fun h => h.2.fixed)
    · exact Or.inr (Or.inl ⟨p, hk, hlt, (hu.code p hk hlt).2.2⟩)
  · rcases h.shared s p hle hp with ⟨-, h0⟩ | ⟨-, -, -, hshm⟩
    · exact h0 ▸ fixed_zero
    · exact hshm.fixed

/-- The frame a fault puts behind a page is not a fixed one. -/
theorem not_fixed_nextFrame (h : Mapped M a m) {phys : PhysMem}
    (hphys : ∀ f, Fixed f → phys f = m.physMem f) : ¬ Fixed (nextFrame phys) := by
  intro hf
  have hused : phys (nextFrame phys) ≠ 0 := by
    rw [hphys _ hf, h.fixed_used _ hf]
    exact one_ne_zero
  exact ne_nextFrame hused hf.lt rfl

/-- What the byte map of a fault keeps. -/
theorem fixed_privatePhys (h : Mapped M a m) {shared : ℕ} (hsh : ¬ Fixed shared) :
    (∀ f, Fixed f → Function.update m.physMem shared (m.physMem shared - 1) f = m.physMem f)
      ∧ ∀ f, Fixed f →
        (allocFrame (Function.update m.physMem shared (m.physMem shared - 1))).2 f
          = m.physMem f := by
  have h₁ : ∀ f, Fixed f →
      Function.update m.physMem shared (m.physMem shared - 1) f = m.physMem f := by
    intro f hf
    rw [Function.update_of_ne]
    rintro rfl
    exact hsh hf
  refine ⟨h₁, fun f hf => ?_⟩
  rcases nextFrame_cases (Function.update m.physMem shared (m.physMem shared - 1)) with
    ⟨g, gs, -, hn, hal⟩ | ⟨-, -, hal⟩
  · have hne : f ≠ g := by
      rintro rfl
      exact h.not_fixed_nextFrame h₁ (hn.symm ▸ hf)
    rw [hal, Function.update_of_ne hne, h₁ f hf]
  · rw [hal, h₁ f hf]

/-- The table a copy leaves is one of a process. -/
theorem privateTable_spec {pt : PageTable} (hu : UserTable pt) (hr : SharedRegion pt) {p : ℕ}
    (h₁ : pagLogInitData ≤ p) (h₂ : p < pagLogInitShared) {frame : ℤ}
    (hfresh : ¬ Fixed (frameField frame)) :
    UserTable (privateTable pt p frame) ∧ SharedRegion (privateTable pt p frame) := by
  have hbelow : ∀ q, q ≠ p → q < pagLogInitShared → privateTable pt p frame q = pt q :=
    fun q hq hlt => privateTable_of_ne pt frame hq (ne_paginaAUsar hlt)
  refine ⟨⟨fun q hq => ?_, fun q hq₁ hq₂ => ?_, fun q hq₁ hq₂ => ?_⟩, fun q hq₁ hq₂ => ?_⟩
  · have hlt : q < pagLogInitData := hq.trans (by decide)
    rw [hbelow q (Nat.ne_of_lt (hlt.trans_le h₁)) (hlt.trans (by decide))]
    exact hu.low q hq
  · rw [hbelow q (Nat.ne_of_lt (hq₂.trans_le h₁)) (hq₂.trans (by decide))]
    exact hu.code q hq₁ hq₂
  · by_cases hq : q = p
    · rw [privateTable, if_pos hq]
      exact ⟨rfl, rfl, hfresh⟩
    · rw [hbelow q hq hq₂]
      exact hu.data q hq₁ hq₂
  · have hqp : q ≠ p := Nat.ne_of_gt (h₂.trans_le hq₁)
    by_cases hq : q = paginaAUsar
    · rw [privateTable, if_neg hqp, if_pos hq, ← hq]
      rcases hr q hq₁ hq₂ with ⟨hpres, -⟩ | ⟨hpres, -, -, hshm⟩
      · rw [hpres]
        exact Or.inl ⟨rfl, rfl⟩
      · rw [hpres]
        exact Or.inr ⟨rfl, rfl, rfl, hshm⟩
    · rw [privateTable_of_ne pt frame hqp hq]
      exact hr q hq₁ hq₂

/-- **A page fault.** -/
theorem faulted (h : Mapped M a m) {s : Slot} (hs : a.User s) {p : ℕ} {m₁ : Mm}
    (hf : m.Faulted s p m₁) : Mapped M a m₁ := by
  have hu := h.user_table s hs
  cases hf with
  | opened hp hcount =>
    -- only an `rw` bit is set
    have hent : ∀ q, (setRw (m.pagusrTable s) p true q).present = (m.pagusrTable s q).present
        ∧ (setRw (m.pagusrTable s) p true q).user = (m.pagusrTable s q).user
        ∧ (setRw (m.pagusrTable s) p true q).frame = (m.pagusrTable s q).frame
        ∧ ((m.pagusrTable s q).rw = true → (setRw (m.pagusrTable s) p true q).rw = true) := by
      intro q
      rw [setRw_apply]
      split_ifs <;> exact ⟨rfl, rfl, rfl, fun h => by first | rfl | exact h⟩
    refine h.setTable hs ⟨fun q hq => ?_, fun q h₁ h₂ => ?_, fun q h₁ h₂ => ?_⟩
      (fun q h₁ h₂ => ?_)
    · rw [(hent q).1, (hent q).2.2.1]
      exact hu.low q hq
    · rw [(hent q).1, (hent q).2.1, (hent q).2.2.1]
      exact hu.code q h₁ h₂
    · rw [(hent q).1, (hent q).2.1, (hent q).2.2.1]
      exact hu.data q h₁ h₂
    · rw [(hent q).1, (hent q).2.1, (hent q).2.2.1]
      exact (h.shared s q h₁ h₂).imp id (fun ⟨h₁, h₂, h₃, h₄⟩ => ⟨h₁, h₂, (hent q).2.2.2 h₃, h₄⟩)
  | copied hp hframe hcount =>
    obtain ⟨hd₁, hd₂⟩ := h.data_of_count hs hp hcount
    obtain ⟨hpres, huser, hfix⟩ := hu.data p hd₁ hd₂
    obtain ⟨hk₁, hk₂⟩ := h.fixed_privatePhys hfix
    rw [Mm.copyOnWrite_eq hp (ne_paginaAUsar hd₂) hpres]
    obtain ⟨hu', hr'⟩ := privateTable_spec hu (h.shared s) hd₁ hd₂ (h.not_fixed_nextFrame hk₁)
    exact ((h.setTable hs hu' hr').setPhys hk₂).of_eq rfl rfl (fun _ => rfl)

/-! ## Fork -/

/-- **A fork given up leaves the memory as it was.** -/
theorem forkFail_mm (h : Mapped M a m) {c : Slot} (hc : c ∈ a.free)
    (hlen : (freeFrames m.physMem).length < numPagData) :
    (m.allocDataPages c 0 numPagData).2 = m := by
  have hfirst : m.physMem numPagKernel ≠ freeFrameMark := by
    have hfix : Fixed numPagKernel := Or.inr (Or.inl ⟨numPagKernel, by decide, by decide, rfl⟩)
    rw [h.fixed_used _ hfix]
    exact one_ne_zero
  exact Mm.allocDataPages_fail m c hfirst (h.free_data c hc) hlen

/-- The byte map of a fork keeps the fixed frames. -/
theorem fixed_fork (h : Mapped M a m) {s : Slot} (hs : a.User s) {f : ℕ} (hf : Fixed f) :
    addCounts (markUsed m.physMem ((freeFrames m.physMem).take numPagData))
      (dataPages.map (getFrame (m.pagusrTable s))) f = m.physMem f := by
  rw [addCounts_of_notMem, markUsed, if_neg]
  · intro hm
    have hzero := (mem_freeFrames.mp (List.mem_of_mem_take hm)).2
    rw [h.fixed_used f hf] at hzero
    exact one_ne_zero hzero
  · intro hm
    obtain ⟨p, hp, rfl⟩ := List.mem_map.mp hm
    rw [List.mem_range'_1] at hp
    exact ((h.user_table s hs).data p hp.1 hp.2).2.2 hf

/-- The table of a child is one of a process. -/
theorem childTable_spec {pt old : PageTable} (hu : UserTable pt) (hr : SharedRegion pt)
    (hold : SharedRegion old) :
    UserTable (Mm.childTable pt old) ∧ SharedRegion (Mm.childTable pt old) := by
  have hlow : ∀ q, q < pagLogInitData → Mm.childTable pt old q = (pt q).opened := by
    intro q hq
    rw [Mm.childTable, if_pos hq]
  refine ⟨⟨fun q hq => ?_, fun q hq₁ hq₂ => ?_, fun q hq₁ hq₂ => ?_⟩, fun q hq₁ hq₂ => ?_⟩
  · rw [hlow q (hq.trans (by decide))]
    exact (hu.low q hq).imp id (fun h => ⟨rfl, h.2⟩)
  · rw [hlow q hq₂]
    exact ⟨rfl, rfl, (hu.code q hq₁ hq₂).2.2⟩
  · rw [Mm.childTable, if_neg (Nat.not_lt.mpr hq₁), if_pos hq₂]
    exact ⟨rfl, rfl, (hu.data q hq₁ hq₂).2.2⟩
  · have hdata : ¬ q < pagLogInitData :=
      Nat.not_lt.mpr (le_trans (by decide) hq₁)
    rw [Mm.childTable, if_neg hdata, if_neg (Nat.not_lt.mpr hq₁)]
    by_cases hz : getFrame pt q = 0
    · rw [if_neg (fun hc => hc.2 hz)]
      exact hold q hq₁ hq₂
    · rw [if_pos ⟨hq₂, hz⟩]
      rcases hr q hq₁ hq₂ with ⟨-, h0⟩ | ⟨-, -, -, hshm⟩
      · exact absurd h0 hz
      · exact Or.inr ⟨rfl, rfl, rfl, hshm⟩

/-- The table a fork leaves its caller is one of a process. -/
theorem parentTable_spec {pt : PageTable} (hu : UserTable pt) (hr : SharedRegion pt) :
    UserTable (Mm.parentTable pt) ∧ SharedRegion (Mm.parentTable pt) := by
  have hother : ∀ q, ¬ (pagLogInitData ≤ q ∧ q < pagLogInitShared) → Mm.parentTable pt q = pt q :=
    fun q hq => if_neg hq
  refine ⟨⟨fun q hq => ?_, fun q hq₁ hq₂ => ?_, fun q hq₁ hq₂ => ?_⟩, fun q hq₁ hq₂ => ?_⟩
  · rw [hother q (fun hc => Nat.not_le.mpr (hq.trans (by decide)) hc.1)]
    exact hu.low q hq
  · rw [hother q (fun hc => Nat.not_le.mpr hq₂ hc.1)]
    exact hu.code q hq₁ hq₂
  · rw [Mm.parentTable, if_pos ⟨hq₁, hq₂⟩]
    exact hu.data q hq₁ hq₂
  · rw [hother q (fun hc => Nat.not_lt.mpr hq₁ hc.2)]
    exact hr q hq₁ hq₂

/-- **A successful fork.** -/
theorem forkOk (h : Mapped M a m) {c : Slot} {cs : List Slot} (hfree : a.free = c :: cs)
    (hidle : a.current ≠ a.idle) :
    Mapped M (a.spawn c cs hfree hidle) ((m.withFrames c numPagData).forkPages a.current c) := by
  have hcfree : c ∈ a.free := hfree ▸ List.mem_cons_self
  have hcc : a.current ≠ c := fun he => a.current_notMem.1 (he ▸ hcfree)
  have hic : a.idle ≠ c := fun he => a.idle_notMem.1 (he ▸ hcfree)
  have hcur := a.user_current hidle
  obtain ⟨hcu, hcr⟩ :=
    childTable_spec (h.user_table _ hcur) (h.shared a.current) (h.shared c)
  obtain ⟨hpu, hpr⟩ := parentTable_spec (h.user_table _ hcur) (h.shared a.current)
  rw [Mm.forkPages_withFrames m hcc]
  refine ⟨fun f hf => ?_, fun i hi => ?_, ?_, fun s hs => ?_, fun s => ?_, fun s hs => ?_, ?_⟩
  · exact (h.fixed_fork hcur hf).trans (h.fixed_used f hf)
  · simp only [if_pos hi]
    exact h.shm_addr i hi
  · show (if a.idle = c then _ else if a.idle = a.current then _ else _) = _
    rw [if_neg hic, if_neg hidle.symm]
    exact h.idle_table
  · dsimp only
    rcases (Schedule.user_spawn hfree hidle).mp hs with hs | rfl
    · split_ifs
      · exact hcu
      · exact hpu
      · exact h.user_table s hs
    · rw [if_pos rfl]
      exact hcu
  · dsimp only
    split_ifs
    · exact hcr
    · exact hpr
    · exact h.shared s
  · have hs' : s ∈ a.free := hfree ▸ List.mem_cons_of_mem c hs
    have hnd := a.nodup_free
    rw [hfree] at hnd
    have hsc : s ≠ c := fun he => (List.nodup_cons.mp hnd).1 (he ▸ hs)
    have hscur : s ≠ a.current := fun he => a.current_notMem.1 (he ▸ hs')
    dsimp only
    rw [if_neg hsc, if_neg hscur]
    exact h.free_data s hs'
  · exact h.pid_base.trans (Int.le_add_one le_rfl)

/-! ## Exit -/

/-- **An exit.** -/
theorem exit (h : Mapped M a m) (hidle : a.current ≠ a.idle) :
    Mapped M (a.retire hidle) (m.exitPages a.current) := by
  have hd := Mm.exitPages_dropped m a.current
  have hcur := a.user_current hidle
  -- what the first loop has left
  have htab : ∀ t, t ≠ a.current → (m.exitPages a.current).pagusrTable t = m.pagusrTable t :=
    fun _ => Mm.exitPages_other
  have hhigh : ∀ p, shmLength ≤ p → (m.exitPages a.current).pagusrTable a.current p
      = if pagLogInitData ≤ p ∧ p < pagLogInitData + numPagData then PageTableEntry.zero
        else m.pagusrTable a.current p := by
    intro p hp
    rw [hd.high p hp]
    exact congrFun ((Mm.setTable_apply m a.current _ a.current).trans (if_pos rfl)) p
  refine ⟨fun f hf => ?_, fun i hi => ?_, ?_, fun s hs => ?_, fun s => ?_, fun s hs => ?_,
    h.pid_base⟩
  · rw [hd.physMem]
    show freeAll m.physMem _ f = 1
    rw [freeAll_apply, if_neg]
    · exact h.fixed_used f hf
    · rintro ⟨hm, -⟩
      obtain ⟨p, hp, rfl⟩ := List.mem_map.mp hm
      rw [List.mem_range'_1] at hp
      exact ((h.user_table _ hcur).data p hp.1 hp.2).2.2 hf
  · rw [hd.shmMem i, if_pos hi]
    exact h.shm_addr i hi
  · rw [show (a.retire hidle).idle = a.idle from rfl, htab a.idle hidle.symm]
    exact h.idle_table
  · obtain ⟨hs, hne⟩ := (Schedule.user_retire hidle).mp hs
    rw [htab s hne]
    exact h.user_table s hs
  · by_cases hsc : s = a.current
    · intro p hp₁ hp₂
      rw [hsc, hhigh p (le_trans (by decide) hp₁), if_neg (fun hc => Nat.not_lt.mpr hp₁ hc.2)]
      exact h.shared a.current p hp₁ hp₂
    · rw [htab s hsc]
      exact h.shared s
  · intro p hp₁ hp₂
    by_cases hsc : s = a.current
    · rw [hsc, hhigh p (le_trans (by decide) hp₁), if_pos ⟨hp₁, hp₂⟩]
    · rw [htab s hsc]
      exact h.free_data s (((Schedule.mem_free_retire hidle).mp hs).resolve_right hsc) p hp₁ hp₂

/-! ## Shared segments -/

/-- The count and the mark of a segment changed, and its frame kept. -/
theorem update_shmMemFrameAddr (shm : ℕ → ShmMemStruct) (i : ℕ) {v : ShmMemStruct}
    (hv : v.shmMemFrameAddr = (shm i).shmMemFrameAddr) (j : ℕ) :
    (Function.update shm i v j).shmMemFrameAddr = (shm j).shmMemFrameAddr := by
  rw [Function.update_apply]
  split_ifs with hj
  · rw [hj, hv]
  · rfl

/-- A segment mapped at a page that was not present. -/
theorem attach (h : Mapped M a m) {s : Slot} (hs : a.User s) {i page : ℕ} (hi : i < shmLength)
    (hpres : (m.pagusrTable s page).present = false) :
    Mapped M a (m.attach s i page) := by
  have hu := h.user_table s hs
  have hentry : ∀ q, setSsPag (m.pagusrTable s) page (((m.shmMem i).shmMemFrameAddr : ℕ) : ℤ) q
      = if q = page then PageTableEntry.mapping (shmFrame i : ℕ) else m.pagusrTable s q := by
    intro q
    rw [setSsPag_apply, h.shm_addr i hi]
    rfl
  have hframe : (PageTableEntry.mapping (shmFrame i : ℕ)).frame = shmFrame i :=
    frameField_natCast (IsShm.fixed ⟨i, hi, rfl⟩).lt
  -- code and data pages are present
  have hnot : ¬ (pagLogInitCode ≤ page ∧ page < pagLogInitShared) := by
    rintro ⟨h₁, h₂⟩
    rcases Nat.lt_or_ge page pagLogInitData with hc | hc
    · rw [(hu.code page h₁ hc).1] at hpres
      exact absurd hpres (by decide)
    · rw [(hu.data page hc h₂).1] at hpres
      exact absurd hpres (by decide)
  refine Mapped.of_eq (m := m.setTable s (setSsPag (m.pagusrTable s) page
      (((m.shmMem i).shmMemFrameAddr : ℕ) : ℤ)))
    (h.setTable hs ⟨fun q hq => ?_, fun q h₁ h₂ => ?_, fun q h₁ h₂ => ?_⟩ (fun q h₁ h₂ => ?_))
    rfl rfl (update_shmMemFrameAddr m.shmMem i rfl)
  · rw [hentry]
    split_ifs with hqp
    · exact Or.inr ⟨rfl, i, hi, hframe⟩
    · exact hu.low q hq
  · have hqp : q ≠ page := fun he => hnot ⟨he ▸ h₁, he ▸ h₂.trans (by decide)⟩
    rw [hentry, if_neg hqp]
    exact hu.code q h₁ h₂
  · have hqp : q ≠ page := fun he => hnot ⟨he ▸ le_trans (by decide) h₁, he ▸ h₂⟩
    rw [hentry, if_neg hqp]
    exact hu.data q h₁ h₂
  · rw [hentry]
    split_ifs with hqp
    · exact Or.inr ⟨rfl, rfl, rfl, i, hi, hframe⟩
    · exact h.shared s q h₁ h₂

/-- The page a segment is found at is a kernel page or a shared one. -/
theorem page_of_segment (h : Mapped M a m) {s : Slot} (hs : a.User s) {page i : ℕ}
    (hseg : m.segmentAt s page = some i) :
    page < totalPages ∧ (m.pagusrTable s page).frame = shmFrame i ∧ i < shmLength
      ∧ (page < numPagKernel ∨ pagLogInitShared ≤ page) := by
  obtain ⟨hlt, hpres, hi, haddr⟩ := Mm.segmentAt_eq_some hseg
  have hframe : (m.pagusrTable s page).frame = shmFrame i := by
    rw [← h.shm_addr i hi]
    exact haddr.symm
  have hu := h.user_table s hs
  refine ⟨hlt, hframe, hi, ?_⟩
  by_contra hnot
  push Not at hnot
  rcases Nat.lt_or_ge page pagLogInitData with hc | hc
  · refine not_isShm_codeFrame hc ?_
    rw [← (hu.code page hnot.1 hc).2.2, hframe]
    exact ⟨i, hi, rfl⟩
  · refine (hu.data page hc hnot.2).2.2 ?_
    rw [hframe]
    exact IsShm.fixed ⟨i, hi, rfl⟩

/-- The entry of a segment deleted. -/
theorem detach (h : Mapped M a m) {s : Slot} (hs : a.User s) {page i : ℕ}
    (hseg : m.segmentAt s page = some i) :
    Mapped M a (m.setTable s (delSsPag (m.pagusrTable s) page)) := by
  obtain ⟨-, -, -, hpage⟩ := h.page_of_segment hs hseg
  have hu := h.user_table s hs
  refine h.setTable hs ⟨fun q hq => ?_, fun q h₁ h₂ => ?_, fun q h₁ h₂ => ?_⟩ (fun q h₁ h₂ => ?_)
  · rw [delSsPag_apply]
    split_ifs
    · exact Or.inl (by decide)
    · exact hu.low q hq
  · have hqp : q ≠ page := by
      rintro rfl
      exact hpage.elim (Nat.not_lt.mpr h₁) (Nat.not_le.mpr (h₂.trans (by decide)))
    rw [delSsPag_apply, if_neg hqp]
    exact hu.code q h₁ h₂
  · have hqp : q ≠ page := by
      rintro rfl
      exact hpage.elim (Nat.not_lt.mpr (le_trans (by decide) h₁)) (Nat.not_le.mpr h₂)
    rw [delSsPag_apply, if_neg hqp]
    exact hu.data q h₁ h₂
  · rw [delSsPag_apply]
    split_ifs
    · exact Or.inl ⟨rfl, rfl⟩
    · exact h.shared s q h₁ h₂

/-! ## Runs -/

/-- **Every step keeps the tables.** -/
theorem outcome (h : Mapped M a m) {e : Event} (hen : e.byTask = true → a.current ≠ a.idle)
    (ho : Outcome a m e a' m') (hdown : m'.stuck = false) : Mapped M a' m' := by
  cases ho with
  | stay ebp => exact h
  | switch ebp hready => exact h.rotate
  | key c past => exact h
  | load addr hload => exact h
  | store addr b loc => exact h.of_eq rfl rfl (fun _ => rfl)
  | storeFault addr b m₁ loc hcan hfault =>
    exact (h.faulted (a.user_current (hen rfl)) hfault).of_eq rfl rfl (fun _ => rfl)
  | fault cr2 m₁ hcan hfault => exact h.faulted (a.user_current (hen rfl)) hfault
  | forkNone ebp hfree => exact h
  | forkFail ebp c cs hfree hlen =>
    rw [h.forkFail_mm (hfree ▸ List.mem_cons_self) hlen]
    exact h.move rfl (fun s => Schedule.mem_free_giveUp hfree) le_rfl
  | forkOk ebp c cs hfree hidle hlen => exact h.forkOk hfree hidle
  | exit ebp hidle => exact h.exit hidle
  | yield ebp => exact h.rotate
  | shmat id addr =>
    rcases Mm.sysShmat_cases hdown with he | ⟨i, page, hi, -, hpres, -, -, he⟩
    · rw [he]
      exact h
    · rw [he]
      exact h.attach (a.user_current (hen rfl)) hi hpres
  | shmdt addr =>
    rcases Mm.sysShmdt_cases hdown with ⟨-, he⟩ | ⟨i, hseg, ⟨-, he⟩ | ⟨-, ram, he⟩⟩
    · rw [he]
      exact h
    · rw [he]
      exact h.of_eq rfl rfl (update_shmMemFrameAddr m.shmMem i rfl)
    · rw [he]
      exact (h.detach (a.user_current (hen rfl)) hseg).of_eq rfl rfl
        (update_shmMemFrameAddr m.shmMem i rfl)
  | shmrm id =>
    rcases Mm.sysShmrm_cases hdown with he | ⟨i, -, he⟩
    · rw [he]
      exact h
    · rw [he]
      exact h.of_eq rfl rfl (update_shmMemFrameAddr m.shmMem i rfl)
  | read b maxchars ram => exact h.of_eq rfl rfl (fun _ => rfl)
  | getStats pid st ram => exact h.of_eq rfl rfl (fun _ => rfl)

/-- The frames of the first task are those of its pages' positions. -/
theorem bootTable_frame (M : Machine) {p : ℕ} (h₁ : pagLogInitCode ≤ p)
    (h₂ : p < pagLogInitShared) : (bootTable M p).frame = codeFrame p := by
  rw [bootTable, if_pos ⟨h₁, h₂⟩]
  show (BitVec.ofNat 20 _).toNat = _
  rw [BitVec.toNat_ofNat]
  replace h₂ : p < 284 := h₂
  exact Nat.mod_eq_of_lt (by simp only [numPagKernel, pagLogInitCode]; omega)

theorem initTablePages_of_ge (M : Machine) {p : ℕ} (hp : numPagKernel ≤ p) :
    initTablePages M.tasksPage p = PageTableEntry.zero :=
  if_neg (fun h => Nat.not_lt.mpr hp h.2)

/-- The table of the first task is one of a process. -/
theorem bootTable_spec (M : Machine) : UserTable (bootTable M) ∧ SharedRegion (bootTable M) := by
  refine ⟨⟨fun p hp => ?_, fun p h₁ h₂ => ?_, fun p h₁ h₂ => ?_⟩, fun p h₁ _ => ?_⟩
  · rw [bootTable, if_neg (fun hc => Nat.not_lt.mpr hc.1 hp), initTablePages]
    left
    split_ifs
    · show (BitVec.ofNat 20 p).toNat < numPagKernel
      rw [BitVec.toNat_ofNat]
      exact (Nat.mod_le p _).trans_lt hp
    · decide
  · rw [bootTable_frame M h₁ (h₂.trans (by decide)), bootTable,
      if_pos ⟨h₁, h₂.trans (by decide)⟩]
    exact ⟨rfl, rfl, rfl⟩
  · have h₀ : pagLogInitCode ≤ p := le_trans (by decide) h₁
    rw [bootTable_frame M h₀ h₂, bootTable, if_pos ⟨h₀, h₂⟩]
    refine ⟨rfl, rfl, ?_⟩
    replace h₁ : 264 ≤ p := h₁
    replace h₂ : p < 284 := h₂
    have hc : codeFrame p = 256 + 2 * (p - 256) := rfl
    rintro (h | ⟨q, -, hq, h⟩ | h)
    · replace h : codeFrame p < 256 := h
      omega
    · have hlt := codeFrame_lt hq
      omega
    · have hge := h.bounds.1
      omega
  · rw [bootTable, if_neg (fun hc => Nat.not_lt.mpr h₁ hc.2),
      initTablePages_of_ge M (le_trans (by decide) h₁)]
    exact Or.inl ⟨rfl, rfl⟩

/-- **The tables at boot.** -/
theorem boot (M : Machine) : Mapped M bootSchedule M.boot.mm := by
  rw [boot_mm]
  refine ⟨fun f hf => ?_, fun i hi => ?_, rfl, fun s hs => ?_, fun s => ?_, fun s hs p h₁ _ => ?_,
    le_rfl⟩
  · show bootPhys 38 f = 1
    rw [bootPhys_apply (by decide), if_pos]
    rcases hf with h | ⟨q, -, hq, h⟩ | ⟨i, hi, h⟩
    · exact Or.inl h
    · have hlt := codeFrame_lt hq
      have hc : codeFrame q = 256 + 2 * (q - 256) := rfl
      refine Or.inr ⟨?_, by omega⟩
      show f < 256 + 2 * 38
      omega
    · have hlt := (show IsShm f from ⟨i, hi, h⟩).bounds.2
      have hc : shmFrame i = 312 + 2 * i := rfl
      refine Or.inr ⟨?_, by omega⟩
      show f < 256 + 2 * 38
      omega
  · simp only [if_pos hi]
    rfl
  · have h1 : s = 1 := user_boot.mp hs
    dsimp only
    rw [if_pos h1]
    exact (bootTable_spec M).1
  · dsimp only
    split_ifs
    · exact (bootTable_spec M).2
    · intro p h₁ _
      rw [initTablePages_of_ge M (le_trans (by decide) h₁)]
      exact Or.inl ⟨rfl, rfl⟩
  · have h1 : s ≠ 1 := by
      rintro rfl
      exact absurd hs (by decide)
    dsimp only
    rw [if_neg h1, initTablePages_of_ge M (le_trans (by decide) h₁)]

end Mapped

/-- **Every reachable state has these tables.** -/
theorem Reachable.mapped {M : Machine} {k : Kernel} (h : Reachable M k) :
    ∃ a, k.Follows a ∧ Mapped M a k.mm := by
  obtain ⟨es, hrun⟩ := h
  exact run_invariant (Mapped.boot M)
    (fun _ _ _ _ _ _ hen hI _ ho hdown => hI.outcome hen ho hdown) hrun

/-! ## The first fork -/

/-- The schedule once the first task has forked. -/
def firstFork : Schedule := bootSchedule.spawn 2 [3, 4, 5, 6, 7, 8, 9] rfl (by decide)

/-- The counts at boot. -/
theorem countsWithin_boot (M : Machine) : M.boot.mm.CountsWithin 0 := by
  intro i hi
  rw [boot_mm]
  dsimp only
  rw [if_pos hi]
  exact ⟨le_rfl, le_rfl⟩

/-- **The first fork succeeds.** -/
theorem exists_first_fork (M : Machine) (ebp : DWord) :
    ∃ k, M.boot.step (.fork ebp) = some k ∧ k.Follows firstFork
      ∧ k.mm = (M.boot.mm.withFrames 2 numPagData).forkPages 1 2 ∧ k.cb = M.boot.cb := by
  have hphys : M.boot.mm.physMem = bootPhys 38 := by rw [boot_mm]
  have htab : M.boot.mm.pagusrTable 1 = bootTable M := by
    rw [boot_mm]
    dsimp only
    rw [if_pos rfl]
  have hlen : numPagData ≤ (freeFrames M.boot.mm.physMem).length := by
    rw [hphys, freeFrames_bootPhys, List.length_drop, frameScan, List.length_range']
    decide
  have hcounts : M.boot.mm.CountsWithin 0 := countsWithin_boot M
  refine Kernel.exists_fork (follows_boot M) rfl (by decide) hlen (by decide) ?_
    ((hcounts.fork (by decide)).fit (by decide)) ebp
  rw [Mm.forkPages_withFrames _ (by decide)]
  dsimp only
  rw [show bootSchedule.current = 1 from rfl, htab, (follows_boot M).mm_down, Bool.false_or,
    List.any_eq_false]
  intro p hp
  rw [List.mem_range'_1] at hp
  have hframe : getFrame (bootTable M) p = codeFrame p :=
    Mapped.bootTable_frame M (le_trans (by decide) hp.1) hp.2
  replace hp : p < 284 := hp.2
  rw [hframe, decide_eq_true_iff, Nat.not_le]
  show 256 + 2 * (p - 256) < 1024
  omega

end ZeOS.Practica
