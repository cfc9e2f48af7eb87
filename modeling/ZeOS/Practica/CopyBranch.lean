import ZeOS.Practica.CopyOnWrite
import ZeOS.Practica.FaultRoutine

/-!
# The private copy of a shared page

What a write to a shared page should do: the page gets a fresh frame with
the same bytes, the counts follow, and nothing else is different afterwards.

While the counts are right, runs that fork, write and yield have enough free
frames for it. An exit zeroes the counts of frames that others still map, and
then the next frame to be given is not always one nobody maps.
-/

namespace ZeOS.Practica

namespace Kernel

/-- No live process maps the frame. -/
def Unmapped (k : Kernel) (g : ℕ) : Prop :=
  ∀ s, k.Live s → ∀ q < totalPages, (k.ptOf s q).present = true → getFrame (k.ptOf s) q ≠ g

/-- **A page copied apart**: page `p` of the current process, with frame `f`
before, maps a frame `g` that was nobody's and holds what `f` holds; the
counts are right, and no other entry of any table is different. -/
structure CopiedApart (k : Kernel) (p f g : ℕ) (m' : Mm) : Prop where
  entry : (m'.pagusrTable k.currentPtSlot p).present = true
    ∧ (m'.pagusrTable k.currentPtSlot p).user = true
    ∧ (m'.pagusrTable k.currentPtSlot p).rw = true
    ∧ getFrame (m'.pagusrTable k.currentPtSlot) p = g
  fresh : g ≠ f ∧ k.Unmapped g
  contents : ∀ o < pageSize, m'.ram (g, o) = k.mm.ram (f, o) ∧ m'.ram (f, o) = k.mm.ram (f, o)
  counts : m'.physMem f = k.mm.physMem f - 1 ∧ m'.physMem g = 1
  entries : ∀ q < totalPages, q ≠ p → m'.pagusrTable k.currentPtSlot q = k.currentPt q
  others : ∀ s, s ≠ k.currentPtSlot → m'.pagusrTable s = k.mm.pagusrTable s

/-- The entry of the borrowed page survives the borrowing. -/
def SparesBorrowed (k : Kernel) : Prop :=
  (k.currentPt paginaAUsar).present = true ∨ k.currentPt paginaAUsar = PageTableEntry.zero

end Kernel

/-- What the borrowing leaves of an entry of the shared region. -/
theorem borrowed_eq_iff {pt : PageTable} (h : SharedRegion pt) :
    (if (pt paginaAUsar).present then (pt paginaAUsar).opened else PageTableEntry.zero)
        = pt paginaAUsar
      ↔ (pt paginaAUsar).present = true ∨ pt paginaAUsar = PageTableEntry.zero := by
  rcases h paginaAUsar (by decide) (by decide) with ⟨hnot, -⟩ | ⟨hpres, huser, hrw, -⟩
  · rw [hnot, if_neg Bool.false_ne_true]
    exact ⟨fun he => Or.inr he.symm,
      fun hc => (hc.resolve_left Bool.false_ne_true).symm⟩
  · -- a page that is present has all its bits set
    rw [hpres, if_pos rfl]
    refine iff_of_true ?_ (Or.inl rfl)
    rw [PageTableEntry.opened, ← hpres]
    cases hentry : pt paginaAUsar
    simp only [hentry] at hpres huser hrw
    rw [hpres, huser, hrw]

/-! ## Runs whose data pages stay in order -/

/-- While the data pages are in order, a free frame is nobody's. -/
theorem Kernel.unmapped_of_inOrder {M : Machine} {k : Kernel} {a : Schedule} (hk : k.Follows a)
    (hm : Mapped M a k.mm) (ho : InOrder (dataTable a k.mm)) {g : ℕ}
    (hg : g ∈ freeFrames k.mm.physMem) : k.Unmapped g := by
  intro s hs q hq hpres he
  have hs' := (Kernel.live_iff hk.threads s).mp hs
  rw [Kernel.ptOf_eq hk.threads hs'] at hpres he
  rcases hm.fixed_or_data hs' hq hpres with hfix | ⟨hu, i, rfl⟩
  · have hone := hm.fixed_used _ hfix
    rw [show (k.mm.pagusrTable s q).frame = g from he, (mem_freeFrames.mp hg).2] at hone
    exact absurd hone (by decide)
  · rw [← he] at hg
    exact ho.notMem_freeFrames (mem_owners.mpr hu) i hg

/-- A fork takes its frames from the front of the free ones. -/
theorem InOrder.freeFrames_forked {t t' : DataTable} {p c : Slot} (h : InOrder t)
    (hf : Forked t t' p c) : freeFrames t'.count = (freeFrames t.count).drop numPagData := by
  have hnd : (frames t p).Nodup :=
    (List.nodup_finRange _).map (fun i j he => h.sound.page_eq p hf.parent p hf.parent i j he)
  rw [hf.count, freeFrames_addCounts hnd, freeFrames_markUsed_take]
  intro f hmem
  obtain ⟨i, rfl⟩ := mem_frames.mp hmem
  have hpos := h.sound.count_pos hf.parent i
  have hle := h.count_le hf.parent i
  replace hle : t.count (t.frame p i) ≤ 10 := hle
  have hmark : markUsed t.count ((freeFrames t.count).take numPagData) (t.frame p i)
      = t.count (t.frame p i) :=
    if_neg (fun hm => h.notMem_freeFrames hf.parent i (List.mem_of_mem_take hm))
  omega

/-- **A state whose data pages are in order**, with `t` free frames. -/
structure Tidy (M : Machine) (k : Kernel) (a : Schedule) (t : ℕ) : Prop where
  follows : k.Follows a
  mapped : Mapped M a k.mm
  inOrder : InOrder (dataTable a k.mm)
  busy : a.current ≠ a.idle
  total : (freeFrames k.mm.physMem).length = t
  /-- A fork takes twenty frames and changes a count by at most 740. -/
  counts : k.mm.CountsWithin (1000 * (400 - t))

namespace Tidy

variable {M : Machine} {k : Kernel} {a : Schedule} {t : ℕ}

theorem boot (M : Machine) : Tidy M M.boot bootSchedule 346 where
  follows := follows_boot M
  mapped := Mapped.boot M
  inOrder := inOrder_boot M
  busy := by decide
  total := (Drained.boot M).total
  counts := (countsWithin_boot M).mono (by decide)

theorem owner (h : Tidy M k a t) : a.current ∈ (dataTable a k.mm).owners :=
  mem_owners.mpr (a.user_current h.busy)

/-- **A fork** adds a process with the pages of its parent. -/
theorem fork (h : Tidy M k a (t + numPagData)) {c : Slot} {cs : List Slot}
    (hfree : a.free = c :: cs) (hpid : a.lastPid + 1 < 2 ^ 31) :
    ∃ k', k.step (.fork 0) = some k' ∧ Tidy M k' (a.spawn c cs hfree h.busy) t
      ∧ SharedPages.Joins (dataTable a k.mm)
        (dataTable (a.spawn c cs hfree h.busy) k'.mm) a.current c := by
  have hlen : numPagData ≤ (freeFrames k.mm.physMem).length := by
    rw [h.total]
    exact Nat.le_add_left _ _
  have hcc : a.current ≠ c := fun he => a.current_notMem.1 (hfree ▸ he ▸ List.mem_cons_self)
  have hdown : ((k.mm.withFrames c numPagData).forkPages a.current c).stuck = false := by
    rw [Mm.forkPages_withFrames k.mm hcc]
    dsimp only
    rw [h.follows.mm_down, Bool.false_or, List.any_eq_false]
    intro p hp
    rw [List.mem_range'_1] at hp
    obtain ⟨i, rfl⟩ := exists_dataPage hp.1 hp.2
    rw [decide_eq_true_iff, Nat.not_le]
    exact h.inOrder.lt a.current h.owner i
  obtain ⟨k', hst, hf, hk', -⟩ := Kernel.exists_fork h.follows hfree h.busy hlen hpid hdown
    ((h.counts.fork hcc).fit (by simp only [numPagData]; omega)) 0
  have hforked := table_forked (m := k.mm) hfree h.busy hlen
  rw [← hk'] at hforked
  refine ⟨k', hst, ⟨hf, hk' ▸ h.mapped.forkOk hfree h.busy, h.inOrder.forked hforked, h.busy, ?_,
    hk' ▸ (h.counts.fork hcc).mono (by simp only [numPagData]; omega)⟩, h.inOrder.joins hforked⟩
  have hdrop := h.inOrder.freeFrames_forked hforked
  rw [dataTable_count, dataTable_count] at hdrop
  rw [hdrop, List.length_drop, h.total, Nat.add_sub_cancel]

/-- **A write to a shared page** gives it a frame of its own. -/
theorem copy (h : Tidy M k a (t + 1)) (i : DataPage)
    (hrw : (dataTable a k.mm).writable a.current i = false)
    (hcount : 2 ≤ (dataTable a k.mm).count ((dataTable a k.mm).frame a.current i)) :
    ∃ cr2 k' g, k.step (.fault cr2) = some k' ∧ Tidy M k' a t
      ∧ SharedPages.Splits (dataTable a k.mm) (dataTable a k'.mm) a.current i g
      ∧ k'.cb = k.cb := by
  obtain ⟨h₁, h₂⟩ := dataPage_bounds i
  have hu := a.user_current h.busy
  obtain ⟨hpage, -⟩ := Mm.pageOf_page (dataPage_lt i)
  set cr2 := BitVec.ofNat 32 (dataPage i * pageSize)
  have hframe := h.inOrder.lt a.current h.owner i
  have hro : IsReadOnlyData (k.mm.pagusrTable a.current) (pageOf cr2) := by
    rw [hpage]
    exact ⟨h₁, h₂, ((h.mapped.user_table _ hu).data _ h₁ h₂).1, hrw⟩
  obtain ⟨k', hst, hf, hk', hcb⟩ := Kernel.exists_fault h.follows h.busy cr2 hro (hpage ▸ hframe)
    (hpage ▸ hcount)
  rw [hpage] at hk'
  obtain ⟨hc, -⟩ := table_copied h.mapped hu i hcount
  rw [← hk'] at hc
  have hnil : freeFrames (dataTable a k.mm).count ≠ [] := by
    intro hnil
    have htotal := h.total
    rw [show freeFrames k.mm.physMem = [] from hnil] at htotal
    exact absurd htotal.symm (Nat.succ_ne_zero t)
  obtain ⟨g, -, -, hs⟩ := h.inOrder.splits hc hnil
  have hfaulted : k.mm.Faulted a.current (dataPage i) k'.mm :=
    hk' ▸ Mm.Faulted.copied (dataPage_lt i) hframe hcount
  refine ⟨cr2, k', g, hst, ⟨hf, h.mapped.faulted hu hfaulted, h.inOrder.copied hc hnil, h.busy, ?_,
    fun j hj => ?_⟩, hs, hcb⟩
  · obtain ⟨g', gs, hfree⟩ := List.exists_cons_of_ne_nil hnil
    have htotal := h.total
    rw [show freeFrames k.mm.physMem = g' :: gs from hfree] at htotal
    have hphys : k'.mm.physMem = (allocFrame (lessOne (dataTable a k.mm) a.current i)).2 := hc.count
    have hless : freeFrames (lessOne (dataTable a k.mm) a.current i) = g' :: gs :=
      (InOrder.freeFrames_lessOne hcount).trans hfree
    rw [hphys, allocFrame_of_cons hless, freeFrames_update_one hless]
    exact Nat.succ_injective htotal
  · rw [hfaulted.shmMem]
    exact h.counts.mono (by omega) j hj

/-- **A yield** moves nothing. -/
theorem yield (h : Tidy M k a t) :
    ∃ k', k.step (.yield 0) = some k' ∧ Tidy M k' a.rotate t ∧ k'.mm = k.mm := by
  obtain ⟨k', hst, hf, hk', -⟩ := Kernel.exists_yield h.follows h.busy 0
  refine ⟨k', hst, ⟨hf, hk' ▸ h.mapped.rotate, ?_, busy_rotate h.busy, hk' ▸ h.total,
    hk' ▸ h.counts⟩, hk'⟩
  rw [hk']
  exact h.inOrder.calm (calm_of_eq (fun _ => Schedule.user_rotate) rfl (fun _ _ _ => rfl))

/-- The first fork. -/
theorem first (M : Machine) :
    ∃ k, M.boot.step (.fork 0) = some k ∧ Tidy M k firstFork 326
      ∧ SharedPages.Joins (dataTable bootSchedule M.boot.mm) (dataTable firstFork k.mm) 1 2 :=
  (boot M).fork rfl (by decide)

/-- **What the first fork leaves the first task**: a data page that is
read-only and used twice, and nothing in the shared region. -/
theorem first_shared (M : Machine) :
    ∃ k, M.boot.step (.fork 0) = some k ∧ Tidy M k firstFork 326
      ∧ IsReadOnlyData (k.mm.pagusrTable 1) (pageOf 0x108000#32)
      ∧ 2 ≤ k.mm.physMem (getFrame (k.mm.pagusrTable 1) (pageOf 0x108000#32))
      ∧ ∀ p, pagLogInitShared ≤ p → k.mm.pagusrTable 1 p = PageTableEntry.zero := by
  obtain ⟨k, hst, h, hj⟩ := first M
  obtain ⟨k', hst', -, hmm, -⟩ := exists_first_fork M 0
  obtain rfl := Option.some_inj.mp (hst.symm.trans hst')
  have hpage : pageOf 0x108000#32 = dataPage 0 := by decide
  refine ⟨k, hst, h, ?_, ?_, fun p hp => ?_⟩
  · rw [hmm]
    exact isReadOnlyData_of_forked (by decide) (by decide) (by decide)
      (((Mapped.boot M).user_table 1 (by decide)).data _ (by decide) (by decide)).1
  · -- the frame of the page has the parent and the child
    have hone := (inOrder_boot M).sound.count_pos hj.parent 0
    have htwo := hj.count 1 hj.parent 0
    rw [if_pos rfl] at htwo
    rw [← hj.frame 1 hj.parent 0] at hone htwo
    rw [hpage]
    show 2 ≤ (dataTable firstFork k.mm).count ((dataTable firstFork k.mm).frame 1 0)
    omega
  · rw [hmm, Mm.forkPages_withFrames _ (by decide)]
    dsimp only
    rw [if_neg (by decide), if_pos rfl, Mm.parentTable,
      if_neg (fun hc => Nat.not_le.mpr hc.2 hp)]
    exact boot_zero M hp

/-- **The first fork, and the first write of the parent**: its first data page
is its own. -/
theorem first_split (M : Machine) :
    ∃ k₁ cr2 k g, M.boot.step (.fork 0) = some k₁ ∧ k₁.step (.fault cr2) = some k
      ∧ Tidy M k firstFork 325 ∧ k.cb = M.boot.cb
      ∧ SharedPages.Joins (dataTable bootSchedule M.boot.mm) (dataTable firstFork k₁.mm) 1 2
      ∧ SharedPages.Splits (dataTable firstFork k₁.mm) (dataTable firstFork k.mm) 1 0 g := by
  obtain ⟨k₁, hst₁, h₁, hj⟩ := first M
  obtain ⟨k₁', hst₁', -, -, hcb₁⟩ := exists_first_fork M 0
  obtain rfl := Option.some_inj.mp (hst₁.symm.trans hst₁')
  have hcount : 2 ≤ (dataTable firstFork k₁.mm).count ((dataTable firstFork k₁.mm).frame 1 0) := by
    have hcount := hj.count 1 hj.parent 0
    have hpos := (inOrder_boot M).sound.count_pos hj.parent 0
    rw [if_pos rfl, ← hj.frame 1 hj.parent 0] at hcount
    rw [← hj.frame 1 hj.parent 0] at hpos
    omega
  have hrw : (dataTable firstFork k₁.mm).writable 1 0 = false :=
    Bool.eq_false_iff.mpr (fun hw => (hj.writable 1 hj.parent 0 hw).2 rfl)
  obtain ⟨cr2, k, g, hst, h, hs, hcb⟩ := h₁.copy (t := 325) 0 hrw hcount
  exact ⟨k₁, cr2, k, g, hst₁, hst, h, hcb.trans hcb₁, hj, hs⟩

/-- The shared frame of the first fork is one of the machine. -/
theorem first_frame_lt (h : Tidy M k firstFork 326) :
    getFrame (k.mm.pagusrTable 1) (pageOf 0x108000#32) < totalPages := by
  rw [show pageOf 0x108000#32 = dataPage 0 by decide]
  exact h.inOrder.lt 1 h.owner 0

end Tidy

/-! ## A frame used again -/

/-- The schedule in which the second child of the first task runs and the
first child has exited. -/
def reuseSchedule : Schedule :=
  (((firstFork.spawn 3 [4, 5, 6, 7, 8, 9] rfl (by decide)).rotate).spawn 4 [5, 6, 7, 8, 9] rfl
    (by decide)).retire (by decide)

theorem dataTable_rotate (a : Schedule) (m : Mm) : dataTable a.rotate m = dataTable a m := by
  have howners : Finset.univ.filter a.rotate.User = Finset.univ.filter a.User :=
    Finset.filter_congr (fun _ _ => Schedule.user_rotate)
  rw [dataTable, dataTable, howners]

/-- The moves of the data pages in such a run: process 1 forks 2, copies its
first page to `g` and forks 3; then 2 forks 4 and exits. -/
theorem freed_of_moves {t₀ t₁ t₂ t₃ t₄ t₅ : DataTable} {d g : ℕ}
    (j₁ : SharedPages.Joins t₀ t₁ 1 2) (s₂ : SharedPages.Splits t₁ t₂ 1 0 g)
    (j₃ : SharedPages.Joins t₂ t₃ 1 3) (j₄ : SharedPages.Joins t₃ t₄ 2 4) (x₅ : Exited t₄ t₅ 2)
    (hsound : t₄.Sound) (hd : t₀.frame 1 0 = d) (hlo : numPagKernel < d) (hhi : d < totalPages) :
    t₅.frame 3 0 = g ∧ t₅.count g = 2 ∧ t₅.writable 3 0 = false
      ∧ t₅.frame 4 0 = d ∧ t₅.count d = 0 := by
  -- who there is
  have hown₁ : (2 : Slot) ∈ t₁.owners := j₁.owners ▸ Finset.mem_insert_self _ _
  have hown₂ : (2 : Slot) ∈ t₂.owners := s₂.owners ▸ hown₁
  have hown₃ : (3 : Slot) ∈ t₃.owners := j₃.owners ▸ Finset.mem_insert_self _ _
  have hown₄ : (3 : Slot) ∈ t₄.owners := j₄.owners ▸ Finset.mem_insert_of_mem hown₃
  have hown₄' : (4 : Slot) ∈ t₄.owners := j₄.owners ▸ Finset.mem_insert_self _ _
  have hown₅ : (3 : Slot) ∈ t₅.owners :=
    x₅.owners ▸ Finset.mem_erase.mpr ⟨by decide, hown₄⟩
  have hown₅' : (4 : Slot) ∈ t₅.owners :=
    x₅.owners ▸ Finset.mem_erase.mpr ⟨by decide, hown₄'⟩
  -- what is behind their first pages
  have hd₁ : t₁.frame 2 0 = d := (j₁.frame_child 0).trans hd
  have hdg : d ≠ g := hd₁ ▸ s₂.fresh 2 hown₁ 0
  have hd₃ : t₃.frame 2 0 = d := by
    rw [j₃.frame 2 hown₂ 0, s₂.frame 2 hown₁ 0 (by decide), hd₁]
  have hg₃ : t₃.frame 3 0 = g := (j₃.frame_child 0).trans s₂.frame_self
  have hd₄ : t₄.frame 2 0 = d := (j₄.frame 2 j₄.parent 0).trans hd₃
  have hg₄ : t₄.frame 3 0 = g := (j₄.frame 3 hown₃ 0).trans hg₃
  -- the count of the new frame
  have hcount₃ : t₃.count g = 2 := by
    have hcount := j₃.count 1 j₃.parent 0
    rwa [if_pos rfl, s₂.frame_self, s₂.count_self] at hcount
  have hcount₄ : t₄.count g = 2 := by
    have hcount := j₄.count 3 hown₃ 0
    rwa [hg₃, hd₃, if_neg hdg, hcount₃] at hcount
  have hrw₄ : t₄.writable 3 0 = false := by
    refine Bool.eq_false_iff.mpr (fun hw => ?_)
    have hw₃ := (j₄.writable 3 hown₃ 0 hw).1
    rw [j₃.writable_child 0] at hw₃
    exact Bool.false_ne_true hw₃
  -- the exit frees what the process that leaves maps
  have hmem : d ∈ frames t₄ 2 := mem_frames.mpr ⟨0, hd₄⟩
  have hnot : g ∉ frames t₄ 2 := by
    intro hg
    obtain ⟨i, hi⟩ := mem_frames.mp hg
    obtain rfl := hsound.page_eq 2 x₅.owner 3 hown₄ i 0 (hi.trans hg₄.symm)
    exact hdg (hd₄.symm.trans hi)
  refine ⟨(x₅.frame 3 hown₅ 0).trans hg₄, ?_, (x₅.writable 3 hown₅ 0).trans hrw₄, ?_, ?_⟩
  · rw [x₅.count, freeAll_apply, if_neg (fun hc => hnot hc.1), hcount₄]
  · rw [x₅.frame 4 hown₅' 0, j₄.frame_child 0, hd₃]
  · rw [x₅.count, freeAll_apply, if_pos ⟨hmem, hlo, hhi⟩]

/-- The first frame past those of the code is the first free one, if it is
free. -/
theorem head?_freeFrames {M : Machine} {a : Schedule} {m : Mm} (h : Mapped M a m)
    (h0 : m.physMem 272 = 0) : (freeFrames m.physMem).head? = some 272 := by
  have hscan : frameScan = List.range' 256 8 2 ++ 272 :: List.range' 274 375 2 := by
    rw [show 272 :: List.range' 274 375 2 = List.range' (256 + 2 * 8) 376 2 from rfl,
      List.range'_append]
    rfl
  have hnil : (List.range' 256 8 2).filter (fun f => decide (m.physMem f = freeFrameMark)) = [] :=
    List.filter_eq_nil_iff.mpr (fun f hf => by simpa [freeFrameMark] using h.code_used f hf)
  have h0' : decide (m.physMem 272 = freeFrameMark) = true := decide_eq_true h0
  rw [freeFrames, hscan, List.filter_append, hnil, List.nil_append, List.filter_cons, if_pos h0',
    List.head?_cons]

/-- **A frame freed while it is mapped**: the first task forks, writes to its
first data page and forks again; its first child then forks and exits. The
page that was written is shared with the second child, and the frame both
left behind is free and behind a page of the grandchild. -/
theorem exists_freed (M : Machine) :
    ∃ k f, Reachable M k ∧ k.Follows reuseSchedule ∧ Mapped M reuseSchedule k.mm
      ∧ getFrame (k.mm.pagusrTable 3) (dataPage 0) = f ∧ f < totalPages ∧ k.mm.physMem f = 2
      ∧ (k.mm.pagusrTable 3 (dataPage 0)).rw = false
      ∧ (freeFrames k.mm.physMem).head? = some 272
      ∧ getFrame (k.mm.pagusrTable 4) (dataPage 0) = 272 := by
  obtain ⟨k₁, cr2, k₂, g, hst₁, hst₂, h₂, -, j₁, s₂⟩ := Tidy.first_split M
  have hd : (dataTable bootSchedule M.boot.mm).frame 1 0 = 272 := frame_boot M 0
  obtain ⟨k₃, hst₃, h₃, j₃⟩ := h₂.fork (t := 305)
    (show firstFork.free = 3 :: [4, 5, 6, 7, 8, 9] from rfl) (by decide)
  obtain ⟨k₄, hst₄, h₄, hk₄⟩ := h₃.yield
  have hlast : (firstFork.spawn 3 [4, 5, 6, 7, 8, 9] rfl h₂.busy).rotate.lastPid = 1002 := by
    rw [(Schedule.rotate_eq _).2.2.2.1]
    rfl
  obtain ⟨k₅, hst₅, h₅, j₅⟩ := h₄.fork (t := 285)
    (show (Schedule.rotate _).free = 4 :: [5, 6, 7, 8, 9] from rfl) (by rw [hlast]; decide)
  obtain ⟨k₆, hst₆, hf₆, hk₆, -⟩ := Kernel.exists_exit h₅.follows h₅.busy
    ((Mm.exitPages_dropped k₅.mm _).stuck.trans h₅.follows.mm_down)
    ((h₅.counts.exit _).fit (by decide)) 0
  have x₆ := table_exited (m := k₅.mm) h₅.busy
  have hm₆ := h₅.mapped.exit h₅.busy
  rw [← hk₆] at x₆ hm₆
  rw [hk₄, dataTable_rotate] at j₅
  obtain ⟨hg, hcount, hrw, hd', hfree⟩ := freed_of_moves j₁ s₂ j₃ j₅ x₆ h₅.inOrder.sound hd
    (by decide) (by decide)
  have hu : reuseSchedule.User 3 := by decide
  have hpage : getFrame (k₆.mm.pagusrTable 3) (dataPage 0) = g := hg
  have hlt : g < totalPages := by
    rw [← s₂.frame_self]
    exact h₂.inOrder.lt 1 h₂.owner 0
  exact ⟨k₆, g, ⟨_, (((((Run.single trivial hst₁).snoc trivial hst₂).snoc trivial hst₃).snoc
    trivial hst₄).snoc trivial hst₅).snoc trivial hst₆⟩, hf₆, hm₆, hpage, hlt, hcount, hrw,
    head?_freeFrames hm₆ hfree, hd'⟩

end ZeOS.Practica
