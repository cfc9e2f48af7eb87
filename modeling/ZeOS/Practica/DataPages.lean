import ZeOS.SharedPages
import ZeOS.Practica.Tables

/-!
# Data pages as a table of shared pages

The data pages of the user processes, the frames behind them and the byte
map as their counts are a table of shared pages. A step of the system
changes it in one of four ways: hardly at all; a page is copied to a new
frame; a child joins its parent, and the frames allocated for it are left
marked; a process leaves, and its frames are freed whoever else has them.
The table is in order as long as every copy finds a frame and no process
leaves that shares one.
-/

namespace ZeOS.Practica

/-- A data page. -/
abbrev DataPage := Fin numPagData

/-- The logical page of a data page. -/
def dataPage (i : DataPage) : ℕ := pagLogInitData + i

theorem dataPage_bounds (i : DataPage) :
    pagLogInitData ≤ dataPage i ∧ dataPage i < pagLogInitShared :=
  ⟨Nat.le_add_right _ _, Nat.add_lt_add_left i.isLt _⟩

theorem dataPage_lt (i : DataPage) : dataPage i < totalPages :=
  (dataPage_bounds i).2.trans (by decide)

theorem dataPage_injective : Function.Injective dataPage := by
  intro i j h
  exact Fin.ext (Nat.add_left_cancel h)

theorem exists_dataPage {p : ℕ} (h₁ : pagLogInitData ≤ p) (h₂ : p < pagLogInitShared) :
    ∃ i, dataPage i = p := by
  replace h₂ : p < 284 := h₂
  replace h₁ : 264 ≤ p := h₁
  refine ⟨⟨p - 264, by show p - 264 < 20; omega⟩, ?_⟩
  show 264 + (p - 264) = p
  omega

theorem dataPages_eq : dataPages = (List.finRange numPagData).map dataPage := by decide

abbrev DataTable := SharedPages Slot DataPage ℕ

/-- **The data pages of a state.** -/
def dataTable (a : Schedule) (m : Mm) : DataTable where
  owners := Finset.univ.filter a.User
  frame s i := getFrame (m.pagusrTable s) (dataPage i)
  writable s i := (m.pagusrTable s (dataPage i)).rw
  count := m.physMem

theorem mem_owners {a : Schedule} {m : Mm} {s : Slot} :
    s ∈ (dataTable a m).owners ↔ a.User s := by
  rw [dataTable, Finset.mem_filter]
  exact and_iff_right (Finset.mem_univ s)

@[simp] theorem dataTable_frame (a : Schedule) (m : Mm) (s : Slot) (i : DataPage) :
    (dataTable a m).frame s i = (m.pagusrTable s (dataPage i)).frame := rfl

@[simp] theorem dataTable_writable (a : Schedule) (m : Mm) (s : Slot) (i : DataPage) :
    (dataTable a m).writable s i = (m.pagusrTable s (dataPage i)).rw := rfl

@[simp] theorem dataTable_count (a : Schedule) (m : Mm) : (dataTable a m).count = m.physMem := rfl

/-- The frames of a process, page by page. -/
def frames (t : DataTable) (p : Slot) : List ℕ := (List.finRange numPagData).map (t.frame p)

theorem mem_frames {t : DataTable} {p : Slot} {f : ℕ} : f ∈ frames t p ↔ ∃ i, t.frame p i = f := by
  rw [frames, List.mem_map]
  exact ⟨fun ⟨i, _, h⟩ => ⟨i, h⟩, fun ⟨i, h⟩ => ⟨i, List.mem_finRange i, h⟩⟩

theorem frames_dataTable (a : Schedule) (m : Mm) (s : Slot) :
    dataPages.map (getFrame (m.pagusrTable s)) = frames (dataTable a m) s := by
  rw [dataPages_eq, List.map_map]
  rfl

/-! ## The four moves -/

variable {t t' : DataTable} {p c : Slot} {i : DataPage}

/-- Nothing but the right to write has changed, and that only of pages whose
frame has count one. -/
structure Calm (t t' : DataTable) : Prop where
  owners : t'.owners = t.owners
  frame : ∀ q ∈ t.owners, ∀ i, t'.frame q i = t.frame q i
  count : t'.count = t.count
  writable : ∀ q ∈ t.owners, ∀ i, t'.writable q i = true →
    t.writable q i = true ∨ t.count (t.frame q i) = 1

/-- The byte map the fault handler allocates from. -/
abbrev lessOne (t : DataTable) (p : Slot) (i : DataPage) : PhysMem :=
  Function.update t.count (t.frame p i) (t.count (t.frame p i) - 1)

/-- A page copied to the next free frame, or to none. -/
structure Copied (t t' : DataTable) (p : Slot) (i : DataPage) : Prop where
  owner : p ∈ t.owners
  shared : 2 ≤ t.count (t.frame p i)
  owners : t'.owners = t.owners
  frame_self : t'.frame p i = nextFrame (lessOne t p i)
  frame : ∀ q ∈ t.owners, ∀ j, ¬ (q = p ∧ j = i) → t'.frame q j = t.frame q j
  count : t'.count = (allocFrame (lessOne t p i)).2
  writable : ∀ q ∈ t.owners, ∀ j, ¬ (q = p ∧ j = i) → t'.writable q j = t.writable q j

/-- A child with the frames of its parent. The frames allocated for it stay
marked. -/
structure Forked (t t' : DataTable) (p c : Slot) : Prop where
  parent : p ∈ t.owners
  child : c ∉ t.owners
  enough : numPagData ≤ (freeFrames t.count).length
  owners : t'.owners = insert c t.owners
  frame : ∀ q ∈ t.owners, ∀ i, t'.frame q i = t.frame q i
  frame_child : ∀ i, t'.frame c i = t.frame p i
  count : t'.count
    = addCounts (markUsed t.count ((freeFrames t.count).take numPagData)) (frames t p)
  writable : ∀ q ∈ t.owners, ∀ i, t'.writable q i = true → t.writable q i = true ∧ q ≠ p
  writable_child : ∀ i, t'.writable c i = false

/-- A process gone, its frames freed. -/
structure Exited (t t' : DataTable) (p : Slot) : Prop where
  owner : p ∈ t.owners
  owners : t'.owners = t.owners.erase p
  frame : ∀ q ∈ t'.owners, ∀ i, t'.frame q i = t.frame q i
  count : t'.count = freeAll t.count (frames t p)
  writable : ∀ q ∈ t'.owners, ∀ i, t'.writable q i = t.writable q i

/-! ## A table in order stays in order -/

/-- **The data pages are in order**: shared as they should be, and behind
each there is a frame of the machine. -/
structure InOrder (t : DataTable) : Prop where
  sound : t.Sound
  lt : ∀ p ∈ t.owners, ∀ i, t.frame p i < totalPages

namespace InOrder

/-- A frame in use is not one the allocator hands out. -/
theorem notMem_freeFrames (h : InOrder t) (hp : p ∈ t.owners) (i : DataPage) :
    t.frame p i ∉ freeFrames t.count := by
  intro hm
  have hpos := h.sound.count_pos hp i
  rw [(mem_freeFrames.mp hm).2] at hpos
  exact lt_irrefl 0 hpos

/-- A count is at most the number of slots. -/
theorem count_le (h : InOrder t) (hp : p ∈ t.owners) (i : DataPage) :
    t.count (t.frame p i) ≤ nrTasks := by
  have hle := h.sound.count_le hp i
  rwa [Fintype.card_fin] at hle

theorem calm (h : InOrder t) (hc : Calm t t') : InOrder t' where
  sound := h.sound.congr hc.owners hc.frame (fun _ _ _ => by rw [hc.count]) hc.writable
  lt q hq j := by
    rw [hc.owners] at hq
    rw [hc.frame q hq]
    exact h.lt q hq j

/-- The free frames do not change when a count goes down from two or more. -/
theorem freeFrames_lessOne (hshared : 2 ≤ t.count (t.frame p i)) :
    freeFrames (lessOne t p i) = freeFrames t.count :=
  freeFrames_countDown hshared

/-- The frame a copy finds, where there is one. -/
theorem exists_nextFrame (hshared : 2 ≤ t.count (t.frame p i)) (hfree : freeFrames t.count ≠ []) :
    ∃ g ∈ freeFrames t.count, nextFrame (lessOne t p i) = g
      ∧ (allocFrame (lessOne t p i)).2 = Function.update (lessOne t p i) g 1 := by
  rcases nextFrame_cases (lessOne t p i) with ⟨g, gs, hg, hn, hal⟩ | ⟨hnil, -, -⟩
  · rw [freeFrames_lessOne hshared] at hg
    exact ⟨g, hg ▸ List.mem_cons_self, hn, hal⟩
  · rw [freeFrames_lessOne hshared] at hnil
    exact absurd hnil hfree

/-- **A copy that finds a frame** gives the page a frame of its own. -/
theorem splits (h : InOrder t) (hc : Copied t t' p i) (hfree : freeFrames t.count ≠ []) :
    ∃ g ∈ freeFrames t.count, g = nextFrame (lessOne t p i) ∧ SharedPages.Splits t t' p i g := by
  obtain ⟨g, hg, hn, hal⟩ := exists_nextFrame hc.shared hfree
  have hfresh : ∀ q ∈ t.owners, ∀ j, t.frame q j ≠ g := by
    rintro q hq j rfl
    exact h.notMem_freeFrames hq j hg
  refine ⟨g, hg, hn.symm, hc.owner, hfresh, hc.owners, hc.frame_self.trans hn, hc.frame, ?_, ?_,
    fun q hq j hne => ?_, hc.writable⟩
  · rw [hc.count, hal, Function.update_self]
  · rw [hc.count, hal, Function.update_of_ne (hfresh p hc.owner i), lessOne,
      Function.update_self]
  · rw [hc.count, hal, Function.update_of_ne (hfresh q hq j), lessOne,
      Function.update_of_ne hne]

theorem copied (h : InOrder t) (hc : Copied t t' p i) (hfree : freeFrames t.count ≠ []) :
    InOrder t' := by
  obtain ⟨g, hg, -, hs⟩ := h.splits hc hfree
  refine ⟨hs.sound h.sound, fun q hq j => ?_⟩
  rw [hs.owners] at hq
  by_cases hqi : q = p ∧ j = i
  · rw [hqi.1, hqi.2, hs.frame_self]
    exact (mem_frameScan.mp (mem_freeFrames.mp hg).1).2.1
  · rw [hs.frame q hq j hqi]
    exact h.lt q hq j

/-- **A fork** adds an owner. -/
theorem joins (h : InOrder t) (hf : Forked t t' p c) : SharedPages.Joins t t' p c := by
  refine ⟨hf.parent, hf.child, hf.owners, hf.frame, hf.frame_child, fun q hq i => ?_, hf.writable,
    hf.writable_child⟩
  have hnd : (frames t p).Nodup :=
    (List.nodup_finRange _).map (fun i j he => h.sound.page_eq p hf.parent p hf.parent i j he)
  have hmark : markUsed t.count ((freeFrames t.count).take numPagData) (t.frame q i)
      = t.count (t.frame q i) :=
    if_neg (fun hm => h.notMem_freeFrames hq i (List.mem_of_mem_take hm))
  have hle := h.count_le hq i
  replace hle : t.count (t.frame q i) ≤ 10 := hle
  rw [hf.count]
  split_ifs with hp
  · rw [addCounts_of_mem hnd (mem_frames.mpr ⟨i, hp⟩), hmark]
    omega
  · rw [addCounts_of_notMem, hmark, Nat.add_zero]
    intro hm
    obtain ⟨j, hj⟩ := mem_frames.mp hm
    obtain rfl := h.sound.page_eq p hf.parent q hq j i hj
    exact hp hj

theorem forked (h : InOrder t) (hf : Forked t t' p c) : InOrder t' := by
  refine ⟨(h.joins hf).sound h.sound, fun q hq j => ?_⟩
  obtain ⟨r, hr, -, -, he⟩ := (h.joins hf).exists_frame hq
  rw [he]
  exact h.lt r hr j

/-- **An exit** of a process that shares no data page. -/
theorem exited (h : InOrder t) (he : Exited t t' p)
    (hapart : ∀ q ∈ t.owners, q ≠ p → ∀ i j, t.frame q i ≠ t.frame p j) : InOrder t' := by
  have hmem : ∀ q ∈ t'.owners, q ∈ t.owners ∧ q ≠ p := by
    intro q hq
    rw [he.owners, Finset.mem_erase] at hq
    exact ⟨hq.2, hq.1⟩
  refine ⟨SharedPages.Leaves.sound ⟨he.owners, he.frame, fun q hq i => ?_, he.writable⟩ h.sound
    (fun q hq i => hapart q (hmem q hq).1 (hmem q hq).2 i i), fun q hq j => ?_⟩
  · rw [he.count, freeAll_apply, if_neg]
    rintro ⟨hm, -⟩
    obtain ⟨j, hj⟩ := mem_frames.mp hm
    exact hapart q (hmem q hq).1 (hmem q hq).2 i j hj.symm
  · rw [he.frame q hq]
    exact h.lt q (hmem q hq).1 j

end InOrder

/-! ## What the steps do to the table -/

section Steps

variable {M : Machine} {a a' : Schedule} {m m' : Mm}

/-- What the idle task maps. -/
theorem Mapped.idle_frame_lt (h : Mapped M a m) {p : ℕ}
    (hpres : (m.pagusrTable a.idle p).present = true) :
    (m.pagusrTable a.idle p).frame < numPagKernel := by
  rw [h.idle_table] at hpres ⊢
  by_cases hp : 1 ≤ p ∧ p < numPagKernel
  · rw [initTablePages, if_pos hp]
    show (BitVec.ofNat 20 p).toNat < numPagKernel
    rw [BitVec.toNat_ofNat]
    exact (Nat.mod_le p _).trans_lt hp.2
  · rw [initTablePages, if_neg hp] at hpres
    exact absurd hpres (by decide)

/-- **Every page but the data pages of a process maps a fixed frame.** -/
theorem Mapped.fixed_or_data (h : Mapped M a m) {s : Slot} (hs : a.Live s) {p : ℕ}
    (hp : p < totalPages) (hpres : (m.pagusrTable s p).present = true) :
    Fixed (m.pagusrTable s p).frame ∨ a.User s ∧ ∃ i, dataPage i = p := by
  rcases (a.live_iff_user s).mp hs with hu | rfl
  · have hut := h.user_table s hu
    rcases Nat.lt_or_ge p numPagKernel with h₁ | h₁
    · exact Or.inl ((hut.low p h₁).elim Or.inl (fun h => h.2.fixed))
    rcases Nat.lt_or_ge p pagLogInitData with h₂ | h₂
    · exact Or.inl (Or.inr (Or.inl ⟨p, h₁, h₂, (hut.code p h₁ h₂).2.2⟩))
    rcases Nat.lt_or_ge p pagLogInitShared with h₃ | h₃
    · exact Or.inr ⟨hu, exists_dataPage h₂ h₃⟩
    · rcases h.shared s p h₃ hp with ⟨hnot, -⟩ | ⟨-, -, -, hshm⟩
      · rw [hpres] at hnot
        exact absurd hnot (by decide)
      · exact Or.inl hshm.fixed
  · exact Or.inl (Or.inl (h.idle_frame_lt hpres))

/-- The table is made of the processes, the byte map and the entries of the
data pages. -/
theorem calm_of_eq (husers : ∀ s, a'.User s ↔ a.User s) (hphys : m'.physMem = m.physMem)
    (htab : ∀ s, a.User s → ∀ i,
      m'.pagusrTable s (dataPage i) = m.pagusrTable s (dataPage i)) :
    Calm (dataTable a m) (dataTable a' m') where
  owners := Finset.filter_congr (fun s _ => husers s)
  frame s hs i := by rw [dataTable_frame, dataTable_frame, htab s (mem_owners.mp hs)]
  count := hphys
  writable s hs i hw := by
    left
    rwa [dataTable_writable, htab s (mem_owners.mp hs)] at hw

/-- **A shared page copied** with what it holds. -/
theorem table_copied (h : Mapped M a m) {s : Slot} (hs : a.User s) (i : DataPage)
    (hcount : 2 ≤ m.physMem (getFrame (m.pagusrTable s) (dataPage i))) :
    Copied (dataTable a m) (dataTable a (m.copyOnWrite s s (dataPage i))) s i
      ∧ (m.copyOnWrite s s (dataPage i)).ram = fun loc =>
          if loc.1 = (dataTable a (m.copyOnWrite s s (dataPage i))).frame s i
              ∧ loc.2 < pageSize then
            m.ram ((dataTable a m).frame s i, loc.2)
          else m.ram loc := by
  obtain ⟨hd₁, hd₂⟩ := dataPage_bounds i
  have hpres := ((h.user_table s hs).data _ hd₁ hd₂).1
  have hne : ∀ j, dataPage j ≠ paginaAUsar := fun j => ne_paginaAUsar (dataPage_bounds j).2
  have hless : Function.update m.physMem (getFrame (m.pagusrTable s) (dataPage i))
        (m.physMem (getFrame (m.pagusrTable s) (dataPage i)) - 1)
      = lessOne (dataTable a m) s i := rfl
  have heq := Mm.copyOnWrite_eq (dataPage_lt i) (hne i) hpres
  dsimp only at heq
  rw [hless] at heq
  generalize m.copyOnWrite s s (dataPage i) = m₂ at heq
  have hphys : m₂.physMem = (allocFrame (lessOne (dataTable a m) s i)).2 := by rw [heq]
  have hram : m₂.ram = fun loc =>
      if loc.1 = nextFrame (lessOne (dataTable a m) s i) ∧ loc.2 < pageSize then
        m.ram ((m.pagusrTable s (dataPage i)).frame, loc.2)
      else m.ram loc := by
    rw [heq]
    rfl
  have hself : ∀ j, m₂.pagusrTable s (dataPage j)
      = if j = i then PageTableEntry.mapping (allocFrame (lessOne (dataTable a m) s i)).1
        else m.pagusrTable s (dataPage j) := by
    intro j
    rw [heq]
    dsimp only
    rw [Mm.setTable_apply, if_pos rfl, privateTable, if_neg (hne j)]
    by_cases hji : j = i
    · rw [if_pos (by rw [hji]), if_pos hji]
    · rw [if_neg (fun hc => hji (dataPage_injective hc)), if_neg hji]
  have hentry : ∀ q j, ¬ (q = s ∧ j = i) →
      m₂.pagusrTable q (dataPage j) = m.pagusrTable q (dataPage j) := by
    intro q j hqj
    by_cases hq : q = s
    · subst hq
      rw [hself, if_neg (fun hc => hqj ⟨rfl, hc⟩)]
    · rw [heq]
      exact congrFun ((Mm.setTable_apply m s _ q).trans (if_neg hq)) _
  have hnew : (dataTable a m₂).frame s i = nextFrame (lessOne (dataTable a m) s i) := by
    rw [dataTable_frame, hself, if_pos rfl, nextFrame]
    rfl
  refine ⟨⟨mem_owners.mpr hs, hcount, rfl, hnew, fun q _ j hqj => ?_, hphys,
    fun q _ j hqj => ?_⟩, ?_⟩
  · rw [dataTable_frame, dataTable_frame, hentry q j hqj]
  · rw [dataTable_writable, dataTable_writable, hentry q j hqj]
  · rw [hnew, dataTable_frame]
    exact hram

/-- **A page fault**: a page is opened, or copied with what it holds. -/
theorem table_faulted (h : Mapped M a m) {s : Slot} (hs : a.User s) {p : ℕ} {m₁ : Mm}
    (hf : m.Faulted s p m₁) :
    Calm (dataTable a m) (dataTable a m₁) ∧ m₁.ram = m.ram
      ∨ ∃ i, dataPage i = p ∧ Copied (dataTable a m) (dataTable a m₁) s i
          ∧ (dataTable a m).frame s i < totalPages
          ∧ m₁.ram = fun loc =>
              if loc.1 = (dataTable a m₁).frame s i ∧ loc.2 < pageSize then
                m.ram ((dataTable a m).frame s i, loc.2)
              else m.ram loc := by
  cases hf with
  | opened hp hcount =>
    refine Or.inl ⟨⟨rfl, fun t ht i => ?_, rfl, fun t ht i hw => ?_⟩, rfl⟩
    · rw [dataTable_frame, dataTable_frame, Mm.setTable_apply]
      split_ifs with hts
      · rw [hts, setRw_apply]
        split_ifs <;> rfl
      · rfl
    · rw [dataTable_writable, Mm.setTable_apply] at hw
      split_ifs at hw with hts
      · rw [setRw_apply] at hw
        split_ifs at hw with hip
        · right
          rw [dataTable_count, dataTable_frame, hts, hip]
          exact hcount
        · left
          rw [dataTable_writable, hts]
          exact hw
      · exact Or.inl hw
  | copied hp hframe hcount =>
    obtain ⟨hd₁, hd₂⟩ := h.data_of_count hs hp hcount
    obtain ⟨i, rfl⟩ := exists_dataPage hd₁ hd₂
    obtain ⟨hc, hram⟩ := table_copied h hs i hcount
    exact Or.inr ⟨i, rfl, hc, hframe, hram⟩

/-- **A successful fork.** -/
theorem table_forked {c : Slot} {cs : List Slot} (hfree : a.free = c :: cs)
    (hidle : a.current ≠ a.idle) (hlen : numPagData ≤ (freeFrames m.physMem).length) :
    Forked (dataTable a m)
      (dataTable (a.spawn c cs hfree hidle) ((m.withFrames c numPagData).forkPages a.current c))
      a.current c := by
  have hcfree : c ∈ a.free := hfree ▸ List.mem_cons_self
  have hcc : a.current ≠ c := fun he => a.current_notMem.1 (he ▸ hcfree)
  have hcur := a.user_current hidle
  have hcnot : ¬ a.User c := fun hu => hu.1 hcfree
  have heq := Mm.forkPages_withFrames m hcc
  generalize (m.withFrames c numPagData).forkPages a.current c = m₂ at heq
  have hphys : m₂.physMem = addCounts (markUsed m.physMem ((freeFrames m.physMem).take numPagData))
      (frames (dataTable a m) a.current) := by
    rw [heq, frames_dataTable]
  have htab : ∀ s, m₂.pagusrTable s
      = if s = c then Mm.childTable (m.pagusrTable a.current) (m.pagusrTable c)
        else if s = a.current then Mm.parentTable (m.pagusrTable a.current)
        else m.pagusrTable s := by
    intro s
    rw [heq]
  have hchild : ∀ i, m₂.pagusrTable c (dataPage i)
      = (m.pagusrTable a.current (dataPage i)).readOnly := by
    intro i
    obtain ⟨h₁, h₂⟩ := dataPage_bounds i
    rw [htab, if_pos rfl, Mm.childTable, if_neg (Nat.not_lt.mpr h₁), if_pos h₂]
  have hparent : ∀ i, m₂.pagusrTable a.current (dataPage i)
      = { m.pagusrTable a.current (dataPage i) with rw := false } := by
    intro i
    rw [htab, if_neg hcc, if_pos rfl, Mm.parentTable, if_pos (dataPage_bounds i)]
  have hother : ∀ s, a.User s → s ≠ a.current → m₂.pagusrTable s = m.pagusrTable s := by
    intro s hs hsa
    have hsc : s ≠ c := fun he => hcnot (he ▸ hs)
    rw [htab, if_neg hsc, if_neg hsa]
  refine ⟨mem_owners.mpr hcur, fun hc => hcnot (mem_owners.mp hc), ?_, ?_, fun s hs i => ?_,
    fun i => ?_, ?_, fun s hs i hw => ?_, fun i => ?_⟩
  · rwa [dataTable_count]
  · ext s
    rw [Finset.mem_insert, mem_owners, mem_owners, Schedule.user_spawn, or_comm]
  · rw [dataTable_frame, dataTable_frame]
    by_cases hsa : s = a.current
    · rw [hsa, hparent]
    · rw [hother s (mem_owners.mp hs) hsa]
  · rw [dataTable_frame, dataTable_frame, hchild]
    rfl
  · rw [dataTable_count, dataTable_count]
    exact hphys
  · rw [dataTable_writable] at hw
    by_cases hsa : s = a.current
    · rw [hsa, hparent] at hw
      exact absurd hw Bool.false_ne_true
    · rw [hother s (mem_owners.mp hs) hsa] at hw
      exact ⟨hw, hsa⟩
  · rw [dataTable_writable, hchild]
    rfl

/-- **An exit.** -/
theorem table_exited (hidle : a.current ≠ a.idle) :
    Exited (dataTable a m) (dataTable (a.retire hidle) (m.exitPages a.current)) a.current := by
  have hd := Mm.exitPages_dropped m a.current
  have hother : ∀ s, s ≠ a.current → (m.exitPages a.current).pagusrTable s = m.pagusrTable s :=
    fun _ => Mm.exitPages_other
  have howners : (dataTable (a.retire hidle) (m.exitPages a.current)).owners
      = (dataTable a m).owners.erase a.current := by
    ext s
    rw [Finset.mem_erase, mem_owners, mem_owners, Schedule.user_retire, and_comm]
  have hne : ∀ s ∈ (dataTable (a.retire hidle) (m.exitPages a.current)).owners,
      s ≠ a.current := by
    intro s hs
    rw [howners] at hs
    exact Finset.ne_of_mem_erase hs
  refine ⟨mem_owners.mpr (a.user_current hidle), howners, fun s hs i => ?_, ?_,
    fun s hs i => ?_⟩
  · rw [dataTable_frame, dataTable_frame, hother s (hne s hs)]
  · rw [← frames_dataTable, dataTable_count, dataTable_count, hd.physMem]
  · rw [dataTable_writable, dataTable_writable, hother s (hne s hs)]

/-- **What a step does to the data pages**, and which step it is. -/
inductive DataStep (a : Schedule) (t : DataTable) : Event → DataTable → Prop
  | calm (e : Event) (t' : DataTable) (h : Calm t t') : DataStep a t e t'
  | fault (cr2 : DWord) (i : DataPage) (t' : DataTable) (hi : dataPage i = pageOf cr2)
      (h : Copied t t' a.current i) : DataStep a t (.fault cr2) t'
  | store (addr : DWord) (b : Byte) (i : DataPage) (t' : DataTable)
      (hi : dataPage i = pageOf addr) (h : Copied t t' a.current i) :
      DataStep a t (.store addr b) t'
  | fork (ebp : DWord) (c : Slot) (t' : DataTable) (hc : c ∈ a.free)
      (h : Forked t t' a.current c) : DataStep a t (.fork ebp) t'
  | exit (ebp : DWord) (t' : DataTable) (h : Exited t t' a.current) : DataStep a t (.exit ebp) t'

/-- The entry of one page that is no data page has been replaced. -/
theorem calm_setTable (page : ℕ) (hpage : ∀ i, dataPage i ≠ page) {pt : PageTable}
    (hpt : ∀ p, p ≠ page → pt p = m.pagusrTable a.current p) (hphys : m'.physMem = m.physMem)
    (htab : m'.pagusrTable = (m.setTable a.current pt).pagusrTable) :
    Calm (dataTable a m) (dataTable a m') := by
  refine calm_of_eq (fun _ => Iff.rfl) hphys (fun s _ i => ?_)
  rw [htab, Mm.setTable_apply]
  split_ifs with hsa
  · rw [hsa, hpt _ (hpage i)]
  · rfl

/-- **The step lemma.** -/
theorem dataStep_of_outcome (h : Mapped M a m) {e : Event}
    (hen : e.byTask = true → a.current ≠ a.idle) (ho : Outcome a m e a' m')
    (hdown : m'.stuck = false) : DataStep a (dataTable a m) e (dataTable a' m') := by
  have hsame : Calm (dataTable a m) (dataTable a m) :=
    calm_of_eq (fun _ => Iff.rfl) rfl (fun _ _ _ => rfl)
  have hrotate : Calm (dataTable a m) (dataTable a.rotate m) :=
    calm_of_eq (fun _ => Schedule.user_rotate) rfl (fun _ _ _ => rfl)
  cases ho with
  | stay | key | load | store | forkNone | read | getStats => exact .calm _ _ hsame
  | switch | yield => exact .calm _ _ hrotate
  | storeFault addr b m₁ loc hcan hfault =>
    rcases table_faulted h (a.user_current (hen rfl)) hfault with ⟨hc, -⟩ | ⟨i, hi, hc, -⟩
    · exact .calm _ _ hc
    · exact .store addr b i _ hi hc
  | fault cr2 m₁ hcan hfault =>
    rcases table_faulted h (a.user_current (hen rfl)) hfault with ⟨hc, -⟩ | ⟨i, hi, hc, -⟩
    · exact .calm _ _ hc
    · exact .fault cr2 i _ hi hc
  | forkFail ebp c cs hfree hlen =>
    rw [h.forkFail_mm (hfree ▸ List.mem_cons_self) hlen]
    exact .calm _ _ (calm_of_eq (fun _ => Schedule.user_giveUp hfree) rfl (fun _ _ _ => rfl))
  | forkOk ebp c cs hfree hidle hlen =>
    exact .fork ebp c _ (hfree ▸ List.mem_cons_self) (table_forked hfree hidle hlen)
  | exit ebp hidle => exact .exit ebp _ (table_exited hidle)
  | shmat id addr =>
    rcases Mm.sysShmat_cases hdown with he | ⟨i, page, hi, -, hpres, -, -, he⟩
    · rw [he]
      exact .calm _ _ hsame
    · rw [he]
      refine .calm _ _ (calm_setTable page (fun j hj => ?_) (fun p hp => ?_) rfl rfl)
      · -- a data page is present
        have hd := dataPage_bounds j
        rw [hj] at hd
        rw [((h.user_table _ (a.user_current (hen rfl))).data page hd.1 hd.2).1] at hpres
        exact absurd hpres (by decide)
      · rw [setSsPag_apply, if_neg hp]
  | shmdt addr =>
    rcases Mm.sysShmdt_cases hdown with ⟨-, he⟩ | ⟨i, hseg, ⟨-, he⟩ | ⟨-, ram, he⟩⟩
    · rw [he]
      exact .calm _ _ hsame
    · rw [he]
      exact .calm _ _ (calm_of_eq (fun _ => Iff.rfl) rfl (fun _ _ _ => rfl))
    · rw [he]
      obtain ⟨-, -, -, hpage⟩ := h.page_of_segment (a.user_current (hen rfl)) hseg
      refine .calm _ _ (calm_setTable (Mm.shmdtPage addr) (fun j hj => ?_)
        (fun p hp => ?_) rfl rfl)
      · obtain ⟨hd₁, hd₂⟩ := dataPage_bounds j
        rw [hj] at hd₁ hd₂
        exact hpage.elim (Nat.not_lt.mpr (le_trans (by decide) hd₁)) (Nat.not_le.mpr hd₂)
      · rw [delSsPag_apply, if_neg hp]
  | shmrm id =>
    rcases Mm.sysShmrm_cases hdown with he | ⟨i, -, he⟩
    · rw [he]
      exact .calm _ _ hsame
    · rw [he]
      exact .calm _ _ (calm_of_eq (fun _ => Iff.rfl) rfl (fun _ _ _ => rfl))

end Steps

/-- The frames of the first task, each of them in use once. -/
theorem frame_boot (M : Machine) (i : DataPage) :
    (dataTable bootSchedule M.boot.mm).frame 1 i = 272 + 2 * i := by
  obtain ⟨h₁, h₂⟩ := dataPage_bounds i
  rw [dataTable_frame, boot_mm]
  dsimp only
  rw [if_pos rfl, Mapped.bootTable_frame M (le_trans (by decide) h₁) h₂]
  show 256 + 2 * (264 + (i : ℕ) - 256) = 272 + 2 * i
  omega

theorem count_boot (M : Machine) (i : DataPage) :
    (dataTable bootSchedule M.boot.mm).count (272 + 2 * i) = 1 := by
  have hi := i.isLt
  replace hi : (i : ℕ) < 20 := hi
  have hphys : M.boot.mm.physMem = bootPhys 38 := by rw [boot_mm]
  rw [dataTable_count, hphys, bootPhys_apply (by decide), if_pos]
  simp only [numPagKernel]
  omega

/-- **The data pages at boot.** -/
theorem inOrder_boot (M : Machine) : InOrder (dataTable bootSchedule M.boot.mm) := by
  have hone : ∀ p ∈ (dataTable bootSchedule M.boot.mm).owners, p = 1 := fun p hp =>
    user_boot.mp (mem_owners.mp hp)
  have hframe : ∀ p ∈ (dataTable bootSchedule M.boot.mm).owners, ∀ i,
      (dataTable bootSchedule M.boot.mm).frame p i = 272 + 2 * i := by
    intro p hp i
    rw [hone p hp]
    exact frame_boot M i
  refine ⟨⟨fun p hp q hq i j he => ?_, fun p hp i => ?_, fun p hp i _ q hq _ => ?_⟩,
    fun p hp i => ?_⟩
  · rw [hframe p hp, hframe q hq] at he
    exact Fin.ext (by omega)
  · rw [hframe p hp, count_boot M i, eq_comm, Finset.card_eq_one]
    refine ⟨p, Finset.ext (fun q => ?_)⟩
    rw [SharedPages.mem_sharers, Finset.mem_singleton]
    constructor
    · rintro ⟨hq, -⟩
      rw [hone q hq, hone p hp]
    · rintro rfl
      exact ⟨hp, hframe q hp i⟩
  · rw [hone q hq, hone p hp]
  · have hi := i.isLt
    replace hi : (i : ℕ) < 20 := hi
    rw [hframe p hp]
    show 272 + 2 * (i : ℕ) < 1024
    omega

end ZeOS.Practica
