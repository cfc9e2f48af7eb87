import ZeOS.Practica.Attach
import ZeOS.Practica.Attribution
import ZeOS.Practica.TlbCopy

/-!
# The borrowed page in the TLB

The fault handler maps the new frame at a page of the shared region, copies
through that page and maps back what was there. The entry is written twice
and the TLB is flushed once, after the second time. If the process has used
that page since the last flush, the TLB may still have its old translation
when the copy runs, and the copy then goes to the segment attached there.

A TLB may keep the translation of every page accessed since the last
`set_cr3`, and it may have dropped any of them. `Cached` follows what it may
keep. Between events a translation that is kept is still that of the page
table: whatever unmaps or remaps a page that is present is followed by a
flush. So the only stale translation is the one the handler itself makes.
-/

namespace ZeOS.Practica

/-! ## What a TLB may hold -/

/-- The pages of the kernel's image, which the kernel itself is in. -/
def kernelPages : Set ℕ := {p | p < numPagKernel}

/-- The address whose access may raise a fault. -/
def Event.faultAddr : Event → Option DWord
  | .store addr _ => some addr
  | .fault cr2 => some cr2
  | _ => none

namespace Kernel

variable {k k' : Kernel} {a : Schedule} {e : Event}

/-- **The translations of a set of pages**, of those that are present. -/
def walks (k : Kernel) (pages : Set ℕ) : Set (ℕ × ℕ) :=
  {x | x.1 ∈ pages ∧ x.1 < totalPages ∧ (k.mm.pagusrTable k.sched.cr3 x.1).present = true
    ∧ x.2 = getFrame (k.mm.pagusrTable k.sched.cr3) x.1}

/-- The pages of user memory an event accesses before the kernel changes any
table. What `sys_shmdt` clears is not among them: the flush comes after
it. -/
def touches (k : Kernel) : Event → Set ℕ
  | .load addr => {pageOf addr}
  | .store addr _ => {pageOf addr}
  | .fault cr2 => {pageOf cr2}
  | .read b maxchars =>
    {p | ∃ i < (k.entered.sysRead b maxchars).1.toNat, p = (b.toNat + i) % 2 ^ 32 / pageSize}
  | .getStats pid st =>
    {p | (k.entered.sysGetStats pid st).1 = 0
      ∧ ∃ i < Stats.size, p = (st.toNat + i) % 2 ^ 32 / pageSize}
  | _ => ∅

/-- **A fault the handler copies the page for**: a store that is not allowed,
to a page whose frame is in use more than once. -/
def CopiesAt (k : Kernel) (cr2 : DWord) : Prop :=
  k.mm.userCanStore k.sched.cr3 cr2.toNat = false ∧ pageOf cr2 < totalPages
    ∧ getFrame k.currentPt (pageOf cr2) < totalPages
    ∧ 2 ≤ k.mm.physMem (getFrame k.currentPt (pageOf cr2))

/-- **The events that flush the TLB**, those that call `set_cr3`. -/
def Flushes (k : Kernel) : Event → Prop
  | .tick ebp => (k.next (.tick ebp)).isSome = true
  | .yield _ => True
  | .exit _ => True
  | .fork ebp => 0 < (k.entered.sysFork ebp).1
  | .store addr _ => k.CopiesAt addr
  | .fault cr2 => k.CopiesAt cr2
  | .shmdt addr => ∃ i, k.mm.segmentAt k.currentPtSlot (Mm.shmdtPage addr) = some i
      ∧ (k.mm.shmMem i).aBorrar = true ∧ (k.mm.shmMem i).referencias = 1
  | _ => False

end Kernel

/-- A kernel with the translations a TLB may hold. -/
structure Cached where
  kernel : Kernel
  accessed : Set (ℕ × ℕ)

namespace Cached

/-- The booted kernel. Since the last `set_cr3` it has copied the image of
the first process through its pages. -/
def boot (M : Machine) : Cached := ⟨M.boot, M.boot.walks Set.univ⟩

/-- After a flush only the kernel's own pages are accessed, and the page of a
store that is tried again. -/
def step (t : Cached) (e : Event) : Option Cached :=
  (t.kernel.step e).map fun k => ⟨k,
    {x | ¬ t.kernel.Flushes e ∧ (x ∈ t.accessed ∨ x ∈ t.kernel.walks (t.kernel.touches e))}
      ∪ k.walks (kernelPages ∪ {p | ∃ addr b, e = .store addr b ∧ p = pageOf addr})⟩

/-- **The TLBs the handler can find**: they hold nothing but translations of
pages accessed since the last flush, the page of the fault and those of the
kernel included. -/
def Allows (t : Cached) (cr2 : DWord) (tlb : Tlb) : Prop :=
  ∀ p f, tlb p = some f →
    (p, f) ∈ t.accessed ∨ (p, f) ∈ t.kernel.walks (kernelPages ∪ {pageOf cr2})

/-- **The copy writes the newly allocated frame and no other one**, whatever
the TLB holds. -/
def CopiesToNew (t : Cached) (cr2 : DWord) : Prop :=
  ∀ tlb, t.Allows cr2 tlb → ∀ loc,
    loc ∈ (t.kernel.mm.copyBy tlb t.kernel.sched.cr3 t.kernel.currentPtSlot (pageOf cr2)).2
      ↔ (loc.1 : ℤ) = t.kernel.mm.newFrame t.kernel.currentPtSlot (pageOf cr2)
        ∧ loc.2 < pageSize

/-- **The borrowed page is not in use**: there is a frame for the copy, and
the page it is borrowed at has not been accessed since the last flush. -/
def Unused (t : Cached) : Prop :=
  freeFrames t.kernel.mm.physMem ≠ [] ∧ ∀ f, (paginaAUsar, f) ∉ t.accessed

end Cached

/-! ## The TLB agrees with the page table between events -/

namespace Kernel

variable {M : Machine} {k k' : Kernel} {a : Schedule} {e : Event}

theorem mem_walks_iff (hf : k.Follows a) {pages : Set ℕ} {x : ℕ × ℕ} :
    x ∈ k.walks pages ↔ x.1 ∈ pages ∧ x.1 < totalPages
      ∧ (k.mm.pagusrTable a.current x.1).present = true
      ∧ x.2 = getFrame (k.mm.pagusrTable a.current) x.1 := by
  show _ ∧ _ ∧ (k.mm.pagusrTable k.sched.cr3 x.1).present = true
    ∧ x.2 = getFrame (k.mm.pagusrTable k.sched.cr3) x.1 ↔ _
  rw [hf.threads.cr3_eq]

theorem walks_mono {P Q : Set ℕ} (h : P ⊆ Q) : k.walks P ⊆ k.walks Q :=
  fun _ hx => ⟨h hx.1, hx.2⟩

/-- A step after which the same process maps what it has mapped. -/
theorem walks_of_table (hf : k.Follows a) {a' : Schedule} (hf' : k'.Follows a')
    (hcur : a'.current = a.current)
    (htab : ∀ p, (k.mm.pagusrTable a.current p).present = true →
      (k'.mm.pagusrTable a.current p).present = true
        ∧ getFrame (k'.mm.pagusrTable a.current) p = getFrame (k.mm.pagusrTable a.current) p) :
    k.walks Set.univ ⊆ k'.walks Set.univ := by
  intro x hx
  obtain ⟨-, hlt, hpres, hframe⟩ := (mem_walks_iff hf).mp hx
  obtain ⟨hpres', hframe'⟩ := htab x.1 hpres
  rw [mem_walks_iff hf', hcur, hframe']
  exact ⟨Set.mem_univ _, hlt, hpres', hframe⟩

/-- Where the handler copies, the fault is on a data page of a process. -/
theorem CopiesAt.data {cr2 : DWord} (h : k.CopiesAt cr2) (hf : k.Follows a)
    (hm : Mapped M a k.mm) : a.User a.current ∧ pagLogInitData ≤ pageOf cr2
      ∧ pageOf cr2 < pagLogInitShared := by
  obtain ⟨-, hlt, -, hcount⟩ := h
  rw [currentPt_eq hf.threads] at hcount
  by_contra hnot
  have hone := hm.count_eq_one a.live_current hlt hnot
  omega

/-- A page that is opened stays where it is. -/
theorem opened_table {m : Mm} {s : Slot} {posicion p : ℕ} :
    ((m.setTable s (setRw (m.pagusrTable s) posicion true)).pagusrTable s p).present
        = (m.pagusrTable s p).present
      ∧ getFrame ((m.setTable s (setRw (m.pagusrTable s) posicion true)).pagusrTable s) p
        = getFrame (m.pagusrTable s) p := by
  rw [getFrame, Mm.setTable_apply, if_pos rfl, setRw]
  split_ifs <;> exact ⟨rfl, rfl⟩

/-- A fault the page is not copied for. -/
theorem walks_of_faulted (hf : k.Follows a) {a' : Schedule} (hf' : k'.Follows a')
    (hcur : a'.current = a.current) {addr : DWord} {m₁ : Mm}
    (hcan : k.mm.userCanStore a.current addr.toNat = false)
    (hfault : k.mm.Faulted a.current (pageOf addr) m₁)
    (htab : k'.mm.pagusrTable = m₁.pagusrTable) (hno : ¬ k.CopiesAt addr) :
    k.walks Set.univ ⊆ k'.walks Set.univ := by
  cases hfault with
  | opened hp hcount =>
    refine walks_of_table hf hf' hcur fun q hq => ?_
    rw [htab]
    exact ⟨opened_table.1.trans hq, opened_table.2⟩
  | copied hp hframe hcount =>
    refine absurd ?_ hno
    rw [CopiesAt, hf.threads.cr3_eq, currentPt_eq hf.threads]
    exact ⟨hcan, hp, hframe, hcount⟩

/-- **What is mapped stays mapped until the next flush.** -/
theorem walks_of_step (hf : k.Follows a) (hm : Mapped M a k.mm) (hst : k.step e = some k')
    (hno : ¬ k.Flushes e) : k.walks Set.univ ⊆ k'.walks Set.univ := by
  obtain ⟨a', hf', ho, hen⟩ := hf.step hst
  have hdown := hf'.mm_down
  -- the tables of the process are those it had
  have hsame : ∀ {a₁ : Schedule}, k'.Follows a₁ → a₁.current = a.current →
      k'.mm.pagusrTable = k.mm.pagusrTable → k.walks Set.univ ⊆ k'.walks Set.univ := by
    intro a₁ hf₁ hcur htab
    refine walks_of_table hf hf₁ hcur fun p hp => ?_
    rw [htab]
    exact ⟨hp, rfl⟩
  generalize hmm : k'.mm = m' at ho hdown
  cases ho with
  | stay ebp => exact hsame hf' rfl (by rw [hmm])
  | switch ebp hready =>
    -- a switch flushes
    have hf₁ := follows_tick hf hst
    have hsw : ¬ (k.sched.remainingQuantum = 1 ∧ a.ready ≠ []) := by
      intro hsw
      refine hno ?_
      show (k.next (.tick ebp)).isSome = true
      rw [next_tick hf, if_pos hsw]
      rfl
    rw [if_neg hsw] at hf₁
    exact hsame hf₁ rfl (by rw [hmm])
  | key c past => exact hsame hf' rfl (by rw [hmm])
  | load addr hload => exact hsame hf' rfl (by rw [hmm])
  | store addr b loc hcan hloc hframe => exact hsame hf' rfl (by rw [hmm])
  | storeFault addr b m₁ loc hcan hfault hcan₁ hloc hframe =>
    exact walks_of_faulted hf hf' rfl hcan hfault (by rw [hmm]) hno
  | fault cr2 m₁ hcan hfault => exact walks_of_faulted hf hf' rfl hcan hfault (by rw [hmm]) hno
  | forkNone ebp hfree => exact hsame hf' rfl (by rw [hmm])
  | forkFail ebp c cs hfree hlen =>
    refine hsame hf' rfl ?_
    rw [hmm, hm.forkFail_mm (hfree ▸ List.mem_cons_self) hlen]
  | forkOk ebp c cs hfree hidle hlen =>
    refine absurd ?_ hno
    obtain ⟨s', hres, -⟩ := sysFork_ok hf.entered.threads hfree hidle hlen ebp
    show 0 < (k.entered.sysFork ebp).1
    rw [hres]
    have hpid := hm.pid_base
    show 0 < a.lastPid + 1
    omega
  | exit ebp hidle => exact absurd trivial hno
  | yield ebp => exact absurd trivial hno
  | shmat id addr =>
    rcases Mm.sysShmat_cases hdown with he | ⟨i, page, hi, -, hpres, -, -, he⟩
    · exact hsame hf' rfl (by rw [hmm, he])
    · refine walks_of_table hf hf' rfl fun p hp => ?_
      -- a segment is attached where nothing is
      have hne : p ≠ page := by
        rintro rfl
        rw [hpres] at hp
        exact absurd hp (by decide)
      have hentry : (k.mm.attach a.current i page).pagusrTable a.current p
          = k.mm.pagusrTable a.current p := by
        show (k.mm.setTable a.current _).pagusrTable a.current p = _
        rw [Mm.setTable_apply, if_pos rfl, setSsPag_apply, if_neg hne]
      rw [hmm, he, getFrame, hentry]
      exact ⟨hp, rfl⟩
  | shmdt addr =>
    rcases Mm.sysShmdt_cases hdown with ⟨-, he⟩ | ⟨i, hseg, ⟨-, he⟩ | ⟨hlast, ram, he⟩⟩
    · exact hsame hf' rfl (by rw [hmm, he])
    · exact hsame hf' rfl (by rw [hmm, he]; rfl)
    · refine absurd ⟨i, ?_, hlast⟩ hno
      rwa [currentPtSlot_eq hf.threads]
  | shmrm id =>
    rcases Mm.sysShmrm_cases hdown with he | ⟨i, -, he⟩
    · exact hsame hf' rfl (by rw [hmm, he])
    · exact hsame hf' rfl (by rw [hmm, he])
  | read b maxchars ram => exact hsame hf' rfl (by rw [hmm])
  | getStats pid st ram => exact hsame hf' rfl (by rw [hmm])

end Kernel

namespace Cached

variable {M : Machine} {t t' : Cached} {a : Schedule} {e : Event} {cr2 : DWord} {tlb : Tlb}

/-- **No translation that may be cached is stale.** -/
def Coherent (t : Cached) : Prop := t.accessed ⊆ t.kernel.walks Set.univ

theorem Coherent.step (h : t.Coherent) (hf : t.kernel.Follows a) (hm : Mapped M a t.kernel.mm)
    (hst : t.step e = some t') : t'.Coherent := by
  obtain ⟨k', hk, rfl⟩ := Option.map_eq_some_iff.mp hst
  rintro x (⟨hno, hx⟩ | hx)
  · have hkeep := Kernel.walks_of_step hf hm hk hno
    rcases hx with hx | hx
    · exact hkeep (h hx)
    · exact hkeep (Kernel.walks_mono (Set.subset_univ _) hx)
  · exact Kernel.walks_mono (Set.subset_univ _) hx

theorem coherent_walks (k : Kernel) : Coherent ⟨k, k.walks Set.univ⟩ := Set.Subset.refl _

/-- **Every run** keeps the TLB coherent. -/
theorem coherent_of_run {P : Cached → Event → Prop} {es : List Event}
    (h : Run step P (boot M) es t) :
    t.Coherent ∧ ∃ a, t.kernel.Follows a ∧ Mapped M a t.kernel.mm := by
  refine h.invariant (I := fun t => t.Coherent ∧ ∃ a, t.kernel.Follows a ∧ Mapped M a t.kernel.mm)
    ?_ ⟨coherent_walks M.boot, bootSchedule, follows_boot M, Mapped.boot M⟩
  rintro u e v ⟨hc, a, hf, hm⟩ - hst
  refine ⟨hc.step hf hm hst, ?_⟩
  obtain ⟨k', hk, rfl⟩ := Option.map_eq_some_iff.mp hst
  obtain ⟨a', hf', ho, hen⟩ := hf.step hk
  exact ⟨a', hf', hm.outcome hen ho hf'.mm_down⟩

/-- What the TLB may keep takes no part in the run. -/
theorem exists_of_run {P : Kernel → Event → Prop} {es : List Event} {k : Kernel}
    (h : Run Kernel.step P M.boot es k) :
    ∃ t : Cached, t.kernel = k ∧ Run Cached.step (fun t e => P t.kernel e) (boot M) es t := by
  refine Run.lift (f := Cached.kernel) (x := boot M) (fun t e => ?_) h
  rw [Cached.step]
  cases t.kernel.step e <;> rfl

/-- A TLB the handler can find has the borrowed page only if it has been
accessed. -/
theorem Allows.borrowed (h : t.Allows cr2 tlb) (hp : pageOf cr2 < pagLogInitShared) {f : ℕ}
    (hf : tlb paginaAUsar = some f) : (paginaAUsar, f) ∈ t.accessed := by
  refine (h _ _ hf).resolve_right fun hx => ?_
  rcases hx.1 with hk | he
  · exact absurd hk (by decide : ¬ paginaAUsar < numPagKernel)
  · exact ne_paginaAUsar hp (show paginaAUsar = pageOf cr2 from he).symm

/-- The TLB that has kept one translation and no other. -/
theorem allows_single {p f : ℕ} (hx : (p, f) ∈ t.accessed) :
    t.Allows cr2 (Function.update (fun _ => none) p (some f)) := by
  intro q g hg
  rw [Function.update_apply] at hg
  split_ifs at hg with hpage
  obtain rfl := Option.some_inj.mp hg
  exact Or.inl (hpage ▸ hx)

/-- Where the copy goes with the borrowed page out of the TLB: to the new
frame, if there is one. -/
theorem frameField_newFrame {m : Mm} {s : Slot} {posicion : ℕ}
    (hcount : 2 ≤ m.physMem (getFrame (m.pagusrTable s) posicion)) :
    (frameField (m.newFrame s posicion) : ℤ) = m.newFrame s posicion
      ↔ freeFrames m.physMem ≠ [] := by
  have hdown : freeFrames (m.countedDown s posicion) = freeFrames m.physMem :=
    freeFrames_countDown hcount
  rw [Mm.newFrame, ← hdown]
  cases hfree : freeFrames (m.countedDown s posicion) with
  | nil =>
    rw [allocFrame_of_nil hfree]
    exact iff_of_false (show ¬ ((frameField (-1) : ℕ) : ℤ) = -1 by decide) (not_not.mpr rfl)
  | cons g gs =>
    have hmem : g ∈ freeFrames (m.countedDown s posicion) := hfree ▸ List.mem_cons_self
    have hg : g < totalPages := (mem_frameScan.mp (mem_freeFrames.mp hmem).1).2.1
    rw [allocFrame_of_cons hfree]
    exact iff_of_true (congrArg Nat.cast (frameField_natCast hg)) (List.cons_ne_nil _ _)

/-- What the borrowed page leads to in a TLB is a segment. -/
theorem Coherent.isShm (hc : t.Coherent) (hf : t.kernel.Follows a) (hm : Mapped M a t.kernel.mm)
    {f : ℕ} (hx : (paginaAUsar, f) ∈ t.accessed) : IsShm f := by
  obtain ⟨-, -, hpres, hframe⟩ := (Kernel.mem_walks_iff hf).mp (hc hx)
  dsimp only at hpres hframe
  rcases hm.shared a.current paginaAUsar (by decide) (by decide) with ⟨hnot, -⟩ | ⟨-, -, -, hshm⟩
  · rw [hnot] at hpres
    exact absurd hpres (by decide)
  · rw [hframe]
    exact hshm

/-- A page that is kept in the TLB does not lead to the new frame. -/
theorem Coherent.ne_newFrame (hc : t.Coherent) (hf : t.kernel.Follows a)
    (hm : Mapped M a t.kernel.mm) {posicion : ℕ}
    (hcount : 2 ≤ t.kernel.mm.physMem (getFrame (t.kernel.mm.pagusrTable a.current) posicion))
    {f : ℕ} (hx : (paginaAUsar, f) ∈ t.accessed) :
    (f : ℤ) ≠ t.kernel.mm.newFrame a.current posicion := by
  -- the frame of a segment stays in use
  have hfix := (hc.isShm hf hm hx).fixed
  have hone := hm.fixed_used f hfix
  have hused : t.kernel.mm.countedDown a.current posicion f ≠ 0 := by
    rw [Mm.countedDown, Function.update_apply]
    split_ifs <;> omega
  intro he
  refine ne_nextFrame hused hfix.lt ?_
  show f = frameField (t.kernel.mm.newFrame a.current posicion)
  rw [← he, frameField_natCast hfix.lt]

/-- **When the copy goes to the new frame.** -/
theorem Coherent.copiesToNew_iff (hc : t.Coherent) (hf : t.kernel.Follows a)
    (hm : Mapped M a t.kernel.mm) (hcopy : t.kernel.CopiesAt cr2) :
    t.CopiesToNew cr2 ↔ t.Unused := by
  obtain ⟨-, -, hp⟩ := hcopy.data hf hm
  have hcount := hcopy.2.2.2
  rw [Kernel.currentPt_eq hf.threads] at hcount
  unfold CopiesToNew
  rw [Kernel.currentPtSlot_eq hf.threads, hf.threads.cr3_eq]
  simp only [Mm.mem_copyBy_iff]
  constructor
  · intro h
    constructor
    · -- an empty TLB
      rw [← frameField_newFrame hcount]
      exact ((h (fun _ => none) (fun _ _ hn => absurd hn (by simp))
        (frameField (t.kernel.mm.newFrame a.current (pageOf cr2)), 0)).mp
        ⟨rfl, Nat.zero_lt_succ _⟩).1
    · intro f hx
      have hgo := (h _ (allows_single hx) (f, 0)).mp ⟨by rw [Function.update_self]; rfl,
        Nat.zero_lt_succ _⟩
      exact hc.ne_newFrame hf hm hcount hx hgo.1
  · rintro ⟨hfree, hunused⟩ tlb hallows loc
    have hnone : tlb paginaAUsar = none := by
      cases htlb : tlb paginaAUsar with
      | none => rfl
      | some f => exact absurd (hallows.borrowed hp htlb) (hunused f)
    have hfield := (frameField_newFrame (m := t.kernel.mm) hcount).mpr hfree
    rw [hnone]
    refine and_congr_left fun _ => ?_
    constructor
    · intro hloc
      rw [hloc]
      exact hfield
    · intro hloc
      exact Nat.cast_inj.mp (hloc.trans hfield.symm)

/-- A TLB the handler can find has nothing else for the page of the fault than
the table. -/
theorem Allows.keepsSource (hallows : t.Allows cr2 tlb) (hc : t.Coherent)
    (hf : t.kernel.Follows a) : t.kernel.mm.KeepsSource tlb a.current (pageOf cr2) := by
  intro f htlb
  have hx : (pageOf cr2, f) ∈ t.kernel.walks Set.univ :=
    (hallows _ _ htlb).elim (fun h => hc h) (fun h => Kernel.walks_mono (Set.subset_univ _) h)
  exact ((Kernel.mem_walks_iff hf).mp hx).2.2.2

/-- **Then the handler does what it does without a TLB.** -/
theorem Coherent.pagefaultRoutineBy_eq (hc : t.Coherent) (hf : t.kernel.Follows a)
    (hm : Mapped M a t.kernel.mm) (hcopy : t.kernel.CopiesAt cr2) (hunused : t.Unused)
    (hallows : t.Allows cr2 tlb) :
    t.kernel.mm.pagefaultRoutineBy tlb a.current a.current cr2
      = t.kernel.mm.pagefaultRoutine a.current a.current cr2 := by
  obtain ⟨hu, hlo, hp⟩ := hcopy.data hf hm
  have hpres := ((hm.user_table _ hu).data _ hlo hp).1
  have hsame := Mm.copyOnWriteBy_eq_copyOnWrite (hp.trans (by decide)) (ne_paginaAUsar hp) hpres
    (hallows.keepsSource hc hf) fun f htlb => absurd (hallows.borrowed hp htlb) (hunused.2 f)
  obtain ⟨-, hlt, hframe, hcount⟩ := hcopy
  rw [Kernel.currentPt_eq hf.threads] at hframe hcount
  obtain ⟨m₁, -, -, hm₁, he⟩ := Mm.pagefaultRoutine_eq t.kernel.mm a.current a.current cr2
  rw [Mm.pagefaultRoutineBy_of_shared hlt hframe hcount, hsame, he, hm₁ hlt hframe,
    if_neg (by omega), if_neg (by omega)]

/-- **The faults of an event are copied cleanly.** -/
def Clean (t : Cached) (e : Event) : Prop :=
  ∀ cr2, e.faultAddr = some cr2 → t.kernel.CopiesAt cr2 → t.CopiesToNew cr2

/-- The faults of an event that are copied find the borrowed page unused. -/
def Lends (t : Cached) (e : Event) : Prop :=
  ∀ cr2, e.faultAddr = some cr2 → t.kernel.CopiesAt cr2 → t.Unused

end Cached

/-- **Where the fault handler copies to the frame it has allocated**, whatever
the TLB holds: exactly where there is a frame, and the page borrowed for the
copy has not been accessed since the last flush. So all copies of a run do
exactly if all its faults find things so. -/
theorem copies_to_new_iff (M : Machine) (es : List Event) (t : Cached)
    (h : Run Cached.step (fun _ _ => True) (Cached.boot M) es t) :
    (∀ cr2, t.kernel.CopiesAt cr2 → (t.CopiesToNew cr2 ↔ t.Unused))
      ∧ (Run Cached.step Cached.Clean (Cached.boot M) es t
        ↔ Run Cached.step Cached.Lends (Cached.boot M) es t) := by
  have hone : ∀ {P : Cached → Event → Prop} {es t cr2}, Run Cached.step P (Cached.boot M) es t →
      t.kernel.CopiesAt cr2 → (t.CopiesToNew cr2 ↔ t.Unused) := by
    intro P es t cr2 h hcopy
    obtain ⟨hc, a, hf, hm⟩ := Cached.coherent_of_run h
    exact hc.copiesToNew_iff hf hm hcopy
  refine ⟨fun cr2 hcopy => hone h hcopy, fun hrun => ?_, fun hrun => ?_⟩
  · exact hrun.weaken fun _ _ _ _ hpre _ hclean cr2 he hcopy =>
      (hone hpre hcopy).mp (hclean cr2 he hcopy)
  · exact hrun.weaken fun _ _ _ _ hpre _ hlends cr2 he hcopy =>
      (hone hpre hcopy).mpr (hlends cr2 he hcopy)

/-- A store to a read-only data page whose frame is in use twice. -/
theorem Kernel.copiesAt_of_readOnly {k : Kernel} {a : Schedule} (hf : k.Follows a) {cr2 : DWord}
    (hro : IsReadOnlyData (k.mm.pagusrTable a.current) (pageOf cr2))
    (hframe : getFrame (k.mm.pagusrTable a.current) (pageOf cr2) < totalPages)
    (hcount : 2 ≤ k.mm.physMem (getFrame (k.mm.pagusrTable a.current) (pageOf cr2))) :
    k.CopiesAt cr2 := by
  rw [CopiesAt, currentPt_eq hf.threads, hf.threads.cr3_eq, ← Bool.not_eq_true,
    Mm.userCanStore_iff, hro.2.2.2]
  exact ⟨fun hc => absurd hc.2.2.2 (by decide), hro.2.1.trans (by decide), hframe, hcount⟩

/-- **The first fork on a machine with a TLB**: it flushes, and the borrowed
page is not accessed after it. -/
theorem Cached.exists_fork :
    ∃ t, Run Cached.step (fun _ _ => True) (Cached.boot Machine.sample) [.fork 0] t
      ∧ Tidy Machine.sample t.kernel firstFork 326
      ∧ IsReadOnlyData (t.kernel.mm.pagusrTable 1) (pageOf 0x108000#32)
      ∧ 2 ≤ t.kernel.mm.physMem (getFrame (t.kernel.mm.pagusrTable 1) (pageOf 0x108000#32))
      ∧ (∀ p, pagLogInitShared ≤ p → t.kernel.mm.pagusrTable 1 p = PageTableEntry.zero)
      ∧ ∀ f, (paginaAUsar, f) ∉ t.accessed := by
  obtain ⟨k, hst, h, hro, hcount, hzero⟩ := Tidy.first_shared Machine.sample
  have hflush : Machine.sample.boot.Flushes (.fork 0) := by
    obtain ⟨s', hres, -⟩ := Kernel.sysFork_ok (follows_boot Machine.sample).entered.threads rfl
      (by decide) ((Tidy.boot Machine.sample).total ▸ (by decide)) 0
    show 0 < (Machine.sample.boot.entered.sysFork 0).1
    rw [hres]
    show 0 < bootSchedule.lastPid + 1
    decide
  have hrun := Run.single (P := fun _ _ => True) trivial
    (show (Cached.boot Machine.sample).step (.fork 0) = some ⟨k, _⟩ from
      congrArg (Option.map _) hst)
  refine ⟨_, hrun, h, hro, hcount, hzero, ?_⟩
  rintro f (⟨hno, -⟩ | hx)
  · exact hno hflush
  · rcases hx.1 with hk | ⟨addr, b, he, -⟩
    · exact absurd hk (by decide : ¬ paginaAUsar < numPagKernel)
    · exact absurd he (by simp)

/-- The first process writes to its data after it has forked. -/
theorem copies_to_new_iff_fork :
    ∃ t, Run Cached.step (fun _ _ => True) (Cached.boot Machine.sample) [.fork 0] t
      ∧ t.kernel.CopiesAt 0x108000#32 ∧ t.CopiesToNew 0x108000#32 := by
  obtain ⟨t, hrun, h, hro, hcount, -, hunused⟩ := Cached.exists_fork
  have hcopy : t.kernel.CopiesAt 0x108000#32 :=
    Kernel.copiesAt_of_readOnly h.follows hro h.first_frame_lt hcount
  refine ⟨t, hrun, hcopy, ((copies_to_new_iff Machine.sample _ _ hrun).1 _ hcopy).mpr
    ⟨fun hnil => ?_, hunused⟩⟩
  have htotal := h.total
  rw [hnil] at htotal
  exact absurd htotal (by decide)

/-- **The copy goes to the segment.** The first process forks, attaches
segment 0 at the page the handler borrows, reads from it and writes to its
data. The TLB still has the segment's frame, and the copy overwrites the
segment. -/
theorem not_copies_to_new_borrowed :
    ∃ t tlb, Run Cached.step (fun _ _ => True) (Cached.boot Machine.sample)
        [.fork 0, .shmat 0 0x11d000, .load 0x11d000] t
      ∧ t.kernel.CopiesAt 0x108000#32 ∧ t.Allows 0x108000#32 tlb
      ∧ (shmFrame 0, 0) ∈ (t.kernel.mm.copyBy tlb t.kernel.sched.cr3 t.kernel.currentPtSlot
          (pageOf 0x108000#32)).2
      ∧ (shmFrame 0 : ℤ) ≠ t.kernel.mm.newFrame t.kernel.currentPtSlot (pageOf 0x108000#32)
      ∧ ¬ t.CopiesToNew 0x108000#32 := by
  obtain ⟨k₁, hst₁, h, hro, hcount, hzero⟩ := Tidy.first_shared Machine.sample
  have hpage : pageOf 0x11d000#32 = paginaAUsar := by decide
  have hacc : Mm.ShmatAccepts 0#32 0x11d000#32 := ⟨by decide, by decide, by decide⟩
  have habs : (k₁.mm.pagusrTable 1 (pageOf 0x11d000#32)).present = false := by
    rw [hzero _ (by decide)]
    rfl
  have hatt := Mm.sysShmat_of_firstFree hacc (Mm.isFirstFree_self (by decide) habs)
  rw [hpage] at hatt
  obtain ⟨k₂, hst₂, hf, hmm⟩ := Kernel.exists_shmat h.follows h.busy
    (congrArg Prod.snd hatt) h.follows.mm_down
    ((h.counts.attach 1 (0#32).toNat paginaAUsar).fit (by decide))
  -- only the entry of the borrowed page has changed
  have hentry : k₂.mm.pagusrTable 1 paginaAUsar = PageTableEntry.mapping (shmFrame 0 : ℕ) := by
    rw [hmm, Mm.attach_entry, h.mapped.shm_addr _ (by decide)]
    rfl
  have haddr : (k₁.mm.shmMem (0#32).toNat).shmMemFrameAddr = shmFrame 0 :=
    h.mapped.shm_addr 0 (by decide)
  have hother : k₁.mm.AttachedAt 1 (0#32).toNat paginaAUsar k₂.mm :=
    hmm ▸ Mm.attachedAt_attach (haddr ▸ (by decide))
  have hdata := hother.other 1 (pageOf 0x108000#32) (fun hc => absurd hc.2 (by decide))
  have hst₃ : k₂.step (.load 0x11d000) = some k₂ := by
    refine Kernel.step_eq_some_iff.mpr ⟨fun _ => hf.ne h.busy, ?_, hf.mm_down, hf.sched_down,
      hf.counts_fit⟩
    have hload : (k₂.mm.userLoad k₂.sched.cr3 (0x11d000#32).toNat).isSome = true := by
      have hdiv : (0x11d000#32).toNat % 2 ^ 32 / pageSize = paginaAUsar := by decide
      have huser : (k₂.mm.pagusrTable 1 paginaAUsar).user = true := by
        rw [hentry]
        rfl
      rw [hf.threads.cr3_eq, show firstFork.current = 1 from rfl, Mm.userLoad, Mm.translate, hdiv,
        if_pos huser, if_pos ⟨by decide, hother.present⟩]
      rfl
    exact if_pos hload
  have hphys : k₂.mm.physMem = k₁.mm.physMem := by
    rw [hmm]
    rfl
  have hframe : getFrame (k₂.mm.pagusrTable 1) (pageOf 0x108000#32)
      = getFrame (k₁.mm.pagusrTable 1) (pageOf 0x108000#32) := by
    rw [getFrame, hdata]
    rfl
  have hro₂ : IsReadOnlyData (k₂.mm.pagusrTable 1) (pageOf 0x108000#32) := by
    rw [IsReadOnlyData, hdata]
    exact hro
  have hcopy : k₂.CopiesAt 0x108000#32 :=
    Kernel.copiesAt_of_readOnly hf hro₂ (hframe ▸ h.first_frame_lt) (hphys ▸ hframe ▸ hcount)
  -- the three steps, with what each of them leaves in the TLB
  obtain ⟨c₁, hc₁⟩ : ∃ c, (Cached.boot Machine.sample).step (.fork 0) = some ⟨k₁, c⟩ :=
    ⟨_, congrArg (Option.map _) hst₁⟩
  obtain ⟨c₂, hc₂⟩ : ∃ c, Cached.step ⟨k₁, c₁⟩ (.shmat 0 0x11d000) = some ⟨k₂, c⟩ :=
    ⟨_, congrArg (Option.map _) hst₂⟩
  have hc₃ := show Cached.step ⟨k₂, c₂⟩ (.load 0x11d000) = some ⟨k₂, _⟩ from
    congrArg (Option.map _) hst₃
  have hrun := ((Run.single (P := fun _ _ => True) trivial hc₁).append
    (Run.single trivial hc₂)).append (Run.single trivial hc₃)
  obtain ⟨hc, -⟩ := Cached.coherent_of_run hrun
  have hm : Mapped Machine.sample firstFork k₂.mm := by
    rw [hmm]
    exact h.mapped.attach (Schedule.user_current _ h.busy) (by decide : 0 < shmLength)
      (hpage ▸ habs)
  have hx : (paginaAUsar, shmFrame 0) ∈ k₂.walks (k₂.touches (.load 0x11d000)) := by
    rw [Kernel.mem_walks_iff hf]
    exact ⟨hpage.symm, by decide, hother.present, (hother.frame.trans haddr).symm⟩
  refine ⟨_, _, hrun, hcopy, Cached.allows_single (Or.inl ⟨id, Or.inr hx⟩), ?_, ?_, fun hnew => ?_⟩
  · rw [hf.threads.cr3_eq, Kernel.currentPtSlot_eq hf.threads, Mm.mem_copyBy_iff,
      Function.update_self]
    exact ⟨rfl, Nat.zero_lt_succ _⟩
  · rw [Kernel.currentPtSlot_eq hf.threads]
    exact hc.ne_newFrame hf hm (hphys ▸ hframe ▸ hcount) (Or.inl ⟨id, Or.inr hx⟩)
  · exact ((hc.copiesToNew_iff hf hm hcopy).mp hnew).2 _ (Or.inl ⟨id, Or.inr hx⟩)

end ZeOS.Practica
