import ZeOS.Practica.Console
import ZeOS.Practica.Keyboard

/-!
# The calls that take a pointer

`sys_write` reads the block of its caller, `sys_read` and `sys_get_stats`
write to it, and the only guard in front of them is `access_ok`. In kernel
mode the processor does not ask for the `user` bit, so a block that is wrongly
accepted is read or written all the same. Where a block that has been accepted
lies inside the user's memory, and nowhere else, the three calls touch bytes
of mapped user pages only.
-/

namespace ZeOS.Practica

/-- Behind a user page that is mapped there is no frame of the kernel's
image, and the page is open to user mode. -/
theorem Mapped.frame_of_present {M : Machine} {a : Schedule} {m : Mm} (h : Mapped M a m) {s : Slot}
    (hs : a.Live s) {p : ℕ} (h₁ : userFirstPage ≤ p) (h₂ : p < totalPages)
    (hpres : (m.pagusrTable s p).present = true) :
    numPagKernel ≤ getFrame (m.pagusrTable s) p ∧ (m.pagusrTable s p).user = true := by
  show numPagKernel ≤ (m.pagusrTable s p).frame ∧ _
  rcases (a.live_iff_user s).mp hs with hu | rfl
  · have htab := h.user_table s hu
    rcases Nat.lt_or_ge p pagLogInitData with hc | hc
    · obtain ⟨-, huser, hf⟩ := htab.code p h₁ hc
      refine ⟨?_, huser⟩
      rw [hf]
      show 256 ≤ 256 + 2 * (p - 256)
      omega
    rcases Nat.lt_or_ge p pagLogInitShared with hd | hd
    · obtain ⟨-, huser, hf⟩ := htab.data p hc hd
      exact ⟨Nat.not_lt.mp fun hlt => hf (Or.inl hlt), huser⟩
    rcases h.shared s p hd h₂ with ⟨hno, -⟩ | ⟨-, huser, -, hf⟩
    · rw [hno] at hpres
      exact absurd hpres (by decide)
    · exact ⟨le_trans (by decide) hf.bounds.1, huser⟩
  · rw [h.idle_table, Mapped.initTablePages_of_ge M h₁] at hpres
    exact absurd hpres (by decide)

section Block

variable {M : Machine} {k : Kernel} {a : Schedule} {type : AccessType} {addr size : DWord}

/-- **A byte of a block the process may access**: the byte of memory behind
it is not the kernel's, and user mode reads it. -/
theorem Accessible.byte (h : Accessible k.currentPt type addr size) (hf : k.Follows a)
    (hm : Mapped M a k.mm) {i : ℕ} (hi : i < size.toNat) :
    k.mm.translate k.sched.cr3 (addr.toNat + i) = some (k.dest (addr.toNat + i))
      ∧ numPagKernel ≤ (k.dest (addr.toNat + i)).1
      ∧ (k.currentPt ((addr.toNat + i) / pageSize)).user = true := by
  obtain ⟨hfirst, hlast, hpres, -⟩ := h.pages i hi
  have hwrap := h.no_wrap
  have hmod : (addr.toNat + i) % 2 ^ 32 = addr.toNat + i := Nat.mod_eq_of_lt (by omega)
  have hframe := hm.frame_of_present a.live_current hfirst hlast
    (by rwa [← Kernel.currentPt_eq hf.threads])
  rw [← Kernel.currentPt_eq hf.threads] at hframe
  refine ⟨(translate_eq_some_iff hf).mpr ?_, hframe⟩
  rw [hmod]
  exact ⟨hlast, hpres, rfl⟩

/-- A block the process may access is shorter than the user's memory. -/
theorem Accessible.size_nonneg (h : Accessible k.currentPt type addr size) : 0 ≤ size.toInt := by
  have hlt : size.toNat < 2 ^ 31 := by
    by_contra hc
    have hlast := (h.pages (2 ^ 31 - 1) (by omega)).2.1
    simp only [pageSize, totalPages] at hlast
    omega
  rw [BitVec.toInt_eq_toNat_cond, if_pos (by omega)]
  exact Int.natCast_nonneg _

/-- A block in the data pages is one a process may access. -/
theorem InData.accessible (h : InData addr size.toNat) (hf : k.Follows a) (hm : Mapped M a k.mm)
    (hbusy : a.current ≠ a.idle) : Accessible k.currentPt type addr size := by
  obtain ⟨h₁, h₂⟩ := h
  simp only [pagLogInitData, pagLogInitShared, pagLogInitCode, numPagKernel, numPagCode,
    numPagData, pageSize] at h₁ h₂
  refine ⟨by omega, fun i hi => ?_⟩
  have hdata : pagLogInitData ≤ (addr.toNat + i) / pageSize
      ∧ (addr.toNat + i) / pageSize < pagLogInitShared := by
    simp only [pagLogInitData, pagLogInitShared, pagLogInitCode, numPagKernel, numPagCode,
      numPagData, pageSize]
    omega
  have hpres := ((hm.user_table _ (a.user_current hbusy)).data _ hdata.1 hdata.2).1
  rw [← Kernel.currentPt_eq hf.threads] at hpres
  exact ⟨le_trans (by decide) hdata.1, hdata.2.trans (by decide), hpres,
    fun _ => Nat.not_lt.mpr hdata.1⟩

end Block

/-- **A block holds a row of bytes**: user mode reads them there, and what
lies outside of the block is as it was. -/
structure Kernel.Holds (k : Kernel) (m : Mm) (addr : DWord) (bytes : ℕ → Byte) (n : ℕ) :
    Prop where
  userLoad : ∀ i < n, m.userLoad k.sched.cr3 (addr.toNat + i) = some (bytes i)
  other : ∀ loc, (∀ i < n, k.dest (addr.toNat + i) ≠ loc) → m.ram loc = k.mm.ram loc
  tables : m = { k.mm with ram := m.ram }

/-- **A memory that differs by bytes stored into a block**, from its start
on. -/
def Kernel.StoresWithin (k : Kernel) (m : Mm) (addr size : DWord) : Prop :=
  ∃ bytes, ∃ n ≤ size.toNat,
    m = { k.mm with ram := writeRun k.mm.ram (fun i => k.dest (addr.toNat + i)) bytes n }

/-- **The calls stay in the user's memory**: the block is one the process may
access and has no byte of the kernel's image; `sys_write` prints its bytes and
leaves the memory alone; what `sys_read` and `sys_get_stats` store is stored
into it. -/
structure Confined (k : Kernel) (type : AccessType) (addr size : DWord) : Prop where
  accessible : Accessible k.currentPt type addr size
  frames : ∀ i < size.toNat, numPagKernel ≤ (k.dest (addr.toNat + i)).1
  write : type = .verifyRead → ∀ (con : Console) (localbuffer : ℕ → Byte),
    ∃ w, con.sysWrite 1#32 addr size localbuffer k.entered = (size.toInt, w) ∧ w.mm = k.mm
      ∧ w.console = con.printBytes (fun i => k.mm.ram (k.dest (addr.toNat + i))) size.toNat
  read : type = .verifyWrite → k.StoresWithin (k.entered.sysRead addr size).2.mm addr size
  getStats : type = .verifyWrite → size = BitVec.ofNat 32 Stats.size →
    ∀ pid, k.StoresWithin (k.entered.sysGetStats pid addr).2.mm addr size

section Calls

variable {M : Machine} {k : Kernel} {a : Schedule} {addr size : DWord}

theorem Kernel.StoresWithin.refl (k : Kernel) (addr size : DWord) :
    k.StoresWithin k.mm addr size := ⟨fun _ => 0, 0, Nat.zero_le _, rfl⟩

/-- The block, as the call finds it. -/
theorem Accessible.translate_entered {type : AccessType}
    (h : Accessible k.currentPt type addr size) (hf : k.Follows a) (hm : Mapped M a k.mm) {i : ℕ}
    (hi : i < size.toNat) :
    k.entered.mm.translate k.entered.sched.cr3 (addr.toNat + i)
      = some (k.dest (addr.toNat + i)) := by
  rw [hf.entered.threads.cr3_eq, ← hf.threads.cr3_eq]
  exact (h.byte hf hm hi).1

/-- `sys_write`. -/
theorem Accessible.sysWrite (h : Accessible k.currentPt .verifyRead addr size) (hf : k.Follows a)
    (hm : Mapped M a k.mm) (hok : accessOk k.currentPt .verifyRead addr size = true)
    (con : Console) (localbuffer : ℕ → Byte) :
    ∃ w, con.sysWrite 1#32 addr size localbuffer k.entered = (size.toInt, w) ∧ w.mm = k.mm
      ∧ w.console
        = con.printBytes (fun i => k.mm.ram (k.dest (addr.toNat + i))) size.toNat := by
  rw [← currentPt_entered hf] at hok
  obtain ⟨w, hres, hp⟩ := con.printed_sysWrite localbuffer h.size_nonneg hok
  have hmap : k.entered.mm.MappedBlock k.entered.sched.cr3 addr.toNat size.toNat := by
    intro i hi
    rw [h.translate_entered hf hm hi]
    rfl
  refine ⟨w, hres, ?_, ?_⟩
  · rw [hp.mm, Mm.require, decide_eq_true hmap]
    exact Mm.ext rfl rfl rfl rfl (Bool.or_false _)
  · have hoff : k.entered.mm.OffKernel k.entered.sched.cr3 addr.toNat size.toNat := by
      intro i hi loc hloc
      obtain rfl := Option.some_inj.mp ((h.translate_entered hf hm hi).symm.trans hloc)
      exact (h.byte hf hm hi).2.1
    obtain ⟨printed, hcon, hread⟩ := hp.console
    rw [hcon]
    refine Console.printBytes_congr con (fun i hi => ?_)
    rw [hread hoff i hi, Mm.kernelLoad, h.translate_entered hf hm hi]
    rfl

/-- `sys_read`. -/
theorem Accessible.sysRead (h : Accessible k.currentPt .verifyWrite addr size) (hf : k.Follows a)
    (hm : Mapped M a k.mm) (hok : accessOk k.currentPt .verifyWrite addr size = true) :
    (k.entered.sysRead addr size).2.mm = { k.mm with
      ram := writeRun k.mm.ram (fun i => k.dest (addr.toNat + i)) k.cb.peek
        (k.readCount size) } := by
  have hle := readCount_le k size
  rw [Kernel.sysRead_eq, currentPt_entered hf, if_pos hok]
  exact Mm.storeRun_kernelStore (fun i hi => h.translate_entered hf hm (hi.trans_le hle))
    (fun i hi => (h.byte hf hm (hi.trans_le hle)).2.1)

/-- `sys_get_stats`, where it finds the process. -/
theorem Accessible.sysGetStats
    (h : Accessible k.currentPt .verifyWrite addr (BitVec.ofNat 32 Stats.size))
    (hf : k.Follows a) (hm : Mapped M a k.mm)
    (hok : accessOk k.currentPt .verifyWrite addr (BitVec.ofNat 32 Stats.size) = true)
    {pid : DWord} {s : Slot} (hs : k.entered.statsSlot pid = some s) :
    (k.entered.sysGetStats pid addr).2.mm = { k.mm with
      ram := writeRun k.mm.ram (fun i => k.dest (addr.toNat + i)) (k.entered.statsOf s).byte
        Stats.size } := by
  rw [← currentPt_entered hf] at hok
  rw [(Kernel.sysGetStats_of_some hok hs).2]
  exact Mm.copyToUser_eq (fun i hi => h.translate_entered hf hm hi)
    (fun i hi => (h.byte hf hm hi).2.1)

/-- **Bytes stored into a block of at most a page are held there.** No two of
its addresses lead to one byte of memory, whatever pages are mapped. -/
theorem Accessible.holds {type : AccessType} (h : Accessible k.currentPt type addr size)
    (hf : k.Follows a) (hm : Mapped M a k.mm) (hsize : size.toNat ≤ pageSize)
    (bytes : ℕ → Byte) :
    k.Holds { k.mm with
      ram := writeRun k.mm.ram (fun i => k.dest (addr.toNat + i)) bytes size.toNat }
      addr bytes size.toNat where
  userLoad i hi := by
    obtain ⟨htr, -, huser⟩ := h.byte hf hm hi
    have hwrap := h.no_wrap
    have hmod : (addr.toNat + i) % 2 ^ 32 = addr.toNat + i := Nat.mod_eq_of_lt (by omega)
    rw [Kernel.currentPt_eq hf.threads, ← hf.threads.cr3_eq] at huser
    rw [Mm.userLoad, hmod, if_pos huser]
    refine (congrArg (Option.map _) htr).trans (congrArg some ?_)
    refine writeRun.of_injOn (fun j hj he => ?_) hi
    -- the offset into the page tells the addresses apart
    have hoff : (addr.toNat + j) % pageSize = (addr.toNat + i) % pageSize :=
      congrArg Prod.snd he
    simp only [pageSize] at hsize hoff
    omega
  other loc hloc := writeRun.of_notMem hloc
  tables := rfl

/-- **Past `access_ok` a block the process may access confines the calls.** -/
theorem Accessible.confined {type : AccessType} (h : Accessible k.currentPt type addr size)
    (hf : k.Follows a) (hm : Mapped M a k.mm)
    (hok : accessOk k.currentPt type addr size = true) : Confined k type addr size where
  accessible := h
  frames i hi := (h.byte hf hm hi).2.1
  write := by
    rintro rfl con localbuffer
    exact h.sysWrite hf hm hok con localbuffer
  read := by
    rintro rfl
    exact ⟨_, _, readCount_le k size, h.sysRead hf hm hok⟩
  getStats := by
    rintro rfl rfl pid
    cases hs : k.entered.statsSlot pid with
    | none =>
      rw [Kernel.sysGetStats_of_none (currentPt_entered hf ▸ hok) hs]
      exact Kernel.StoresWithin.refl k addr _
    | some s => exact ⟨_, _, le_rfl, h.sysGetStats hf hm hok hs⟩

end Calls

/-- **Past `access_ok` the calls stay in the user's memory exactly if the
block is empty or lies inside it**, in every reachable state. -/
theorem accessOk_sound_iff (M : Machine) (k : Kernel) (h : Reachable M k) (type : AccessType)
    (addr size : DWord) (hok : accessOk k.currentPt type addr size = true) :
    Confined k type addr size ↔ size = 0 ∨ Inside k.currentPt type addr size := by
  rw [← accessible_iff h hok]
  obtain ⟨a, hf, hm⟩ := h.mapped
  exact ⟨fun hc => hc.accessible, fun hacc => hacc.confined hf hm hok⟩

/-- A buffer for statistics in the first data page, which the shortcut for
writes accepts unseen. -/
theorem accessOk_sound_iff_data :
    Confined Machine.sample.boot .verifyWrite 0x108010#32 28#32 := by
  have hin : InData 0x108010#32 (28#32).toNat := by decide
  refine (accessOk_sound_iff Machine.sample _ ⟨[], Run.nil _⟩ .verifyWrite 0x108010#32 28#32
    (accessOk_of_inData hin)).mpr (Or.inr ⟨by decide, by decide, by decide, fun p hp => ?_⟩)
  obtain ⟨⟨h₁, h₂⟩, -⟩ := hp
  have hp : p = 264 := Nat.le_antisymm h₂ h₁
  rw [Kernel.currentPt_eq (follows_boot Machine.sample).threads, boot_mm, hp]
  rfl

end ZeOS.Practica
