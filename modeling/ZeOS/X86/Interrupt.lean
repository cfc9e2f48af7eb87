import ZeOS.X86.Frame

/-!
# Interrupts that are not noticed

A handler saves all registers, does something, restores them and leaves by
`iret`. A `Saving` is an order of the registers and segment registers to
save; any order will do as long as each of them is in it, and `resumed_of_body`
is the rule: if what is done in between keeps the stack from the saved
registers up, the interrupted program goes on in the state it was in, whether
it was interrupted at level 0 or below.
-/

namespace X86

/-- **An order in which to save**: every register but the stack pointer, every
segment register but those an interrupt saves. -/
structure Saving where
  segs : List Seg
  regs : List Reg
  nodup_segs : segs.Nodup
  nodup_regs : regs.Nodup
  mem_segs : ∀ g, g ∈ segs ↔ g ≠ .cs ∧ g ≠ .ss
  mem_regs : ∀ r, r ∈ regs ↔ r ≠ .esp

namespace Saving

variable {σ : Saving}

/-- The bytes of the saved registers. -/
def size (σ : Saving) : ℕ := 4 * (σ.segs.length + σ.regs.length)

theorem size_le (σ : Saving) : σ.size ≤ 56 := by
  have hsegs : σ.segs.length ≤ 6 := σ.nodup_segs.length_le_card
  have hregs : σ.regs.length ≤ 8 := σ.nodup_regs.length_le_card
  unfold size
  omega

theorem esp_notMem (σ : Saving) : Reg.esp ∉ σ.regs := fun h => (σ.mem_regs .esp).mp h rfl

theorem cs_notMem (σ : Saving) : Seg.cs ∉ σ.segs := fun h => ((σ.mem_segs .cs).mp h).1 rfl

theorem ss_notMem (σ : Saving) : Seg.ss ∉ σ.segs := fun h => ((σ.mem_segs .ss).mp h).2 rfl

/-- The registers saved, and the data segments of the kernel loaded. -/
def save (σ : Saving) (ds : Word32) : List Instr :=
  saveRegs σ.segs σ.regs ++ [.mov (.imm ds) .edx, .movSeg .edx .ds, .movSeg .edx .es]

/-- The registers restored. -/
def restore (σ : Saving) : List Instr := restoreRegs σ.segs σ.regs

end Saving

namespace Cpu

variable {M : Program} {s u i v : Cpu} {K : Word32 → Prop} {b ds : Word32} {is : List Instr}
  {ws : List Word32} {σ : Saving}

/-- The words `σ` saves. -/
abbrev savedBy (s : Cpu) (σ : Saving) : List Word32 := s.saved σ.segs σ.regs

theorem length_savedBy (s : Cpu) (σ : Saving) : 4 * (s.savedBy σ).length = σ.size := by
  rw [savedBy, saved, List.length_append, List.length_map, List.length_map, List.length_reverse,
    List.length_reverse, Nat.add_comm, Saving.size]

theorem savedBy_congr (hreg : ∀ r, r ≠ .esp → u.reg r = s.reg r) (hseg : u.seg = s.seg) :
    u.savedBy σ = s.savedBy σ := by
  have hregs : σ.regs.reverse.map u.reg = σ.regs.reverse.map s.reg :=
    List.map_congr_left fun r hr => hreg r ((σ.mem_regs r).mp (List.mem_reverse.mp hr))
  rw [savedBy, saved, hregs, hseg]
  rfl

/-! ## Saving and restoring -/

theorem effects_save (s : Cpu) :
    s.effects (σ.save ds)
      = (((s.pushAll (σ.segs.map s.seg ++ σ.regs.map s.reg)).setReg .edx ds).setSeg .ds ds).setSeg
          .es ds := by
  rw [Saving.save, effects_append, effects_saveRegs σ.esp_notMem]
  rfl

/-- **The registers are saved.** -/
theorem save_spec (ds : Word32) (h : s.Stack ws) (hlen : σ.size + 4 * ws.length ≤ 2 ^ 32) :
    (s.effects (σ.save ds)).reg .esp = s.reg .esp - BitVec.ofNat 32 σ.size
      ∧ (s.effects (σ.save ds)).Stack (s.savedBy σ ++ ws)
      ∧ (∀ g, g ∉ σ.segs → (s.effects (σ.save ds)).seg g = s.seg g)
      ∧ ((s.effects (σ.save ds)).seg .ds = ds ∧ (s.effects (σ.save ds)).seg .es = ds)
      ∧ ∀ x, ¬ Block (s.reg .esp - BitVec.ofNat 32 σ.size) σ.size x →
        (s.effects (σ.save ds)).mem x = s.mem x := by
  have hsize : 4 * (σ.segs.map s.seg ++ σ.regs.map s.reg).length = σ.size := by
    rw [List.length_append, List.length_map, List.length_map, Saving.size]
  have hpush := stack_saveRegs σ.segs σ.esp_notMem h
    (by rw [Nat.mul_add]; exact hlen)
  rw [effects_saveRegs σ.esp_notMem] at hpush
  have hesp := pushAll_esp s (σ.segs.map s.seg ++ σ.regs.map s.reg)
  rw [hsize] at hesp
  have hseg := pushAll_seg s (σ.segs.map s.seg ++ σ.regs.map s.reg)
  have hmem : ∀ x, ¬ Block (s.reg .esp - BitVec.ofNat 32 σ.size) σ.size x →
      (s.pushAll (σ.segs.map s.seg ++ σ.regs.map s.reg)).mem x = s.mem x := by
    intro x hx
    rw [pushAll_mem]
    exact pushes_other (by rwa [hsize]) (by rw [hsize]; omega)
  rw [effects_save]
  generalize s.pushAll (σ.segs.map s.seg ++ σ.regs.map s.reg) = p at hpush hesp hseg hmem
  have hesp' : (((p.setReg .edx ds).setSeg .ds ds).setSeg .es ds).reg .esp = p.reg .esp :=
    p.setReg_ne (q := .esp) (r := .edx) (by decide) ds
  refine ⟨hesp'.trans hesp, ?_, fun g hg => ?_, ⟨?_, setSeg_self _ .es ds⟩, hmem⟩
  · unfold Stack
    rw [hesp']
    exact hpush
  · have hds : g ≠ .ds := fun he => hg (he ▸ (σ.mem_segs .ds).mpr (by decide))
    have hes : g ≠ .es := fun he => hg (he ▸ (σ.mem_segs .es).mpr (by decide))
    rw [setSeg_ne _ hes, setSeg_ne _ hds, setReg_seg, hseg]
  · rw [setSeg_ne _ (show Seg.ds ≠ .es by decide), setSeg_self]

theorem save_reg (ds : Word32) {r : Reg} (hesp : r ≠ .esp) (hedx : r ≠ .edx) :
    (s.effects (σ.save ds)).reg r = s.reg r := by
  rw [effects_save]
  exact (setReg_ne _ hedx ds).trans (pushAll_reg s _ hesp)

/-- **The registers are restored.** -/
theorem restore_spec (h : u.Stack (s.savedBy σ ++ ws)) :
    Restored σ.segs σ.regs s u (u.effects σ.restore) ∧ (u.effects σ.restore).Stack ws :=
  restored σ.nodup_segs σ.nodup_regs σ.esp_notMem h

/-! ## The way back -/

/-- The stack pointer of a handler that has saved the registers. -/
def handlerEsp (σ : Saving) (s : Cpu) (error : Option Word32) : Word32 :=
  s.base - BitVec.ofNat 32 (4 * (s.frame.length + error.toList.length)) - BitVec.ofNat 32 σ.size

/-- What a handler has on the stack then. -/
def handlerSize (σ : Saving) (s : Cpu) (error : Option Word32) : ℕ :=
  σ.size + 4 * (s.frame.length + error.toList.length)

/-- **The program goes on** as it was before an interrupt, and where `K` says
the memory has not changed, but for what the handler has saved. -/
structure Resumed (σ : Saving) (K : Word32 → Prop) (error : Option Word32) (s t : Cpu) : Prop where
  reg : t.reg = s.reg
  seg : t.seg = s.seg
  eip : t.eip = s.eip
  eflags : t.eflags = s.eflags
  mem : ∀ x, K x → ¬ Block (handlerEsp σ s error) (handlerSize σ s error) x → t.mem x = s.mem x

/-- The error code is dropped, where there is one. -/
def dropError (error : Option Word32) : List Instr := error.toList.map fun _ => .add 4 .esp

theorem dropError_spec {error : Option Word32} (h : M.Placed s.eip (dropError error ++ is) b)
    (hst : s.Stack (error.toList ++ ws)) :
    ∃ t, M.Steps s t ∧ M.Placed t.eip is b ∧ t.Stack ws
      ∧ t.reg = Function.update s.reg .esp
        (s.reg .esp + BitVec.ofNat 32 (4 * error.toList.length))
      ∧ t.seg = s.seg ∧ t.mem = s.mem := by
  cases error with
  | none =>
    refine ⟨s, Relation.ReflTransGen.refl, h, hst, ?_, rfl, rfl⟩
    show s.reg = Function.update s.reg .esp (s.reg .esp + 0)
    rw [add_zero, Function.update_eq_self]
  | some e =>
    obtain ⟨c, hadd, hrest⟩ := Program.placed_append.mp h
    exact ⟨_, hadd.straight rfl, hrest, (stack_cons.mp hst).2, rfl, rfl, rfl⟩

/-- **The end of a handler**: the registers saved in `i` and the frame of `s`
are on the stack. -/
theorem wayBack_spec {error : Option Word32}
    (h : M.Placed v.eip (σ.restore ++ (dropError error ++ [.iret])) b)
    (hstack : v.Stack (i.savedBy σ ++ (error.toList ++ s.frame)))
    (hesp : v.reg .esp = handlerEsp σ s error) (hcpl : v.cpl = 0) :
    ∃ t, M.Steps v t
      ∧ (∀ r, r ≠ .esp → t.reg r = i.reg r) ∧ t.reg .esp = s.reg .esp
      ∧ (∀ g, g ≠ .cs → g ≠ .ss → t.seg g = i.seg g) ∧ t.seg .cs = s.seg .cs
      ∧ t.seg .ss = (if s.cpl = 0 then v.seg .ss else s.seg .ss)
      ∧ t.eip = s.eip ∧ t.eflags = s.eflags ∧ t.mem = v.mem := by
  obtain ⟨d, hrestore, htail⟩ := Program.placed_append.mp h
  have hrun₁ := hrestore.straight (by
    rw [Saving.restore, restoreRegs, List.all_append, List.all_map, List.all_map]
    exact Bool.and_eq_true_iff.mpr ⟨List.all_eq_true.mpr fun _ _ => rfl,
      List.all_eq_true.mpr fun _ _ => rfl⟩)
  obtain ⟨hres, hstack₁⟩ := restore_spec hstack
  have hmem₁ := hres.mem
  generalize v.effects σ.restore = w at *
  obtain ⟨z, hrun₂, hlast, hstack₂, hreg, hseg, hmem₂⟩ :=
    dropError_spec (s := { w with eip := d }) htail hstack₁
  have hother : ∀ g, g ∉ σ.segs → z.seg g = v.seg g := fun g hg =>
    (congrFun hseg g).trans (hres.other g hg)
  have hcpl' : z.cpl = 0 := by
    unfold cpl
    rw [hother .cs σ.cs_notMem]
    exact hcpl
  have hesp₁ : w.reg .esp = handlerEsp σ s error + BitVec.ofNat 32 σ.size := by
    rw [hres.esp, hesp, Nat.add_comm]
    rfl
  have hesp₂ : z.reg .esp = s.base - BitVec.ofNat 32 (4 * s.frame.length) := by
    rw [hreg, Function.update_self]
    show w.reg .esp + _ = _
    rw [hesp₁, handlerEsp, sub_add_cancel, Nat.mul_add, BitVec.ofNat_add, sub_add_eq_sub_sub,
      sub_add_cancel]
  obtain ⟨next, -, hrun₃⟩ := hlast.exec
  have hleft := left_iret hstack₂ hcpl' hesp₂
  refine ⟨z.iret, ((hrun₁.trans hrun₂).trans hrun₃), fun r hr => ?_, hleft.esp,
    fun g hcs hss => ?_, hleft.cs, ?_, hleft.eip, hleft.eflags,
    (hleft.mem.trans hmem₂).trans hmem₁⟩
  · rw [hleft.reg r hr, hreg, Function.update_of_ne hr]
    exact hres.reg r ((σ.mem_regs r).mpr hr)
  · rw [hleft.seg g hcs hss, hseg]
    exact hres.seg g ((σ.mem_segs g).mpr ⟨hcs, hss⟩)
  · rw [hleft.ss, hother .ss σ.ss_notMem]

/-- **In a handler**, with the registers saved: at level 0 with the data
segments of the kernel, and nothing but the stack of the handler written. -/
structure InHandler (σ : Saving) (c d : Word32) (error : Option Word32) (s u : Cpu) :
    Prop where
  esp : u.reg .esp = handlerEsp σ s error
  cs : u.seg .cs = c
  ds : u.seg .ds = d
  es : u.seg .es = d
  mem : Off (handlerEsp σ s error) (handlerSize σ s error) (· = s.mem) u.mem

/-- **Code between a save and a restore is not noticed** if it keeps the
stack from the saved registers up. -/
theorem resumed_of_body {cs ss entry : Word32} {error : Option Word32} {body : List Instr}
    (hcs : cs &&& 3 = 0) (herror : error.toList.length ≤ 1)
    (h : M.Placed entry (σ.save ds ++ (body ++ (σ.restore ++ (dropError error ++ [.iret])))) b)
    (hbody : ∀ u is, InHandler σ cs ds error s u → M.Placed u.eip (body ++ is) b →
      ∃ v, M.Steps u v ∧ M.Placed v.eip is b ∧ Kept K u v)
    (hK : ∀ x, Block (handlerEsp σ s error) (handlerSize σ s error) x → K x) :
    ∃ t, M.Steps (s.interrupt cs ss entry error) t ∧ Resumed σ K error s t := by
  have hlen := s.length_frame
  have hsize := σ.size_le
  have hstack := stack_interrupt cs ss entry error s herror
  have hesp := interrupt_esp cs ss entry error s
  have hmem := fun x => interrupt_mem cs ss entry error s herror (x := x)
  have hregs := fun r hr => interrupt_reg cs ss entry error s (r := r) hr
  have hsegs := fun g hcs hss => interrupt_seg cs ss entry error s (g := g) hcs hss
  have hicss := And.intro (interrupt_cs cs ss entry error s) (interrupt_ss cs ss entry error s)
  have heip : (s.interrupt cs ss entry error).eip = entry := rfl
  generalize s.interrupt cs ss entry error = i at *
  obtain ⟨hics, hiss⟩ := hicss
  have hcount : (error.toList ++ s.frame).length = s.frame.length + error.toList.length := by
    rw [List.length_append, Nat.add_comm]
  -- the registers are saved
  rw [← heip] at h
  obtain ⟨c, hsave, hcode⟩ := Program.placed_append.mp h
  have hrun₁ := hsave.straight (by
    rw [Saving.save, saveRegs, List.all_append, List.all_append, List.all_map, List.all_map]
    exact Bool.and_eq_true_iff.mpr ⟨Bool.and_eq_true_iff.mpr
      ⟨List.all_eq_true.mpr fun _ _ => rfl, List.all_eq_true.mpr fun _ _ => rfl⟩, rfl⟩)
  obtain ⟨hesp₁, hstack₁, hsegs₁, ⟨hds, hes⟩, hmem₁⟩ := save_spec (σ := σ) ds hstack (by omega)
  generalize i.effects (σ.save ds) = u at *
  have hbottom : u.reg .esp = handlerEsp σ s error := by rw [hesp₁, hesp, handlerEsp]
  have hwritten : ∀ x, ¬ Block (handlerEsp σ s error) (handlerSize σ s error) x →
      u.mem x = s.mem x := by
    intro x hb
    have hout : ¬ Block (i.reg .esp - BitVec.ofNat 32 σ.size) σ.size x
        ∧ ¬ Block (i.reg .esp) (4 * (s.frame.length + error.toList.length)) x := by
      rw [handlerEsp, ← hesp, handlerSize] at hb
      unfold Block at *
      constructor <;> bv_omega
    rw [← hmem x hout.2]
    exact hmem₁ x hout.1
  -- the body keeps them
  obtain ⟨v, hrun₂, hback, hkept⟩ := hbody { u with eip := c } _
    ⟨hbottom, (hsegs₁ .cs σ.cs_notMem).trans hics, hds, hes, s.mem, rfl, hwritten⟩ hcode
  have hstack₂ : v.Stack (i.savedBy σ ++ (error.toList ++ s.frame)) := by
    refine hkept.stack hstack₁ (n := handlerSize σ s error) ?_ ?_
      (fun x hx => hK x (by rwa [← hbottom]))
    · rw [List.length_append, hcount, Nat.mul_add, length_savedBy, handlerSize]
    · rw [handlerSize]
      omega
  have hseg₂ : ∀ g, g ∉ σ.segs → v.seg g = i.seg g := fun g hg =>
    (congrFun hkept.seg g).trans (hsegs₁ g hg)
  have hcpl : v.cpl = 0 := by
    unfold cpl
    rw [hseg₂ .cs σ.cs_notMem, hics, hcs]
  -- and they are restored
  obtain ⟨t, hrun₃, hreg, hespt, hsegt, hcst, hsst, heipt, hflags, hmemt⟩ :=
    wayBack_spec hback hstack₂ (hkept.esp.trans hbottom) hcpl
  refine ⟨t, (hrun₁.trans hrun₂).trans hrun₃, ?_, ?_, heipt, hflags, fun x hx hb => ?_⟩
  · funext r
    by_cases hr : r = .esp
    · rw [hr, hespt]
    · rw [hreg r hr, hregs r hr]
  · funext g
    by_cases hgss : g = .ss
    · rw [hgss, hsst, hseg₂ .ss σ.ss_notMem, hiss]
      split_ifs <;> rfl
    · by_cases hgcs : g = .cs
      · rw [hgcs, hcst]
      · rw [hsegt g hgcs hgss, hsegs g hgcs hgss]
  · rw [hmemt, hkept.mem x hx]
    exact hwritten x hb

/-! ## What handlers do in between -/

/-- A byte sent to a port. -/
theorem kept_send {v₀ port : Octet}
    (h : M.Placed s.eip ([.movb v₀ .eax, .outb .eax port] ++ is) b) :
    ∃ t, M.Steps s t ∧ M.Placed t.eip is b ∧ Kept K s t ∧ t.mem = s.mem := by
  obtain ⟨c, hsend, hrest⟩ := Program.placed_append.mp h
  refine ⟨_, hsend.straight rfl, hrest, ⟨?_, rfl, fun _ _ => rfl⟩, rfl⟩
  exact s.setReg_ne (q := .esp) (r := .eax) (by decide)
    ((s.reg .eax &&& 0xffffff00) ||| v₀.setWidth 32)

end Cpu

end X86
