import ZeOS.Practica.Entry
import ZeOS.Practica.Handlers

/-!
# A system call from the library to the kernel and back

`user-utils.S` and `system_call_handler` of `entry.S`. A wrapper loads the
arguments into `ebx`, `ecx` and `edx`; `syscall_sysenter` leaves on the user
stack what the way back needs and hands the stack over in `ebp`, since
`sysenter` saves nothing; the handler builds the frame of an interrupt by hand
and calls the function of the table, whose arguments are the registers at the
bottom of that frame; `sysexit` finds in `edx` and `ecx` where to go on.

The words at the bottom of the frame are arguments, so that the function may
have changed them, and `RESTORE_ALL` loads them into registers all the same.
What the caller is promised survives because the wrappers that have an
argument save `ebx` themselves, and the others call functions that have none.
-/

namespace ZeOS.Practica

open X86

/-! ## `entry.S` -/

/-- `system_call_handler`, to the tests. -/
def callEntry : List Instr :=
  [.push (.imm userDs), .push (.reg .ebp), .pushf, .push (.imm userCs), .push (.mem .ebp 4)]
    ++ saveAll

/-- The tests of the number. -/
def callTests (sysenterErr : Word32) : List Instr :=
  [.cmp 0 .eax, .jl sysenterErr, .cmp (BitVec.ofNat 32 maxSyscall) .eax, .jg sysenterErr]

/-- `system_call_handler`, to `sysenter_err`. -/
def systemCallHandler (sysCallTable sysenterErr sysenterFin : Word32) : List Instr :=
  callEntry ++ (callTests sysenterErr ++ [.callTable sysCallTable .eax, .jmp sysenterFin])

/-- `sysenter_err`. -/
def sysenterErr : List Instr := [.mov (.imm (BitVec.ofInt 32 (-eNOSYS))) .eax]

/-- `sysenter_fin`. -/
def sysenterFin : List Instr :=
  .movMem .eax .esp 0x18 ::
    (restoreAll ++ [.mov (.mem .esp 0) .edx, .mov (.mem .esp 12) .ecx, .sti, .sysexit])

/-- The handler lies at `entry` and uses the table at `table`. -/
def HandlerAt (M : Program) (entry table : Word32) : Prop :=
  ∃ err fin e, M.Placed entry (systemCallHandler table err fin) err
    ∧ M.Placed err sysenterErr fin ∧ M.Placed fin sysenterFin e

section Handler

variable {M : Program} {k v : Cpu} {K : Word32 → Prop} {b f : Word32}
  {entry table : Word32} {is : List Instr} {ws : List Word32}

/-- What the handler has pushed above the saved registers: the frame an
interrupt would have left. -/
def callFrame (k : Cpu) : List Word32 :=
  [load k.mem (k.reg .ebp + 4), userCs, k.eflags, k.reg .ebp, userDs]

/-- The pushes before `SAVE_ALL`. The return address is read from the user
stack, below which the handler does not write. -/
theorem effects_callFrame (k : Cpu)
    (hapart : Apart (k.reg .ebp + 4) 4 (k.reg .esp - 16) 16) :
    k.effects [.push (.imm userDs), .push (.reg .ebp), .pushf, .push (.imm userCs),
        .push (.mem .ebp 4)] = k.pushAll (callFrame k).reverse := by
  have hload : load (k.pushAll [userDs, k.reg .ebp, k.eflags, userCs]).mem (k.reg .ebp + 4)
      = load k.mem (k.reg .ebp + 4) := by
    refine load_congr fun x hx => ?_
    rw [Cpu.pushAll_mem]
    exact pushes_other (hapart x hx) (show 16 ≤ 2 ^ 32 by decide)
  show (k.pushAll [userDs, k.reg .ebp, k.eflags, userCs]).push
      (load (k.pushAll [userDs, k.reg .ebp, k.eflags, userCs]).mem (k.reg .ebp + 4)) = _
  rw [hload]
  rfl

/-- **The frame of a system call.** -/
theorem callEntry_spec (hapart : Apart (k.reg .ebp + 4) 4 (k.reg .esp - 64) 64) :
    (k.effects callEntry).reg .esp = k.reg .esp - 64
      ∧ (k.effects callEntry).Stack (k.savedBy saving ++ callFrame k)
      ∧ (∀ r, r ≠ .esp → r ≠ .edx → (k.effects callEntry).reg r = k.reg r)
      ∧ ((k.effects callEntry).seg .ds = kernelDs ∧ (k.effects callEntry).seg .es = kernelDs)
      ∧ (∀ x, ¬ Block (k.reg .esp - 64) 64 x → (k.effects callEntry).mem x = k.mem x)
      ∧ (k.effects callEntry).msr = k.msr := by
  have hapart' : Apart (k.reg .ebp + 4) 4 (k.reg .esp - 16) 16 := by
    intro x hx hb
    refine hapart x hx ?_
    unfold Block at *
    bv_omega
  rw [callEntry, Cpu.effects_append, effects_callFrame k hapart']
  have hesp := Cpu.pushAll_esp k (callFrame k).reverse
  have hstack := Cpu.stack_pushAll (callFrame k).reverse k.stack_nil
    (show 20 ≤ 2 ^ 32 by decide)
  have hreg := fun r => Cpu.pushAll_reg k (callFrame k).reverse (r := r)
  have hsegs := Cpu.pushAll_seg k (callFrame k).reverse
  have hmsr : (k.pushAll (callFrame k).reverse).msr = k.msr := by
    rw [Cpu.pushAll_eq]
    rfl
  have hmem : ∀ x, ¬ Block (k.reg .esp - 20) 20 x →
      (k.pushAll (callFrame k).reverse).mem x = k.mem x := by
    intro x hx
    rw [Cpu.pushAll_mem]
    exact pushes_other hx (show 20 ≤ 2 ^ 32 by decide)
  rw [List.reverse_reverse, List.append_nil] at hstack
  replace hesp : (k.pushAll (callFrame k).reverse).reg .esp = k.reg .esp - 20 := hesp
  generalize k.pushAll (callFrame k).reverse = p at *
  have hsaved : p.savedBy saving = k.savedBy saving := Cpu.savedBy_congr hreg hsegs
  obtain ⟨hesp₁, hstack₁, -, hseg₁, hmem₁⟩ := Cpu.save_spec (σ := saving) kernelDs hstack
    (show 44 + 20 ≤ 2 ^ 32 by decide)
  rw [hsaved] at hstack₁
  rw [hesp] at hesp₁ hmem₁
  refine ⟨?_, hstack₁, fun r hr hr' => ?_, hseg₁, fun x hx => ?_, ?_⟩
  · refine hesp₁.trans ?_
    show k.reg .esp - 20 - 44 = k.reg .esp - 64
    bv_omega
  · exact (Cpu.save_reg kernelDs hr hr').trans (hreg r hr)
  · have hout : ¬ Block (k.reg .esp - 20 - 44) 44 x ∧ ¬ Block (k.reg .esp - 20) 20 x := by
      unfold Block at *
      constructor <;> bv_omega
    exact (hmem₁ x hout.1).trans (hmem x hout.2)
  · rw [saveAll, Cpu.effects_save]
    show (p.pushAll _).msr = k.msr
    rw [Cpu.pushAll_eq]
    exact hmsr

/-- **The tests** let the numbers from 0 to `MAX_SYSCALL` through. -/
theorem callTests_spec {err : Word32} (h : M.Placed v.eip (callTests err ++ is) b) :
    ∃ t, M.Steps v t ∧ Program.Moved v t
      ∧ ((v.reg .eax).toInt < 0 ∨ maxSyscall < (v.reg .eax).toInt → t.eip = err)
      ∧ (¬ ((v.reg .eax).toInt < 0 ∨ maxSyscall < (v.reg .eax).toInt) → M.Placed t.eip is b) := by
  obtain ⟨t₁, hrun₁, hmoved₁, hless, hnot⟩ := Program.Placed.jl
    (show M.Placed v.eip (.cmp 0 .eax :: .jl err :: ([.cmp (BitVec.ofNat 32 maxSyscall) .eax,
      .jg err] ++ is)) b from h)
  by_cases hneg : (v.reg .eax).toInt < 0
  · exact ⟨t₁, hrun₁, hmoved₁, fun _ => hless hneg, fun hn => absurd (Or.inl hneg) hn⟩
  obtain ⟨t₂, hrun₂, hmoved₂, hgreater, hrest⟩ := Program.Placed.jg (hnot hneg)
  have hreg : t₁.reg = v.reg := by rw [hmoved₁]
  rw [hreg] at hgreater hrest
  exact ⟨t₂, hrun₁.trans hrun₂, hmoved₁.trans hmoved₂,
    fun h => hgreater (h.resolve_left hneg), fun h => hrest fun hgt => h (Or.inr hgt)⟩

/-- **The end of the handler**: with the words of a frame on the stack, those
saved as `i` has them. -/
theorem sysenterFin_spec {i : Cpu} {ret ucs fl usp uds : Word32}
    (h : M.Placed v.eip sysenterFin b)
    (hstack : v.Stack (i.savedBy saving ++ [ret, ucs, fl, usp, uds]))
    (hmsr : v.msr Cpu.sysenterCs = kernelCs) :
    ∃ t, M.Steps v t ∧ t.eip = ret ∧ t.reg .esp = usp ∧ t.reg .eax = v.reg .eax
      ∧ (∀ r, r ≠ .esp → r ≠ .eax → r ≠ .ecx → r ≠ .edx → t.reg r = i.reg r)
      ∧ (∀ g, g ≠ .cs → g ≠ .ss → t.seg g = i.seg g) ∧ t.seg .cs = userCs ∧ t.seg .ss = userDs
      ∧ t.mem = store v.mem (v.reg .esp + 24) (v.reg .eax) := by
  -- the value is put in the place of `eax`
  obtain ⟨c, hput, hcode⟩ := Program.placed_append.mp
    (show M.Placed v.eip ([.movMem .eax .esp 0x18] ++ (restoreAll ++ [.mov (.mem .esp 0) .edx,
      .mov (.mem .esp 12) .ecx, .sti, .sysexit])) b from h)
  have hrun₁ := hput.straight rfl
  set v₁ : Cpu := { v with eip := c, mem := store v.mem (v.reg .esp + 24) (v.reg .eax) } with hv₁
  have hstack₁ : v₁.Stack ((i.setReg .eax (v.reg .eax)).savedBy saving
      ++ [ret, ucs, fl, usp, uds]) :=
    Words.set (i := 6) hstack (show 6 < 16 by decide) (show 64 ≤ 2 ^ 32 by decide)
  -- the registers are restored
  obtain ⟨d, hrestore, hcode⟩ := Program.placed_append.mp hcode
  have hrun₂ := hrestore.straight (s := v₁) rfl
  obtain ⟨hres, hstack₂⟩ := Cpu.restore_spec (σ := saving) hstack₁
  have hmem := hres.mem
  have hmsr₂ : (v₁.effects saving.restore).msr Cpu.sysenterCs = kernelCs := by
    rw [hres.rest]
    exact hmsr
  change M.Steps v₁ { v₁.effects saving.restore with eip := d } at hrun₂
  generalize v₁.effects saving.restore = w at *
  -- where to go on
  obtain ⟨e, hload, hcode⟩ := Program.placed_append.mp
    (show M.Placed d ([.mov (.mem .esp 0) .edx, .mov (.mem .esp 12) .ecx, .sti] ++ [.sysexit]) b
      from hcode)
  have hrun₃ := hload.straight (s := { w with eip := d }) rfl
  have hedx : load w.mem (w.reg .esp + 0) = ret := by
    rw [add_zero]
    exact hstack₂.1
  have hecx : load w.mem (w.reg .esp + 12) = usp := by
    rw [← hstack₂.2.2.2.1]
    congr 1
    bv_omega
  set x : Cpu := { w with
    reg := Function.update (Function.update w.reg .edx ret) .ecx usp
    eip := e
    eflags := w.eflags ||| interruptFlag } with hx
  have hloaded : ({ ({ w with eip := d } : Cpu).effects [.mov (.mem .esp 0) .edx,
      .mov (.mem .esp 12) .ecx, .sti] with eip := e } : Cpu) = x := by
    rw [hx, ← hedx, ← hecx]
    rfl
  rw [hloaded] at hrun₃
  obtain ⟨next, -, hrun₄⟩ := Program.Placed.exec (s := x) hcode
  have hregs : ∀ r, r ≠ .esp → r ≠ .ecx → r ≠ .edx →
      (x.exec next .sysexit).reg r = (i.setReg .eax (v.reg .eax)).reg r := by
    intro r hesp hecx hedx
    rw [← hres.reg r ((saving.mem_regs r).mpr hesp)]
    show Function.update x.reg .esp usp r = _
    rw [Function.update_of_ne hesp]
    show Function.update (Function.update w.reg .edx ret) .ecx usp r = _
    rw [Function.update_of_ne hecx, Function.update_of_ne hedx]
  have hsegs : (x.exec next .sysexit).seg
      = Function.update (Function.update w.seg .cs userCs) .ss userDs := by
    show Function.update (Function.update w.seg .cs ((x.msr Cpu.sysenterCs + 16) ||| 3)) .ss
      ((x.msr Cpu.sysenterCs + 24) ||| 3) = _
    rw [show x.msr Cpu.sysenterCs = kernelCs from hmsr₂]
    rfl
  refine ⟨_, ((hrun₁.trans hrun₂).trans hrun₃).trans hrun₄, ?_, ?_, ?_,
    fun r hesp heax hecx hedx => ?_, fun g hcs hss => ?_, ?_, ?_, hmem⟩
  · rfl
  · rfl
  · exact (hregs .eax (by decide) (by decide) (by decide)).trans
      (i.setReg_self .eax (v.reg .eax))
  · exact (hregs r hesp hecx hedx).trans (i.setReg_ne heax (v.reg .eax))
  · rw [hsegs, Function.update_of_ne hss, Function.update_of_ne hcs]
    exact hres.seg g ((saving.mem_segs g).mpr ⟨hcs, hss⟩)
  · rw [hsegs]
    rfl
  · rw [hsegs]
    rfl

/-- **The entry of the function of the table**, for a call whose registers are
those of `k`: its arguments are on the stack of the kernel. -/
structure Entered (f : Word32) (k u : Cpu) : Prop where
  eip : u.eip = f
  esp : u.reg .esp = k.reg .esp - 68
  args : Words u.mem (k.reg .esp - 64) [k.reg .ebx, k.reg .ecx, k.reg .edx]
  ds : u.seg .ds = kernelDs
  es : u.seg .es = kernelDs
  msr : u.msr = k.msr
  mem : ∀ x, ¬ Block (k.reg .esp - 68) 68 x → u.mem x = k.mem x

/-- **A system call answered** with the value `r`, from a kernel that leaves
the memory `mem`. -/
structure Answered (k : Cpu) (mem : LinearMemory) (r : Word32) (t : Cpu) : Prop where
  eip : t.eip = load k.mem (k.reg .ebp + 4)
  esp : t.reg .esp = k.reg .ebp
  eax : t.reg .eax = r
  saved : ∀ q ∈ [Reg.esi, .edi, .ebp], t.reg q = k.reg q
  seg : ∀ g, g ≠ .cs → g ≠ .ss → t.seg g = k.seg g
  cs : t.seg .cs = userCs
  ss : t.seg .ss = userDs
  mem : t.mem = store mem (k.reg .esp - 40) r

/-- From `sysenter_fin` on, a call is answered with the value in `eax`. The
registers the function has for arguments may have changed. -/
theorem answered_of_fin {i : Cpu} (h : M.Placed v.eip sysenterFin b)
    (hstack : v.Stack (i.savedBy saving ++ callFrame k)) (hesp : v.reg .esp = k.reg .esp - 64)
    (hreg : ∀ q ∈ [Reg.esi, .edi, .ebp], i.reg q = k.reg q) (hseg : i.seg = k.seg)
    (hmsr : v.msr Cpu.sysenterCs = kernelCs) :
    ∃ t, M.Steps v t ∧ Answered k v.mem (v.reg .eax) t ∧ t.reg .ebx = i.reg .ebx := by
  obtain ⟨t, hrun, heip, hespt, heax, hregt, hsegt, hcs, hss, hmem⟩ :=
    sysenterFin_spec h hstack hmsr
  have hsaved : ∀ q ∈ [Reg.esi, .edi, .ebp], q ≠ .esp ∧ q ≠ .eax ∧ q ≠ .ecx ∧ q ≠ .edx := by
    decide
  refine ⟨t, hrun, ⟨heip, hespt, heax, fun q hq => ?_, fun g hg hg' => ?_, hcs, hss, ?_⟩,
    hregt .ebx (by decide) (by decide) (by decide) (by decide)⟩
  · obtain ⟨h₁, h₂, h₃, h₄⟩ := hsaved q hq
    exact (hregt q h₁ h₂ h₃ h₄).trans (hreg q hq)
  · exact (hsegt g hg hg').trans (congrFun hseg g)
  · rw [hmem, hesp]
    congr 1
    bv_omega

/-- What the handler is entered with: the return address is not on the stack
it is about to write. -/
structure CallReady (M : Program) (entry table : Word32) (k : Cpu) : Prop where
  code : HandlerAt M entry table
  eip : k.eip = entry
  msr : k.msr Cpu.sysenterCs = kernelCs
  apart : Apart (k.reg .ebp + 4) 4 (k.reg .esp - 64) 64

/-- **A number outside the table** is answered by the error. -/
theorem handler_error (h : CallReady M entry table k)
    (hnum : (k.reg .eax).toInt < 0 ∨ maxSyscall < (k.reg .eax).toInt) :
    ∃ t mem, M.Steps k t ∧ Answered k mem (BitVec.ofInt 32 (-eNOSYS)) t
      ∧ t.reg .ebx = k.reg .ebx ∧ ∀ x, ¬ Block (k.reg .esp - 64) 64 x → mem x = k.mem x := by
  obtain ⟨err, fin, e, hcode, herr, hfin⟩ := h.code
  rw [← h.eip] at hcode
  obtain ⟨hesp, hstack, hreg, -, hmem, hmsr⟩ := callEntry_spec h.apart
  obtain ⟨c, hentry, htests⟩ := Program.placed_append.mp hcode
  have hrun₁ := hentry.straight rfl
  generalize k.effects callEntry = u at *
  have heax : u.reg .eax = k.reg .eax := hreg .eax (by decide) (by decide)
  rw [← heax] at hnum
  obtain ⟨v, hrun₂, hmoved, hbad, -⟩ := callTests_spec (v := { u with eip := c }) htests
  rw [← hbad hnum] at herr
  have hrun₃ := herr.straight rfl
  have hv : v = { u with eip := v.eip, eflags := v.eflags } := hmoved
  have heaxw : (v.effects sysenterErr).reg .eax = BitVec.ofInt 32 (-eNOSYS) :=
    v.setReg_self .eax _
  have hespw : (v.effects sysenterErr).reg .esp = k.reg .esp - 64 := by
    refine (v.setReg_ne (q := .esp) (r := .eax) (by decide) (BitVec.ofInt 32 (-eNOSYS))).trans ?_
    rw [hv]
    exact hesp
  have hmemw : (v.effects sysenterErr).mem = u.mem ∧ (v.effects sysenterErr).msr = k.msr := by
    rw [hv]
    exact ⟨rfl, hmsr⟩
  generalize v.effects sysenterErr = w at *
  have hstackw : ({ w with eip := fin } : Cpu).Stack (k.savedBy saving ++ callFrame k) := by
    show Words w.mem (w.reg .esp) _
    rw [hmemw.1, hespw, ← hesp]
    exact hstack
  obtain ⟨t, hrun₄, hanswered, hebx⟩ := answered_of_fin (v := { w with eip := fin }) hfin hstackw
    hespw (fun _ _ => rfl) rfl ((congrFun hmemw.2 _).trans h.msr)
  refine ⟨t, w.mem, ((hrun₁.trans hrun₂).trans hrun₃).trans hrun₄, ?_, hebx, ?_⟩
  · rw [← heaxw]
    exact hanswered
  · rw [hmemw.1]
    exact hmem

/-- **The function of the table has been entered**, with the frame of the call
on the stack above its return address. -/
structure AtCall (M : Program) (f : Word32) (k u : Cpu) : Prop where
  entered : Entered f k u
  frame : Words u.mem (k.reg .esp - 64) (k.savedBy saving ++ callFrame k)
  back : ∃ fin b e, M.Placed u.top [.jmp fin] b ∧ M.Placed fin sysenterFin e

/-- **A number of the table** leads to the function there. -/
theorem handler_enters (h : CallReady M entry table k)
    (hnum : ¬ ((k.reg .eax).toInt < 0 ∨ maxSyscall < (k.reg .eax).toInt))
    (hload : load k.mem (table + 4 * k.reg .eax) = f)
    (htable : Apart (table + 4 * k.reg .eax) 4 (k.reg .esp - 64) 64) :
    ∃ u, M.Steps k u ∧ AtCall M f k u := by
  obtain ⟨err, fin, e, hcode, herr, hfin⟩ := h.code
  rw [← h.eip] at hcode
  obtain ⟨hesp, hstack, hreg, ⟨hds, hes⟩, hmem, hmsr⟩ := callEntry_spec h.apart
  obtain ⟨c, hentry, htests⟩ := Program.placed_append.mp hcode
  have hrun₁ := hentry.straight rfl
  generalize k.effects callEntry = p at *
  have heax : p.reg .eax = k.reg .eax := hreg .eax (by decide) (by decide)
  rw [← heax] at hnum
  obtain ⟨v, hrun₂, hmoved, -, hgood⟩ := callTests_spec (v := { p with eip := c }) htests
  obtain ⟨next, hjmp, hrun₃⟩ := (hgood hnum).exec
  have hv : v = { p with eip := v.eip, eflags := v.eflags } := hmoved
  have hsame : v.mem = p.mem ∧ v.reg = p.reg ∧ v.msr = p.msr ∧ v.seg = p.seg := by
    rw [hv]
    exact ⟨rfl, rfl, rfl, rfl⟩
  obtain ⟨hvmem, hvreg, hvmsr, hvseg⟩ := hsame
  have hespv : v.reg .esp = k.reg .esp - 64 := (congrFun hvreg .esp).trans hesp
  have hstackv : v.Stack (k.savedBy saving ++ callFrame k) := by
    unfold Cpu.Stack
    rw [hvmem, hvreg]
    exact hstack
  have hentered : v.exec next (.callTable table .eax) = v.enter f next := by
    have hfound : load v.mem (table + 4 * v.reg .eax) = f := by
      rw [hvmem, hvreg, heax, ← hload]
      exact load_congr fun x hx => hmem x (htable x hx)
    show { v.push next with eip := load v.mem (table + 4 * v.reg .eax) } = v.enter f next
    rw [hfound]
    rfl
  rw [hentered] at hrun₃
  have hbottom : v.reg .esp - 4 = k.reg .esp - 68 := by
    rw [hespv]
    bv_omega
  have hframe : Words (v.enter f next).mem (k.reg .esp - 64) (k.savedBy saving ++ callFrame k) := by
    have h := (Cpu.stack_enter f next hstackv (show 68 ≤ 2 ^ 32 by decide)).2
    rwa [Cpu.enter_esp, sub_add_cancel, hespv] at h
  refine ⟨v.enter f next, (hrun₁.trans hrun₂).trans hrun₃, ?_, hframe, fin, err, e, ?_, hfin⟩
  · refine ⟨rfl, (v.enter_esp f next).trans hbottom,
      ⟨hframe.1, hframe.2.1, hframe.2.2.1, trivial⟩, (congrFun hvseg .ds).trans hds,
      (congrFun hvseg .es).trans hes, hvmsr.trans hmsr, fun x hx => ?_⟩
    have hout : ¬ Block (v.reg .esp - 4) 4 x ∧ ¬ Block (k.reg .esp - 64) 64 x := by
      rw [hbottom]
      unfold Block at *
      constructor <;> bv_omega
    refine (store_other hout.1).trans ?_
    rw [hvmem]
    exact hmem x hout.2
  · rw [Cpu.enter_top]
    exact hjmp

/-- **When the function has returned** the call is answered with its value,
wherever it has left the frame above its arguments alone. -/
theorem AtCall.answered {u w : Cpu} (h : AtCall M f k u) (hret : Cpu.Returned K u w)
    (habove : ∀ x, Block (k.reg .esp - 52) 52 x → K x)
    (hmsr : w.msr Cpu.sysenterCs = kernelCs) :
    ∃ t, M.Steps w t ∧ Answered k w.mem (w.reg .eax) t
      ∧ ((∀ x, Block (k.reg .esp - 64) 4 x → K x) → t.reg .ebx = k.reg .ebx) := by
  obtain ⟨fin, b, e, hjmp, hfin⟩ := h.back
  rw [← hret.eip] at hjmp
  obtain ⟨next, -, hrun₁⟩ := hjmp.exec
  have hesp : w.reg .esp = k.reg .esp - 64 := by
    rw [hret.esp, h.entered.esp]
    bv_omega
  -- the registers, as the stack has them now
  set i : Cpu := { k with
    reg := Function.update (Function.update (Function.update k.reg .ebx (load w.mem (w.reg .esp)))
      .ecx (load w.mem (w.reg .esp + 4))) .edx (load w.mem (w.reg .esp + 4 + 4)) } with hi
  have hframe : Words w.mem (w.reg .esp + 4 + 4 + 4)
      ((k.savedBy saving ++ callFrame k).drop 3) := by
    rw [hesp]
    refine Words.congr (n := 52) (h.frame.2.2.2) (show 52 ≤ 52 by decide) (by decide)
      fun x hx => hret.mem x (habove x ?_)
    unfold Block at *
    bv_omega
  have hsaved : ∀ q ∈ [Reg.esi, .edi, .ebp], q ≠ .ebx ∧ q ≠ .ecx ∧ q ≠ .edx := by decide
  have hregi : ∀ q ∈ [Reg.esi, .edi, .ebp], i.reg q = k.reg q := by
    intro q hq
    obtain ⟨h₁, h₂, h₃⟩ := hsaved q hq
    show Function.update (Function.update (Function.update k.reg .ebx _) .ecx _) .edx _ q = _
    rw [Function.update_of_ne h₃, Function.update_of_ne h₂, Function.update_of_ne h₁]
  obtain ⟨t, hrun₂, hanswered, hebx⟩ := answered_of_fin (k := k) (i := i)
    (v := { w with eip := fin }) hfin ⟨rfl, rfl, rfl, hframe⟩ hesp hregi rfl hmsr
  refine ⟨t, hrun₁.trans hrun₂, hanswered, fun hK => ?_⟩
  rw [hebx]
  show load w.mem (w.reg .esp) = _
  rw [hesp, ← h.frame.1]
  exact load_congr fun x hx => hret.mem x (hK x hx)

end Handler

end ZeOS.Practica
