import ZeOS.X86.Interrupt

/-!
# The interrupt handlers

`entry.S`: a handler saves every register, calls the routine and two functions
that keep the accounts, and restores the registers. The routines are written
in C. They store through pointers they find in memory, and one of them stops
the machine at a page fault it cannot mend; so it is asked of them that they
return and leave the stack above them alone where they are entered as the
handler enters them, in a memory that is still fit for them – for a clock tick
that ends a turn this is what a task switch provides to the task that is
switched away from.

The result is that an interrupt is not noticed: every register, every segment
register, the flags and the instruction pointer are as before, wherever the
interrupt came in, also within the kernel. The page fault handler ends with
one instruction more, for the error code.
-/

namespace ZeOS.Practica

open X86

/-! ## `segment.h` -/

abbrev kernelCs : Word32 := 0x10
abbrev kernelDs : Word32 := 0x18
abbrev userCs : Word32 := 0x23
abbrev userDs : Word32 := 0x2b

/-! ## `entry.S` -/

/-- The order of `SAVE_ALL`. -/
def saving : Saving where
  segs := [.gs, .fs, .es, .ds]
  regs := [.eax, .ebp, .edi, .esi, .edx, .ecx, .ebx]
  nodup_segs := by decide
  nodup_regs := by decide
  mem_segs := by decide
  mem_regs := by decide

/-- `SAVE_ALL`. -/
def saveAll : List Instr := saving.save kernelDs

/-- `RESTORE_ALL`. -/
def restoreAll : List Instr := saving.restore

/-- `EOI`. -/
def eoi : List Instr := [.movb 0x20 .eax, .outb .eax 0x20]

/-- A call between a push and a pop of `eax`. -/
def callPushed (f : Word32) : List Instr := [.push (.reg .eax), .call f, .pop .eax]

/-- The handler of a device. -/
def deviceHandler (userToSystem routine systemToUser : Word32) : List Instr :=
  saveAll ++ callPushed userToSystem ++ eoi ++ [.call routine] ++ callPushed systemToUser
    ++ restoreAll ++ [.iret]

/-- `clock_handler`. -/
def clockHandler (userToSystem clockRoutine systemToUser : Word32) : List Instr :=
  deviceHandler userToSystem clockRoutine systemToUser

/-- `keyboard_handler`. -/
def keyboardHandler (userToSystem keyboardRoutine systemToUser : Word32) : List Instr :=
  deviceHandler userToSystem keyboardRoutine systemToUser

/-- `pagefault_handler`. -/
def pagefaultHandler (userToSystem pagefaultRoutine systemToUser : Word32) : List Instr :=
  saveAll ++ callPushed userToSystem ++ eoi ++ callPushed pagefaultRoutine
    ++ callPushed systemToUser ++ restoreAll ++ [.add 4 .esp, .iret]

/-- At level 0 with the data segments of the kernel. -/
structure InKernel (u : Cpu) : Prop where
  cs : u.seg .cs = kernelCs
  ds : u.seg .ds = kernelDs
  es : u.seg .es = kernelDs

/-- **A routine is entered** with the stack of its handler down to `a`: in a
memory of which `I` says something, but for two words below it. -/
structure RoutineEntered (a : Word32) (I : LinearMemory → Prop) (u : Cpu) : Prop where
  kernel : InKernel u
  mem : Off (a - 8) 8 I u.mem

section Entry

variable {M : Program} {s u : Cpu} {K : Word32 → Prop} {I J : LinearMemory → Prop} {b f : Word32}
  {is : List Instr}

theorem InKernel.kept (h : InKernel s) (hk : Cpu.Kept K s u) : InKernel u :=
  ⟨hk.seg ▸ h.cs, hk.seg ▸ h.ds, hk.seg ▸ h.es⟩

/-- **A call of a routine.** -/
theorem call_spec (h : M.Placed s.eip (.call f :: is) b) (hs : InKernel s) (hI : I s.mem)
    (hf : M.Function f (s.reg .esp - 4) K (RoutineEntered (s.reg .esp) I) fun t => J t.mem)
    (hK : ∀ x, Block (s.reg .esp - 8) 8 x → ¬ K x) :
    ∃ t, M.Steps s t ∧ M.Placed t.eip is b ∧ Cpu.Kept K s t ∧ J t.mem := by
  have hin : ∀ x, Block (s.reg .esp - 4) 4 x → Block (s.reg .esp - 8) 8 x := by
    intro x hx
    unfold Block at *
    bv_omega
  obtain ⟨t, hrun, hplaced, hkept, -, hJ⟩ := h.call hf (fun x hx => hK x (hin x hx))
    fun next => ⟨⟨hs.cs, hs.ds, hs.es⟩, s.mem, hI, fun x hx =>
      store_other fun hb => hx (hin x hb)⟩
  exact ⟨t, hrun, hplaced, hkept, hJ⟩

/-- **A call between a push and a pop of `eax`.** -/
theorem callPushed_spec (h : M.Placed s.eip (callPushed f ++ is) b) (hs : InKernel s)
    (hI : I s.mem)
    (hf : M.Function f (s.reg .esp - 8) K (RoutineEntered (s.reg .esp) I) fun t => J t.mem)
    (hK : ∀ x, Block (s.reg .esp - 8) 8 x → ¬ K x) :
    ∃ t, M.Steps s t ∧ M.Placed t.eip is b ∧ Cpu.Kept K s t ∧ J t.mem := by
  obtain ⟨c, hpush, hrest⟩ := Program.placed_append.mp
    (show M.Placed s.eip ([.push (.reg .eax)] ++ (.call f :: .pop .eax :: is)) b from h)
  have hrun := hpush.straight rfl
  set s₁ : Cpu := { s.effects [.push (.reg .eax)] with eip := c } with hs₁
  have hesp₁ : s₁.reg .esp = s.reg .esp - 4 := s.push_esp (s.reg .eax)
  have hbelow : s.reg .esp - 4 - 4 = s.reg .esp - 8 := by bv_omega
  have hpushed : ∀ x, ¬ Block (s.reg .esp - 8) 8 x → s₁.mem x = s.mem x := by
    intro x hx
    refine store_other fun hb => hx ?_
    unfold Block at *
    bv_omega
  have hentered : ∀ next, RoutineEntered (s.reg .esp) I (s₁.enter f next) := by
    refine fun next => ⟨⟨hs.cs, hs.ds, hs.es⟩, s.mem, hI, fun x hx => ?_⟩
    refine (store_other fun hb => hx ?_).trans (hpushed x hx)
    rw [hesp₁, hbelow] at hb
    exact lt_of_lt_of_le hb (by decide)
  obtain ⟨u, hcall, hplaced, hkept, -, hJ⟩ := hrest.call (s := s₁)
    (by rw [hesp₁, hbelow]; exact hf)
    (fun x hx => hK x (by rw [hesp₁, hbelow] at hx; exact lt_of_lt_of_le hx (by decide)))
    hentered
  obtain ⟨next, hnext, hpop⟩ := hplaced.exec
  refine ⟨_, (hrun.trans hcall).trans hpop, hnext, ⟨?_, hkept.seg, fun x hx => ?_⟩, hJ⟩
  · have hesp₂ : u.reg .esp + 4 = s.reg .esp := by
      rw [hkept.esp, hesp₁, sub_add_cancel]
    refine Eq.trans ?_ hesp₂
    exact (u.drop.setReg_ne (q := .esp) (r := .eax) (by decide) u.top).trans u.drop_esp
  · exact (hkept.mem x hx).trans (hpushed x fun hb => hK x hb hx)

/-! ## The handlers -/

/-- The vectors `setIdt` has a handler for. -/
inductive InterruptVector where
  | clock | keyboard | pagefault
deriving DecidableEq

namespace InterruptVector

def number : InterruptVector → ℕ
  | .clock => 32
  | .keyboard => 33
  | .pagefault => 14

/-- A page fault comes with an error code. -/
def hasError : InterruptVector → Bool
  | .clock | .keyboard => false
  | .pagefault => true

def handler (userToSystem routine systemToUser : Word32) : InterruptVector → List Instr
  | .clock => clockHandler userToSystem routine systemToUser
  | .keyboard => keyboardHandler userToSystem routine systemToUser
  | .pagefault => pagefaultHandler userToSystem routine systemToUser

/-- How far below the saved registers the routine is entered: its return
address, and `eax` above it for a page fault. -/
def depth : InterruptVector → Word32
  | .clock | .keyboard => 4
  | .pagefault => 8

/-- What is between `SAVE_ALL` and `RESTORE_ALL`. -/
def body (userToSystem routine systemToUser : Word32) : InterruptVector → List Instr
  | .clock | .keyboard =>
    callPushed userToSystem ++ (eoi ++ (.call routine :: callPushed systemToUser))
  | .pagefault =>
    callPushed userToSystem ++ (eoi ++ (callPushed routine ++ callPushed systemToUser))

theorem handler_eq {userToSystem routine systemToUser : Word32} {error : Option Word32}
    (v : InterruptVector) (herror : error.isSome = v.hasError) :
    v.handler userToSystem routine systemToUser
      = saveAll ++ (v.body userToSystem routine systemToUser
        ++ (restoreAll ++ (Cpu.dropError error ++ [.iret]))) := by
  have hcases : Cpu.dropError error = if v.hasError then [.add 4 .esp] else [] := by
    rw [← herror]
    cases error <;> rfl
  rw [hcases]
  cases v <;> rfl

end InterruptVector

/-- **What a handler needs**: its code, and three functions that return and
leave the stack above them alone, each of them where it is entered – the first
one in the memory of the interrupted program with the stack of the handler
written, the others in a memory as the one before has left it, of which `I`
and then `J` says something. -/
structure Handles (M : Program) (K : Word32 → Prop) (I J : LinearMemory → Prop) (s : Cpu)
    (v : InterruptVector) (error : Option Word32)
    (entry userToSystem routine systemToUser : Word32) : Prop where
  withError : error.isSome = v.hasError
  code : ∃ b, M.Placed entry (v.handler userToSystem routine systemToUser) b
  above : ∀ x, Block (Cpu.handlerEsp saving s error) (Cpu.handlerSize saving s error) x → K x
  below : ∀ x, Block (Cpu.handlerEsp saving s error - 8) 8 x → ¬ K x
  userToSystem : M.Function userToSystem (Cpu.handlerEsp saving s error - 8) K
    (RoutineEntered (Cpu.handlerEsp saving s error)
      (Off (Cpu.handlerEsp saving s error) (Cpu.handlerSize saving s error) (· = s.mem)))
    fun t => I t.mem
  routine : M.Function routine (Cpu.handlerEsp saving s error - v.depth) K
    (RoutineEntered (Cpu.handlerEsp saving s error) I) fun t => J t.mem
  systemToUser : M.Function systemToUser (Cpu.handlerEsp saving s error - 8) K
    (RoutineEntered (Cpu.handlerEsp saving s error) J) fun _ => True

/-- What is between `SAVE_ALL` and `RESTORE_ALL` keeps the stack. -/
theorem Handles.body {v : InterruptVector} {error : Option Word32} {e y r x : Word32}
    (h : Handles M K I J s v error e y r x)
    (hu : Cpu.InHandler saving kernelCs kernelDs error s u)
    (hcode : M.Placed u.eip (v.body y r x ++ is) b) :
    ∃ t, M.Steps u t ∧ M.Placed t.eip is b ∧ Cpu.Kept K u t := by
  obtain ⟨hwithError, -, -, hbelow, hfirst, hroutine, hlast⟩ := h
  have hkernel : InKernel u := ⟨hu.cs, hu.ds, hu.es⟩
  have hmem := hu.mem
  rw [← hu.esp] at hbelow hfirst hroutine hlast hmem
  have hkeep : ∀ {w : Cpu}, w.reg .esp = u.reg .esp →
      ∀ z, Block (w.reg .esp - 8) 8 z → ¬ K z := fun hw z hz => hbelow z (hw ▸ hz)
  cases v with
  | clock | keyboard =>
    obtain ⟨u₁, hrun₁, hcode₁, hkept₁, hI⟩ :=
      callPushed_spec hcode hkernel hmem hfirst (hkeep rfl)
    obtain ⟨u₂, hrun₂, hcode₂, hkept₂, hmem₂⟩ := Cpu.kept_send (K := K) hcode₁
    have hesp₂ : u₂.reg .esp = u.reg .esp := hkept₂.esp.trans hkept₁.esp
    have hkernel₂ := (hkernel.kept hkept₁).kept hkept₂
    obtain ⟨u₃, hrun₃, hcode₃, hkept₃, hJ⟩ := call_spec hcode₂ hkernel₂ (hmem₂ ▸ hI)
      (by rw [hesp₂]; exact hroutine) (hkeep hesp₂)
    have hesp₃ : u₃.reg .esp = u.reg .esp := hkept₃.esp.trans hesp₂
    obtain ⟨t, hrun₄, hcode₄, hkept₄, -⟩ := callPushed_spec hcode₃ (hkernel₂.kept hkept₃) hJ
      (J := fun _ => True) (by rw [hesp₃]; exact hlast) (hkeep hesp₃)
    exact ⟨t, ((hrun₁.trans hrun₂).trans hrun₃).trans hrun₄, hcode₄,
      ((hkept₁.trans hkept₂).trans hkept₃).trans hkept₄⟩
  | pagefault =>
    obtain ⟨u₁, hrun₁, hcode₁, hkept₁, hI⟩ :=
      callPushed_spec hcode hkernel hmem hfirst (hkeep rfl)
    obtain ⟨u₂, hrun₂, hcode₂, hkept₂, hmem₂⟩ := Cpu.kept_send (K := K) hcode₁
    have hesp₂ : u₂.reg .esp = u.reg .esp := hkept₂.esp.trans hkept₁.esp
    have hkernel₂ := (hkernel.kept hkept₁).kept hkept₂
    obtain ⟨u₃, hrun₃, hcode₃, hkept₃, hJ⟩ := callPushed_spec hcode₂ hkernel₂ (hmem₂ ▸ hI)
      (by rw [hesp₂]; exact hroutine) (hkeep hesp₂)
    have hesp₃ : u₃.reg .esp = u.reg .esp := hkept₃.esp.trans hesp₂
    obtain ⟨t, hrun₄, hcode₄, hkept₄, -⟩ := callPushed_spec hcode₃ (hkernel₂.kept hkept₃) hJ
      (J := fun _ => True) (by rw [hesp₃]; exact hlast) (hkeep hesp₃)
    exact ⟨t, ((hrun₁.trans hrun₂).trans hrun₃).trans hrun₄, hcode₄,
      ((hkept₁.trans hkept₂).trans hkept₃).trans hkept₄⟩

end Entry

/-! ## The gates -/

/-- An entry of the interrupt descriptor table. -/
structure Gate where
  lowOffset : BitVec 16
  segmentSelector : BitVec 16
  flags : BitVec 16
  highOffset : BitVec 16

/-- `setInterruptHandler`: an interrupt gate to `handler`. -/
def setInterruptHandler (idt : ℕ → Gate) (vector : ℕ) (handler : Word32)
    (maxAccessibleFromPL : BitVec 16) : ℕ → Gate :=
  Function.update idt vector
    { lowOffset := handler.extractLsb' 0 16
      segmentSelector := kernelCs.setWidth 16
      flags := (maxAccessibleFromPL <<< 13) ||| 0x8e00
      highOffset := handler.extractLsb' 16 16 }

/-- The handlers `setIdt` installs, over those of the library. -/
def setIdt (idt : ℕ → Gate) (entry : InterruptVector → Word32) : ℕ → Gate :=
  setInterruptHandler (setInterruptHandler (setInterruptHandler idt 32 (entry .clock) 0)
    33 (entry .keyboard) 0) 14 (entry .pagefault) 0

/-- The address the processor makes of a gate. -/
def Gate.offset (g : Gate) : Word32 := g.highOffset ++ g.lowOffset

/-- An interrupt, as the processor takes it by a gate. -/
def deliver (s : Cpu) (g : Gate) (error : Option Word32) : Cpu :=
  s.interrupt (g.segmentSelector.setWidth 32) kernelDs g.offset error

/-- **A gate leads to its handler**, in the segment of the kernel. -/
theorem gate_setIdt (idt : ℕ → Gate) (entry : InterruptVector → Word32) (v : InterruptVector) :
    (setIdt idt entry v.number).offset = entry v
      ∧ (setIdt idt entry v.number).segmentSelector.setWidth 32 = kernelCs := by
  have hoffset : ∀ w : Word32, (w.extractLsb' 16 16 ++ w.extractLsb' 0 16 : Word32) = w := by
    intro w
    ext i hi
    simp only [BitVec.getElem_append, BitVec.getElem_extractLsb']
    split_ifs <;> grind
  have hgate : setIdt idt entry v.number
      = { lowOffset := (entry v).extractLsb' 0 16
          segmentSelector := kernelCs.setWidth 16
          flags := (0 <<< 13) ||| 0x8e00
          highOffset := (entry v).extractLsb' 16 16 } := by
    cases v <;> simp [setIdt, setInterruptHandler, InterruptVector.number]
  rw [hgate]
  exact ⟨hoffset _, rfl⟩

/-- **An interrupt is not noticed.** Taken by the gate `setIdt` has set, by the
clock, the keyboard or a page fault, in user mode or in the kernel, it leaves
every register, segment register and flag and the instruction pointer as they
were. -/
theorem interrupt_resumes {M : Program} {K : Word32 → Prop} {I J : LinearMemory → Prop} {s : Cpu}
    {v : InterruptVector} {error : Option Word32} {userToSystem routine systemToUser : Word32}
    (idt : ℕ → Gate) (entry : InterruptVector → Word32)
    (h : Handles M K I J s v error (entry v) userToSystem routine systemToUser) :
    ∃ t, M.Steps (deliver s (setIdt idt entry v.number) error) t
      ∧ Cpu.Resumed saving K error s t := by
  obtain ⟨b, hcode⟩ := h.code
  rw [v.handler_eq h.withError] at hcode
  obtain ⟨hoffset, hselector⟩ := gate_setIdt idt entry v
  have herror : error.toList.length ≤ 1 := by cases error <;> simp
  rw [deliver, hoffset, hselector]
  exact Cpu.resumed_of_body (by decide) herror hcode (fun u is hu hcode => h.body hu hcode) h.above

/-- **A routine with effects**: it stores through the pointer it finds at
0x7000 and leaves other values in the registers that are its own, and it stops
where there is no pointer. -/
def storeThrough (s : Cpu) : Option Cpu :=
  let p := load s.mem 0x7000
  if p = 0 then none else some (s.returnStoring p (s.reg .ebx) p)

/-- It does what is asked of it on any stack but at 0x8000, where the pointer
is to that place. -/
theorem function_storeThrough {M : Program} {K : Word32 → Prop} {f e : Word32}
    (hcode : M.code f = none) (hext : M.ext f = storeThrough)
    (hK : ∀ x, K x → ¬ Block 0x8000 4 x) :
    M.Function f e K (fun u => load u.mem 0x7000 = 0x8000)
      fun t => load t.mem 0x7000 = 0x8000 where
  code := hcode
  returned s _ hp := by
    have hone : storeThrough s = some (s.returnStoring 0x8000 (s.reg .ebx) 0x8000) := by
      unfold storeThrough
      rw [hp]
      rfl
    rw [hext, hone]
    refine ⟨_, rfl, s.returned_returnStoring hK, ?_⟩
    show load (store s.mem 0x8000 (s.reg .ebx)) 0x7000 = 0x8000
    rw [load_store_apart, hp]
    intro x hx hb
    unfold Block at *
    bv_omega

/-- A machine with the handler of the clock at 0, and the three functions it
calls at 100, 101 and 102. -/
def clockMachine : Program where
  code := Program.listing 0 (clockHandler 100 101 102)
  ext f s := if f = 100 ∨ f = 101 ∨ f = 102 then storeThrough s else none

/-- A program in user mode, on a machine with the pointer to 0x8000 at
0x7000. -/
def userState : Cpu where
  reg _ := 0x5000
  seg g := if g = .cs then userCs else userDs
  eip := 0x4000
  eflags := 0x202
  mem x := if x = 0x7001 then 0x80 else 0
  msr _ := 0
  esp0 := 0x3000
  sent := []

/-- The clock interrupts it, and the routines write. -/
theorem interrupt_resumes_clock :
    ∃ t, clockMachine.Steps
        (deliver userState (setIdt (fun _ => ⟨0, 0, 0, 0⟩) (fun _ => 0) 32) none) t
      ∧ t.reg = userState.reg ∧ t.seg = userState.seg ∧ t.eip = userState.eip
      ∧ t.eflags = userState.eflags := by
  have hesp : Cpu.handlerEsp saving userState none = 0x2fc0 := by decide
  have hsize : Cpu.handlerSize saving userState none = 64 := by decide
  -- the pointer is where no handler writes
  have hapart : ∀ x, Block 0x7000 4 x → ¬ Block (0x2fc0 - 8) 8 x ∧ ¬ Block 0x2fc0 64 x := by
    intro x hx
    unfold Block at *
    constructor <;> bv_omega
  have hpointer : ∀ {I : LinearMemory → Prop} {u : Cpu}, (∀ m, I m → load m 0x7000 = 0x8000) →
      RoutineEntered 0x2fc0 I u → load u.mem 0x7000 = 0x8000 := by
    rintro I u hI ⟨-, m, hm, hoff⟩
    rw [← hI m hm]
    exact load_congr fun x hx => hoff x (hapart x hx).1
  have hstart : ∀ m, Off 0x2fc0 64 (· = userState.mem) m → load m 0x7000 = 0x8000 := by
    rintro m ⟨m₀, rfl, hoff⟩
    rw [load_congr fun x hx => hoff x (hapart x hx).2]
    decide
  have hstores : ∀ f : Word32, f = 100 ∨ f = 101 ∨ f = 102 → ∀ e,
      clockMachine.Function f e (Block 0x2fc0 64) (fun u => load u.mem 0x7000 = 0x8000)
        fun t => load t.mem 0x7000 = 0x8000 := by
    intro f hf e
    refine function_storeThrough (by rcases hf with rfl | rfl | rfl <;> rfl)
      (funext fun s => if_pos hf) fun x hx hb => ?_
    unfold Block at *
    bv_omega
  have hhandles : Handles clockMachine (Block 0x2fc0 64) (fun m => load m 0x7000 = 0x8000)
      (fun m => load m 0x7000 = 0x8000) userState .clock none 0 100 101 102 :=
    { withError := rfl
      code := ⟨_, Program.placed_listing (fun _ _ => rfl) (by decide)⟩
      above := by rw [hesp, hsize]; exact fun _ hx => hx
      below := by
        rw [hesp]
        intro x hx hb
        unfold Block at *
        bv_omega
      userToSystem := by
        rw [hesp, hsize]
        exact (hstores 100 (by decide) _).weaken (fun _ _ hu => hpointer hstart hu) fun _ ht => ht
      routine := by
        rw [hesp]
        exact (hstores 101 (by decide) _).weaken (fun _ _ hu => hpointer (fun _ hm => hm) hu)
          fun _ ht => ht
      systemToUser := by
        rw [hesp]
        exact (hstores 102 (by decide) _).weaken (fun _ _ hu => hpointer (fun _ hm => hm) hu)
          fun _ _ => trivial }
  obtain ⟨t, hrun, hres⟩ := interrupt_resumes (v := .clock) (fun _ => ⟨0, 0, 0, 0⟩) (fun _ => 0)
    hhandles
  exact ⟨t, hrun, hres.reg, hres.seg, hres.eip, hres.eflags⟩

end ZeOS.Practica
