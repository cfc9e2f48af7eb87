import ZeOS.Practica.Sysenter

/-!
# The wrappers of the system calls

`user-utils.S`. All wrappers are of one shape: a frame, the registers loaded
with the arguments the caller has pushed, `syscall_sysenter`, and for most of
them the common end for negative values, which puts the error into `errno`.
They differ in the number of the call, in how many arguments they load – those
that load one save `ebx` – and in whether they look at the value at all.

The result is what a caller of the library sees: a function of the C
convention. It is entered through four stack switches and two pieces of code
that save nothing but what the other one needs.
-/

namespace ZeOS.Practica

namespace UserUtils

open X86

/-! ## `user-utils.S` -/

/-- `syscall_sysenter`. -/
def syscallSysenter (sysenterReturn : Word32) : List Instr :=
  [.push (.reg .ecx), .push (.reg .edx), .push (.imm sysenterReturn), .push (.reg .ebp),
   .mov (.reg .esp) .ebp, .sysenter]

/-- `SYSENTER_RETURN`. -/
def sysenterReturn : List Instr := [.pop .ebp, .pop .edx, .pop .edx, .pop .ecx, .ret]

/-- The arguments of the caller into registers. -/
def argLoads : List Instr :=
  [.mov (.mem .ebp 0x8) .ebx, .mov (.mem .ebp 0xc) .ecx, .mov (.mem .ebp 0x10) .edx]

/-- A wrapper up to its call: those that load an argument save `ebx`. -/
def prologue (number : Word32) (args : ℕ) : List Instr :=
  [.push (.reg .ebp), .mov (.reg .esp) .ebp] ++ (if args = 0 then [] else [.push (.reg .ebx)])
    ++ (.mov (.imm number) .eax :: argLoads.take args)

/-- A wrapper from its call on. -/
def epilogue (args : ℕ) (checks : Bool) (nok : Word32) : List Instr :=
  (if args = 0 then [] else [.pop .ebx])
    ++ ((if checks then [.test .eax, .js nok] else []) ++ [.pop .ebp, .ret])

/-- What the wrappers have in common. -/
def wrapper (number : Word32) (args : ℕ) (checks : Bool) (stub nok : Word32) : List Instr :=
  prologue number args ++ (.call stub :: epilogue args checks nok)

/-- `nok`. -/
def nok (errno : Word32) : List Instr :=
  [.neg .eax, .movAbs .eax errno, .mov (.imm (-1)) .eax, .pop .ebp, .ret]

/-- `write`. -/
def write (stub nok : Word32) : List Instr := wrapper 4 3 true stub nok

/-- `gettime`. -/
def gettime (stub nok : Word32) : List Instr := wrapper 10 0 false stub nok

/-- `getpid`. -/
def getpid (stub nok : Word32) : List Instr := wrapper 20 0 false stub nok

/-- `fork`. -/
def fork (stub nok : Word32) : List Instr := wrapper 2 0 true stub nok

/-- `exit`. -/
def exit (stub nok : Word32) : List Instr := wrapper 1 0 false stub nok

/-- `yield`. -/
def yield (stub nok : Word32) : List Instr := wrapper 13 0 false stub nok

/-- `get_stats`. -/
def getStats (stub nok : Word32) : List Instr := wrapper 35 2 true stub nok

/-- `read`. -/
def read (stub nok : Word32) : List Instr := wrapper 21 2 true stub nok

/-- `gotoxy`. -/
def gotoxy (stub nok : Word32) : List Instr := wrapper 22 2 true stub nok

/-- `set_color`. -/
def setColor (stub nok : Word32) : List Instr := wrapper 23 2 true stub nok

/-- `shmat`. -/
def shmat (stub nok : Word32) : List Instr := wrapper 24 2 true stub nok

/-- `shmdt`. -/
def shmdt (stub nok : Word32) : List Instr := wrapper 25 1 true stub nok

/-- `shmrm`. -/
def shmrm (stub nok : Word32) : List Instr := wrapper 26 1 true stub nok

section Stub

variable {M : Program} {s t k : Cpu} {b entry table ret : Word32} {is : List Instr}
  {ws : List Word32} {mem : LinearMemory} {r : Word32}

/-- **Into the kernel**: the handler is entered with the user stack in `ebp`. -/
theorem stub_enter (h : M.Placed s.eip (syscallSysenter ret) b) (hcode : HandlerAt M entry table)
    (heip : s.msr Cpu.sysenterEip = entry) (hcs : s.msr Cpu.sysenterCs = kernelCs)
    (hapart : Apart (s.reg .esp - 16) 20 (s.msr Cpu.sysenterEsp - 68) 68) :
    ∃ k, M.Steps s k ∧ CallReady M entry table k
      ∧ (∀ q, q ≠ .esp → q ≠ .ebp → k.reg q = s.reg q)
      ∧ k.reg .esp = s.msr Cpu.sysenterEsp ∧ k.reg .ebp = s.reg .esp - 16
      ∧ k.mem = pushes s.mem (s.reg .esp) [s.reg .ecx, s.reg .edx, ret, s.reg .ebp]
      ∧ (∀ g, g ≠ .cs → g ≠ .ss → k.seg g = s.seg g) ∧ k.msr = s.msr := by
  obtain ⟨c, hpush, hlast⟩ := Program.placed_append.mp
    (show M.Placed s.eip ([.push (.reg .ecx), .push (.reg .edx), .push (.imm ret),
      .push (.reg .ebp), .mov (.reg .esp) .ebp] ++ [.sysenter]) b from h)
  have hrun₁ := hpush.straight rfl
  have hesp : (s.pushAll [s.reg .ecx, s.reg .edx, ret, s.reg .ebp]).reg .esp = s.reg .esp - 16 :=
    s.pushAll_esp _
  have hmem := s.pushAll_mem [s.reg .ecx, s.reg .edx, ret, s.reg .ebp]
  have hreg := fun q => s.pushAll_reg [s.reg .ecx, s.reg .edx, ret, s.reg .ebp] (r := q)
  have hseg := s.pushAll_seg [s.reg .ecx, s.reg .edx, ret, s.reg .ebp]
  have heq := s.pushAll_eq [s.reg .ecx, s.reg .edx, ret, s.reg .ebp]
  have heffect : s.effects [.push (.reg .ecx), .push (.reg .edx), .push (.imm ret),
      .push (.reg .ebp), .mov (.reg .esp) .ebp]
      = (s.pushAll [s.reg .ecx, s.reg .edx, ret, s.reg .ebp]).setReg .ebp (s.reg .esp - 16) := by
    rw [← hesp]
    rfl
  have hmsr : (s.pushAll [s.reg .ecx, s.reg .edx, ret, s.reg .ebp]).msr = s.msr := by rw [heq]; rfl
  rw [heffect] at hrun₁
  generalize s.pushAll [s.reg .ecx, s.reg .edx, ret, s.reg .ebp] = p at *
  obtain ⟨next, -, hrun₂⟩ := Program.Placed.exec
    (s := { p.setReg .ebp (s.reg .esp - 16) with eip := c }) hlast
  have hkebp : ({ p.setReg .ebp (s.reg .esp - 16) with eip := c } : Cpu).sysenter.reg .ebp
      = s.reg .esp - 16 := (Cpu.sysenter_reg _ (by decide)).trans (p.setReg_self .ebp _)
  have hkesp := Cpu.sysenter_esp { p.setReg .ebp (s.reg .esp - 16) with eip := c }
  rw [show ({ p.setReg .ebp (s.reg .esp - 16) with eip := c } : Cpu).msr = s.msr from hmsr] at hkesp
  refine ⟨_, hrun₁.trans hrun₂, ⟨hcode, ?_, ?_, ?_⟩, fun q hq hq' => ?_, hkesp, hkebp, hmem,
    fun g hg hg' => ?_, hmsr⟩
  · show p.msr Cpu.sysenterEip = entry
    rw [hmsr, heip]
  · show p.msr Cpu.sysenterCs = kernelCs
    rw [hmsr, hcs]
  · intro x hx hb
    rw [show Cpu.reg (Cpu.exec _ next .sysenter) .ebp = _ from hkebp] at hx
    rw [show Cpu.reg (Cpu.exec _ next .sysenter) .esp = _ from hkesp] at hb
    refine hapart x ?_ ?_
    · unfold Block at *
      bv_omega
    · unfold Block at *
      bv_omega
  · exact (Cpu.sysenter_reg _ hq).trans ((p.setReg_ne hq' _).trans (hreg q hq))
  · exact (Cpu.sysenter_seg _ hg hg').trans (congrFun hseg g)

/-- **Back in the library**: the registers the stub has saved are found on the
user stack. -/
theorem stub_leave (h : M.Placed t.eip sysenterReturn b) (hesp : t.reg .esp = s.reg .esp - 16)
    (hstack : t.Stack [s.reg .ebp, ret, s.reg .edx, s.reg .ecx, s.top]) :
    ∃ t', M.Steps t t' ∧ t'.eip = s.top ∧ t'.reg .esp = s.reg .esp + 4
      ∧ (∀ q ∈ [Reg.ebp, .ecx, .edx], t'.reg q = s.reg q)
      ∧ (∀ q ∈ [Reg.eax, .ebx, .esi, .edi], t'.reg q = t.reg q)
      ∧ t'.seg = t.seg ∧ t'.mem = t.mem := by
  obtain ⟨c, hpop, hlast⟩ := Program.placed_append.mp
    (show M.Placed t.eip ([.pop .ebp, .pop .edx, .pop .edx, .pop .ecx] ++ [.ret]) b from h)
  have hrun₁ := hpop.straight rfl
  obtain ⟨hebp, hret, hedx, hecx, htop, -⟩ := hstack
  have hregs : ∀ q ∈ [Reg.ebp, .ecx, .edx],
      (t.effects [.pop .ebp, .pop .edx, .pop .edx, .pop .ecx]).reg q = s.reg q := by
    intro q hq
    simp only [List.mem_cons, List.not_mem_nil, or_false] at hq
    rcases hq with rfl | rfl | rfl
    · exact hebp
    · exact hecx
    · exact hedx
  have hother : ∀ q ∈ [Reg.eax, .ebx, .esi, .edi],
      (t.effects [.pop .ebp, .pop .edx, .pop .edx, .pop .ecx]).reg q = t.reg q := by
    intro q hq
    simp only [List.mem_cons, List.not_mem_nil, or_false] at hq
    rcases hq with rfl | rfl | rfl | rfl <;> rfl
  have hespx : (t.effects [.pop .ebp, .pop .edx, .pop .edx, .pop .ecx]).reg .esp
      = t.reg .esp + 4 + 4 + 4 + 4 := rfl
  have hmemx : (t.effects [.pop .ebp, .pop .edx, .pop .edx, .pop .ecx]).mem = t.mem := rfl
  have hsegx : (t.effects [.pop .ebp, .pop .edx, .pop .edx, .pop .ecx]).seg = t.seg := rfl
  generalize t.effects [.pop .ebp, .pop .edx, .pop .edx, .pop .ecx] = x at *
  obtain ⟨next, -, hrun₂⟩ := Program.Placed.exec (s := { x with eip := c }) hlast
  have hne : ∀ q ∈ [Reg.ebp, .ecx, .edx] ++ [Reg.eax, .ebx, .esi, .edi], q ≠ .esp := by decide
  refine ⟨_, hrun₁.trans hrun₂, ?_, ?_, fun q hq => ?_, fun q hq => ?_, hsegx, hmemx⟩
  · show load x.mem (x.reg .esp) = s.top
    rw [hmemx, hespx, htop]
  · refine (Cpu.drop_esp { x with eip := c }).trans ?_
    show x.reg .esp + 4 = _
    rw [hespx, hesp]
    bv_omega
  · exact (Cpu.drop_reg _ (hne q (List.mem_append_left _ hq))).trans (hregs q hq)
  · exact (Cpu.drop_reg _ (hne q (List.mem_append_right _ hq))).trans (hother q hq)

/-- **The handler behind `sysenter`**, and the table it uses with the function
`f` for the number in `eax`, none of it on the stacks. -/
structure KernelReady (M : Program) (f : Word32) (s : Cpu) (entry table : Word32) : Prop where
  code : HandlerAt M entry table
  eip : s.msr Cpu.sysenterEip = entry
  cs : s.msr Cpu.sysenterCs = kernelCs
  number : ¬ ((s.reg .eax).toInt < 0 ∨ maxSyscall < (s.reg .eax).toInt)
  function : load s.mem (table + 4 * s.reg .eax) = f
  tableKernel : Apart (table + 4 * s.reg .eax) 4 (s.msr Cpu.sysenterEsp - 64) 64
  tableUser : Apart (table + 4 * s.reg .eax) 4 (s.reg .esp - 16) 16
  apart : Apart (s.reg .esp - 16) 20 (s.msr Cpu.sysenterEsp - 68) 68

/-- **A call of the stub has entered the kernel's function** in `u`. -/
structure StubEntered (f : Word32) (s u : Cpu) : Prop where
  eip : u.eip = f
  esp : u.reg .esp = s.msr Cpu.sysenterEsp - 68
  args : Words u.mem (s.msr Cpu.sysenterEsp - 64) [s.reg .ebx, s.reg .ecx, s.reg .edx]
  ds : u.seg .ds = kernelDs
  es : u.seg .es = kernelDs
  msr : u.msr = s.msr
  mem : ∀ x, ¬ Block (s.msr Cpu.sysenterEsp - 68) 68 x → ¬ Block (s.reg .esp - 16) 16 x →
    u.mem x = s.mem x

/-- **A call of the stub has come back** in `t`, from a function that has
returned in `w`. -/
structure StubReturned (K : Word32 → Prop) (s w t : Cpu) : Prop where
  eip : t.eip = s.top
  esp : t.reg .esp = s.reg .esp + 4
  eax : t.reg .eax = w.reg .eax
  saved : ∀ q ∈ [Reg.ebp, .ecx, .edx, .esi, .edi], t.reg q = s.reg q
  ebx : (∀ x, Block (s.msr Cpu.sysenterEsp - 64) 4 x → K x) → t.reg .ebx = s.reg .ebx
  seg : ∀ g, g ≠ .cs → g ≠ .ss → t.seg g = s.seg g
  cs : t.seg .cs = userCs
  ss : t.seg .ss = userDs
  mem : t.mem = store w.mem (s.msr Cpu.sysenterEsp - 40) (w.reg .eax)

/-- **The stub calls the function of the table**, and comes back from it. -/
theorem stub_call {f b' : Word32} (h : M.Placed s.eip (syscallSysenter ret) b)
    (hback : M.Placed ret sysenterReturn b') (hk : KernelReady M f s entry table) :
    ∃ u, M.Steps s u ∧ StubEntered f s u ∧ ∀ (K : Word32 → Prop) (w : Cpu),
      (∀ x, Block (s.msr Cpu.sysenterEsp - 52) 52 x → K x) →
      (∀ x, Block (s.reg .esp - 16) 20 x → K x) → Cpu.Returned K u w →
      w.msr Cpu.sysenterCs = kernelCs → ∃ t, M.Steps w t ∧ StubReturned K s w t := by
  have hapart := hk.apart
  obtain ⟨k, hrun₁, hready, hreg, hesp, hebp, hmem, hseg, hmsrk⟩ :=
    stub_enter h hk.code hk.eip hk.cs hapart
  have heax : k.reg .eax = s.reg .eax := hreg .eax (by decide) (by decide)
  have hbelow : ∀ x, ¬ Block (s.reg .esp - 16) 16 x → k.mem x = s.mem x := fun x hx => by
    rw [hmem]
    exact pushes_other hx (show 16 ≤ 2 ^ 32 by decide)
  -- what the way back needs is on the user stack
  have hwords : Words k.mem (s.reg .esp - 16) [s.reg .ebp, ret, s.reg .edx, s.reg .ecx, s.top] := by
    rw [hmem]
    exact words_pushes [s.reg .ecx, s.reg .edx, ret, s.reg .ebp] [s.top]
      ⟨rfl, trivial⟩ (show 20 ≤ 2 ^ 32 by decide)
  obtain ⟨u, hrun₂, hcall⟩ := handler_enters (f := f) hready (by rw [heax]; exact hk.number)
    (by
      rw [heax, ← hk.function]
      exact load_congr fun x hx => hbelow x (hk.tableUser x hx))
    (by rw [heax, hesp]; exact hk.tableKernel)
  have hu := hcall.entered
  obtain ⟨hargs₁, hargs₂, hargs₃, -⟩ := hu.args
  rw [hesp] at hargs₁ hargs₂ hargs₃
  refine ⟨u, hrun₁.trans hrun₂, ⟨hu.eip, by rw [hu.esp, hesp],
    ⟨hargs₁.trans (hreg .ebx (by decide) (by decide)),
      hargs₂.trans (hreg .ecx (by decide) (by decide)),
      hargs₃.trans (hreg .edx (by decide) (by decide)), trivial⟩, hu.ds, hu.es,
    hu.msr.trans hmsrk, fun x hx hx' => ?_⟩, fun K w habove hK hret hmsr => ?_⟩
  · rw [hu.mem x (by rwa [hesp]), hbelow x hx']
  obtain ⟨t, hrun₃, hanswered, hebx⟩ := hcall.answered hret (by rw [hesp]; exact habove) hmsr
  have hesp' : t.reg .esp = s.reg .esp - 16 := hanswered.esp.trans hebp
  -- and still there, since the function keeps it
  have hkept : SameOn (s.reg .esp - 16) 20 k.mem t.mem := by
    intro x hx
    have hout := hapart x hx
    have hslot : ¬ Block (k.reg .esp - 40) 4 x := fun hb => hout (by
      rw [hesp] at hb
      unfold Block at *
      bv_omega)
    rw [hanswered.mem, store_other hslot, hret.mem x (hK x hx)]
    exact hu.mem x (by rwa [hesp])
  have hstack : t.Stack [s.reg .ebp, ret, s.reg .edx, s.reg .ecx, s.top] := by
    unfold Cpu.Stack
    rw [hesp']
    exact hwords.congr (n := 20) (show 20 ≤ 20 by decide) (by decide) hkept
  have hteip : t.eip = ret := by
    rw [hanswered.eip, hebp]
    exact hwords.2.1
  rw [← hteip] at hback
  obtain ⟨t', hrun₄, heip', hespt', hregs, hothers, hseg', hmem'⟩ :=
    stub_leave hback hesp' hstack
  have hsaved : ∀ q ∈ [Reg.esi, .edi], t'.reg q = s.reg q := by
    intro q hq
    have hne : q ∈ [Reg.eax, .ebx, .esi, .edi] ∧ q ∈ [Reg.esi, .edi, .ebp] ∧ q ≠ .esp
        ∧ q ≠ .ebp := (show ∀ q ∈ [Reg.esi, .edi], q ∈ [Reg.eax, .ebx, .esi, .edi]
          ∧ q ∈ [Reg.esi, .edi, .ebp] ∧ q ≠ .esp ∧ q ≠ .ebp by decide) q hq
    rw [hothers q hne.1, hanswered.saved q hne.2.1, hreg q hne.2.2.1 hne.2.2.2]
  refine ⟨t', hrun₃.trans hrun₄,
    { eip := heip', esp := hespt', eax := ?_, saved := fun q hq => ?_, ebx := fun hK' => ?_,
      seg := fun g hg hg' => ?_, cs := ?_, ss := ?_, mem := ?_ }⟩
  · rw [hothers .eax (by decide), hanswered.eax]
  · rcases List.mem_append.mp (show q ∈ [Reg.ebp, .ecx, .edx] ++ [.esi, .edi] from hq) with hq | hq
    · exact hregs q hq
    · exact hsaved q hq
  · rw [hothers .ebx (by decide), hebx (by rwa [hesp]), hreg .ebx (by decide) (by decide)]
  · rw [hseg', hanswered.seg g hg hg', hseg g hg hg']
  · rw [hseg', hanswered.cs]
  · rw [hseg', hanswered.ss]
  · rw [hmem', hanswered.mem, hesp]

end Stub

/-! ## The wrappers -/

section Wrapper

variable {M : Program} {s t p : Cpu} {b : Word32} {is : List Instr} {n : ℕ}

/-- The arguments above the return address. -/
def arguments (s : Cpu) (n : ℕ) : List Word32 :=
  (List.range n).map fun i => load s.mem (s.reg .esp + 4 + BitVec.ofNat 32 (4 * i))

/-- What a wrapper leaves on the stack. -/
def savedWords (s : Cpu) (n : ℕ) : List Word32 :=
  (if n = 0 then [] else [s.reg .ebx]) ++ [s.reg .ebp, s.top]

theorem length_savedWords (s : Cpu) (n : ℕ) :
    (savedWords s n).length = if n = 0 then 2 else 3 := by
  unfold savedWords
  split_ifs <;> rfl

/-- **Before the call of the stub.** -/
structure Prologue (number : Word32) (n : ℕ) (s p : Cpu) : Prop where
  esp : p.reg .esp = s.reg .esp - (if n = 0 then 4 else 8)
  eax : p.reg .eax = number
  args : ([Reg.ebx, .ecx, .edx].map p.reg).take n = arguments s n
  saved : ∀ q ∈ [Reg.esi, .edi], p.reg q = s.reg q
  ebx : n = 0 → p.reg .ebx = s.reg .ebx
  stack : p.Stack (savedWords s n)
  mem : ∀ x, ¬ Block (s.reg .esp - 8) 8 x → p.mem x = s.mem x
  seg : p.seg = s.seg
  msr : p.msr = s.msr

/-- The two words a wrapper pushes leave its arguments alone. -/
theorem load_argument (m : LinearMemory) (a v w : Word32) {i : ℕ} (hi : i < 3) :
    load (store (store m (a - 4) v) (a - 4 - 4) w) (a - 4 + (8 + BitVec.ofNat 32 (4 * i)))
      = load m (a + 4 + BitVec.ofNat 32 (4 * i)) := by
  have haddr : a - 4 + (8 + BitVec.ofNat 32 (4 * i)) = a + (4 + BitVec.ofNat 32 (4 * i)) := by
    bv_omega
  have hd : 4 ≤ (4 + BitVec.ofNat 32 (4 * i)).toNat
      ∧ (4 + BitVec.ofNat 32 (4 * i)).toNat ≤ 16 := by
    constructor <;> bv_omega
  rw [haddr, ← add_assoc, add_assoc]
  generalize 4 + BitVec.ofNat 32 (4 * i) = d at hd
  rw [load_store_apart, load_store_apart]
  · intro x hx hb
    unfold Block at *
    bv_omega
  · intro x hx hb
    unfold Block at *
    bv_omega

theorem straight_prologue (number : Word32) (n : ℕ) :
    (prologue number n).all Instr.straight = true := by
  have htake : (argLoads.take n).all Instr.straight = true :=
    List.all_eq_true.mpr fun i hi =>
      List.all_eq_true.mp (show argLoads.all Instr.straight = true from rfl) i
        (List.mem_of_mem_take hi)
  unfold prologue
  rw [List.all_append]
  refine Bool.and_eq_true_iff.mpr ⟨?_, Bool.and_eq_true_iff.mpr ⟨rfl, htake⟩⟩
  split_ifs <;> rfl

theorem prologue_spec (number : Word32) (hn : n ≤ 3) (s : Cpu) :
    Prologue number n s (s.effects (prologue number n)) := by
  have hargs : (List.range n).map (fun i =>
      load (store (store s.mem (s.reg .esp - 4) (s.reg .ebp)) (s.reg .esp - 4 - 4) (s.reg .ebx))
        (s.reg .esp - 4 + (8 + BitVec.ofNat 32 (4 * i)))) = arguments s n :=
    List.map_congr_left fun i hi =>
      load_argument _ _ _ _ (lt_of_lt_of_le (List.mem_range.mp hi) hn)
  have hstack : Words (store s.mem (s.reg .esp - 4) (s.reg .ebp)) (s.reg .esp - 4)
      [s.reg .ebp, s.top] := words_pushes [s.reg .ebp] [s.top] ⟨rfl, trivial⟩
        (show 8 ≤ 2 ^ 32 by decide)
  have hstack' : Words (store (store s.mem (s.reg .esp - 4) (s.reg .ebp)) (s.reg .esp - 4 - 4)
      (s.reg .ebx)) (s.reg .esp - 4 - 4) [s.reg .ebx, s.reg .ebp, s.top] :=
    hstack.store_below (show 12 ≤ 2 ^ 32 by decide)
  have hmem : ∀ x, ¬ Block (s.reg .esp - 8) 8 x →
      store s.mem (s.reg .esp - 4) (s.reg .ebp) x = s.mem x := by
    intro x hx
    refine store_other fun hb => hx ?_
    unfold Block at *
    bv_omega
  have hmem' : ∀ x, ¬ Block (s.reg .esp - 8) 8 x →
      store (store s.mem (s.reg .esp - 4) (s.reg .ebp)) (s.reg .esp - 4 - 4) (s.reg .ebx) x
        = s.mem x := by
    intro x hx
    refine (store_other fun hb => hx ?_).trans (hmem x hx)
    unfold Block at *
    bv_omega
  have hesp : s.reg .esp - 4 - 4 = s.reg .esp - 8 := by bv_omega
  have hsaved : ∀ q ∈ [Reg.esi, .edi], q = .esi ∨ q = .edi := by decide
  obtain rfl | rfl | rfl | rfl : n = 0 ∨ n = 1 ∨ n = 2 ∨ n = 3 := by omega
  · exact ⟨rfl, rfl, rfl, fun q hq => by rcases hsaved q hq with rfl | rfl <;> rfl, fun _ => rfl,
      hstack, hmem, rfl, rfl⟩
  all_goals
    exact ⟨hesp, rfl, hargs, fun q hq => by rcases hsaved q hq with rfl | rfl <;> rfl,
      fun h => absurd h (by decide), hstack', hmem', rfl, rfl⟩

/-- **At the entry of the stub**, called from `next`. -/
structure AtStub (stub next number : Word32) (n : ℕ) (s q : Cpu) : Prop where
  eip : q.eip = stub
  esp : q.reg .esp = s.reg .esp - (if n = 0 then 4 else 8) - 4
  top : q.top = next
  eax : q.reg .eax = number
  args : [q.reg .ebx, q.reg .ecx, q.reg .edx].take n = arguments s n
  saved : ∀ r ∈ [Reg.esi, .edi], q.reg r = s.reg r
  ebx : n = 0 → q.reg .ebx = s.reg .ebx
  stack : Words q.mem (q.reg .esp + 4) (savedWords s n)
  mem : ∀ x, ¬ Block (s.reg .esp - 12) 12 x → q.mem x = s.mem x
  seg : q.seg = s.seg
  msr : q.msr = s.msr

theorem AtStub.bounds {stub next number : Word32} {q : Cpu} (h : AtStub stub next number n s q) :
    q.reg .esp = s.reg .esp - 8 ∨ q.reg .esp = s.reg .esp - 12 := by
  rw [h.esp]
  split_ifs
  · left
    bv_omega
  · right
    bv_omega

/-- Where the saved words are. -/
theorem AtStub.savedBlock {stub next number x : Word32} {q : Cpu}
    (h : AtStub stub next number n s q)
    (hx : Block (q.reg .esp + 4) (4 * (savedWords s n).length) x) :
    Block (s.reg .esp - 8) 12 x ∧ ¬ Block (q.reg .esp - 16) 16 x := by
  rw [length_savedWords] at hx
  by_cases hn : n = 0
  · have hesp : q.reg .esp = s.reg .esp - 4 - 4 := by rw [h.esp, if_pos hn]
    rw [if_pos hn, hesp] at hx
    rw [hesp]
    unfold Block at *
    constructor <;> bv_omega
  · have hesp : q.reg .esp = s.reg .esp - 8 - 4 := by rw [h.esp, if_neg hn]
    rw [if_neg hn, hesp] at hx
    rw [hesp]
    unfold Block at *
    constructor <;> bv_omega

/-- The call of the stub. -/
theorem Prologue.atStub {number : Word32} (h : Prologue number n s p) (stub next : Word32) :
    AtStub stub next number n s (p.enter stub next) := by
  have hesp := p.enter_esp stub next
  have hreg : ∀ r, r ≠ .esp → (p.enter stub next).reg r = p.reg r := fun r hr => p.push_reg hr next
  have hne : ∀ r ∈ [Reg.esi, .edi], r ≠ .esp := by decide
  have hlen : 4 * (1 + (savedWords s n).length) ≤ 16 := by
    rw [length_savedWords]
    split_ifs <;> decide
  refine ⟨rfl, ?_, p.enter_top stub next, ?_, ?_, fun r hr => ?_, fun hn => ?_, ?_, fun x hx => ?_,
    h.seg, h.msr⟩
  · rw [hesp, h.esp]
  · rw [hreg .eax (by decide), h.eax]
  · rw [hreg .ebx (by decide), hreg .ecx (by decide), hreg .edx (by decide)]
    exact h.args
  · rw [hreg r (hne r hr), h.saved r hr]
  · rw [hreg .ebx (by decide), h.ebx hn]
  · exact (Cpu.stack_enter stub next h.stack
      (hlen.trans (show 16 ≤ 2 ^ 32 by decide))).2
  · refine (store_other fun hb => hx ?_).trans (h.mem x fun hb => hx ?_)
    · rw [h.esp] at hb
      split_ifs at hb
      · unfold Block at *
        bv_omega
      · unfold Block at *
        bv_omega
    · unfold Block at *
      bv_omega

/-- The value a wrapper returns. -/
def returnValue (checks : Bool) (r : Word32) : Word32 :=
  if checks ∧ r.toInt < 0 then -1 else r

/-- The memory when it has returned: a negative value is put into `errno`. -/
def returnMem (checks : Bool) (errno r : Word32) (m : LinearMemory) : LinearMemory :=
  if checks ∧ r.toInt < 0 then store m errno (-r) else m

/-- **After the call of the stub.** -/
structure Epilogue (checks : Bool) (n : ℕ) (errno : Word32) (s t t' : Cpu) : Prop where
  eip : t'.eip = s.top
  esp : t'.reg .esp = s.reg .esp + 4
  eax : t'.reg .eax = returnValue checks (t.reg .eax)
  ebp : t'.reg .ebp = s.reg .ebp
  ebx : t'.reg .ebx = if n = 0 then t.reg .ebx else s.reg .ebx
  saved : ∀ q ∈ [Reg.esi, .edi], t'.reg q = t.reg q
  seg : t'.seg = t.seg
  mem : t'.mem = returnMem checks errno (t.reg .eax) t.mem

/-- The frame is left. -/
theorem leave_spec {f ret : Word32} (h : M.Placed t.eip [.pop .ebp, .ret] b)
    (hst : t.Stack [f, ret]) :
    ∃ t', M.Steps t t' ∧ t'.eip = ret ∧ t'.reg .esp = t.reg .esp + 8 ∧ t'.reg .ebp = f
      ∧ (∀ q ∈ [Reg.eax, .ebx, .esi, .edi], t'.reg q = t.reg q) ∧ t'.seg = t.seg
      ∧ t'.mem = t.mem := by
  obtain ⟨c, hpop, hlast⟩ := Program.placed_append.mp
    (show M.Placed t.eip ([.pop .ebp] ++ [.ret]) b from h)
  obtain ⟨hebp, hret, -⟩ := hst
  have hrun₁ := hpop.straight rfl
  obtain ⟨next, -, hrun₂⟩ := Program.Placed.exec (s := { t.effects [.pop .ebp] with eip := c })
    hlast
  have hcases : ∀ q ∈ [Reg.eax, .ebx, .esi, .edi], q = .eax ∨ q = .ebx ∨ q = .esi ∨ q = .edi := by
    decide
  refine ⟨_, hrun₁.trans hrun₂, hret, ?_, hebp, fun q hq => ?_, rfl, rfl⟩
  · show t.reg .esp + 4 + 4 = t.reg .esp + 8
    bv_omega
  · rcases hcases q hq with rfl | rfl | rfl | rfl <;> rfl

/-- The end of a wrapper, with and without the detour. -/
theorem finish_spec {checks : Bool} {nokAt errno e : Word32}
    (h : M.Placed t.eip ((if checks then [.test .eax, .js nokAt] else []) ++ [.pop .ebp, .ret]) b)
    (hnok : M.Placed nokAt (nok errno) e) (hst : t.Stack [s.reg .ebp, s.top])
    (hesp : t.reg .esp = s.reg .esp - 4) (herrno : Apart (s.reg .esp - 4) 8 errno 4) :
    ∃ t', M.Steps t t' ∧ t'.eip = s.top ∧ t'.reg .esp = s.reg .esp + 4
      ∧ t'.reg .eax = returnValue checks (t.reg .eax) ∧ t'.reg .ebp = s.reg .ebp
      ∧ (∀ q ∈ [Reg.ebx, .esi, .edi], t'.reg q = t.reg q)
      ∧ t'.seg = t.seg ∧ t'.mem = returnMem checks errno (t.reg .eax) t.mem := by
  have hup : t.reg .esp + 8 = s.reg .esp + 4 := by
    rw [hesp]
    bv_omega
  have hin : ∀ q ∈ [Reg.ebx, .esi, .edi], q ∈ [Reg.eax, .ebx, .esi, .edi] ∧ q ≠ .eax := by decide
  cases checks with
  | false =>
    obtain ⟨t', hrun, heip, hesp', hebp, hregs, hseg, hmem⟩ := leave_spec h hst
    exact ⟨t', hrun, heip, hesp'.trans hup, hregs .eax (by decide), hebp,
      fun q hq => hregs q (hin q hq).1, hseg, hmem⟩
  | true =>
    obtain ⟨v, hrun₁, hmoved, htaken, hnot⟩ := Program.Placed.js
      (show M.Placed t.eip (.test .eax :: .js nokAt :: [.pop .ebp, .ret]) b from h)
    have hv : v.reg = t.reg ∧ v.seg = t.seg ∧ v.mem = t.mem := by
      rw [show v = { t with eip := v.eip, eflags := v.eflags } from hmoved]
      exact ⟨rfl, rfl, rfl⟩
    obtain ⟨hvreg, hvseg, hvmem⟩ := hv
    by_cases hneg : (t.reg .eax).toInt < 0
    · -- `nok`
      rw [← htaken hneg] at hnok
      obtain ⟨c, hset, hlast⟩ := Program.placed_append.mp
        (show M.Placed v.eip ([.neg .eax, .movAbs .eax errno, .mov (.imm (-1)) .eax]
          ++ [.pop .ebp, .ret]) e from hnok)
      have hrun₂ := hset.straight rfl
      have hst' : Words (store v.mem errno (-v.reg .eax)) (v.reg .esp) [s.reg .ebp, s.top] := by
        rw [hvmem, hvreg, hesp]
        refine Words.congr (n := 8) ?_ (show 8 ≤ 8 by decide) (by decide) (sameOn_store herrno)
        rw [← hesp]
        exact hst
      obtain ⟨t', hrun₃, heip, hesp', hebp, hregs, hseg, hmem⟩ := leave_spec
        (t := { v.effects [.neg .eax, .movAbs .eax errno, .mov (.imm (-1)) .eax] with eip := c })
        hlast hst'
      refine ⟨t', (hrun₁.trans hrun₂).trans hrun₃, heip, ?_, ?_, hebp, fun q hq => ?_,
        hseg.trans hvseg, ?_⟩
      · refine hesp'.trans ?_
        show v.reg .esp + 8 = _
        rw [hvreg, hup]
      · rw [returnValue, if_pos ⟨rfl, hneg⟩]
        exact hregs .eax (by decide)
      · obtain ⟨hq₁, hq₂⟩ := hin q hq
        rw [hregs q hq₁, ← hvreg]
        show Function.update (Function.update v.reg .eax _) .eax _ q = _
        rw [Function.update_of_ne hq₂, Function.update_of_ne hq₂]
      · rw [returnMem, if_pos ⟨rfl, hneg⟩, hmem, ← hvmem, ← hvreg]
        rfl
    · obtain ⟨t', hrun₂, heip, hesp', hebp, hregs, hseg, hmem⟩ := leave_spec (hnot hneg)
        (show Words v.mem (v.reg .esp) [s.reg .ebp, s.top] by rw [hvmem, hvreg]; exact hst)
      rw [hvreg] at hesp' hregs
      refine ⟨t', hrun₁.trans hrun₂, heip, hesp'.trans hup, ?_, hebp,
        fun q hq => hregs q (hin q hq).1, hseg.trans hvseg, ?_⟩
      · rw [returnValue, if_neg fun h => hneg h.2]
        exact hregs .eax (by decide)
      · rw [returnMem, if_neg fun h => hneg h.2]
        exact hmem.trans hvmem

theorem epilogue_spec {checks : Bool} {nokAt errno e : Word32}
    (h : M.Placed t.eip (epilogue n checks nokAt) b) (hnok : M.Placed nokAt (nok errno) e)
    (hst : t.Stack (savedWords s n)) (hesp : t.reg .esp = s.reg .esp - (if n = 0 then 4 else 8))
    (herrno : Apart (s.reg .esp - 4) 8 errno 4) :
    ∃ t', M.Steps t t' ∧ Epilogue checks n errno s t t' := by
  by_cases hn : n = 0
  · rw [epilogue, if_pos hn] at h
    rw [savedWords, if_pos hn] at hst
    rw [if_pos hn] at hesp
    obtain ⟨t', hrun, heip, hesp', heax, hebp, hregs, hseg, hmem⟩ :=
      finish_spec h hnok hst hesp herrno
    refine ⟨t', hrun, heip, hesp', heax, hebp, ?_, fun q hq => ?_, hseg, hmem⟩
    · rw [if_pos hn, hregs .ebx (by decide)]
    · exact hregs q (List.mem_cons_of_mem _ hq)
  · rw [epilogue, if_neg hn] at h
    rw [savedWords, if_neg hn] at hst
    rw [if_neg hn] at hesp
    obtain ⟨c, hpop, hrest⟩ := Program.placed_append.mp h
    obtain ⟨hebx, hst'⟩ := hst
    have hrun₁ := hpop.straight rfl
    have hesp₁ : t.reg .esp + 4 = s.reg .esp - 4 := by
      rw [hesp]
      bv_omega
    obtain ⟨t', hrun₂, heip, hesp', heax, hebp, hregs, hseg, hmem⟩ := finish_spec (s := s)
      (t := { t.effects [.pop .ebx] with eip := c }) hrest hnok hst' hesp₁ herrno
    refine ⟨t', hrun₁.trans hrun₂, heip, hesp', heax, hebp, ?_, fun q hq => ?_, hseg, hmem⟩
    · rw [if_neg hn, hregs .ebx (by decide)]
      exact hebx
    · rw [hregs q (List.mem_cons_of_mem _ hq)]
      rcases List.mem_pair.mp hq with rfl | rfl <;> rfl

end Wrapper

/-- The system calls of the library. -/
inductive Wrapper where
  | write | gettime | getpid | fork | exit | yield | getStats | read | gotoxy | setColor
  | shmat | shmdt | shmrm
deriving DecidableEq

namespace Wrapper

/-- The function meant. -/
def call : Wrapper → SysCall
  | .write => .write
  | .gettime => .gettime
  | .getpid => .getpid
  | .fork => .fork
  | .exit => .exit
  | .yield => .yield
  | .getStats => .getStats
  | .read => .read
  | .gotoxy => .gotoxy
  | .setColor => .setColor
  | .shmat => .shmat
  | .shmdt => .shmdt
  | .shmrm => .shmrm

/-- How many arguments it has. -/
def args : Wrapper → ℕ
  | .write => 3
  | .getStats | .read | .gotoxy | .setColor | .shmat => 2
  | .shmdt | .shmrm => 1
  | .gettime | .getpid | .fork | .exit | .yield => 0

/-- Those that give errors. -/
def checks : Wrapper → Bool
  | .gettime | .getpid | .exit | .yield => false
  | _ => true

def code (stub nokAt : Word32) : Wrapper → List Instr
  | .write => UserUtils.write stub nokAt
  | .gettime => UserUtils.gettime stub nokAt
  | .getpid => UserUtils.getpid stub nokAt
  | .fork => UserUtils.fork stub nokAt
  | .exit => UserUtils.exit stub nokAt
  | .yield => UserUtils.yield stub nokAt
  | .getStats => UserUtils.getStats stub nokAt
  | .read => UserUtils.read stub nokAt
  | .gotoxy => UserUtils.gotoxy stub nokAt
  | .setColor => UserUtils.setColor stub nokAt
  | .shmat => UserUtils.shmat stub nokAt
  | .shmdt => UserUtils.shmdt stub nokAt
  | .shmrm => UserUtils.shmrm stub nokAt

/-- A wrapper asks by its number for the function meant. -/
theorem code_eq (w : Wrapper) (stub nokAt : Word32) :
    ∃ i, sysCallTable[i]? = some w.call
      ∧ w.code stub nokAt = wrapper (BitVec.ofNat 32 i) w.args w.checks stub nokAt := by
  cases w
  case write => exact ⟨4, rfl, rfl⟩
  case gettime => exact ⟨10, rfl, rfl⟩
  case getpid => exact ⟨20, rfl, rfl⟩
  case fork => exact ⟨2, rfl, rfl⟩
  case exit => exact ⟨1, rfl, rfl⟩
  case yield => exact ⟨13, rfl, rfl⟩
  case getStats => exact ⟨35, rfl, rfl⟩
  case read => exact ⟨21, rfl, rfl⟩
  case gotoxy => exact ⟨22, rfl, rfl⟩
  case setColor => exact ⟨23, rfl, rfl⟩
  case shmat => exact ⟨24, rfl, rfl⟩
  case shmdt => exact ⟨25, rfl, rfl⟩
  case shmrm => exact ⟨26, rfl, rfl⟩

theorem args_le (w : Wrapper) : w.args ≤ 3 := by cases w <;> decide

end Wrapper

section Main

variable {M : Program} {s u v : Cpu} {K : Word32 → Prop} {w : Wrapper} {errno table f : Word32}
  {address : SysCall → Word32}

/-- **A program about to enter a wrapper**, in user mode, with the library and
the kernel in memory. -/
structure Linked (M : Program) (s : Cpu) (w : Wrapper) (errno table : Word32)
    (address : SysCall → Word32) : Prop where
  library : ∃ stub nokAt ret b₁ b₂ b₃ b₄, M.Placed s.eip (w.code stub nokAt) b₁
    ∧ M.Placed nokAt (nok errno) b₂ ∧ M.Placed stub (syscallSysenter ret) b₃
    ∧ M.Placed ret sysenterReturn b₄
  handler : HandlerAt M (s.msr Cpu.sysenterEip) table
  table : ∀ i c, sysCallTable[i]? = some c →
    load s.mem (table + 4 * BitVec.ofNat 32 i) = address c
  msr : s.msr Cpu.sysenterCs = kernelCs
  cs : s.seg .cs = userCs
  ss : s.seg .ss = userDs

/-- The stacks, the table and `errno` do not overlap. -/
structure Disjoint (s : Cpu) (errno table : Word32) : Prop where
  userKernel : Apart (s.reg .esp - 28) 32 (s.msr Cpu.sysenterEsp - 68) 68
  tableKernel : Apart table (4 * maxSyscall) (s.msr Cpu.sysenterEsp - 68) 68
  tableUser : Apart table (4 * maxSyscall) (s.reg .esp - 28) 28
  errno : Apart (s.reg .esp - 4) 8 errno 4

/-- What is written on the two stacks on the way. -/
def OnStacks (s : Cpu) (x : Word32) : Prop :=
  Block (s.reg .esp - 28) 28 x ∨ Block (s.msr Cpu.sysenterEsp - 68) 68 x

/-- What a wrapper may write. -/
def Scratch (s : Cpu) (errno x : Word32) : Prop := OnStacks s x ∨ Block errno 4 x

/-- **A wrapper entered in `s` has entered the kernel's function** in `u`, with
the arguments of its caller. -/
structure KernelEntered (f : Word32) (w : Wrapper) (s u : Cpu) : Prop where
  eip : u.eip = f
  esp : u.reg .esp = s.msr Cpu.sysenterEsp - 68
  args : Words u.mem (s.msr Cpu.sysenterEsp - 64) (arguments s w.args)
  ds : u.seg .ds = kernelDs
  es : u.seg .es = kernelDs
  msr : u.msr = s.msr
  mem : ∀ x, ¬ OnStacks s x → u.mem x = s.mem x

/-- **What the function of the kernel is asked for** where the wrapper enters
it: it returns, and writes neither above its arguments on its own stack nor
over what the library has on the stack of the program. -/
structure Serves (M : Program) (s : Cpu) (w : Wrapper) (f : Word32) (K : Word32 → Prop) :
    Prop where
  function : M.Function f (s.msr Cpu.sysenterEsp - 68) K (KernelEntered f w s)
    fun t => t.msr Cpu.sysenterCs = kernelCs
  above : ∀ x, Block (s.msr Cpu.sysenterEsp - 64 + BitVec.ofNat 32 (4 * w.args)) (64 - 4 * w.args) x
    → K x
  user : ∀ x, Block (s.reg .esp - 28) 32 x → K x

/-- **A wrapper entered in `s` has returned in `t`**, from a function that has
returned in `v`. -/
structure Served (w : Wrapper) (K : Word32 → Prop) (errno : Word32) (s v t : Cpu) : Prop where
  returned : Cpu.Returned (fun x => K x ∧ ¬ Scratch s errno x) s t
  eax : t.reg .eax = returnValue w.checks (v.reg .eax)
  mem : t.mem = returnMem w.checks errno (v.reg .eax)
    (store v.mem (s.msr Cpu.sysenterEsp - 40) (v.reg .eax))

/-- Where a wrapper calls the stub: the words of the stub are on the stack of
the program. -/
theorem AtStub.user {stub next number x : Word32} {n : ℕ} {q : Cpu}
    (h : AtStub stub next number n s q) (hx : Block (q.reg .esp - 16) 20 x) :
    Block (s.reg .esp - 28) 32 x := by
  unfold Block at *
  rcases h.bounds with h | h <;> rw [h] at hx <;> bv_omega

theorem AtStub.user_below {stub next number x : Word32} {n : ℕ} {q : Cpu}
    (h : AtStub stub next number n s q) (hx : Block (q.reg .esp - 16) 16 x) :
    Block (s.reg .esp - 28) 28 x := by
  unfold Block at *
  rcases h.bounds with h | h <;> rw [h] at hx <;> bv_omega

/-- **The kernel is ready** where a wrapper calls the stub. -/
theorem Linked.kernelReady (h : Linked M s w errno table address) (hd : Disjoint s errno table)
    {i : ℕ} (hi : sysCallTable[i]? = some w.call) {stub next : Word32} {q : Cpu}
    (hq : AtStub stub next (BitVec.ofNat 32 i) w.args s q) :
    KernelReady M (address w.call) q (s.msr Cpu.sysenterEip) table := by
  have hi' : i < 36 := (List.getElem?_eq_some_iff.mp hi).1
  have hentry : ∀ x, Block (table + 4 * BitVec.ofNat 32 i) 4 x → Block table (4 * 36) x :=
    fun x hx => hx.mono (by
      show (4 * BitVec.ofNat 32 i).toNat + 4 ≤ 4 * 36
      bv_omega)
  refine ⟨h.handler, by rw [hq.msr], by rw [hq.msr, h.msr], ?_, ?_, ?_, ?_, ?_⟩
  · have hint : (BitVec.ofNat 32 i).toInt = i := by
      have hnat : (BitVec.ofNat 32 i).toNat = i := by
        rw [BitVec.toNat_ofNat]
        omega
      rw [BitVec.toInt_eq_toNat_of_lt (by omega), hnat]
    rw [hq.eax, hint]
    show ¬ ((i : ℤ) < 0 ∨ (36 : ℤ) < i)
    omega
  · rw [hq.eax, ← h.table i _ hi]
    refine load_congr fun x hx => hq.mem x fun hb => hd.tableUser x (hentry x hx) ?_
    unfold Block at *
    bv_omega
  · rw [hq.eax, hq.msr]
    intro x hx hb
    refine hd.tableKernel x (hentry x hx) ?_
    unfold Block at *
    bv_omega
  · rw [hq.eax]
    exact fun x hx hb => hd.tableUser x (hentry x hx) (hq.user_below hb)
  · rw [hq.msr]
    exact fun x hx => hd.userKernel x (hq.user hx)

/-- **What a wrapper enters.** -/
theorem AtStub.kernelEntered {stub next number : Word32} {q : Cpu}
    (hq : AtStub stub next number w.args s q) (hu : StubEntered f q u) :
    KernelEntered f w s u := by
  refine ⟨hu.eip, by rw [hu.esp, hq.msr], ?_, hu.ds, hu.es, hu.msr.trans hq.msr, fun x hx => ?_⟩
  · have hargs := hu.args.take w.args
    rwa [hq.args, hq.msr] at hargs
  · obtain ⟨hx₁, hx₂⟩ := not_or.mp hx
    rw [hu.mem x (by rwa [hq.msr]) fun hb => hx₁ (hq.user_below hb)]
    refine hq.mem x fun hb => hx₁ ?_
    unfold Block at *
    bv_omega

/-- **The way back of a wrapper**, from a function that has returned in `v`. -/
theorem AtStub.served {stub next number nokAt b e : Word32} {q t : Cpu}
    (hq : AtStub stub next number w.args s q) (hu : StubEntered f q u)
    (hret : Cpu.Returned K u v) (hback : StubReturned K q v t)
    (hcode : M.Placed next (epilogue w.args w.checks nokAt) b) (hnok : M.Placed nokAt (nok errno) e)
    (hd : Disjoint s errno table) (hcs : s.seg .cs = userCs) (hss : s.seg .ss = userDs)
    (habove : ∀ x, Block (s.msr Cpu.sysenterEsp - 64 + BitVec.ofNat 32 (4 * w.args))
      (64 - 4 * w.args) x → K x)
    (huser : ∀ x, Block (s.reg .esp - 28) 32 x → K x) :
    ∃ t', M.Steps t t' ∧ Served w K errno s v t' := by
  -- what the wrapper has saved is still there
  have hkept : ∀ x, K x → ¬ Block (s.msr Cpu.sysenterEsp - 68) 68 x →
      ¬ Block (q.reg .esp - 16) 16 x → t.mem x = q.mem x := by
    intro x hx hk hb
    have hslot : ¬ Block (q.msr Cpu.sysenterEsp - 40) 4 x := fun hb => hk (by
      rw [hq.msr] at hb
      unfold Block at *
      bv_omega)
    rw [hback.mem, store_other hslot, hret.mem x hx]
    exact hu.mem x (by rwa [hq.msr]) hb
  have hstack : t.Stack (savedWords s w.args) := by
    unfold Cpu.Stack
    rw [hback.esp]
    refine hq.stack.congr (le_refl _) (by
      rw [length_savedWords]
      split_ifs <;> decide) fun x hx => ?_
    obtain ⟨hx₁, hx₂⟩ := hq.savedBlock hx
    have hx₃ : Block (s.reg .esp - 28) 32 x := by
      unfold Block at *
      bv_omega
    exact hkept x (huser x hx₃) (hd.userKernel x hx₃) hx₂
  have hespt : t.reg .esp = s.reg .esp - (if w.args = 0 then 4 else 8) := by
    rw [hback.esp, hq.esp, sub_add_cancel]
  rw [show next = t.eip from (hback.eip.trans hq.top).symm] at hcode
  obtain ⟨t', hrun, he⟩ := epilogue_spec hcode hnok hstack hespt hd.errno
  refine ⟨t', hrun, ⟨he.eip, he.esp, fun r hr => ?_, ?_, fun x hx => ?_⟩, ?_, ?_⟩
  · rcases List.mem_cons.mp hr with rfl | hr
    · rw [he.ebx]
      split_ifs with hn
      · rw [hback.ebx, hq.ebx hn]
        rw [hq.msr]
        intro x hx
        refine habove x ?_
        rw [hn]
        unfold Block at *
        bv_omega
      · rfl
    · rcases List.mem_append.mp (show r ∈ [Reg.esi, .edi] ++ [.ebp] from hr) with hr | hr
      · have hr' : r ∈ [Reg.ebp, .ecx, .edx, .esi, .edi] :=
          List.mem_append_right [Reg.ebp, .ecx, .edx] hr
        rw [he.saved r hr, hback.saved r hr', hq.saved r hr]
      · rw [List.mem_singleton.mp hr, he.ebp]
  · rw [he.seg]
    funext g
    by_cases hg : g = .cs
    · rw [hg, hback.cs, hcs]
    · by_cases hg' : g = .ss
      · rw [hg', hback.ss, hss]
      · rw [hback.seg g hg hg', hq.seg]
  · obtain ⟨hK, hx⟩ := hx
    obtain ⟨hstacks, herrno⟩ := not_or.mp hx
    obtain ⟨hx₁, hx₂⟩ := not_or.mp hstacks
    have hmem : t'.mem x = t.mem x := by
      rw [he.mem, returnMem]
      split_ifs
      · exact store_other herrno
      · rfl
    rw [hmem, hkept x hK hx₂ fun hb => hx₁ (hq.user_below hb)]
    refine hq.mem x fun hb => hx₁ ?_
    unfold Block at *
    bv_omega
  · rw [he.eax, hback.eax]
  · rw [he.mem, hback.mem, hback.eax, hq.msr]

/-- **A system call is a function of the C convention.** Every wrapper enters
the function its number means, with the arguments of its caller; and every one
but `exit` comes back from there, if that function does. -/
theorem wrapper_serves (h : Linked M s w errno table address) (hd : Disjoint s errno table) :
    ∃ u, M.Steps s u ∧ KernelEntered (address w.call) w s u
      ∧ (w ≠ .exit → ∀ K, Serves M s w (address w.call) K →
        ∃ v t, M.ext (address w.call) u = some v ∧ M.Steps u v ∧ M.Steps v t
          ∧ Served w K errno s v t) := by
  obtain ⟨stub, nokAt, ret, b₁, b₂, b₃, b₄, hcode, hnok, hstub, hback⟩ := h.library
  obtain ⟨i, hi, heq⟩ := w.code_eq stub nokAt
  rw [heq] at hcode
  -- before the call
  obtain ⟨c, hpro, hcall⟩ := Program.placed_append.mp hcode
  have hrun₁ := hpro.straight (straight_prologue _ _)
  have hp := prologue_spec (BitVec.ofNat 32 i) w.args_le s
  generalize s.effects (prologue (BitVec.ofNat 32 i) w.args) = p at *
  obtain ⟨next, hrest, hrun₂⟩ := Program.Placed.exec (s := { p with eip := c }) hcall
  -- the stub is entered
  have hq := hp.atStub stub next
  rw [show ({ p with eip := c } : Cpu).exec next (.call stub) = p.enter stub next from rfl] at hrun₂
  generalize p.enter stub next = q at *
  rw [← hq.eip] at hstub
  -- and the kernel from there
  obtain ⟨u, hrun₃, hu, hreturns⟩ := stub_call hstub hback (h.kernelReady hd hi hq)
  have hentered := hq.kernelEntered hu
  refine ⟨u, (hrun₁.trans hrun₂).trans hrun₃, hentered, fun _ K hg => ?_⟩
  obtain ⟨v, hext, hret, hmsr⟩ := hg.function.returned u hentered.esp hentered
  have hstep : M.Steps u v := by
    refine Relation.ReflTransGen.single ?_
    rw [Program.step, hentered.eip, hg.function.code]
    exact hext
  obtain ⟨t, hrun₄, ht⟩ := hreturns K v
    (by
      rw [hq.msr]
      intro x hx
      refine hg.above x ?_
      have hn := w.args_le
      generalize w.args = n at *
      unfold Block at *
      bv_omega)
    (fun x hx => hg.user x (hq.user hx)) hret hmsr
  obtain ⟨t', hrun₅, hserved⟩ :=
    hq.served hu hret ht hrest hnok hd h.cs h.ss hg.above hg.user
  exact ⟨v, t', hext, hstep, hrun₄.trans hrun₅, hserved⟩

/-- A machine with `read` and what it needs of the library at 0x100, the
handler at 0x500, and at 0 a function that stores through its first argument,
if that is a pointer. -/
def readMachine : Program where
  code x :=
    if x < 0x100 then none
    else if x < 0x200 then Program.listing 0x100 (read 0x300 0x200) x
    else if x < 0x300 then Program.listing 0x200 (nok 0x8000) x
    else if x < 0x400 then Program.listing 0x300 (syscallSysenter 0x400) x
    else if x < 0x500 then Program.listing 0x400 sysenterReturn x
    else if x < 0x519 then Program.listing 0x500 (systemCallHandler 0x1000 0x519 0x51a) x
    else if x < 0x51a then Program.listing 0x519 sysenterErr x
    else Program.listing 0x51a sysenterFin x
  ext x s :=
    let b := load s.mem (s.reg .esp + 4)
    if x = 0 ∧ b ≠ 0 then some (s.returnStoring b 0x61 1) else none

/-- A program that calls it with a buffer at 0x7000. -/
def readState : Cpu where
  reg _ := 0x9000
  seg g := if g = .cs then userCs else userDs
  eip := 0x100
  eflags := 0x202
  mem x := if x = 0x9005 then 0x70 else 0
  msr r := if r = Cpu.sysenterCs then kernelCs else if r = Cpu.sysenterEsp then 0x3000 else 0x500
  esp0 := 0x3000
  sent := []

/-- What the function at 0 keeps. -/
def readKept (x : Word32) : Prop := Block 0x2fc8 56 x ∨ Block 0x8fe4 32 x

theorem linked_read : Linked readMachine readState .read 0x8000 0x1000 fun _ => 0 where
  library := by
    refine ⟨0x300, 0x200, 0x400, _, _, _, _,
      Program.placed_listing (fun x hx => ?_) (by decide),
      Program.placed_listing (fun x hx => ?_) (by decide),
      Program.placed_listing (fun x hx => ?_) (by decide),
      Program.placed_listing (fun x hx => ?_) (by decide)⟩
    · have hx' : (x - 0x100).toNat < 12 := hx
      exact (if_neg (by bv_omega)).trans (if_pos (by bv_omega))
    · have hx' : (x - 0x200).toNat < 5 := hx
      exact (if_neg (by bv_omega)).trans ((if_neg (by bv_omega)).trans (if_pos (by bv_omega)))
    · have hx' : (x - 0x300).toNat < 6 := hx
      exact (if_neg (by bv_omega)).trans ((if_neg (by bv_omega)).trans ((if_neg (by bv_omega)).trans
        (if_pos (by bv_omega))))
    · have hx' : (x - 0x400).toNat < 5 := hx
      exact (if_neg (by bv_omega)).trans ((if_neg (by bv_omega)).trans ((if_neg (by bv_omega)).trans
        ((if_neg (by bv_omega)).trans (if_pos (by bv_omega)))))
  handler := by
    have hlow : ∀ x : Word32, 0x500 ≤ x → readMachine.code x
        = if x < 0x519 then Program.listing 0x500 (systemCallHandler 0x1000 0x519 0x51a) x
          else if x < 0x51a then Program.listing 0x519 sysenterErr x
          else Program.listing 0x51a sysenterFin x := fun x hx =>
      (if_neg (by bv_omega)).trans ((if_neg (by bv_omega)).trans ((if_neg (by bv_omega)).trans
        ((if_neg (by bv_omega)).trans (if_neg (by bv_omega)))))
    refine ⟨0x519, 0x51a, _, Program.placed_listing (fun x hx => ?_) (by decide),
      Program.placed_listing (fun x hx => ?_) (by decide),
      Program.placed_listing (fun x hx => ?_) (by decide)⟩
    · have hx' : (x - 0x500).toNat < 25 := hx
      exact (hlow x (by bv_omega)).trans (if_pos (by bv_omega))
    · have hx' : (x - 0x519).toNat < 1 := hx
      exact (hlow x (by bv_omega)).trans ((if_neg (by bv_omega)).trans (if_pos (by bv_omega)))
    · have hx' : (x - 0x51a).toNat < 16 := hx
      exact (hlow x (by bv_omega)).trans ((if_neg (by bv_omega)).trans (if_neg (by bv_omega)))
  table i c hi := by
    have hi' : i < 36 := (List.getElem?_eq_some_iff.mp hi).1
    have hzero : ∀ d : Word32, d.toNat < 4 →
        readState.mem (0x1000 + 4 * BitVec.ofNat 32 i + d) = 0 := by
      intro d hd
      exact if_neg (by bv_omega)
    have h₀ := hzero 0 (by decide)
    rw [add_zero] at h₀
    unfold load
    rw [hzero 3 (by decide), hzero 2 (by decide), hzero 1 (by decide), h₀]
    rfl
  msr := rfl
  cs := rfl
  ss := rfl

/-- Where `read` enters it, the function stores through its argument. -/
theorem readMachine_ext {u : Cpu} (hu : KernelEntered 0 .read readState u) :
    readMachine.ext 0 u = some (u.returnStoring 0x7000 0x61 1) := by
  have hbuffer : load u.mem (u.reg .esp + 4) = 0x7000 := by
    have harg := hu.args.1
    rw [hu.esp]
    exact harg
  show (if (0 : Word32) = 0 ∧ load u.mem (u.reg .esp + 4) ≠ 0 then _ else none) = _
  rw [hbuffer]
  rfl

theorem serves_read : Serves readMachine readState .read 0 readKept where
  function :=
    { code := rfl
      returned := fun u hesp hu => by
        refine ⟨_, readMachine_ext hu, u.returned_returnStoring fun x hx hb => ?_, ?_⟩
        · unfold readKept Block at *
          bv_omega
        · show u.msr Cpu.sysenterCs = kernelCs
          rw [hu.msr]
          rfl }
  above _ hx := Or.inl hx
  user _ hx := Or.inr hx

/-- A character is read into the buffer of the caller. -/
theorem wrapper_serves_read :
    ∃ t, readMachine.Steps readState t ∧ t.eip = 0 ∧ t.reg .eax = 1
      ∧ load t.mem 0x7000 = 0x61 := by
  have hd : Disjoint readState 0x8000 0x1000 := by
    constructor
    · intro x hx hb
      have hx' : (x - (0x9000 - 28)).toNat < 32 := hx
      have hb' : (x - (0x3000 - 68)).toNat < 68 := hb
      bv_omega
    · intro x hx hb
      have hx' : (x - 0x1000).toNat < 144 := hx
      have hb' : (x - (0x3000 - 68)).toNat < 68 := hb
      bv_omega
    · intro x hx hb
      have hx' : (x - 0x1000).toNat < 144 := hx
      have hb' : (x - (0x9000 - 28)).toNat < 28 := hb
      bv_omega
    · intro x hx hb
      have hx' : (x - (0x9000 - 4)).toNat < 8 := hx
      have hb' : (x - 0x8000).toNat < 4 := hb
      bv_omega
  obtain ⟨u, hrun₁, hu, hserves⟩ := wrapper_serves linked_read hd
  obtain ⟨v, t, hext, hrun₂, hrun₃, h⟩ := hserves (by decide) readKept serves_read
  obtain rfl := Option.some.inj ((readMachine_ext hu).symm.trans hext)
  have heax : (u.returnStoring 0x7000 0x61 1).reg .eax = 1 := rfl
  refine ⟨t, (hrun₁.trans hrun₂).trans hrun₃, h.returned.eip, ?_, ?_⟩
  · rw [h.eax, heax]
    rfl
  · have hmem : returnMem Wrapper.read.checks 0x8000 1 (store (store u.mem 0x7000 0x61)
        (0x3000 - 40) 1) = store (store u.mem 0x7000 0x61) (0x3000 - 40) 1 :=
      if_neg (by decide)
    rw [h.mem, heax]
    refine (congrArg (load · 0x7000) hmem).trans ?_
    rw [load_store_apart, load_store]
    intro x hx hb
    unfold Block at *
    bv_omega

end Main

end UserUtils

end ZeOS.Practica
