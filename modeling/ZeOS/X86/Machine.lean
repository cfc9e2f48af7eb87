import Mathlib.Logic.Relation
import Mathlib.Data.Fintype.Defs
import ZeOS.X86.Memory

/-!
# A machine for entry code

The part of a 32-bit x86 that hand-written entry code uses: moves, pushes and
pops, comparisons with forward branches, calls, and the four ways of changing
the privilege level – `sysenter` and `sysexit`, an interrupt and `iret`.

Where an instruction lies and how long it is, is up to the assembler: `code`
gives for an address the instruction there and the address of the next one,
and `Placed` says that a list of instructions lies somewhere. What is not
written in assembly is entered by its address as well: `ext` gives for the
state in which a function is entered the one in which it has returned, if it
does, and a theorem about code that calls it says what it needs of the two.

Of the flags only those the branches read are computed; nothing here reads
the others.
-/

namespace X86

/-- The general registers. -/
inductive Reg where
  | eax | ecx | edx | ebx | esp | ebp | esi | edi
deriving DecidableEq

instance : Fintype Reg where
  elems := {.eax, .ecx, .edx, .ebx, .esp, .ebp, .esi, .edi}
  complete r := by cases r <;> decide

/-- The segment registers. -/
inductive Seg where
  | cs | ss | ds | es | fs | gs
deriving DecidableEq

instance : Fintype Seg where
  elems := {.cs, .ss, .ds, .es, .fs, .gs}
  complete g := by cases g <;> decide

/-- What a processor and its memory hold. -/
structure Cpu where
  reg : Reg → Word32
  seg : Seg → Word32
  eip : Word32
  eflags : Word32
  mem : LinearMemory
  /-- The model specific registers. -/
  msr : Word32 → Word32
  /-- The stack of level 0 in the task state segment. -/
  esp0 : Word32
  /-- What has been sent to a port, the last one first. -/
  sent : List (Octet × Octet)

/-- What an instruction reads. -/
inductive Src where
  | reg (r : Reg)
  | seg (s : Seg)
  | imm (v : Word32)
  /-- `disp(base)`. -/
  | mem (base : Reg) (disp : Word32)
  | abs (a : Word32)

/-- The instructions, with their operands in the order of the source. -/
inductive Instr where
  | push (o : Src)
  | pushf
  | pop (r : Reg)
  | popSeg (s : Seg)
  | mov (o : Src) (r : Reg)
  | movSeg (r : Reg) (s : Seg)
  | movMem (r : Reg) (base : Reg) (disp : Word32)
  | movAbs (r : Reg) (a : Word32)
  /-- A byte into the low byte of a register. -/
  | movb (v : Octet) (r : Reg)
  | outb (r : Reg) (port : Octet)
  | add (v : Word32) (r : Reg)
  | neg (r : Reg)
  | test (r : Reg)
  | cmp (v : Word32) (r : Reg)
  | sti
  | jmp (target : Word32)
  | js (target : Word32)
  | jl (target : Word32)
  | jg (target : Word32)
  | jge (target : Word32)
  | call (target : Word32)
  /-- `call *table(, r, 4)`. -/
  | callTable (table : Word32) (r : Reg)
  | ret
  | sysenter
  | sysexit
  | iret

/-! ## Flags -/

/-- The flags with the zero, sign and overflow flags replaced. -/
def setFlags (f : Word32) (zf sf of : Bool) : Word32 :=
  (f &&& ~~~0x8c0#32) ||| (if zf then 0x40#32 else 0) ||| (if sf then 0x80#32 else 0)
    ||| (if of then 0x800#32 else 0)

def zeroFlag (f : Word32) : Bool := f.getLsbD 6
def signFlag (f : Word32) : Bool := f.getLsbD 7
def overflowFlag (f : Word32) : Bool := f.getLsbD 11

/-- Interrupts are let through. -/
abbrev interruptFlag : Word32 := 0x200

@[simp] theorem zeroFlag_setFlags (f : Word32) (zf sf of : Bool) :
    zeroFlag (setFlags f zf sf of) = zf := by
  unfold zeroFlag setFlags
  cases zf <;> cases sf <;> cases of <;> simp

@[simp] theorem signFlag_setFlags (f : Word32) (zf sf of : Bool) :
    signFlag (setFlags f zf sf of) = sf := by
  unfold signFlag setFlags
  cases zf <;> cases sf <;> cases of <;> simp

@[simp] theorem overflowFlag_setFlags (f : Word32) (zf sf of : Bool) :
    overflowFlag (setFlags f zf sf of) = of := by
  unfold overflowFlag setFlags
  cases zf <;> cases sf <;> cases of <;> simp

/-- **Less, on two signed words**, is what the sign and the overflow of the
difference say. -/
theorem slt_iff (a b : Word32) :
    ((a - b).msb ≠ BitVec.ssubOverflow a b) ↔ a.toInt < b.toInt := by
  have ha := BitVec.toInt_lt (x := a)
  have ha' := BitVec.le_toInt (x := a)
  have hb := BitVec.toInt_lt (x := b)
  have hb' := BitVec.le_toInt (x := b)
  have hover : BitVec.ssubOverflow a b = true
      ↔ 2 ^ 31 ≤ a.toInt - b.toInt ∨ a.toInt - b.toInt < -2 ^ 31 := by
    simp [BitVec.ssubOverflow]
  have hmsb : (a - b).msb = true ↔ (a.toInt - b.toInt).bmod (2 ^ 32) < 0 := by
    rw [BitVec.msb_eq_toInt, BitVec.toInt_sub, decide_eq_true_iff]
  rw [ne_eq, Bool.eq_iff_iff, hover, hmsb, Int.bmod]
  omega

/-! ## Instructions -/

namespace Cpu

def value (s : Cpu) : Src → Word32
  | .reg r => s.reg r
  | .seg g => s.seg g
  | .imm v => v
  | .mem base disp => load s.mem (s.reg base + disp)
  | .abs a => load s.mem a

def setReg (s : Cpu) (r : Reg) (v : Word32) : Cpu :=
  { s with reg := Function.update s.reg r v }

theorem setReg_self (s : Cpu) (r : Reg) (v : Word32) : (s.setReg r v).reg r = v :=
  Function.update_self (β := fun _ => Word32) r v s.reg

theorem setReg_ne (s : Cpu) {q r : Reg} (h : q ≠ r) (v : Word32) :
    (s.setReg r v).reg q = s.reg q :=
  Function.update_of_ne (β := fun _ => Word32) h v s.reg

def setSeg (s : Cpu) (g : Seg) (v : Word32) : Cpu :=
  { s with seg := Function.update s.seg g v }

theorem setSeg_self (s : Cpu) (g : Seg) (v : Word32) : (s.setSeg g v).seg g = v :=
  Function.update_self (β := fun _ => Word32) g v s.seg

theorem setSeg_ne (s : Cpu) {f g : Seg} (h : f ≠ g) (v : Word32) :
    (s.setSeg g v).seg f = s.seg f :=
  Function.update_of_ne (β := fun _ => Word32) h v s.seg

@[simp] theorem setReg_seg (s : Cpu) (r : Reg) (v : Word32) : (s.setReg r v).seg = s.seg := rfl
@[simp] theorem setReg_mem (s : Cpu) (r : Reg) (v : Word32) : (s.setReg r v).mem = s.mem := rfl
@[simp] theorem setSeg_reg (s : Cpu) (g : Seg) (v : Word32) : (s.setSeg g v).reg = s.reg := rfl
@[simp] theorem setSeg_mem (s : Cpu) (g : Seg) (v : Word32) : (s.setSeg g v).mem = s.mem := rfl

def push (s : Cpu) (v : Word32) : Cpu :=
  { s.setReg .esp (s.reg .esp - 4) with mem := store s.mem (s.reg .esp - 4) v }

theorem push_esp (s : Cpu) (v : Word32) : (s.push v).reg .esp = s.reg .esp - 4 :=
  s.setReg_self .esp _

theorem push_reg (s : Cpu) {r : Reg} (h : r ≠ .esp) (v : Word32) : (s.push v).reg r = s.reg r :=
  s.setReg_ne h _

/-- The word on top of the stack. -/
def top (s : Cpu) : Word32 := load s.mem (s.reg .esp)

def drop (s : Cpu) : Cpu := s.setReg .esp (s.reg .esp + 4)

/-- Back to the address on top of the stack. -/
def ret (s : Cpu) : Cpu := { s.drop with eip := s.top }

/-- The privilege level. -/
def cpl (s : Cpu) : Word32 := s.seg .cs &&& 3

/-- The flags after an arithmetic result. -/
def flags (s : Cpu) (v : Word32) (of : Bool) : Cpu :=
  { s with eflags := setFlags s.eflags (v == 0) v.msb of }

/-- The state of an instruction that is followed by the next one. -/
def effect (s : Cpu) : Instr → Cpu
  | .push o => s.push (s.value o)
  | .pushf => s.push s.eflags
  | .pop r => s.drop.setReg r s.top
  | .popSeg g => s.drop.setSeg g s.top
  | .mov o r => s.setReg r (s.value o)
  | .movSeg r g => s.setSeg g (s.reg r)
  | .movMem r base disp => { s with mem := store s.mem (s.reg base + disp) (s.reg r) }
  | .movAbs r a => { s with mem := store s.mem a (s.reg r) }
  | .movb v r => s.setReg r ((s.reg r &&& 0xffffff00) ||| v.setWidth 32)
  | .outb r port => { s with sent := (port, (s.reg r).setWidth 8) :: s.sent }
  | .add v r =>
    (s.setReg r (s.reg r + v)).flags (s.reg r + v) (BitVec.saddOverflow (s.reg r) v)
  | .neg r => (s.setReg r (-s.reg r)).flags (-s.reg r) (BitVec.negOverflow (s.reg r))
  | .test r => s.flags (s.reg r) false
  | .cmp v r => s.flags (s.reg r - v) (BitVec.ssubOverflow (s.reg r) v)
  | .sti => { s with eflags := s.eflags ||| interruptFlag }
  | _ => s

/-- The numbers of the registers `sysenter` loads. -/
abbrev sysenterCs : Word32 := 0x174
abbrev sysenterEsp : Word32 := 0x175
abbrev sysenterEip : Word32 := 0x176

/-- The code and stack segments replaced. -/
def setCsSs (s : Cpu) (cs ss : Word32) : Cpu := (s.setSeg .cs cs).setSeg .ss ss

/-- Into the kernel, with interrupts off. -/
def sysenter (s : Cpu) : Cpu :=
  let cs := s.msr sysenterCs &&& 0xfffc
  { (s.setReg .esp (s.msr sysenterEsp)).setCsSs cs (cs + 8) with
    eip := s.msr sysenterEip
    eflags := s.eflags &&& ~~~interruptFlag }

theorem sysenter_esp (s : Cpu) : s.sysenter.reg .esp = s.msr sysenterEsp :=
  s.setReg_self .esp _

theorem sysenter_reg (s : Cpu) {r : Reg} (h : r ≠ .esp) : s.sysenter.reg r = s.reg r :=
  s.setReg_ne h _

theorem sysenter_seg (s : Cpu) {g : Seg} (hcs : g ≠ .cs) (hss : g ≠ .ss) :
    s.sysenter.seg g = s.seg g := by
  show ((s.setSeg .cs (s.msr sysenterCs &&& 0xfffc)).setSeg .ss _).seg g = s.seg g
  rw [setSeg_ne _ hss, setSeg_ne _ hcs]

/-- Back to user mode, at `edx` with the stack of `ecx`. -/
def sysexit (s : Cpu) : Cpu :=
  let cs := s.msr sysenterCs
  { (s.setReg .esp (s.reg .ecx)).setCsSs ((cs + 16) ||| 3) ((cs + 24) ||| 3) with
    eip := s.reg .edx }

/-- Back from an interrupt. A return to a lower level finds the stack of that
level above the flags. -/
def iret (s : Cpu) : Cpu :=
  let cs := s.drop.top
  let s' := { s.drop.drop.drop.setSeg .cs cs with eip := s.top, eflags := s.drop.drop.top }
  if s.cpl = cs &&& 3 then s' else (s'.setReg .esp s'.top).setSeg .ss s'.drop.top

/-- Words pushed in order. -/
def pushAll (s : Cpu) (ws : List Word32) : Cpu := ws.foldl push s

/-- The stack an interrupt uses: that of level 0, unless it is in use. -/
def base (s : Cpu) : Word32 := if s.cpl = 0 then s.reg .esp else s.esp0

/-- **The frame of an interrupt**, from the stack pointer up. -/
def frame (s : Cpu) : List Word32 :=
  [s.eip, s.seg .cs, s.eflags] ++ if s.cpl = 0 then [] else [s.reg .esp, s.seg .ss]

/-- On the stack of an interrupt, with its stack segment. -/
def onBase (s : Cpu) (ss : Word32) : Cpu :=
  (s.setReg .esp s.base).setSeg .ss (if s.cpl = 0 then s.seg .ss else ss)

/-- **An interrupt**, by a gate to `entry` in the segment `cs`: the frame is
pushed, and an error code where there is one. -/
def interrupt (s : Cpu) (cs ss entry : Word32) (error : Option Word32) : Cpu :=
  { ((s.onBase ss).pushAll (s.frame.reverse ++ error.toList)).setSeg .cs cs with
    eip := entry
    eflags := s.eflags &&& ~~~interruptFlag }

/-- **One instruction**, where the next one lies at `next`. -/
def exec (s : Cpu) (next : Word32) : Instr → Cpu
  | .jmp l => { s with eip := l }
  | .js l => { s with eip := if signFlag s.eflags then l else next }
  | .jl l => { s with eip := if signFlag s.eflags ≠ overflowFlag s.eflags then l else next }
  | .jg l =>
    { s with eip := if zeroFlag s.eflags = false ∧ signFlag s.eflags = overflowFlag s.eflags
        then l else next }
  | .jge l => { s with eip := if signFlag s.eflags = overflowFlag s.eflags then l else next }
  | .call l => { s.push next with eip := l }
  | .callTable table r =>
    { s.push next with eip := load s.mem (table + 4 * s.reg r) }
  | .ret => s.ret
  | .sysenter => s.sysenter
  | .sysexit => s.sysexit
  | .iret => s.iret
  | i => { s.effect i with eip := next }

end Cpu

namespace Cpu

/-- After a comparison, `jl` is taken where the register is less. -/
theorem less_cmp (s : Cpu) (v : Word32) (r : Reg) :
    (signFlag (s.effect (.cmp v r)).eflags ≠ overflowFlag (s.effect (.cmp v r)).eflags)
      ↔ (s.reg r).toInt < v.toInt := by
  have h := slt_iff (s.reg r) v
  have hflags : (s.effect (.cmp v r)).eflags
      = setFlags s.eflags (s.reg r - v == 0) (s.reg r - v).msb
        (BitVec.ssubOverflow (s.reg r) v) := rfl
  rwa [hflags, signFlag_setFlags, overflowFlag_setFlags]

/-- After a comparison, `jg` is taken where the register is greater. -/
theorem greater_cmp (s : Cpu) (v : Word32) (r : Reg) :
    (zeroFlag (s.effect (.cmp v r)).eflags = false
        ∧ signFlag (s.effect (.cmp v r)).eflags = overflowFlag (s.effect (.cmp v r)).eflags)
      ↔ v.toInt < (s.reg r).toInt := by
  have hzero : zeroFlag (s.effect (.cmp v r)).eflags = false ↔ s.reg r ≠ v := by
    have hflags : (s.effect (.cmp v r)).eflags
        = setFlags s.eflags (s.reg r - v == 0) (s.reg r - v).msb
          (BitVec.ssubOverflow (s.reg r) v) := rfl
    rw [hflags, zeroFlag_setFlags, beq_eq_false_iff_ne, ne_eq, ne_eq, sub_eq_zero]
  have hless := not_iff_not.mpr (s.less_cmp v r)
  rw [ne_eq, not_not, not_lt] at hless
  rw [hzero, hless, ne_eq, ← BitVec.toInt_inj]
  omega

end Cpu

/-- The instructions that are always followed by the next one. -/
def Instr.straight : Instr → Bool
  | .jmp _ | .js _ | .jl _ | .jg _ | .jge _ | .call _ | .callTable _ _ | .ret => false
  | .sysenter | .sysexit | .iret => false
  | _ => true

namespace Cpu

variable {s : Cpu} {i : Instr} {is : List Instr}

theorem exec_straight (h : i.straight = true) (s : Cpu) (next : Word32) :
    s.exec next i = { s.effect i with eip := next } := by
  cases i <;> first | rfl | exact Bool.noConfusion h

/-- The effect of instructions one after the other. -/
def effects (s : Cpu) (is : List Instr) : Cpu := is.foldl effect s

/-- Where an instruction lies is not read by it. -/
theorem effects_eip (s : Cpu) (is : List Instr) (v : Word32) :
    ({ s with eip := v } : Cpu).effects is = { s.effects is with eip := v } := by
  induction is generalizing s with
  | nil => rfl
  | cons i is ih =>
    have hone : ({ s with eip := v } : Cpu).effect i = { s.effect i with eip := v } := by
      cases i <;> rfl
    show (({ s with eip := v } : Cpu).effect i).effects is = _
    rw [hone, ih]
    rfl

theorem effects_append (s : Cpu) (is js : List Instr) :
    s.effects (is ++ js) = (s.effects is).effects js := List.foldl_append

end Cpu

/-! ## Programs -/

/-- What lies in memory as code, and the functions that do not. -/
structure Program where
  /-- The instruction at an address, and the address after it. -/
  code : Word32 → Option (Instr × Word32)
  /-- The state in which the function at an address has returned, if it does. -/
  ext : Word32 → Cpu → Option Cpu

namespace Program

variable {M : Program} {s : Cpu} {a b : Word32} {i : Instr} {is ks : List Instr}

def step (M : Program) (s : Cpu) : Option Cpu :=
  match M.code s.eip with
  | some (i, next) => some (s.exec next i)
  | none => M.ext s.eip s

/-- **The machine gets from one state to another.** -/
def Steps (M : Program) : Cpu → Cpu → Prop :=
  Relation.ReflTransGen (fun s t => M.step s = some t)

/-- **The instructions lie one after the other** from `a` to `b`. -/
def Placed (M : Program) : Word32 → List Instr → Word32 → Prop
  | a, [], b => a = b
  | a, i :: is, b => ∃ next, M.code a = some (i, next) ∧ M.Placed next is b

theorem placed_append :
    M.Placed a (is ++ ks) b ↔ ∃ c, M.Placed a is c ∧ M.Placed c ks b := by
  induction is generalizing a with
  | nil => exact ⟨fun h => ⟨a, rfl, h⟩, fun ⟨c, hac, h⟩ => hac ▸ h⟩
  | cons i is ih =>
    constructor
    · rintro ⟨next, hcode, h⟩
      obtain ⟨c, hc, hb⟩ := ih.mp h
      exact ⟨c, ⟨next, hcode, hc⟩, hb⟩
    · rintro ⟨c, ⟨next, hcode, hc⟩, hb⟩
      exact ⟨next, hcode, ih.mpr ⟨c, hc, hb⟩⟩

/-- **Straight code runs through.** -/
theorem Placed.straight (h : M.Placed s.eip is b) (hs : is.all Instr.straight = true) :
    M.Steps s { s.effects is with eip := b } := by
  induction is generalizing s with
  | nil =>
    obtain rfl : s.eip = b := h
    exact Relation.ReflTransGen.refl
  | cons i is ih =>
    obtain ⟨next, hcode, hrest⟩ := h
    rw [List.all_cons, Bool.and_eq_true] at hs
    have hstep : M.step s = some { s.effect i with eip := next } := by
      rw [step, hcode, ← Cpu.exec_straight hs.1]
    have hrun := ih (s := { s.effect i with eip := next }) hrest hs.2
    rw [Cpu.effects_eip] at hrun
    exact Relation.ReflTransGen.head hstep hrun

/-- The instruction at the head of the code that follows. -/
theorem Placed.exec (h : M.Placed s.eip (i :: is) b) :
    ∃ next, M.Placed next is b ∧ M.Steps s (s.exec next i) := by
  obtain ⟨next, hcode, hrest⟩ := h
  refine ⟨next, hrest, Relation.ReflTransGen.single ?_⟩
  rw [step, hcode]

/-- Two states that differ in where they are and in the flags. -/
def Moved (s t : Cpu) : Prop := t = { s with eip := t.eip, eflags := t.eflags }

theorem Moved.trans {s t u : Cpu} (h₁ : Moved s t) (h₂ : Moved t u) : Moved s u := by
  rw [Moved, h₂, h₁]

/-- **A branch** after an instruction that sets the flags, taken if `p`. -/
theorem Placed.branch {j : Instr} {l : Word32} {p : Prop} [Decidable p]
    (h : M.Placed s.eip (i :: j :: is) b) (hi : i.straight = true)
    (hj : ∀ n n', (s.exec n i).exec n' j
      = { s with eip := if p then l else n', eflags := (s.effect i).eflags }) :
    ∃ t, M.Steps s t ∧ Moved s t ∧ (p → t.eip = l) ∧ (¬ p → M.Placed t.eip is b) := by
  obtain ⟨n, hrest, hrun⟩ := h.exec
  have heip : (s.exec n i).eip = n := by rw [Cpu.exec_straight hi]
  rw [← heip] at hrest
  obtain ⟨n', hrest', hrun'⟩ := hrest.exec
  rw [hj] at hrun'
  refine ⟨_, hrun.trans hrun', rfl, fun hp => if_pos hp, fun hp => ?_⟩
  rwa [if_neg hp]

variable {v l : Word32} {r : Reg}

/-- `jl` is taken where the register is less. -/
theorem Placed.jl (h : M.Placed s.eip (.cmp v r :: .jl l :: is) b) :
    ∃ t, M.Steps s t ∧ Moved s t ∧ ((s.reg r).toInt < v.toInt → t.eip = l)
      ∧ (¬ (s.reg r).toInt < v.toInt → M.Placed t.eip is b) := by
  refine h.branch rfl fun n n' => ?_
  have hif : (if signFlag (s.effect (.cmp v r)).eflags ≠ overflowFlag (s.effect (.cmp v r)).eflags
      then l else n') = if (s.reg r).toInt < v.toInt then l else n' :=
    if_congr (s.less_cmp v r) rfl rfl
  rw [← hif]
  rfl

/-- `jg` is taken where the register is greater. -/
theorem Placed.jg (h : M.Placed s.eip (.cmp v r :: .jg l :: is) b) :
    ∃ t, M.Steps s t ∧ Moved s t ∧ (v.toInt < (s.reg r).toInt → t.eip = l)
      ∧ (¬ v.toInt < (s.reg r).toInt → M.Placed t.eip is b) := by
  refine h.branch rfl fun n n' => ?_
  have hif : (if zeroFlag (s.effect (.cmp v r)).eflags = false
        ∧ signFlag (s.effect (.cmp v r)).eflags = overflowFlag (s.effect (.cmp v r)).eflags
      then l else n') = if v.toInt < (s.reg r).toInt then l else n' :=
    if_congr (s.greater_cmp v r) rfl rfl
  rw [← hif]
  rfl

/-- `jge` is taken where the register is not less. -/
theorem Placed.jge (h : M.Placed s.eip (.cmp v r :: .jge l :: is) b) :
    ∃ t, M.Steps s t ∧ Moved s t ∧ (v.toInt ≤ (s.reg r).toInt → t.eip = l)
      ∧ (¬ v.toInt ≤ (s.reg r).toInt → M.Placed t.eip is b) := by
  refine h.branch rfl fun n n' => ?_
  have hless := not_iff_not.mpr (s.less_cmp v r)
  rw [ne_eq, not_not, not_lt] at hless
  have hif : (if signFlag (s.effect (.cmp v r)).eflags = overflowFlag (s.effect (.cmp v r)).eflags
      then l else n') = if v.toInt ≤ (s.reg r).toInt then l else n' := if_congr hless rfl rfl
  rw [← hif]
  rfl

/-- `js` after a test is taken where the register is negative. -/
theorem Placed.js (h : M.Placed s.eip (.test r :: .js l :: is) b) :
    ∃ t, M.Steps s t ∧ Moved s t ∧ ((s.reg r).toInt < 0 → t.eip = l)
      ∧ (¬ (s.reg r).toInt < 0 → M.Placed t.eip is b) := by
  refine h.branch rfl fun n n' => ?_
  have hsign : signFlag (s.effect (.test r)).eflags = true ↔ (s.reg r).toInt < 0 := by
    have hflags : (s.effect (.test r)).eflags
        = setFlags s.eflags (s.reg r == 0) (s.reg r).msb false := rfl
    rw [hflags, signFlag_setFlags, BitVec.msb_eq_toInt, decide_eq_true_iff]
  have hif : (if signFlag (s.effect (.test r)).eflags = true then l else n')
      = if (s.reg r).toInt < 0 then l else n' := if_congr hsign rfl rfl
  rw [← hif]
  rfl

/-- Code laid out with every instruction one byte long. -/
def listing (a : Word32) (is : List Instr) (x : Word32) : Option (Instr × Word32) :=
  is[(x - a).toNat]?.map fun i => (i, x + 1)

theorem placed_listing (hcode : ∀ x, Block a is.length x → M.code x = listing a is x)
    (hlen : is.length < 2 ^ 32) : M.Placed a is (a + BitVec.ofNat 32 is.length) := by
  suffices h : ∀ js n, is.drop n = js → n ≤ is.length →
      M.Placed (a + BitVec.ofNat 32 n) js (a + BitVec.ofNat 32 is.length) by
    have h₀ := h is 0 rfl (Nat.zero_le _)
    rwa [show BitVec.ofNat 32 0 = (0 : Word32) from rfl, add_zero] at h₀
  intro js
  induction js with
  | nil =>
    intro n hn hle
    have hend : is.length ≤ n := List.drop_eq_nil_iff.mp hn
    rw [le_antisymm hle hend]
    rfl
  | cons j js ih =>
    intro n hn hle
    have hlt : n < is.length := by
      by_contra hge
      rw [List.drop_eq_nil_of_le (not_lt.mp hge)] at hn
      exact absurd hn (by simp)
    have hget : is[n]? = some j := by
      rw [← List.head?_drop, hn]
      rfl
    have hdist : (a + BitVec.ofNat 32 n - a).toNat = n := by
      rw [add_sub_cancel_left, BitVec.toNat_ofNat, Nat.mod_eq_of_lt (by omega)]
    refine ⟨a + BitVec.ofNat 32 n + 1, ?_, ?_⟩
    · rw [hcode _ (by unfold Block; rwa [hdist]), listing, hdist, hget]
      rfl
    · have hnext := ih (n + 1) (by rw [← List.tail_drop, hn]; rfl) hlt
      rwa [BitVec.ofNat_add, ← add_assoc] at hnext

end Program

end X86
