import ZeOS.Practica.Erase
import ZeOS.Practica.Sysenter

/-!
# The task switch, with its stacks

`kernel-utils.S` and `inner_task_switch` of `sched.c`. A task that is not
running is nothing but its kernel stack: `switch_stack` leaves the frame
pointer of `inner_task_switch` in `register_esp` and goes on from the one
found in the `register_esp` of the new task. The rest of `inner_task_switch`
is not run, so that the registers it has saved are not restored; this is what
`task_switch` saves them again for.

`inner_task_switch` is compiled from C with a frame pointer; `SwitchesStacks`
is what its text says of the state in which it enters `switch_stack`.
`Switched` is a whole switch, from the entry of `task_switch` to where the new
task goes on: what has been saved of the task that is left, and what it goes
on from.
-/

namespace ZeOS.Practica

open X86

/-! ## Task unions -/

/-- The union of a slot. -/
def taskUnion (task : Word32) (p : Slot) : Word32 := task + 4096 * BitVec.ofNat 32 p

/-- `KERNEL_ESP`. -/
def kernelEsp (task : Word32) (p : Slot) : Word32 := taskUnion task p + 4096

/-- Where `register_esp` is in a task. -/
def registerEsp (t : Word32) : Word32 := t + 16

/-- `current`, by the stack pointer. -/
def currentUnion (esp : Word32) : Word32 := esp &&& 0xfffff000

/-- The array of the tasks is in pages of its own. -/
structure TaskPages (task : Word32) : Prop where
  aligned : task.toNat % 4096 = 0
  fits : task.toNat + 4096 * nrTasks < 2 ^ 32

section Unions

variable {task x : Word32} {p q : Slot}

theorem TaskPages.union_toNat (h : TaskPages task) (p : Slot) :
    (taskUnion task p).toNat = task.toNat + 4096 * p := by
  have hfits : task.toNat + 4096 * 10 < 2 ^ 32 := h.fits
  have hp : (p : ℕ) < 10 := p.isLt
  unfold taskUnion
  bv_omega

theorem TaskPages.apart (h : TaskPages task) (hpq : p ≠ q) :
    Apart (taskUnion task p) 4096 (taskUnion task q) 4096 := by
  intro x hx hb
  have hfits : task.toNat + 4096 * 10 < 2 ^ 32 := h.fits
  have hp : (p : ℕ) < 10 := p.isLt
  have hq : (q : ℕ) < 10 := q.isLt
  have hne : (p : ℕ) ≠ q := fun he => hpq (Fin.ext he)
  have hpn := h.union_toNat p
  have hqn := h.union_toNat q
  unfold Block at *
  bv_omega

/-- A stack pointer in a union gives the union. -/
theorem TaskPages.currentUnion_eq (h : TaskPages task) (hx : Block (taskUnion task p) 4096 x) :
    currentUnion x = taskUnion task p := by
  have hpage : (currentUnion x).toNat = x.toNat / 4096 * 4096 := by
    rw [← show pageSize = 4096 from rfl, ← pageOf_eq]
    exact Mm.page_start x
  have hunion := h.union_toNat p
  have haligned := h.aligned
  have hfits : task.toNat + 4096 * 10 < 2 ^ 32 := h.fits
  have hp : (p : ℕ) < 10 := p.isLt
  refine BitVec.eq_of_toNat_eq ?_
  have hin : x.toNat = (taskUnion task p).toNat + (x - taskUnion task p).toNat
      ∧ (x - taskUnion task p).toNat < 4096 := by
    unfold Block at hx
    refine ⟨?_, hx⟩
    bv_omega
  rw [hpage]
  omega

end Unions

/-! ## `kernel-utils.S` -/

/-- `task_switch`, to its call of `inner_task_switch`. -/
def taskSwitchCall : List Instr :=
  [.push (.reg .ebp), .mov (.reg .esp) .ebp, .push (.reg .esi), .push (.reg .edi),
   .push (.reg .ebx), .push (.mem .ebp 8)]

/-- `switch_stack`, to its last instruction. -/
def switchStackBody : List Instr :=
  [.mov (.mem .esp 4) .eax, .movMem .ebp .eax 0, .mov (.mem .esp 8) .esp, .pop .ebp]

/-- `switch_stack`. -/
def switchStack : List Instr := switchStackBody ++ [.ret]

/-! ## `sched.c` -/

/-- **`inner_task_switch`**, entered in `s`, has got to `switch_stack` in `v`:
on a frame of its own, with the stack of the new task for the next entry of
the kernel, and with `register_esp` of both tasks for arguments. It has
written below its arguments and where `W` says. -/
structure SwitchesStacks (W : Word32 → Prop) (switchAt : Word32) (s v : Cpu) : Prop where
  eip : v.eip = switchAt
  ebp : v.reg .ebp = s.reg .esp - 4
  frame : Words v.mem (s.reg .esp - 4) [s.reg .ebp, s.top]
  args : Words v.mem (v.reg .esp + 4) [registerEsp (currentUnion (s.reg .esp)),
    load s.mem (registerEsp (load s.mem (s.reg .esp + 4)))]
  low : 20 ≤ (v.reg .esp + 4 - currentUnion (s.reg .esp)).toNat
    ∧ (v.reg .esp + 4 - currentUnion (s.reg .esp)).toNat + 8 ≤ 4096
  seg : v.seg = s.seg
  esp0 : v.esp0 = load s.mem (s.reg .esp + 4) + 4096
  msr : v.msr = Function.update s.msr Cpu.sysenterEsp (load s.mem (s.reg .esp + 4) + 4096)
  mem : ∀ x, ¬ W x → ¬ Block (currentUnion (s.reg .esp))
    (s.reg .esp + 8 - currentUnion (s.reg .esp)).toNat x → v.mem x = s.mem x

section Switch

variable {task : Word32} {s t v : Cpu} {p new : Slot} {W : Word32 → Prop} {switchAt : Word32}

/-- A stack pointer with room below it and an argument above it. -/
def OnStack (task : Word32) (p : Slot) (room : ℕ) (esp : Word32) : Prop :=
  room ≤ (esp - taskUnion task p).toNat ∧ (esp - taskUnion task p).toNat + 8 ≤ 4096

/-- Where a stack is in use from `a` on. -/
def Above (task : Word32) (p : Slot) (a x : Word32) : Prop :=
  Block a (kernelEsp task p - a).toNat x

/-- The words on the stack of a task that has called `task_switch` in `s`. -/
def calledFrame (back : Word32) (s : Cpu) (w : Word32) : List Word32 :=
  [s.reg .esp - 4, back, w, s.reg .ebx, s.reg .edi, s.reg .esi, s.reg .ebp, s.top]

/-- **A call of `task_switch`** in the kernel, on the stack of `p`, for another
task. -/
structure Calls (task : Word32) (p new : Slot) (s : Cpu) : Prop where
  other : new ≠ p
  stack : OnStack task p 256 (s.reg .esp)
  arg : load s.mem (s.reg .esp + 4) = taskUnion task new
  kernel : InKernel s

/-- **The entry of `inner_task_switch`.** -/
structure InnerEntered (back : Word32) (s i : Cpu) : Prop where
  esp : i.reg .esp = s.reg .esp - 24
  ebp : i.reg .ebp = s.reg .esp - 4
  stack : Words i.mem (s.reg .esp - 24) [back, load s.mem (s.reg .esp + 4), s.reg .ebx,
    s.reg .edi, s.reg .esi, s.reg .ebp, s.top]
  seg : i.seg = s.seg
  msr : i.msr = s.msr
  mem : ∀ x, ¬ Block (s.reg .esp - 24) 24 x → i.mem x = s.mem x

section Inner

variable {back : Word32} {i : Cpu}

/-- On which stack `inner_task_switch` is entered, and for whom. -/
theorem InnerEntered.current (ht : TaskPages task) (hs : Calls task p new s)
    (hi : InnerEntered back s i) :
    currentUnion (i.reg .esp) = taskUnion task p
      ∧ load i.mem (i.reg .esp + 4) = taskUnion task new
      ∧ load i.mem (registerEsp (taskUnion task new))
        = load s.mem (registerEsp (taskUnion task new)) := by
  obtain ⟨hroom, htop⟩ := hs.stack
  refine ⟨ht.currentUnion_eq ?_, ?_, load_congr fun x hx => hi.mem x fun hb => ?_⟩
  · rw [hi.esp]
    unfold Block
    bv_omega
  · rw [← hs.arg, hi.esp]
    exact hi.stack.2.1
  · refine ht.apart hs.other x (Block.mono (d := 16) hx (by decide)) ?_
    unfold Block at *
    bv_omega

/-- What `inner_task_switch` writes is below its caller's frame or where `W`
says. -/
theorem SwitchesStacks.below (h : SwitchesStacks W switchAt i v) (ht : TaskPages task)
    (hs : Calls task p new s) (hi : InnerEntered back s i)
    (hW : ∀ x q, W x → ¬ Block (taskUnion task q) 4096 x) {q : Slot} {x : Word32}
    (hx : Block (taskUnion task q) 4096 x)
    (hout : ¬ Block (taskUnion task p) ((s.reg .esp - taskUnion task p).toNat - 16) x) :
    v.mem x = i.mem x := by
  obtain ⟨hroom, htop⟩ := hs.stack
  have hmem := h.mem
  rw [(hi.current ht hs).1] at hmem
  refine hmem x (fun hw => hW x q hw hx) fun hb => hout ?_
  rw [hi.esp] at hb
  unfold Block at *
  bv_omega

end Inner

end Switch

end ZeOS.Practica
