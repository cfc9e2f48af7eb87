import Mathlib.Data.List.Nodup
import ZeOS.X86.Machine

/-!
# What code leaves on the stack and finds there again

Entry code pushes registers, calls functions, and pops what it pushed; it is
right if what it pops is still there. So the state of a stack is described by
the words on it, from the stack pointer up, and there is one rule for each
thing the code does: registers pushed in some order are found in the opposite
one, registers popped have the words found, a function that returns leaves
the words above its arguments, an interrupt pushes the frame that `iret`
reads.

`Returned` is what a caller may expect of a function of the C convention:
that it comes back, with the registers a callee saves, and that it has not
written above its own arguments. The arguments themselves belong to the
callee and may have changed. A function may expect something of its caller in
turn – most are given pointers, or find them in memory – and what is called a
`Function` promises this only where it is entered as it expects to be.
-/

namespace X86

namespace Cpu

variable {s t u : Cpu} {r : Reg} {g : Seg} {v w : Word32} {vs ws : List Word32}

/-- The words on the stack. -/
def Stack (s : Cpu) (ws : List Word32) : Prop := Words s.mem (s.reg .esp) ws

theorem drop_esp (s : Cpu) : s.drop.reg .esp = s.reg .esp + 4 := s.setReg_self .esp _

theorem drop_reg (s : Cpu) (hr : r ≠ .esp) : s.drop.reg r = s.reg r := s.setReg_ne hr _

/-- The first word is on top, the others are below. -/
theorem stack_cons : s.Stack (w :: ws) ↔ s.top = w ∧ s.drop.Stack ws := by
  unfold Stack
  rw [drop_esp]
  exact Iff.rfl

/-! ## Pushing -/

theorem pushAll_eq (s : Cpu) (ws : List Word32) :
    s.pushAll ws = { s.setReg .esp (s.reg .esp - BitVec.ofNat 32 (4 * ws.length)) with
      mem := pushes s.mem (s.reg .esp) ws } := by
  induction ws generalizing s with
  | nil =>
    have hesp : Function.update s.reg .esp (s.reg .esp - 0) = s.reg := by
      rw [sub_zero, Function.update_eq_self]
    show s = { s with reg := Function.update s.reg .esp (s.reg .esp - 0) }
    rw [hesp]
  | cons w ws ih =>
    show (s.push w).pushAll ws = _
    have hbase : s.reg .esp - 4 - BitVec.ofNat 32 (4 * ws.length)
        = s.reg .esp - BitVec.ofNat 32 (4 * (w :: ws).length) := by
      rw [List.length_cons, sub_sub, Nat.mul_succ, add_comm (4 * ws.length) 4, BitVec.ofNat_add]
      rfl
    rw [ih, push_esp, hbase]
    have hupd : Function.update (s.push w).reg .esp
        (s.reg .esp - BitVec.ofNat 32 (4 * (w :: ws).length)) = Function.update s.reg .esp _ :=
      Function.update_idem _ _ s.reg
    unfold setReg
    rw [hupd]
    rfl

theorem pushAll_esp (s : Cpu) (ws : List Word32) :
    (s.pushAll ws).reg .esp = s.reg .esp - BitVec.ofNat 32 (4 * ws.length) := by
  rw [pushAll_eq]
  exact s.setReg_self .esp _

theorem pushAll_reg (s : Cpu) (ws : List Word32) (hr : r ≠ .esp) :
    (s.pushAll ws).reg r = s.reg r := by
  rw [pushAll_eq]
  exact s.setReg_ne hr _

theorem stack_pushAll (ws : List Word32) (h : s.Stack vs)
    (hlen : 4 * (ws.length + vs.length) ≤ 2 ^ 32) :
    (s.pushAll ws).Stack (ws.reverse ++ vs) := by
  unfold Stack
  rw [pushAll_esp, pushAll_eq]
  exact words_pushes ws vs h hlen

/-- A stack is not asked for more than it holds. -/
theorem stack_nil (s : Cpu) : s.Stack [] := trivial

theorem pushAll_mem (s : Cpu) (ws : List Word32) :
    (s.pushAll ws).mem = pushes s.mem (s.reg .esp) ws := by
  rw [pushAll_eq]

theorem pushAll_seg (s : Cpu) (ws : List Word32) : (s.pushAll ws).seg = s.seg := by
  rw [pushAll_eq]
  rfl

/-- Registers pushed. -/
theorem effects_push_regs (rs : List Reg) (hesp : Reg.esp ∉ rs) (s : Cpu) :
    s.effects (rs.map fun r => .push (.reg r)) = s.pushAll (rs.map s.reg) := by
  induction rs generalizing s with
  | nil => rfl
  | cons r rs ih =>
    obtain ⟨hr, hrs⟩ := not_or.mp (mt List.mem_cons.mpr hesp)
    show (s.push (s.reg r)).effects _ = (s.push (s.reg r)).pushAll (rs.map s.reg)
    rw [ih hrs]
    congr 1
    refine List.map_congr_left fun r' hr' => ?_
    exact s.push_reg (fun he => hrs (he ▸ hr')) _

theorem effects_push_segs (gs : List Seg) (s : Cpu) :
    s.effects (gs.map fun g => .push (.seg g)) = s.pushAll (gs.map s.seg) := by
  induction gs generalizing s with
  | nil => rfl
  | cons g gs ih =>
    show (s.push (s.seg g)).effects _ = (s.push (s.seg g)).pushAll (gs.map s.seg)
    rw [ih]
    rfl

/-! ## Popping -/

/-- What popping registers does. -/
structure Popped (rs : List Reg) (f : Reg → Word32) (s t : Cpu) : Prop where
  popped : ∀ r ∈ rs, t.reg r = f r
  other : ∀ r, r ∉ rs → r ≠ .esp → t.reg r = s.reg r
  esp : t.reg .esp = s.reg .esp + BitVec.ofNat 32 (4 * rs.length)
  rest : t = { s with reg := t.reg }

/-- **Registers popped have the words found.** -/
theorem popped_regs (rs : List Reg) (hnd : rs.Nodup) (hesp : Reg.esp ∉ rs) (f : Reg → Word32)
    (h : s.Stack (rs.map f ++ ws)) :
    Popped rs f s (s.effects (rs.map .pop)) ∧ (s.effects (rs.map .pop)).Stack ws := by
  induction rs generalizing s with
  | nil =>
    refine ⟨⟨fun _ hr => absurd hr List.not_mem_nil, fun _ _ _ => rfl, ?_, rfl⟩, h⟩
    show s.reg .esp = s.reg .esp + 0
    rw [add_zero]
  | cons r rs ih =>
    obtain ⟨hr, hrs⟩ := not_or.mp (mt List.mem_cons.mpr hesp)
    obtain ⟨hrnot, hnd'⟩ := List.nodup_cons.mp hnd
    have hne : r ≠ .esp := fun he => hr he.symm
    have htop : s.top = f r := h.1
    set s₁ := s.drop.setReg r (f r) with hs₁
    have hone : s.effect (.pop r) = s₁ := by
      show s.drop.setReg r s.top = _
      rw [htop]
    have hesp₁ : s₁.reg .esp = s.reg .esp + 4 :=
      (s.drop.setReg_ne hne.symm _).trans (s.setReg_self .esp _)
    have hstack : s₁.Stack (rs.map f ++ ws) := by
      unfold Stack
      rw [hesp₁]
      exact h.2
    obtain ⟨hp, hst⟩ := ih hnd' hrs hstack
    show Popped (r :: rs) f s ((s.effect (.pop r)).effects (rs.map .pop))
      ∧ ((s.effect (.pop r)).effects (rs.map .pop)).Stack ws
    rw [hone]
    refine ⟨⟨fun q hq => ?_, fun q hq hqe => ?_, ?_, ?_⟩, hst⟩
    · rcases List.mem_cons.mp hq with rfl | hq
      · rw [hp.other _ hrnot hne]
        exact s.drop.setReg_self _ _
      · exact hp.popped q hq
    · obtain ⟨hqr, hqrs⟩ := not_or.mp (mt List.mem_cons.mpr hq)
      rw [hp.other q hqrs hqe]
      exact (s.drop.setReg_ne hqr _).trans (s.setReg_ne hqe _)
    · rw [hp.esp, hesp₁, List.length_cons, add_assoc, Nat.mul_succ, add_comm (4 * rs.length) 4,
        BitVec.ofNat_add]
      rfl
    · have hrest := hp.rest
      rw [hrest, hs₁]
      rfl

/-- **Segment registers popped have the words found.** -/
theorem popped_segs (gs : List Seg) (hnd : gs.Nodup) (f : Seg → Word32)
    (h : s.Stack (gs.map f ++ ws)) :
    (∀ g ∈ gs, (s.effects (gs.map .popSeg)).seg g = f g)
      ∧ (∀ g, g ∉ gs → (s.effects (gs.map .popSeg)).seg g = s.seg g)
      ∧ s.effects (gs.map .popSeg)
        = { s.setReg .esp (s.reg .esp + BitVec.ofNat 32 (4 * gs.length)) with
            seg := (s.effects (gs.map .popSeg)).seg }
      ∧ (s.effects (gs.map .popSeg)).Stack ws := by
  induction gs generalizing s with
  | nil =>
    refine ⟨fun _ hg => absurd hg List.not_mem_nil, fun _ _ => rfl, ?_, h⟩
    show s = { s with reg := Function.update s.reg .esp (s.reg .esp + 0) }
    rw [add_zero, Function.update_eq_self]
  | cons g gs ih =>
    obtain ⟨hgnot, hnd'⟩ := List.nodup_cons.mp hnd
    have htop : s.top = f g := h.1
    have hone : s.effect (.popSeg g) = s.drop.setSeg g (f g) := by
      show s.drop.setSeg g s.top = _
      rw [htop]
    have hesp : (s.drop.setSeg g (f g)).reg .esp = s.reg .esp + 4 := s.setReg_self .esp _
    have hstack : (s.drop.setSeg g (f g)).Stack (gs.map f ++ ws) := by
      unfold Stack
      rw [hesp]
      exact h.2
    obtain ⟨hin, hout, hrest, hst⟩ := ih hnd' hstack
    show (∀ q ∈ g :: gs, ((s.effect (.popSeg g)).effects (gs.map .popSeg)).seg q = f q) ∧ _ ∧ _
      ∧ ((s.effect (.popSeg g)).effects (gs.map .popSeg)).Stack ws
    have hcons : s.effects ((g :: gs).map .popSeg)
        = (s.drop.setSeg g (f g)).effects (gs.map .popSeg) := by
      rw [← hone]
      rfl
    rw [hone, hcons]
    refine ⟨fun q hq => ?_, fun q hq => ?_, ?_, hst⟩
    · rcases List.mem_cons.mp hq with rfl | hq
      · rw [hout _ hgnot]
        exact s.drop.setSeg_self _ _
      · exact hin q hq
    · obtain ⟨hqg, hqgs⟩ := not_or.mp (mt List.mem_cons.mpr hq)
      rw [hout q hqgs]
      exact s.drop.setSeg_ne hqg _
    · have hadd : s.reg .esp + 4 + BitVec.ofNat 32 (4 * gs.length)
          = s.reg .esp + BitVec.ofNat 32 (4 * (g :: gs).length) := by
        rw [List.length_cons, add_assoc, Nat.mul_succ, add_comm (4 * gs.length) 4,
          BitVec.ofNat_add]
        rfl
      have hupd : Function.update (s.drop.setSeg g (f g)).reg .esp
          (s.reg .esp + BitVec.ofNat 32 (4 * (g :: gs).length)) = Function.update s.reg .esp _ :=
        Function.update_idem _ _ s.reg
      conv_lhs => rw [hrest]
      rw [hesp, hadd]
      unfold setReg
      rw [hupd]
      rfl

/-! ## Calls -/

/-- The registers a function leaves as they were. -/
def calleeSaved : List Reg := [.ebx, .esi, .edi, .ebp]

/-- **A function entered in `s` has returned in `t`** and has not written where
`K` says. -/
structure Returned (K : Word32 → Prop) (s t : Cpu) : Prop where
  eip : t.eip = s.top
  esp : t.reg .esp = s.reg .esp + 4
  saved : ∀ r ∈ calleeSaved, t.reg r = s.reg r
  seg : t.seg = s.seg
  mem : ∀ x, K x → t.mem x = s.mem x

/-- A function that does nothing but return. -/
theorem returned_ret (s : Cpu) (K : Word32 → Prop) : Returned K s s.ret where
  eip := rfl
  esp := s.drop_esp
  saved r hr := s.drop_reg (fun he => absurd (he ▸ hr) (show Reg.esp ∉ calleeSaved by decide))
  seg := rfl
  mem _ _ := rfl

/-- A function that stores `v` at `p` and returns `r`, with other values in the
registers that are its own. -/
def returnStoring (p v r : Word32) (s : Cpu) : Cpu :=
  { ((s.ret.setReg .eax r).setReg .ecx 1).setReg .edx 2 with mem := store s.mem p v }

theorem returned_returnStoring (s : Cpu) {p v r : Word32} {K : Word32 → Prop}
    (hK : ∀ x, K x → ¬ Block p 4 x) : Returned K s (s.returnStoring p v r) := by
  have hret := s.returned_ret K
  have hother : ∀ q, q ≠ .eax → q ≠ .ecx → q ≠ .edx →
      (((s.ret.setReg .eax r).setReg .ecx 1).setReg .edx 2).reg q = s.ret.reg q := by
    intro q h₁ h₂ h₃
    rw [setReg_ne _ h₃, setReg_ne _ h₂, setReg_ne _ h₁]
  have hsaved : ∀ q ∈ calleeSaved, q ≠ .eax ∧ q ≠ .ecx ∧ q ≠ .edx := by decide
  refine ⟨hret.eip, ?_, fun q hq => ?_, hret.seg, fun x hx => store_other (hK x hx)⟩
  · exact (hother .esp (by decide) (by decide) (by decide)).trans hret.esp
  · obtain ⟨h₁, h₂, h₃⟩ := hsaved q hq
    exact (hother q h₁ h₂ h₃).trans (hret.saved q hq)

/-- **What code between a save and a restore keeps**: the stack pointer, the
segments, and the memory where `K` says. -/
structure Kept (K : Word32 → Prop) (s t : Cpu) : Prop where
  esp : t.reg .esp = s.reg .esp
  seg : t.seg = s.seg
  mem : ∀ x, K x → t.mem x = s.mem x

variable {K : Word32 → Prop} {n : ℕ}

theorem Kept.refl (K : Word32 → Prop) (s : Cpu) : Kept K s s := ⟨rfl, rfl, fun _ _ => rfl⟩

theorem Kept.trans (h₁ : Kept K s t) (h₂ : Kept K t u) : Kept K s u :=
  ⟨h₂.esp.trans h₁.esp, h₂.seg.trans h₁.seg, fun x hx => (h₂.mem x hx).trans (h₁.mem x hx)⟩

/-- The words on a stack that is kept. -/
theorem Kept.stack (h : Kept K s t) (hst : s.Stack ws) (hlen : 4 * ws.length ≤ n)
    (hn : n ≤ 2 ^ 32) (hK : ∀ x, Block (s.reg .esp) n x → K x) : t.Stack ws := by
  unfold Stack
  rw [h.esp]
  exact hst.congr hlen hn fun x hx => h.mem x (hK x hx)

/-- The entry of a function by a call that returns to `next`. -/
def enter (s : Cpu) (f next : Word32) : Cpu := { s.push next with eip := f }

theorem enter_esp (s : Cpu) (f next : Word32) : (s.enter f next).reg .esp = s.reg .esp - 4 :=
  s.push_esp next

theorem enter_top (s : Cpu) (f next : Word32) : (s.enter f next).top = next := by
  have hload : (s.enter f next).top
      = load (store s.mem (s.reg .esp - 4) next) (s.reg .esp - 4) := by
    show load (store s.mem (s.reg .esp - 4) next) ((s.enter f next).reg .esp) = _
    rw [enter_esp]
  rw [hload, load_store]

/-- The arguments lie above the return address. -/
theorem stack_enter (f next : Word32) (h : s.Stack ws) (hlen : 4 * (1 + ws.length) ≤ 2 ^ 32) :
    (s.enter f next).Stack (next :: ws) :=
  stack_pushAll [next] h hlen

/-- **A function that returns**, seen from its caller. -/
theorem Returned.kept {f next : Word32} (h : Returned K (s.enter f next) t)
    (hK : ∀ x, Block (s.reg .esp - 4) 4 x → ¬ K x) :
    t.eip = next ∧ Kept K s t ∧ ∀ r ∈ calleeSaved, t.reg r = s.reg r := by
  refine ⟨h.eip.trans (s.enter_top f next), ⟨?_, h.seg, fun x hx => ?_⟩, fun r hr => ?_⟩
  · rw [h.esp, enter_esp, sub_add_cancel]
  · exact (h.mem x hx).trans (store_other fun hb => hK x hb hx)
  · have hne : r ≠ .esp := by
      rintro rfl
      exact absurd hr (by decide)
    exact (h.saved r hr).trans (s.push_reg hne next)

end Cpu

/-- Registers pushed, the segment registers first. -/
def saveRegs (gs : List Seg) (rs : List Reg) : List Instr :=
  gs.map (fun g => .push (.seg g)) ++ rs.map (fun r => .push (.reg r))

/-- The same registers popped. -/
def restoreRegs (gs : List Seg) (rs : List Reg) : List Instr :=
  rs.reverse.map .pop ++ gs.reverse.map .popSeg

namespace Cpu

variable {s t u : Cpu} {gs : List Seg} {rs : List Reg} {ws : List Word32}

/-- The words of saved registers. -/
def saved (s : Cpu) (gs : List Seg) (rs : List Reg) : List Word32 :=
  rs.reverse.map s.reg ++ gs.reverse.map s.seg

theorem effects_saveRegs (hesp : Reg.esp ∉ rs) (s : Cpu) :
    s.effects (saveRegs gs rs) = s.pushAll (gs.map s.seg ++ rs.map s.reg) := by
  have hreg : (rs.map (s.pushAll (gs.map s.seg)).reg) = rs.map s.reg :=
    List.map_congr_left fun r hr => s.pushAll_reg _ (fun he => hesp (he ▸ hr))
  rw [saveRegs, effects_append, effects_push_segs, effects_push_regs rs hesp, hreg]
  exact List.foldl_append.symm

theorem stack_saveRegs (gs : List Seg) (hesp : Reg.esp ∉ rs) (h : s.Stack ws)
    (hlen : 4 * (gs.length + rs.length + ws.length) ≤ 2 ^ 32) :
    (s.effects (saveRegs gs rs)).Stack (s.saved gs rs ++ ws) := by
  have hstack := stack_pushAll (gs.map s.seg ++ rs.map s.reg) h
    (by simpa only [List.length_append, List.length_map] using hlen)
  rw [effects_saveRegs hesp, saved, List.map_reverse, List.map_reverse, ← List.reverse_append]
  exact hstack

/-- **Registers restored.** -/
structure Restored (gs : List Seg) (rs : List Reg) (s u t : Cpu) : Prop where
  reg : ∀ r ∈ rs, t.reg r = s.reg r
  seg : ∀ g ∈ gs, t.seg g = s.seg g
  other : ∀ g, g ∉ gs → t.seg g = u.seg g
  esp : t.reg .esp = u.reg .esp + BitVec.ofNat 32 (4 * (rs.length + gs.length))
  rest : t = { u with reg := t.reg, seg := t.seg }

theorem Restored.mem (h : Restored gs rs s u t) : t.mem = u.mem := by
  rw [h.rest]

/-- **What has been saved is restored**, whatever happened in between. -/
theorem restored (hgs : gs.Nodup) (hrs : rs.Nodup) (hesp : Reg.esp ∉ rs)
    (h : u.Stack (s.saved gs rs ++ ws)) :
    Restored gs rs s u (u.effects (restoreRegs gs rs))
      ∧ (u.effects (restoreRegs gs rs)).Stack ws := by
  rw [saved, List.append_assoc] at h
  rw [restoreRegs, effects_append]
  obtain ⟨hp, hst⟩ := popped_regs rs.reverse (List.nodup_reverse.mpr hrs)
    (fun hm => hesp (List.mem_reverse.mp hm)) s.reg h
  set v := u.effects (rs.reverse.map .pop) with hv
  obtain ⟨hin, hout, hrest, hst'⟩ := popped_segs gs.reverse (List.nodup_reverse.mpr hgs) s.seg hst
  set t := v.effects (gs.reverse.map .popSeg) with ht
  have hreg : t.reg = Function.update v.reg .esp
      (v.reg .esp + BitVec.ofNat 32 (4 * gs.reverse.length)) := congrArg Cpu.reg hrest
  have hvu := hp.rest
  have hseg : v.seg = u.seg := by rw [hvu]
  refine ⟨⟨fun r hr => ?_, fun g hg => hin g (List.mem_reverse.mpr hg), fun g hg => ?_, ?_, ?_⟩,
    hst'⟩
  · rw [hreg, Function.update_of_ne (fun he : r = .esp => hesp (he ▸ hr))]
    exact hp.popped r (List.mem_reverse.mpr hr)
  · rw [hout g (fun hm => hg (List.mem_reverse.mp hm)), hseg]
  · rw [hreg, Function.update_self, hp.esp, List.length_reverse, List.length_reverse, add_assoc,
      ← BitVec.ofNat_add, Nat.mul_add]
  · rw [hrest, hvu]
    rfl

/-! ## Interrupts -/

variable (cs ss entry : Word32) (error : Option Word32)

theorem length_frame (s : Cpu) : s.frame.length ≤ 5 := by
  unfold frame
  split_ifs <;> simp

theorem onBase_esp (s : Cpu) (ss : Word32) : (s.onBase ss).reg .esp = s.base :=
  s.setReg_self .esp s.base

theorem interrupt_esp (s : Cpu) :
    (s.interrupt cs ss entry error).reg .esp
      = s.base - BitVec.ofNat 32 (4 * (s.frame.length + error.toList.length)) := by
  have h := pushAll_esp (s.onBase ss)
    (s.frame.reverse ++ error.toList)
  rw [List.length_append, List.length_reverse] at h
  refine h.trans ?_
  congr 1

theorem interrupt_reg (s : Cpu) {r : Reg} (hr : r ≠ .esp) :
    (s.interrupt cs ss entry error).reg r = s.reg r :=
  (pushAll_reg _ _ hr).trans (s.setReg_ne hr s.base)

/-- **An interrupt pushes its frame.** -/
theorem stack_interrupt (s : Cpu) (hlen : error.toList.length ≤ 1) :
    (s.interrupt cs ss entry error).Stack (error.toList ++ s.frame) := by
  have hframe := s.length_frame
  have h := stack_pushAll (s.frame.reverse ++ error.toList)
    (stack_nil (s.onBase ss))
    (by
      rw [List.length_append, List.length_reverse, List.length_nil]
      omega)
  rw [List.reverse_append, List.reverse_reverse, List.append_nil] at h
  have herr : error.toList.reverse = error.toList := by cases error <;> rfl
  rw [herr] at h
  exact h

theorem interrupt_seg (s : Cpu) {g : Seg} (hcs : g ≠ .cs) (hss : g ≠ .ss) :
    (s.interrupt cs ss entry error).seg g = s.seg g := by
  refine (setSeg_ne _ hcs cs).trans ?_
  rw [pushAll_eq]
  exact setSeg_ne _ hss _

theorem interrupt_cs (s : Cpu) : (s.interrupt cs ss entry error).seg .cs = cs :=
  ((s.onBase ss).pushAll (s.frame.reverse ++ error.toList)).setSeg_self .cs cs

theorem interrupt_ss (s : Cpu) :
    (s.interrupt cs ss entry error).seg .ss = if s.cpl = 0 then s.seg .ss else ss := by
  refine (((s.onBase ss).pushAll (s.frame.reverse ++ error.toList)).setSeg_ne
    (f := .ss) (g := .cs) (by decide) cs).trans ?_
  rw [pushAll_seg]
  exact (s.setReg .esp s.base).setSeg_self .ss _

/-- The frame is all that is written. -/
theorem interrupt_mem (s : Cpu) (hlen : error.toList.length ≤ 1) {x : Word32}
    (hx : ¬ Block ((s.interrupt cs ss entry error).reg .esp)
      (4 * (s.frame.length + error.toList.length)) x) :
    (s.interrupt cs ss entry error).mem x = s.mem x := by
  have hframe := s.length_frame
  have hmem := pushAll_mem (s.onBase ss)
    (s.frame.reverse ++ error.toList)
  have hsize : (s.frame.reverse ++ error.toList).length
      = s.frame.length + error.toList.length := by
    rw [List.length_append, List.length_reverse]
  rw [interrupt_esp] at hx
  refine (congrFun hmem x).trans (pushes_other ?_ ?_)
  · rw [hsize, onBase_esp]
    exact hx
  · rw [hsize]
    omega

/-- The state `s` was interrupted in is left to, from `u`. -/
structure Left (s u t : Cpu) : Prop where
  reg : ∀ r, r ≠ .esp → t.reg r = u.reg r
  esp : t.reg .esp = s.reg .esp
  seg : ∀ g, g ≠ .cs → g ≠ .ss → t.seg g = u.seg g
  cs : t.seg .cs = s.seg .cs
  ss : t.seg .ss = if s.cpl = 0 then u.seg .ss else s.seg .ss
  eip : t.eip = s.eip
  eflags : t.eflags = s.eflags
  mem : t.mem = u.mem

/-- **`iret` undoes an interrupt**: on the frame, at level 0. -/
theorem left_iret (h : u.Stack s.frame) (hcpl : u.cpl = 0)
    (hesp : u.reg .esp = s.base - BitVec.ofNat 32 (4 * s.frame.length)) : Left s u u.iret := by
  unfold frame at h hesp
  obtain ⟨heip, h⟩ := stack_cons.mp h
  obtain ⟨hcs, h⟩ := stack_cons.mp h
  obtain ⟨hflags, h⟩ := stack_cons.mp h
  have hdrop : u.drop.drop.drop.reg = Function.update u.reg .esp (u.reg .esp + 4 + 4 + 4) := by
    unfold drop setReg
    simp only [Function.update_idem, Function.update_self]
  have hlevel : (u.cpl = u.drop.top &&& 3) = (s.cpl = 0) := by
    rw [hcs, hcpl]
    exact propext eq_comm
  have hregs : ∀ r, r ≠ .esp → u.drop.drop.drop.reg r = u.reg r := fun r hr => by
    rw [hdrop, Function.update_of_ne hr]
  unfold iret
  simp only [hlevel]
  split_ifs at h hesp ⊢ with hzero
  · -- the same level: the stack goes on above the frame
    have hesp' : u.reg .esp + 4 + 4 + 4 = s.reg .esp := by
      rw [hesp, base, if_pos hzero]
      show s.reg .esp - 12 + 4 + 4 + 4 = s.reg .esp
      bv_omega
    refine ⟨hregs, ?_, fun g hg _ => u.drop.drop.drop.setSeg_ne hg u.drop.top, ?_, ?_, heip,
      hflags, rfl⟩
    · rw [← hesp']
      exact (congrFun hdrop .esp).trans (Function.update_self .esp (u.reg .esp + 4 + 4 + 4) u.reg)
    · exact (u.drop.drop.drop.setSeg_self .cs u.drop.top).trans hcs
    · rw [if_pos hzero]
      exact u.drop.drop.drop.setSeg_ne (f := .ss) (g := .cs) (by decide) u.drop.top
  · -- a lower level: its stack is in the frame
    obtain ⟨hold, h⟩ := stack_cons.mp h
    obtain ⟨hss, -⟩ := stack_cons.mp h
    have hregs' : ∀ r, r ≠ .esp → Function.update u.drop.drop.drop.reg .esp
        u.drop.drop.drop.top r = u.reg r := fun r hr => by
      rw [Function.update_of_ne hr]
      exact hregs r hr
    have hsegs : ∀ g, g ≠ .cs → g ≠ .ss → Function.update (Function.update u.seg .cs u.drop.top)
        .ss u.drop.drop.drop.drop.top g = u.seg g := fun g hcs hss => by
      rw [Function.update_of_ne hss, Function.update_of_ne hcs]
    refine ⟨hregs', ?_, hsegs, ?_, ?_, heip, hflags, rfl⟩
    · rw [← hold]
      exact Function.update_self .esp u.drop.drop.drop.top u.drop.drop.drop.reg
    · show Function.update (Function.update u.seg .cs u.drop.top) .ss u.drop.drop.drop.drop.top .cs
        = _
      rw [Function.update_of_ne (by decide), Function.update_self, hcs]
    · show Function.update (Function.update u.seg .cs u.drop.top) .ss u.drop.drop.drop.drop.top .ss
        = _
      rw [Function.update_self, if_neg hzero]
      exact hss

end Cpu

namespace Program

open Cpu

variable {M : Program} {s : Cpu} {K : Word32 → Prop} {P Q : Cpu → Prop} {b e f : Word32}
  {is : List Instr}

/-- **A function of the C convention** lies at `f`: entered with the stack
pointer at `e` in a state that meets `P` it returns, in one that meets `Q`,
and writes nowhere `K` says. -/
structure Function (M : Program) (f e : Word32) (K : Word32 → Prop) (P Q : Cpu → Prop) :
    Prop where
  code : M.code f = none
  returned : ∀ s, s.reg .esp = e → P s → ∃ t, M.ext f s = some t ∧ Returned K s t ∧ Q t

/-- A function may be asked less. -/
theorem Function.weaken {P' Q' : Cpu → Prop} (hf : M.Function f e K P Q)
    (hP : ∀ s, s.reg .esp = e → P' s → P s) (hQ : ∀ t, Q t → Q' t) : M.Function f e K P' Q' where
  code := hf.code
  returned s hesp hs := by
    obtain ⟨t, ht, hret, hq⟩ := hf.returned s hesp (hP s hesp hs)
    exact ⟨t, ht, hret, hQ t hq⟩

/-- **What a caller finds** when a function has returned. -/
theorem Function.enter (hf : M.Function f (s.reg .esp - 4) K P Q)
    (hK : ∀ x, Block (s.reg .esp - 4) 4 x → ¬ K x) (next : Word32) (hP : P (s.enter f next)) :
    ∃ t, M.ext f (s.enter f next) = some t ∧ M.Steps (s.enter f next) t ∧ t.eip = next
      ∧ Kept K s t ∧ (∀ r ∈ calleeSaved, t.reg r = s.reg r) ∧ Q t := by
  obtain ⟨t, hext, hret, hq⟩ := hf.returned _ (s.enter_esp f next) hP
  obtain ⟨heip, hkept, hsaved⟩ := hret.kept hK
  refine ⟨t, hext, Relation.ReflTransGen.single ?_, heip, hkept, hsaved, hq⟩
  rw [step, show (s.enter f next).eip = f from rfl, hf.code]
  exact hext

/-- **The rule of a call.** -/
theorem Placed.call (h : M.Placed s.eip (.call f :: is) b)
    (hf : M.Function f (s.reg .esp - 4) K P Q) (hK : ∀ x, Block (s.reg .esp - 4) 4 x → ¬ K x)
    (hP : ∀ next, P (s.enter f next)) :
    ∃ t, M.Steps s t ∧ M.Placed t.eip is b ∧ Kept K s t
      ∧ (∀ r ∈ calleeSaved, t.reg r = s.reg r) ∧ Q t := by
  obtain ⟨next, hrest, hcall⟩ := h.exec
  obtain ⟨t, -, hrun, heip, hkept, hsaved, hq⟩ := hf.enter hK next (hP next)
  refine ⟨t, hcall.trans hrun, ?_, hkept, hsaved, hq⟩
  rwa [heip]

end Program

end X86
