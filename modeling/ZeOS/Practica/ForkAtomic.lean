import ZeOS.Practica.Tables

/-!
# A fork that fails

`sys_fork` can fail before it has done anything, or at any round of its
allocation loop. In the second case the slot it took has been overwritten by
a copy of the parent's struct, list node included, and some of its data
pages are mapped; the rollback gives the frames back, clears the entries and
links the node again. What is left of the attempt is the order of the free
queue.
-/

namespace ZeOS.Practica

namespace Kernel

variable {k : Kernel} {a : Schedule}

/-- **A state `sys_fork` can be called in**: the scheduler is in order, no
slot that is free has data pages, and no identifier is negative that is
still to be given out. -/
def Consistent (k : Kernel) : Prop :=
  ∃ a, k.sched.Threads a ∧ 0 ≤ a.lastPid
    ∧ ∀ s ∈ a.free, ∀ p, pagLogInitData ≤ p → p < pagLogInitShared →
      k.mm.pagusrTable s p = PageTableEntry.zero

/-- Every reachable state is one. -/
theorem consistent_of_reachable {M : Machine} (h : Reachable M k) : k.Consistent := by
  obtain ⟨a, hf, hm⟩ := h.mapped
  exact ⟨a, hf.threads, le_trans (by decide) hm.pid_base, hm.free_data⟩

/-- The child of a successful fork gets the next identifier. -/
theorem startChild_pid (s : Sched) (ebp : DWord) (c : Slot) :
    ((s.startChild ebp c).task c).pid = s.globalPid + 1 := by
  have hlink : ∀ (s : Sched) (x y : Node), (s.linkTail x y).task = s.task := by
    intro s x y
    unfold Sched.linkTail
    split <;> rfl
  rw [Sched.startChild, hlink]
  simp [Sched.modifyTask, Sched.initStats, Sched.getTicks, Sched.setCr3]

/-- A fork returns an identifier or one of its two errors, and the error
tells which of its outcomes it was. -/
theorem sysFork_error (h : k.sched.Threads a) (hpid : 0 ≤ a.lastPid) {ebp : DWord} {r : ℤ}
    {k' : Kernel} (hcall : k.sysFork ebp = (r, k')) (hr : r = -eNOMEM ∨ r = -eAGAIN) :
    (a.free = [] ∧ r = -eNOMEM ∧ k' = k)
      ∨ ∃ c cs, ∃ hfree : a.free = c :: cs, r = -eAGAIN
          ∧ (freeFrames k.mm.physMem).length < numPagData
          ∧ k'.mm = (k.mm.allocDataPages c 0 numPagData).2
          ∧ k'.sched.Threads (a.giveUp c cs hfree) := by
  by_cases hnil : a.free = []
  · rw [sysFork_none h hnil, Prod.mk.injEq] at hcall
    exact Or.inl ⟨hnil, hcall.1.symm, hcall.2.symm⟩
  obtain ⟨c, cs, hfree⟩ := List.exists_cons_of_ne_nil hnil
  rcases Nat.lt_or_ge (freeFrames k.mm.physMem).length numPagData with hlen | hlen
  · obtain ⟨s', hres, hth, -⟩ := sysFork_fail h hfree hlen ebp
    rw [hres, Prod.mk.injEq] at hcall
    obtain ⟨hr', rfl⟩ := hcall
    exact Or.inr ⟨c, cs, hfree, hr'.symm, hlen, rfl, hth⟩
  · -- a call that succeeds returns a positive number
    exfalso
    obtain ⟨h', hres, -⟩ := Sched.reserve_spec h hfree
    have hlast : (k.sched.reserve c).globalPid = a.lastPid := by
      rw [hres]
      exact h.lastPid_eq
    rw [sysFork_cons h hfree, Mm.allocDataPages_of_le k.mm c hlen, Prod.mk.injEq,
      startChild_pid, hlast] at hcall
    simp only [eNOMEM, eAGAIN] at hr
    omega

end Kernel

/-- **`sys_fork` is atomic on failure.** -/
theorem fork_atomic (k : Kernel) (hk : k.Consistent)
    (hfirst : k.mm.physMem numPagKernel ≠ freeFrameMark) (ebp : DWord) (r : ℤ) (k' : Kernel)
    (hcall : k.sysFork ebp = (r, k')) (hr : r = -eNOMEM ∨ r = -eAGAIN) :
    k'.mm.physMem = k.mm.physMem
      ∧ k'.freeSlots.Perm k.freeSlots
      ∧ k'.readySlots = k.readySlots
      ∧ k'.sched.globalPid = k.sched.globalPid
      ∧ (∀ s, k.Live s → k'.ptOf s = k.ptOf s)
      ∧ k'.mm.shmMem = k.mm.shmMem
      ∧ (r = -eAGAIN → ∃ c cs, k.freeSlots = c :: cs ∧ k'.freeSlots = cs ++ [c]
          ∧ ∀ p, pagLogInitData ≤ p → p < pagLogInitShared →
              k'.mm.pagusrTable c p = PageTableEntry.zero) := by
  obtain ⟨a, hth, hpid, hclear⟩ := hk
  rcases Kernel.sysFork_error hth hpid hcall hr with
    ⟨-, rfl, rfl⟩ | ⟨c, cs, hfree, rfl, hlen, hmm, hth'⟩
  · exact ⟨rfl, List.Perm.refl _, rfl, rfl, fun _ _ => rfl, rfl, fun h => absurd h (by decide)⟩
  · have hcfree : c ∈ a.free := hfree ▸ List.mem_cons_self
    rw [Mm.allocDataPages_fail k.mm c hfirst (hclear c hcfree) hlen] at hmm
    have hfree' : k'.freeSlots = cs ++ [c] := Kernel.freeSlots_eq hth'
    have hfree₀ : k.freeSlots = c :: cs := (Kernel.freeSlots_eq hth).trans hfree
    refine ⟨by rw [hmm], ?_, ?_, ?_, fun s hs => ?_, by rw [hmm], fun _ =>
      ⟨c, cs, hfree₀, hfree', fun p h₁ h₂ => ?_⟩⟩
    · rw [hfree', hfree₀]
      exact List.perm_append_singleton c cs
    · rw [Kernel.readySlots_eq hth', Kernel.readySlots_eq hth]
      rfl
    · rw [hth'.lastPid_eq, hth.lastPid_eq]
      rfl
    · have hs₀ : a.Live s := (Kernel.live_iff hth s).mp hs
      have hs' : (a.giveUp c cs hfree).Live s := hs₀
      rw [Kernel.ptOf_eq hth' hs', Kernel.ptOf_eq hth hs₀, hmm]
    · rw [hmm]
      exact hclear c hcfree p h₁ h₂

/-- A state with another byte map. -/
def Kernel.withPhys (k : Kernel) (phys : PhysMem) : Kernel :=
  { k with mm := { k.mm with physMem := phys } }

theorem Kernel.withPhys_mm (k : Kernel) (phys : PhysMem) :
    (k.withPhys phys).mm.physMem = phys
      ∧ (k.withPhys phys).mm.pagusrTable = k.mm.pagusrTable
      ∧ (k.withPhys phys).sched = k.sched := ⟨rfl, rfl, rfl⟩

/-- The booted machine with all but the last five frames of the sequence
taken, where the allocation loop fails at its sixth round. -/
def nearlyFull : Kernel := Machine.sample.boot.withPhys (fun f => if f < 1014 then 1 else 0)

/-- A fork on it fails, and is undone. -/
theorem fork_atomic_nearlyFull :
    ∃ k', nearlyFull.sysFork 0 = (-eAGAIN, k')
      ∧ k'.mm.physMem = nearlyFull.mm.physMem
      ∧ k'.freeSlots.Perm nearlyFull.freeSlots
      ∧ k'.readySlots = nearlyFull.readySlots
      ∧ k'.sched.globalPid = nearlyFull.sched.globalPid
      ∧ (∀ s, nearlyFull.Live s → k'.ptOf s = nearlyFull.ptOf s)
      ∧ k'.mm.shmMem = nearlyFull.mm.shmMem
      ∧ ∃ c cs, nearlyFull.freeSlots = c :: cs ∧ k'.freeSlots = cs ++ [c]
          ∧ ∀ p, pagLogInitData ≤ p → p < pagLogInitShared →
              k'.mm.pagusrTable c p = PageTableEntry.zero := by
  obtain ⟨hphys, htab, hsched⟩ :=
    Machine.sample.boot.withPhys_mm (fun f => if f < 1014 then 1 else 0)
  rw [← nearlyFull] at hphys htab hsched
  have hth : nearlyFull.sched.Threads bootSchedule := by
    rw [hsched]
    exact (Sched.threads_boot Machine.sample).1
  have hk : nearlyFull.Consistent := by
    refine ⟨bootSchedule, hth, by decide, ?_⟩
    rw [htab]
    exact (Mapped.boot Machine.sample).free_data
  have hlen : (freeFrames nearlyFull.mm.physMem).length < numPagData := by
    rw [hphys]
    decide +kernel
  have hfirst : nearlyFull.mm.physMem numPagKernel ≠ freeFrameMark := by
    rw [hphys]
    decide
  obtain ⟨s', hcall, -, -⟩ :=
    Kernel.sysFork_fail hth (show bootSchedule.free = 2 :: [3, 4, 5, 6, 7, 8, 9] from rfl) hlen 0
  obtain ⟨h₁, h₂, h₃, h₄, h₅, h₆, h₇⟩ :=
    fork_atomic nearlyFull hk hfirst 0 (-eAGAIN) _ hcall (Or.inr rfl)
  exact ⟨_, hcall, h₁, h₂, h₃, h₄, h₅, h₆, h₇ rfl⟩

end ZeOS.Practica
