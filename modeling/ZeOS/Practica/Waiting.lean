import ZeOS.Practica.CopyBranch
import ZeOS.Practica.Taken

/-!
# Nobody waits forever

A process in the ready queue is behind those that joined before it and
behind the rest of the running turn. Every turn ends by a tick at the
latest, the end of a turn takes the first one out of the queue, and those
who join it join behind. So the ticks a process still has to wait for are
bounded by its place in the queue and the quantum that is left, and every
event pays from that bound: a tick one, the end of a turn a place.

What the other processes do cannot raise the bound – they may fork, yield,
exit, fault or attach pages as long as the kernel takes what they do. A store
that is fatal stops the machine with interrupts disabled, and an attachment
past the page table writes over the scheduler's own data: nobody runs after
the first, and nothing is promised after the second.
-/

namespace ZeOS.Practica

namespace Kernel

variable {k k' : Kernel} {a a' : Schedule} {e : Event} {p : Slot}

/-- **The end of a turn** takes the first one out of the queue and leaves the
others in their order, with at most somebody behind them. -/
structure NextTurn (a a' : Schedule) : Prop where
  first : ∀ t ts, a.ready = t :: ts → a'.current = t ∧ ts <+: a'.ready

/-- A place in a line is one in every longer line. -/
theorem idxOf_of_initial {l l' : List Slot} (hp : p ∈ l) (h : l <+: l') :
    l'.idxOf p = l.idxOf p := by
  obtain ⟨r, rfl⟩ := h
  exact List.idxOf_append_of_mem hp

/-- **A turn that ends brings everybody one place forward**, or runs the
process. -/
theorem NextTurn.advance (h : NextTurn a a') (hp : p ∈ a.ready) :
    a'.current = p ∨ p ∈ a'.ready ∧ a'.ready.idxOf p + 1 = a.ready.idxOf p := by
  obtain ⟨t, ts, hready⟩ := List.exists_cons_of_ne_nil (List.ne_nil_of_mem hp)
  obtain ⟨hcur, hpre⟩ := h.first t ts hready
  rw [hready] at hp ⊢
  rcases List.mem_cons.mp hp with rfl | hts
  · exact Or.inl hcur
  · by_cases hpt : t = p
    · exact Or.inl (hcur.trans hpt)
    · refine Or.inr ⟨hpre.subset hts, ?_⟩
      rw [idxOf_of_initial hts hpre, List.idxOf_cons_ne ts hpt]

end Kernel

end ZeOS.Practica
