import Mathlib.Data.Finset.Insert
import Mathlib.Data.Finset.Basic
import Mathlib.Order.Bounds.Defs
import ZeOS.Run
import ZeOS.Practica.FrameAlloc

/-!
# The law of the frame allocator

`alloc_frame` should return the smallest of the frames it offers that is not
in someone's hands, and `free_frame` should put a frame back. The set of
frames in someone's hands is kept beside the byte map, from what is returned
and what is freed.

The two functions disagree on the first frame. The scan of `alloc_frame`
starts at `NUM_PAG_KERNEL`, and `free_frame` acts on the frames after it
only, so that this frame is handed out once and never comes back.
-/

namespace ZeOS.Practica

/-- The frames `alloc_frame` may hand out. -/
def Offered (f : ℕ) : Prop := numPagKernel ≤ f ∧ f < totalPages ∧ f % 2 = 0

/-- **The smallest free frame** is the one returned. -/
theorem isLeast_of_freeFrames {phys : PhysMem} {f : ℕ} {fs : List ℕ}
    (h : freeFrames phys = f :: fs) : IsLeast {g | Offered g ∧ phys g = freeFrameMark} f := by
  have hmem : ∀ g, g ∈ f :: fs ↔ Offered g ∧ phys g = freeFrameMark := by
    intro g
    rw [← h, mem_freeFrames, mem_frameScan]
    rfl
  have hsorted : (f :: fs).Pairwise (· < ·) := by
    rw [← h]
    exact (List.pairwise_lt_range' 2).filter _
  refine ⟨(hmem f).mp List.mem_cons_self, fun g hg => ?_⟩
  rcases List.mem_cons.mp ((hmem g).mpr hg) with rfl | hrest
  · exact le_rfl
  · exact (List.rel_of_pairwise_cons hsorted hrest).le

theorem allocated_of_freeFrames_nil {phys : PhysMem} (h : freeFrames phys = []) {g : ℕ}
    (hg : Offered g) : phys g ≠ freeFrameMark := by
  intro hfree
  have hmem : g ∈ freeFrames phys := mem_freeFrames.mpr ⟨mem_frameScan.mpr hg, hfree⟩
  rw [h] at hmem
  exact absurd hmem List.not_mem_nil

/-- The byte map, and the frames returned and not freed since. -/
structure Allocation where
  physMem : PhysMem
  allocated : Finset ℕ

/-- The calls. -/
inductive Request where
  | alloc
  | free (f : ℕ)
deriving DecidableEq

namespace Allocation

variable {s s' : Allocation}

/-- After `init_frames`. -/
def start : Allocation := ⟨initFrames, ∅⟩

/-- A call. Only a frame in someone's hands is freed. -/
def step (s : Allocation) : Request → Option Allocation
  | .alloc =>
    let (frame, phys) := allocFrame s.physMem
    some ⟨phys, if frame = -1 then s.allocated else insert frame.toNat s.allocated⟩
  | .free f =>
    if f ∈ s.allocated then some ⟨freeFrame s.physMem f, s.allocated.erase f⟩ else none

/-- **What the allocator promises**: the next frame it returns is the
smallest one offered that is not in someone's hands, it fails only if there
is none, and what is in nobody's hands is available. -/
structure Lawful (s : Allocation) : Prop where
  alloc : (∃ f : ℕ, (allocFrame s.physMem).1 = f ∧ IsLeast {g | Offered g ∧ g ∉ s.allocated} f)
    ∨ (allocFrame s.physMem).1 = -1 ∧ ∀ g, Offered g → g ∈ s.allocated
  available : ∀ g, Offered g → g ∉ s.allocated → s.physMem g = freeFrameMark

/-- What holds in any case: a frame in someone's hands is one offered, and it
is not free. -/
def Held (s : Allocation) : Prop :=
  ∀ g ∈ s.allocated, Offered g ∧ s.physMem g ≠ freeFrameMark

/-- **The byte map decides.** -/
theorem Held.lawful (h : s.Held)
    (havail : ∀ g, Offered g → g ∉ s.allocated → s.physMem g = freeFrameMark) : s.Lawful where
  alloc := by
    rw [allocFrame_eq]
    cases hfree : freeFrames s.physMem with
    | nil =>
      refine Or.inr ⟨rfl, fun g hg => ?_⟩
      by_contra hnot
      exact allocated_of_freeFrames_nil hfree hg (havail g hg hnot)
    | cons f fs =>
      have hset : {g | Offered g ∧ g ∉ s.allocated}
          = {g | Offered g ∧ s.physMem g = freeFrameMark} := by
        refine Set.ext fun g => and_congr_right fun hg => ⟨havail g hg, fun hz hmem => ?_⟩
        exact (h g hmem).2 hz
      refine Or.inl ⟨f, rfl, ?_⟩
      rw [hset]
      exact isLeast_of_freeFrames hfree
  available := havail

/-- **An allocation** takes a frame out of the free ones. -/
theorem step_alloc (s : Allocation) :
    (freeFrames s.physMem = [] ∧ s.step .alloc = some s)
      ∨ ∃ f, Offered f ∧ s.physMem f = freeFrameMark
        ∧ s.step .alloc = some ⟨Function.update s.physMem f 1, insert f s.allocated⟩ := by
  unfold step
  cases hfree : freeFrames s.physMem with
  | nil =>
    rw [allocFrame_of_nil hfree]
    exact Or.inl ⟨rfl, rfl⟩
  | cons f fs =>
    obtain ⟨⟨hoff, hz⟩, -⟩ := isLeast_of_freeFrames hfree
    have hne : ((f : ℕ) : ℤ) ≠ -1 := by omega
    rw [allocFrame_of_cons hfree]
    refine Or.inr ⟨f, hoff, hz, ?_⟩
    dsimp only
    rw [if_neg hne, Int.toNat_natCast]

theorem step_free {f : ℕ} (h : s.step (.free f) = some s') :
    f ∈ s.allocated ∧ s' = ⟨freeFrame s.physMem f, s.allocated.erase f⟩ := by
  unfold step at h
  dsimp only at h
  split_ifs at h with hmem
  exact ⟨hmem, (Option.some_inj.mp h).symm⟩

/-- A frame offered is put back, unless it is the first one. -/
theorem freeFrame_of_offered {phys : PhysMem} {f : ℕ} (hf : Offered f) :
    freeFrame phys f
      = if f = numPagKernel then phys else Function.update phys f freeFrameMark := by
  unfold freeFrame
  by_cases hfirst : f = numPagKernel
  · rw [if_pos hfirst, if_neg (fun hc => absurd hc.1 (by rw [hfirst]; exact lt_irrefl _))]
  · rw [if_neg hfirst, if_pos ⟨lt_of_le_of_ne hf.1 (Ne.symm hfirst), hf.2.1⟩]

theorem Held.step {e : Request} (h : s.Held) (hst : s.step e = some s') : s'.Held := by
  cases e with
  | alloc =>
    rcases s.step_alloc with ⟨-, heq⟩ | ⟨f, hoff, -, heq⟩
    · exact Option.some_inj.mp (heq.symm.trans hst) ▸ h
    · obtain rfl := Option.some_inj.mp (heq.symm.trans hst)
      intro g hg
      dsimp only at hg ⊢
      rw [Function.update_apply]
      by_cases hgf : g = f
      · rw [if_pos hgf, hgf]
        exact ⟨hoff, by decide⟩
      · rw [if_neg hgf]
        exact h g (Finset.mem_of_mem_insert_of_ne hg hgf)
  | free f =>
    obtain ⟨hmem, rfl⟩ := step_free hst
    intro g hg
    obtain ⟨hgf, hg⟩ := Finset.mem_erase.mp hg
    refine ⟨(h g hg).1, ?_⟩
    dsimp only
    rw [freeFrame_of_offered (h f hmem).1]
    split_ifs
    · exact (h g hg).2
    · rw [Function.update_of_ne hgf]
      exact (h g hg).2

/-- **One call** keeps the promise exactly if it does not free the first
frame. -/
theorem Lawful.step {e : Request} (hl : s.Lawful) (h : s.Held) (hst : s.step e = some s') :
    s'.Lawful ↔ e ≠ .free numPagKernel := by
  have h' := h.step hst
  cases e with
  | alloc =>
    refine iff_of_true (h'.lawful fun g hg hnot => ?_) (by simp)
    rcases s.step_alloc with ⟨-, heq⟩ | ⟨f, -, -, heq⟩
    · obtain rfl := Option.some_inj.mp (heq.symm.trans hst)
      exact hl.available g hg hnot
    · obtain rfl := Option.some_inj.mp (heq.symm.trans hst)
      obtain ⟨hgf, hnot⟩ := not_or.mp (fun hc => hnot (Finset.mem_insert.mpr hc))
      dsimp only
      rw [Function.update_of_ne hgf]
      exact hl.available g hg hnot
  | free f =>
    obtain ⟨hmem, rfl⟩ := step_free hst
    constructor
    · rintro hgood he
      obtain rfl : f = numPagKernel := Request.free.inj he
      have hzero := hgood.available _ (h _ hmem).1 (Finset.notMem_erase _ _)
      dsimp only at hzero
      rw [freeFrame_of_offered (h _ hmem).1, if_pos rfl] at hzero
      exact (h _ hmem).2 hzero
    · intro hne
      have hfirst : f ≠ numPagKernel := fun he => hne (congrArg Request.free he)
      refine h'.lawful fun g hg hnot => ?_
      dsimp only at hnot ⊢
      rw [freeFrame_of_offered (h f hmem).1, if_neg hfirst, Function.update_apply]
      split_ifs with hgf
      · rfl
      · exact hl.available g hg fun hin => hnot (Finset.mem_erase.mpr ⟨hgf, hin⟩)

theorem held_start : start.Held := fun g hg => absurd hg (Finset.notMem_empty g)

theorem lawful_start : start.Lawful :=
  held_start.lawful fun _ hg _ => if_neg (Nat.not_lt.mpr hg.1)

/-- **The allocator keeps its promise in a run exactly if the first frame is
never freed.** -/
theorem lawful_iff {es : List Request} {s : Allocation}
    (hrun : Run step (fun _ _ => True) start es s) :
    (∀ bs cs u, es = bs ++ cs → Run step (fun _ _ => True) start bs u → u.Lawful)
      ↔ .free numPagKernel ∉ es := by
  rw [hrun.always_iff (I := Held) (J := Lawful) (Q := fun _ e => e ≠ .free numPagKernel)
    (fun _ _ _ h _ hst => h.step hst) (fun _ _ _ h hl _ hst => hl.step h hst) held_start
    lawful_start, Run.and_iff, and_iff_right hrun]
  exact ⟨fun h hm => h _ hm rfl, fun h e he hx => h (hx ▸ he)⟩

/-- Two allocations return frames 256 and 258; the second one comes back. -/
theorem lawful_second_freed :
    ∃ s, Run step (fun _ _ => True) start ([] ++ [.alloc] ++ [.alloc] ++ [.free 258]) s
      ∧ s.physMem 258 = freeFrameMark ∧ s.Lawful :=
  have hrun := (((Run.nil start).snoc trivial rfl).snoc trivial rfl).snoc trivial rfl
  ⟨_, hrun, rfl, (lawful_iff hrun).mpr (by decide) _ [] _ (List.append_nil _).symm hrun⟩

/-- Frame 256 is returned first, and after `free_frame(256)` the next frame
returned is 258. -/
theorem not_lawful_first_freed :
    ∃ s, Run step (fun _ _ => True) start ([] ++ [.alloc] ++ [.free 256]) s
      ∧ (allocFrame start.physMem).1 = 256 ∧ s.allocated = ∅
      ∧ (allocFrame s.physMem).1 = 258 ∧ ¬ s.Lawful := by
  refine ⟨_, ((Run.nil start).snoc trivial rfl).snoc trivial rfl, rfl, rfl, rfl, fun hl => ?_⟩
  have hzero := hl.available 256 ⟨by decide, by decide, by decide⟩ (by decide)
  exact absurd hzero (by decide)

end Allocation

end ZeOS.Practica
