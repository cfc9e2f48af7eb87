import Mathlib.Data.Fintype.Card
import ZeOS.Zeos.Tree

/-!
# The lists of children

Each live process heads a ring of its children. The idle task heads whatever
was spliced in last: an exit puts the idle task's head before the head of the
dying process and deletes the latter, so the idle task takes over that list
and no longer leads to the orphans it had before. Their nodes still lead
through one another to the idle task's head, which is all that `list_del`
needs when one of them exits.

`KinLists h heads child idle` says this of the pointers `h`, for any heads
and any relation of children: the heads are those whose lists are rings, and
may or may not include the idle task.
-/

namespace ZeOS.Zeos

/-- The nodes of a list of children. -/
abbrev anchors (l : List Slot) : List Kin := l.map Kin.aParentList

/-- The nodes of the children of the idle task. -/
def orphans (child : Slot → Slot → Prop) (idle : Slot) : Set Kin :=
  {y | ∃ s, child idle s ∧ y = .aParentList s}

/-- **The pointers of the families.** -/
structure KinLists (h : Links Kin) (heads : Slot → Prop) (child : Slot → Slot → Prop)
    (idle : Slot) : Prop where
  ring : ∀ q, heads q → ∃ cs, h.IsRing (.childs q) (anchors cs) ∧ ∀ s, s ∈ cs ↔ child q s
  loose : h.Loose (.childs idle) (orphans child idle)
  single : ∀ q q' s, child q s → child q' s → q = q'

namespace KinLists

variable {h h' : Links Kin} {heads heads' : Slot → Prop} {child child' : Slot → Slot → Prop}
  {idle p c g : Slot}

theorem mem_anchors {l : List Slot} {y : Kin} : y ∈ anchors l ↔ ∃ s ∈ l, y = .aParentList s := by
  rw [List.mem_map]
  exact ⟨fun ⟨s, hs, hy⟩ => ⟨s, hs, hy.symm⟩, fun ⟨s, hs, hy⟩ => ⟨s, hs, hy.symm⟩⟩

theorem congr (hk : KinLists h heads child idle) (hheads : ∀ q, heads' q → heads q)
    (hchild : ∀ q s, child' q s ↔ child q s) : KinLists h heads' child' idle where
  ring q hq := by
    obtain ⟨cs, hring, hcs⟩ := hk.ring q (hheads q hq)
    exact ⟨cs, hring, fun s => (hcs s).trans (hchild q s).symm⟩
  loose := by
    have horphans : orphans child' idle = orphans child idle := by
      unfold orphans
      simp only [hchild]
    rw [horphans]
    exact hk.loose
  single q q' s h₁ h₂ := hk.single q q' s ((hchild q s).mp h₁) ((hchild q' s).mp h₂)

/-- A list reads its head and the nodes of the children. -/
theorem ring_congr (hk : KinLists h heads child idle) {q : Slot} (hq : heads q)
    (hhead : h' (.childs q) = h (.childs q))
    (hanchor : ∀ s, child q s → h' (.aParentList s) = h (.aParentList s)) :
    ∃ cs, h'.IsRing (.childs q) (anchors cs) ∧ ∀ s, s ∈ cs ↔ child q s := by
  obtain ⟨cs, hring, hcs⟩ := hk.ring q hq
  refine ⟨cs, hring.congr (fun y hy => ?_), hcs⟩
  rcases List.mem_cons.mp hy with rfl | hm
  · exact hhead
  · obtain ⟨s, hs, rfl⟩ := mem_anchors.mp hm
    exact hanchor s ((hcs s).mp hs)

/-- So do the chains of the orphans. -/
theorem loose_congr (hk : KinLists h heads child idle)
    (hhead : h' (.childs idle) = h (.childs idle))
    (hanchor : ∀ s, child idle s → h' (.aParentList s) = h (.aParentList s)) :
    h'.Loose (.childs idle) (orphans child idle) := by
  refine hk.loose.congr (fun y hy => ?_)
  rcases hy with rfl | ⟨s, hs, rfl⟩
  · exact hhead
  · exact hanchor s hs

/-! ## A process leaves its guardian -/

/-- **`list_del` on the node of a child** takes it out of the list it is in. -/
theorem leave (hk : KinLists h heads child idle) (hp : child g p) (hg : heads g ∨ g = idle) :
    ∃ h', listDel h (.aParentList p) = some h'
      ∧ KinLists h' heads (fun q s => child q s ∧ s ≠ p) idle := by
  -- what is deleted, from a ring or from a chain, is next to nodes of its own list
  have hdel : ∃ h', listDel h (.aParentList p) = some h'
      ∧ (∀ y, y ≠ .childs g → (∀ s, child g s → y ≠ .aParentList s) → h' y = h y)
      ∧ (g = idle → h'.Loose (.childs idle) (orphans child idle \ {.aParentList p})) := by
    by_cases hgi : g = idle
    · subst hgi
      obtain ⟨h', hdel, hl, hframe⟩ := listDel_loose hk.loose ⟨p, hp, rfl⟩ Kin.noConfusion
      exact ⟨h', hdel, fun y hy hs => hframe y hy (fun ⟨s, hc, he⟩ => hs s hc he), fun _ => hl⟩
    · obtain ⟨cs, hring, hcs⟩ := hk.ring g (hg.resolve_right hgi)
      obtain ⟨ys, zs, hsplit⟩ := List.append_of_mem ((hcs p).mpr hp)
      have hnodes : anchors cs = anchors ys ++ .aParentList p :: anchors zs := by
        rw [hsplit, anchors, List.map_append, List.map_cons]
      rw [hnodes] at hring
      obtain ⟨h', hdel, -, -, hframe⟩ := listDel_spec hring
      refine ⟨h', hdel, fun y hy hs => hframe y (fun hm => ?_), fun he => absurd he hgi⟩
      rw [← hnodes] at hm
      rcases List.mem_cons.mp hm with hc | hm
      · exact hy hc
      · obtain ⟨u, hu, he⟩ := mem_anchors.mp hm
        exact hs u ((hcs u).mp hu) he
  obtain ⟨h', hdel, hframe, hloose⟩ := hdel
  have hout : ∀ q, q ≠ g → ∀ s, child q s → h' (.aParentList s) = h (.aParentList s) := by
    intro q hqg s hs
    refine hframe _ Kin.noConfusion (fun u hu hc => hqg ?_)
    have hsu : s = u := Kin.aParentList.inj hc
    exact hk.single q g s hs (hsu ▸ hu)
  refine ⟨h', hdel, ⟨fun q hq => ?_, ?_, fun q q' s h₁ h₂ => hk.single q q' s h₁.1 h₂.1⟩⟩
  · by_cases hqg : q = g
    · subst hqg
      obtain ⟨cs, hring, hcs⟩ := hk.ring q hq
      obtain ⟨ys, zs, hsplit⟩ := List.append_of_mem ((hcs p).mpr hp)
      have hnodes : anchors cs = anchors ys ++ .aParentList p :: anchors zs := by
        rw [hsplit, anchors, List.map_append, List.map_cons]
      rw [hnodes] at hring
      obtain ⟨h'', hdel', hring', -, -⟩ := listDel_spec hring
      obtain rfl : h' = h'' := Option.some_inj.mp (hdel.symm.trans hdel')
      have hnd : (ys ++ p :: zs).Nodup := by
        refine List.Nodup.of_map Kin.aParentList ?_
        rw [List.map_append, List.map_cons]
        exact (List.nodup_cons.mp hring.nodup).2
      have hout := (List.nodup_cons.mp (List.nodup_middle.mp hnd)).1
      refine ⟨ys ++ zs, by rwa [anchors, List.map_append], fun s => ?_⟩
      rw [← hcs, hsplit]
      constructor
      · intro hs
        refine ⟨?_, fun he => hout (he ▸ hs)⟩
        rw [List.mem_append] at hs ⊢
        exact hs.imp id (List.mem_cons_of_mem p)
      · rintro ⟨hs, hne⟩
        rw [List.mem_append] at hs ⊢
        exact hs.imp id (fun hm => (List.mem_cons.mp hm).resolve_left hne)
    · obtain ⟨cs, hring, hcs⟩ := hk.ring_congr hq (hframe _ (fun hc => hqg (Kin.childs.inj hc))
          (fun _ _ => Kin.noConfusion)) (hout q hqg)
      refine ⟨cs, hring, fun s => (hcs s).trans (iff_self_and.mpr fun hs => ?_)⟩
      rintro rfl
      exact hqg (hk.single q g s hs hp)
  · by_cases hgi : g = idle
    · have horphans : orphans (fun q s => child q s ∧ s ≠ p) idle
          = orphans child idle \ {.aParentList p} := by
        ext y
        constructor
        · rintro ⟨s, ⟨hs, hne⟩, rfl⟩
          exact ⟨⟨s, hs, rfl⟩, fun hc => hne (Kin.aParentList.inj hc)⟩
        · rintro ⟨⟨s, hs, rfl⟩, hne⟩
          exact ⟨s, ⟨hs, fun hc => hne (by rw [hc]; rfl)⟩, rfl⟩
      rw [horphans]
      exact hloose hgi
    · have horphans : orphans (fun q s => child q s ∧ s ≠ p) idle = orphans child idle := by
        ext y
        constructor
        · rintro ⟨s, ⟨hs, -⟩, rfl⟩
          exact ⟨s, hs, rfl⟩
        · rintro ⟨s, hs, rfl⟩
          refine ⟨s, ⟨hs, ?_⟩, rfl⟩
          rintro rfl
          exact hgi (hk.single g idle s hp hs)
      rw [horphans]
      exact hk.loose_congr (hframe _ (fun hc => hgi (Kin.childs.inj hc).symm)
        (fun _ _ => Kin.noConfusion)) (hout idle (fun he => hgi he.symm))

/-! ## The idle task adopts -/

/-- The children once the idle task has taken over those of `p`. -/
def Adopted (child : Slot → Slot → Prop) (p idle q s : Slot) : Prop :=
  q = idle ∧ (child idle s ∨ child p s) ∨ q ≠ idle ∧ q ≠ p ∧ child q s

/-- **The splice of `sys_exit`**: the idle task heads the list of the dying
process, and whatever it headed before is left to itself. -/
theorem adopt (hk : KinLists h heads child idle) (hp : heads p) (hpi : p ≠ idle) :
    ∃ h₁ h₂ cs, listAddTail h (.childs idle) (.childs p) = some h₁
      ∧ listDel h₁ (.childs p) = some h₂
      ∧ h₂.IsRing (.childs idle) (anchors cs) ∧ (∀ s, s ∈ cs ↔ child p s)
      ∧ KinLists h₂ (fun q => heads q ∧ q ≠ p ∧ q ≠ idle) (Adopted child p idle) idle := by
  obtain ⟨cs, hring, hcs⟩ := hk.ring p hp
  have hhub : Kin.childs idle ∉ Kin.childs p :: anchors cs := by
    intro hm
    rcases List.mem_cons.mp hm with hc | hm
    · exact hpi (Kin.childs.inj hc).symm
    · obtain ⟨s, -, hc⟩ := mem_anchors.mp hm
      exact Kin.noConfusion hc
  obtain ⟨h₁, h₂, hadd, hdel, hring₂, hframe⟩ := listAddTail_listDel_spec hring hhub
  have hhead : ∀ q, q ≠ p → q ≠ idle → h₂ (.childs q) = h (.childs q) := by
    intro q hqp hqi
    refine hframe _ (fun hc => hqi (Kin.childs.inj hc)) (fun hm => ?_)
    rcases List.mem_cons.mp hm with hc | hm
    · exact hqp (Kin.childs.inj hc)
    · obtain ⟨s, -, hc⟩ := mem_anchors.mp hm
      exact Kin.noConfusion hc
  have hanchor : ∀ q, q ≠ p → ∀ s, child q s → h₂ (.aParentList s) = h (.aParentList s) := by
    intro q hqp s hs
    refine hframe _ Kin.noConfusion (fun hm => ?_)
    rcases List.mem_cons.mp hm with hc | hm
    · exact Kin.noConfusion hc
    · obtain ⟨u, hu, hc⟩ := mem_anchors.mp hm
      have hsu : s = u := Kin.aParentList.inj hc
      exact hqp (hk.single q p s hs ((hcs s).mp (hsu ▸ hu)))
  refine ⟨h₁, h₂, cs, hadd, hdel, hring₂, hcs, ⟨fun q hq => ?_, ?_, fun q q' s hs hs' => ?_⟩⟩
  · obtain ⟨cs', hring', hcs'⟩ := hk.ring_congr hq.1 (hhead q hq.2.1 hq.2.2) (hanchor q hq.2.1)
    refine ⟨cs', hring', fun s => (hcs' s).trans ⟨fun hs => Or.inr ⟨hq.2.2, hq.2.1, hs⟩, ?_⟩⟩
    rintro (⟨hqi, -⟩ | ⟨-, -, hs⟩)
    · exact absurd hqi hq.2.2
    · exact hs
  · have horphans : orphans (Adopted child p idle) idle
        = orphans child idle ∪ {y | y ∈ anchors cs} := by
      ext y
      constructor
      · rintro ⟨s, ⟨-, hs | hs⟩ | ⟨hi, -⟩, rfl⟩
        · exact Or.inl ⟨s, hs, rfl⟩
        · exact Or.inr (mem_anchors.mpr ⟨s, (hcs s).mpr hs, rfl⟩)
        · exact absurd rfl hi
      · rintro (⟨s, hs, rfl⟩ | hy)
        · exact ⟨s, Or.inl ⟨rfl, Or.inl hs⟩, rfl⟩
        · obtain ⟨s, hs, rfl⟩ := mem_anchors.mp hy
          exact ⟨s, Or.inl ⟨rfl, Or.inr ((hcs s).mp hs)⟩, rfl⟩
    rw [horphans]
    refine hring₂.loose.union hk.loose ?_
    rintro y ⟨s, hs, rfl⟩
    exact hanchor idle hpi.symm s hs
  · -- the two lists that are put together had nobody in common with a third
    rcases hs with ⟨hq, hs⟩ | ⟨hq, hqp, hs⟩
    · rcases hs' with ⟨hq', -⟩ | ⟨hq', hqp', hs'⟩
      · exact hq.trans hq'.symm
      · rcases hs with hs | hs
        · exact absurd (hk.single q' idle s hs' hs) hq'
        · exact absurd (hk.single q' p s hs' hs) hqp'
    · rcases hs' with ⟨hq', hs' | hs'⟩ | ⟨-, -, hs'⟩
      · exact absurd (hk.single q idle s hs hs') hq
      · exact absurd (hk.single q p s hs hs') hqp
      · exact hk.single q q' s hs hs'

/-! ## A process is born -/

/-- The nodes of a slot that is in no family do not matter. -/
theorem relink {h₁ : Links Kin} (hk : KinLists h heads child idle) (hc : ¬ heads c)
    (hci : c ≠ idle) (hcp : ∀ q, ¬ child q c)
    (hcopy : ∀ y, y ≠ .childs c → y ≠ .aParentList c → h₁ y = h y) :
    KinLists h₁ heads child idle where
  ring q hq := by
    have hqc : q ≠ c := fun he => hc (he ▸ hq)
    exact hk.ring_congr hq (hcopy _ (fun he => hqc (Kin.childs.inj he)) Kin.noConfusion)
      (fun s hs => hcopy _ Kin.noConfusion (fun he => hcp q (Kin.aParentList.inj he ▸ hs)))
  loose := hk.loose_congr (hcopy _ (fun he => hci (Kin.childs.inj he).symm) Kin.noConfusion)
    (fun s hs => hcopy _ Kin.noConfusion (fun he => hcp idle (Kin.aParentList.inj he ▸ hs)))
  single := hk.single

/-- **The lists of a child** of `p`: its own is empty, and it is the last one
in that of `p`. -/
theorem spawn {h₁ : Links Kin} (hk : KinLists h heads child idle) (hp : heads p) (hpi : p ≠ idle)
    (hc : ¬ heads c) (hci : c ≠ idle) (hcp : ∀ q, ¬ child q c) (hcc : ∀ s, ¬ child c s)
    (hcopy : ∀ y, y ≠ .childs c → y ≠ .aParentList c → h₁ y = h y) :
    ∃ h', listAddTail (initListHead h₁ (.childs c)) (.aParentList c) (.childs p) = some h'
      ∧ KinLists h' (fun q => heads q ∨ q = c) (fun q s => child q s ∨ q = p ∧ s = c) idle := by
  have hpc : p ≠ c := fun he => hc (he ▸ hp)
  set h₂ := initListHead h₁ (.childs c) with hh₂
  have hhead₂ : ∀ q, q ≠ c → h₂ (.childs q) = h (.childs q) := by
    intro q hq
    have hne : Kin.childs q ≠ Kin.childs c := fun he => hq (Kin.childs.inj he)
    rw [hh₂, initListHead_of_ne _ hne, hcopy _ hne Kin.noConfusion]
  have hanchor₂ : ∀ s, s ≠ c → h₂ (.aParentList s) = h (.aParentList s) := by
    intro s hs
    rw [hh₂, initListHead_of_ne _ Kin.noConfusion,
      hcopy _ Kin.noConfusion (fun he => hs (Kin.aParentList.inj he))]
  have hne : ∀ {q s}, child q s → s ≠ c := fun hs he => hcp _ (he ▸ hs)
  obtain ⟨cs, hring, hcs⟩ := hk.ring_congr hp (hhead₂ p hpc) (fun s hs => hanchor₂ s (hne hs))
  have hmem : Kin.aParentList c ∉ Kin.childs p :: anchors cs := by
    intro hm
    rcases List.mem_cons.mp hm with he | hm
    · exact Kin.noConfusion he
    · obtain ⟨s, hs, he⟩ := mem_anchors.mp hm
      exact hne ((hcs s).mp hs) (Kin.aParentList.inj he).symm
  obtain ⟨h', hadd, hring', hframe⟩ := listAddTail_spec hring hmem
  have hhead : ∀ q, q ≠ p → h' (.childs q) = h₂ (.childs q) := by
    intro q hq
    refine hframe _ Kin.noConfusion (fun hm => ?_)
    rcases List.mem_cons.mp hm with he | hm
    · exact hq (Kin.childs.inj he)
    · obtain ⟨s, -, he⟩ := mem_anchors.mp hm
      exact Kin.noConfusion he
  have hanchor : ∀ q, q ≠ p → ∀ s, child q s → h' (.aParentList s) = h (.aParentList s) := by
    intro q hq s hs
    refine (hframe _ (fun he => hne hs (Kin.aParentList.inj he)) (fun hm => ?_)).trans
      (hanchor₂ s (hne hs))
    rcases List.mem_cons.mp hm with he | hm
    · exact Kin.noConfusion he
    · obtain ⟨u, hu, he⟩ := mem_anchors.mp hm
      have hsu : s = u := Kin.aParentList.inj he
      exact hq (hk.single q p s hs ((hcs s).mp (hsu ▸ hu)))
  refine ⟨h', hadd, ⟨fun q hq => ?_, ?_, fun q q' s hs hs' => ?_⟩⟩
  · by_cases hqp : q = p
    · subst hqp
      refine ⟨cs ++ [c], by rwa [anchors, List.map_append], fun s => ?_⟩
      rw [List.mem_append, List.mem_singleton, hcs]
      simp
    · rcases hq with hq | rfl
      · have hqc : q ≠ c := fun he => hc (he ▸ hq)
        obtain ⟨cs', hring'', hcs'⟩ :=
          hk.ring_congr hq ((hhead q hqp).trans (hhead₂ q hqc)) (hanchor q hqp)
        exact ⟨cs', hring'', fun s => (hcs' s).trans (or_iff_left fun he => hqp he.1).symm⟩
      · refine ⟨[], (isRing_initListHead h₁ (.childs q)).congr (fun y hy => ?_), fun s => ?_⟩
        · rw [List.mem_singleton.mp hy]
          exact hhead q hqp
        · exact iff_of_false List.not_mem_nil (fun hs => hs.elim (hcc s) (fun he => hqp he.1))
  · have horphans : orphans (fun q s => child q s ∨ q = p ∧ s = c) idle = orphans child idle := by
      ext y
      constructor
      · rintro ⟨s, hs | hs, rfl⟩
        · exact ⟨s, hs, rfl⟩
        · exact absurd hs.1.symm hpi
      · rintro ⟨s, hs, rfl⟩
        exact ⟨s, Or.inl hs, rfl⟩
    rw [horphans]
    exact hk.loose_congr ((hhead idle hpi.symm).trans (hhead₂ idle hci.symm))
      (hanchor idle hpi.symm)
  · rcases hs with hs | ⟨hq, hs⟩
    · rcases hs' with hs' | ⟨-, rfl⟩
      · exact hk.single q q' s hs hs'
      · exact absurd hs (hcp q)
    · rcases hs' with hs' | ⟨hq', -⟩
      · exact absurd (hs ▸ hs') (hcp q')
      · exact hq.trans hq'.symm

end KinLists

/-- Following the pointers of a list of children finds all its nodes: there
are no more than slots. -/
theorem walk_childs {h : Links Kin} {q : Slot} {cs : List Slot}
    (hring : h.IsRing (.childs q) (anchors cs)) :
    h.walk (.childs q) (2 * nrTasks + 1) (.childs q) = anchors cs := by
  have hnd : cs.Nodup := List.Nodup.of_map _ (List.nodup_cons.mp hring.nodup).2
  have hlen : cs.length ≤ nrTasks := by
    have hcard := List.Nodup.length_le_card hnd
    rwa [Fintype.card_fin] at hcard
  refine hring.walk_eq ?_
  rw [List.length_map]
  exact lt_of_le_of_lt hlen (by decide)

end ZeOS.Zeos
