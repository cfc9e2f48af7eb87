import ZeOS.Zeos.Tree

/-!
# The three queues

The queues are rings over different slots. A slot in none of them is that of
the task that runs, of the idle task, or none of the kernel's business any
more: a process that exits while it is marked as blocked is left behind in
`blocked`, dead.

A process that blocks goes on running until the clock takes the CPU from it,
so the current task can be in `blocked`; it is never in the two others. The
functions of the scheduler are followed through the moves they make between
the queues; of the tables and of the families they change nothing.
-/

namespace ZeOS.Zeos

/-- The queues of the kernel. -/
inductive Queue where
  | free
  | ready
  | blocked
deriving DecidableEq

/-- The head of a queue. -/
def Queue.head : Queue → Node
  | .free => .freequeue
  | .ready => .readyqueue
  | .blocked => .blocked

theorem Queue.head_injective {q q' : Queue} (h : q.head = q'.head) : q = q' := by
  cases q <;> cases q' <;> first | rfl | exact Node.noConfusion h

theorem Queue.head_ne_task (q : Queue) (s : Slot) : q.head ≠ .task s := by
  cases q <;> exact Node.noConfusion

/-- The nodes of a list of slots. -/
abbrev nodes (l : List Slot) : List Node := l.map Node.task

/-- **The pointers of the queues**: rings over different slots. -/
structure Rings (h : Links Node) (l : Queue → List Slot) : Prop where
  ring : ∀ q, h.IsRing q.head (nodes (l q))
  disjoint : ∀ q q' s, s ∈ l q → s ∈ l q' → q = q'

namespace Rings

variable {h h' : Links Node} {l : Queue → List Slot} {s : Slot}

theorem nodup (hr : Rings h l) (q : Queue) : (l q).Nodup :=
  List.Nodup.of_map _ (List.nodup_cons.mp (hr.ring q).nodup).2

/-- The queues are what the pointers say. -/
theorem unique {l' : Queue → List Slot} (hr : Rings h l) (hr' : Rings h l') : l = l' := by
  funext q
  have hnodes := (hr.ring q).unique (hr'.ring q)
  exact List.map_injective_iff.mpr (fun _ _ => Node.task.inj) hnodes

/-- The queues read the heads and the nodes of their slots. -/
theorem congr (hr : Rings h l) (hhead : ∀ q : Queue, h' q.head = h q.head)
    (htask : ∀ q, ∀ t ∈ l q, h' (.task t) = h (.task t)) : Rings h' l where
  ring q := by
    refine (hr.ring q).congr (fun y hy => ?_)
    rcases List.mem_cons.mp hy with rfl | hm
    · exact hhead q
    · obtain ⟨t, ht, rfl⟩ := List.mem_map.mp hm
      exact htask q t ht
  disjoint := hr.disjoint

/-- A slot in one queue is in no other. -/
theorem notMem (hr : Rings h l) {q q' : Queue} (hs : s ∈ l q) (hq : q' ≠ q) : s ∉ l q' :=
  fun hs' => hq (hr.disjoint q' q s hs' hs)

/-- The nodes of one queue are not touched where only those of another one
change. -/
theorem frame (hr : Rings h l) {q q' : Queue} (hq : q ≠ q') (hs : s ∉ l q)
    (hframe : ∀ y, y ≠ .task s → y ∉ q'.head :: nodes (l q') → h' y = h y) :
    h'.IsRing q.head (nodes (l q)) := by
  refine (hr.ring q).congr (fun y hy => hframe y ?_ ?_)
  · rintro rfl
    rcases List.mem_cons.mp hy with hc | hm
    · exact q.head_ne_task s hc.symm
    · exact hs (by simpa using hm)
  · intro hy'
    rcases List.mem_cons.mp hy with rfl | hm
    · rcases List.mem_cons.mp hy' with hc | hm'
      · exact hq (Queue.head_injective hc)
      · obtain ⟨t, -, ht⟩ := List.mem_map.mp hm'
        exact q.head_ne_task t ht.symm
    · obtain ⟨t, ht, rfl⟩ := List.mem_map.mp hm
      rcases List.mem_cons.mp hy' with hc | hm'
      · exact q'.head_ne_task t hc.symm
      · exact hq (hr.disjoint q q' t ht (by simpa using hm'))

/-- A slot that was in no queue has been put into one. -/
theorem insert (hr : Rings h l) {q : Queue} (hs : ∀ q, s ∉ l q) {xs : List Slot}
    (hring : h'.IsRing q.head (nodes xs)) (hxs : ∀ t, t ∈ xs ↔ t ∈ l q ∨ t = s)
    (hframe : ∀ y, y ≠ .task s → y ∉ q.head :: nodes (l q) → h' y = h y) :
    Rings h' (Function.update l q xs)
      ∧ ∀ t, t ≠ s → (∀ q, t ∉ l q) → h' (.task t) = h (.task t) := by
  refine ⟨⟨fun q' => ?_, fun q₁ q₂ t h₁ h₂ => ?_⟩, fun t hts ht => ?_⟩
  · by_cases hq : q' = q
    · rw [hq, Function.update_self]
      exact hring
    · rw [Function.update_of_ne hq]
      exact hr.frame hq (hs q') hframe
  · have hpick : ∀ q', t ∈ Function.update l q xs q' → t ∈ l q' ∨ t = s ∧ q' = q := by
      intro q' ht
      rw [Function.update_apply] at ht
      split_ifs at ht with hq
      · exact ((hxs t).mp ht).imp (fun hm => hq ▸ hm) (fun he => ⟨he, hq⟩)
      · exact Or.inl ht
    rcases hpick q₁ h₁ with h₁ | ⟨ht₁, hq₁⟩
    · rcases hpick q₂ h₂ with h₂ | ⟨ht₂, -⟩
      · exact hr.disjoint q₁ q₂ t h₁ h₂
      · exact absurd (ht₂ ▸ h₁) (hs q₁)
    · rcases hpick q₂ h₂ with h₂ | ⟨-, hq₂⟩
      · exact absurd (ht₁ ▸ h₂) (hs q₂)
      · rw [hq₁, hq₂]
  · refine hframe _ (fun hc => hts (Node.task.inj hc)) (fun hm => ?_)
    rcases List.mem_cons.mp hm with hc | hm
    · exact q.head_ne_task t hc.symm
    · exact ht q (by simpa using hm)

theorem notMem_ring {q : Queue} (hs : ∀ q, s ∉ l q) : Node.task s ∉ q.head :: nodes (l q) := by
  rw [List.mem_cons, not_or]
  exact ⟨(q.head_ne_task s).symm, by simpa using hs q⟩

/-- **Adding at the tail of a queue** a slot that is in none. -/
theorem push (hr : Rings h l) (q : Queue) (hs : ∀ q, s ∉ l q) :
    ∃ h', listAddTail h (.task s) q.head = some h'
      ∧ Rings h' (Function.update l q (l q ++ [s]))
      ∧ ∀ t, t ≠ s → (∀ q, t ∉ l q) → h' (.task t) = h (.task t) := by
  obtain ⟨h', hadd, hring, hframe⟩ := listAddTail_spec (hr.ring q) (notMem_ring hs)
  have hnodes : nodes (l q) ++ [.task s] = nodes (l q ++ [s]) := by
    rw [nodes, nodes, List.map_append]
    rfl
  rw [hnodes] at hring
  exact ⟨h', hadd, hr.insert hs hring (fun t => by simp) hframe⟩

/-- **Adding after the head of a queue** a slot that is in none. -/
theorem pushFront (hr : Rings h l) (q : Queue) (hs : ∀ q, s ∉ l q) :
    ∃ h', listAdd h (.task s) q.head = some h' ∧ Rings h' (Function.update l q (s :: l q)) := by
  obtain ⟨h', hadd, hring, hframe⟩ := listAdd_spec (hr.ring q) (notMem_ring hs)
  have hring' : h'.IsRing q.head (nodes (s :: l q)) := hring
  exact ⟨h', hadd, (hr.insert hs hring' (fun t => by simp [or_comm]) hframe).1⟩

/-- **Taking a slot out of its queue** clears its pointers. -/
theorem take (hr : Rings h l) {q : Queue} {ys zs : List Slot} (hl : l q = ys ++ s :: zs) :
    ∃ h', listDel h (.task s) = some h' ∧ Rings h' (Function.update l q (ys ++ zs))
      ∧ h' (.task s) = ⟨none, none⟩
      ∧ ∀ t, (∀ q, t ∉ l q) → h' (.task t) = h (.task t) := by
  have hring := hr.ring q
  rw [hl, nodes, List.map_append, List.map_cons] at hring
  obtain ⟨h', hdel, hring', hnone, hframe⟩ := listDel_spec hring
  have hnodes : nodes (l q) = nodes ys ++ .task s :: nodes zs := by
    rw [hl, nodes, List.map_append, List.map_cons]
  rw [← nodes, ← nodes, ← hnodes] at hframe
  have hsub : ∀ {t}, t ∈ ys ++ zs → t ∈ l q := by
    intro t ht
    rw [hl]
    simp only [List.mem_append, List.mem_cons] at ht ⊢
    tauto
  refine ⟨h', hdel, ⟨fun q' => ?_, fun q₁ q₂ t h₁ h₂ => ?_⟩, hnone, fun t ht => ?_⟩
  · by_cases hq : q' = q
    · rw [hq, Function.update_self, nodes, List.map_append]
      exact hring'
    · rw [Function.update_of_ne hq]
      have hs : s ∈ l q := by rw [hl]; simp
      exact hr.frame hq (hr.notMem hs hq) (fun y _ hy => hframe y hy)
  · have hpick : ∀ q', t ∈ Function.update l q (ys ++ zs) q' → t ∈ l q' := by
      intro q' ht
      rw [Function.update_apply] at ht
      split_ifs at ht with hq
      · exact hq ▸ hsub ht
      · exact ht
    exact hr.disjoint q₁ q₂ t (hpick q₁ h₁) (hpick q₂ h₂)
  · refine hframe _ (fun hm => ?_)
    rcases List.mem_cons.mp hm with hc | hm
    · exact q.head_ne_task t hc.symm
    · exact ht q (by simpa using hm)

end Rings

namespace Kernel

variable {k k' k'' : Kernel} {t : Tree} {l : Queue → List Slot}

/-! ## What the scheduler leaves alone -/

/-- Two states that differ in the queues, in who runs, and in the states of
tasks. -/
structure Rescheduled (k k' : Kernel) : Prop where
  mm : k'.mm = k.mm
  family : k'.family = k.family
  idleTask : k'.idleTask = k.idleTask
  startingPid : k'.startingPid = k.startingPid
  stuck : k'.stuck = k.stuck
  pid : ∀ s, (k'.task s).pid = (k.task s).pid

theorem Rescheduled.refl (k : Kernel) : Rescheduled k k :=
  ⟨rfl, rfl, rfl, rfl, rfl, fun _ => rfl⟩

theorem Rescheduled.trans (h₁ : Rescheduled k k') (h₂ : Rescheduled k' k'') :
    Rescheduled k k'' where
  mm := h₂.mm.trans h₁.mm
  family := h₂.family.trans h₁.family
  idleTask := h₂.idleTask.trans h₁.idleTask
  startingPid := h₂.startingPid.trans h₁.startingPid
  stuck := h₂.stuck.trans h₁.stuck
  pid s := (h₂.pid s).trans (h₁.pid s)

@[simp] theorem modifyTask_apply (k : Kernel) (c s : Slot) (f : TaskStruct → TaskStruct) :
    (k.modifyTask c f).task s = if s = c then f (k.task c) else k.task s :=
  Function.update_apply k.task c _ s

theorem rescheduled_modifyTask (k : Kernel) (c : Slot) (f : TaskStruct → TaskStruct)
    (hf : ∀ u, (f u).pid = u.pid) : Rescheduled k (k.modifyTask c f) := by
  refine ⟨rfl, rfl, rfl, rfl, rfl, fun s => ?_⟩
  rw [modifyTask_apply]
  split_ifs with hs
  · rw [hf, hs]
  · rfl

theorem rescheduled_links (k : Kernel) (h : Links Node) : Rescheduled k { k with links := h } :=
  ⟨rfl, rfl, rfl, rfl, rfl, fun _ => rfl⟩

/-- Adding a task at the tail of a queue. -/
theorem linkTail_eq (hr : Rings k.links l) (q : Queue) {s : Slot} (hs : ∀ q, s ∉ l q) :
    ∃ h', k.linkTail (.task s) q.head = { k with links := h' }
      ∧ Rings h' (Function.update l q (l q ++ [s]))
      ∧ ∀ u, u ≠ s → (∀ q, u ∉ l q) → h' (.task u) = k.links (.task u) := by
  obtain ⟨h', hadd, hr', hframe⟩ := hr.push q hs
  refine ⟨h', ?_, hr', hframe⟩
  rw [linkTail, hadd]

/-- Taking a task out of its queue. -/
theorem unlink_eq (hr : Rings k.links l) {q : Queue} {s : Slot} {ys zs : List Slot}
    (hl : l q = ys ++ s :: zs) :
    ∃ h', k.unlink (.task s) = { k with links := h' }
      ∧ Rings h' (Function.update l q (ys ++ zs)) ∧ h' (.task s) = ⟨none, none⟩
      ∧ ∀ u, (∀ q, u ∉ l q) → h' (.task u) = k.links (.task u) := by
  have hmem : Node.task s ∈ nodes (l q) := by
    rw [hl]
    simp
  have hlinked : listLinked k.links (.task s) = true :=
    (listLinked_iff _ _).mpr ((hr.ring q).isLinked hmem)
  obtain ⟨h', hdel, hr', hnone, hframe⟩ := hr.take hl
  refine ⟨h', ?_, hr', hnone, hframe⟩
  rw [unlink]
  simp only [hlinked, hdel, Bool.not_true, Bool.or_false]

/-- A slot at the end of a queue is in that one, and every other is where it
was. -/
theorem mem_update_push (l : Queue → List Slot) (q : Queue) (s u : Slot) (q' : Queue) :
    u ∈ Function.update l q (l q ++ [s]) q' ↔ u ∈ l q' ∨ u = s ∧ q' = q := by
  rw [Function.update_apply]
  split_ifs with hq
  · simp [hq]
  · simp [hq]

/-- **A slot taken out of its queue** is in none, and every other is where it
was. -/
theorem exists_unlink (hr : Rings k.links l) {q : Queue} {s : Slot} (hs : s ∈ l q) :
    ∃ h' l', k.unlink (.task s) = { k with links := h' } ∧ Rings h' l'
      ∧ h' (.task s) = ⟨none, none⟩
      ∧ (∀ u, (∀ q, u ∉ l q) → h' (.task u) = k.links (.task u))
      ∧ (∀ q', s ∉ l' q') ∧ ∀ u, u ≠ s → ∀ q', u ∈ l' q' ↔ u ∈ l q' := by
  obtain ⟨ys, zs, hl⟩ := List.append_of_mem hs
  obtain ⟨h', hdel, hr', hnone, hframe⟩ := unlink_eq hr hl
  have hnd := hr.nodup q
  rw [hl] at hnd
  refine ⟨h', _, hdel, hr', hnone, hframe, fun q' => ?_, fun u hu q' => ?_⟩
  · by_cases hq : q' = q
    · rw [hq, Function.update_self]
      exact (List.nodup_cons.mp (List.nodup_middle.mp hnd)).1
    · rw [Function.update_of_ne hq]
      exact hr.notMem hs hq
  · rw [Function.update_apply]
    split_ifs with hq
    · rw [hq, hl]
      simp [hu]
    · rfl

/-! ## The invariant -/

/-- A process that is alive, or the idle task. -/
def Tended (k : Kernel) (t : Tree) (s : Slot) : Prop := s ∈ t.alive ∨ s = k.idleTask

/-- What holds of a slot in its queue, or in none. -/
structure Settled (k : Kernel) (t : Tree) (l : Queue → List Slot) (s : Slot) : Prop where
  free : s ∈ l .free → ¬ k.Tended t s
  ready : s ∈ l .ready → (k.task s).state = .ready ∧ k.Tended t s
  blocked : s ∈ l .blocked → s ≠ k.idleTask
  alive : s ∈ t.alive → s ≠ k.idleTask
  state : k.Tended t s → ((k.task s).state = .blocked ↔ s ∈ l .blocked)
  /-- A node in no queue has been deleted from one. -/
  unlinked : k.Tended t s → (∀ q, s ∉ l q) → k.links (.task s) = ⟨none, none⟩
  /-- A task points at the directory of its own slot. -/
  dir : k.Tended t s → k.getPt s = s

/-- The queues and the slots, but for one that is being moved. -/
structure WaitingBut (k : Kernel) (t : Tree) (l : Queue → List Slot) (s : Slot) : Prop where
  rings : Rings k.links l
  settled : ∀ u, u ≠ s → k.Settled t l u

/-- **The queues and the slots**, whoever is about to run. -/
structure Waiting (k : Kernel) (t : Tree) (l : Queue → List Slot) : Prop where
  rings : Rings k.links l
  settled : ∀ s, k.Settled t l s

/-- **The queues and the slots**, with the task that runs. -/
structure Queued (k : Kernel) (t : Tree) (l : Queue → List Slot) : Prop extends
    Waiting k t l where
  current_free : k.current ∉ l .free
  current_ready : k.current ∉ l .ready
  current_tended : k.Tended t k.current
  current_state : k.current ∉ l .blocked → (k.task k.current).state = .run
  cr3 : k.cr3 = k.current

/-- The idle task waits in `readyqueue` or nowhere. -/
theorem Settled.idle_out (h : k.Settled t l k.idleTask) {q : Queue} (hne : q ≠ .ready) :
    k.idleTask ∉ l q := by
  cases q with
  | free => exact fun hm => h.free hm (Or.inr rfl)
  | ready => exact absurd rfl hne
  | blocked => exact fun hm => h.blocked hm rfl

/-- A task that runs and is not marked as blocked is in no queue. -/
theorem Queued.out (h : k.Queued t l) (hn : (k.task k.current).state ≠ .blocked) (q : Queue) :
    k.current ∉ l q := by
  cases q with
  | free => exact h.current_free
  | ready => exact h.current_ready
  | blocked => exact fun hm => hn (((h.settled k.current).state h.current_tended).mpr hm)

section Moves

variable {t' : Tree} {l' : Queue → List Slot} {s : Slot}

theorem Tended.congr (hidle : k'.idleTask = k.idleTask) (halive : s ∈ t'.alive ↔ s ∈ t.alive) :
    k'.Tended t' s ↔ k.Tended t s := by
  rw [Tended, Tended, hidle, halive]

/-- A slot stays settled where nothing about it changes. -/
theorem Settled.congr (h : k.Settled t l s) (hl : ∀ q, s ∈ l' q ↔ s ∈ l q)
    (halive : s ∈ t'.alive ↔ s ∈ t.alive) (hidle : k'.idleTask = k.idleTask)
    (htask : k'.task s = k.task s)
    (hlinks : (∀ q, s ∉ l q) → k'.links (.task s) = k.links (.task s)) : k'.Settled t' l' s := by
  have htended : k'.Tended t' s ↔ k.Tended t s := Tended.congr hidle halive
  refine ⟨?_, ?_, ?_, ?_, ?_, ?_, ?_⟩
  · rw [hl, htended]
    exact h.free
  · rw [hl, htended, htask]
    exact h.ready
  · rw [hl, hidle]
    exact h.blocked
  · rw [halive, hidle]
    exact h.alive
  · rw [hl, htended, htask]
    exact h.state
  · intro ht hq
    have hq' : ∀ q, s ∉ l q := fun q hm => hq q ((hl q).mpr hm)
    rw [hlinks hq']
    exact h.unlinked (htended.mp ht) hq'
  · rw [htended, getPt, htask]
    exact h.dir

theorem Waiting.but (h : k.Waiting t l) (s : Slot) : k.WaitingBut t l s :=
  ⟨h.rings, fun u _ => h.settled u⟩

theorem WaitingBut.waiting (h : k.WaitingBut t l s) (hs : k.Settled t l s) : k.Waiting t l := by
  refine ⟨h.rings, fun u => ?_⟩
  by_cases hu : u = s
  · rw [hu]
    exact hs
  · exact h.settled u hu

/-- The slot that is being moved can change at will. -/
theorem WaitingBut.congr (h : k.WaitingBut t l s) (hlinks : k'.links = k.links)
    (hidle : k'.idleTask = k.idleTask) (htask : ∀ u, u ≠ s → k'.task u = k.task u)
    (halive : ∀ u, u ≠ s → (u ∈ t'.alive ↔ u ∈ t.alive)) : k'.WaitingBut t' l s where
  rings := by
    rw [hlinks]
    exact h.rings
  settled u hu := (h.settled u hu).congr (fun _ => Iff.rfl) (halive u hu) hidle (htask u hu)
    (fun _ => by rw [hlinks])

/-- So can its node, while it is in no queue. -/
theorem WaitingBut.relink (h : k.WaitingBut t l s) (hs : ∀ q, s ∉ l q)
    (hlinks : ∀ y, y ≠ .task s → k'.links y = k.links y) (hidle : k'.idleTask = k.idleTask)
    (htask : ∀ u, u ≠ s → k'.task u = k.task u) : k'.WaitingBut t l s where
  rings := h.rings.congr (fun q => hlinks _ (q.head_ne_task s)) (fun q _ hu =>
    hlinks _ (fun hc => hs q (Node.task.inj hc ▸ hu)))
  settled u hu := (h.settled u hu).congr (fun _ => Iff.rfl) Iff.rfl hidle (htask u hu)
    (fun _ => hlinks _ (fun hc => hu (Node.task.inj hc)))

/-- Queues, tasks and the current one are all that is asked about. -/
theorem Queued.congr (h : k.Queued t l) (hlinks : k'.links = k.links)
    (htask : ∀ s, (k'.task s).state = (k.task s).state ∧ k'.getPt s = k.getPt s)
    (hcurrent : k'.current = k.current) (hidle : k'.idleTask = k.idleTask)
    (hcr3 : k'.cr3 = k.cr3) : k'.Queued t l where
  rings := by
    rw [hlinks]
    exact h.rings
  settled s := by
    have hs := h.settled s
    have htended : k'.Tended t s ↔ k.Tended t s := Tended.congr hidle Iff.rfl
    refine ⟨?_, ?_, ?_, ?_, ?_, ?_, ?_⟩
    · rw [htended]
      exact hs.free
    · rw [htended, (htask s).1]
      exact hs.ready
    · rw [hidle]
      exact hs.blocked
    · rw [hidle]
      exact hs.alive
    · rw [htended, (htask s).1]
      exact hs.state
    · rw [htended, hlinks]
      exact hs.unlinked
    · rw [htended, (htask s).2]
      exact hs.dir
  current_free := by
    rw [hcurrent]
    exact h.current_free
  current_ready := by
    rw [hcurrent]
    exact h.current_ready
  current_tended := by
    rw [hcurrent, Tended.congr hidle Iff.rfl]
    exact h.current_tended
  current_state := by
    rw [hcurrent, (htask k.current).1]
    exact h.current_state
  cr3 := hcr3.trans (h.cr3.trans hcurrent.symm)

/-- **A slot is put at the end of a queue.** -/
theorem WaitingBut.push (h : k.WaitingBut t l s) (q : Queue) (hs : ∀ q, s ∉ l q) :
    ∃ h', k.linkTail (.task s) q.head = { k with links := h' }
      ∧ ({ k with links := h' } : Kernel).WaitingBut t (Function.update l q (l q ++ [s])) s
      ∧ (∀ q', s ∈ Function.update l q (l q ++ [s]) q' ↔ q' = q) := by
  obtain ⟨h', hadd, hr, hframe⟩ := linkTail_eq h.rings q hs
  refine ⟨h', hadd, ⟨hr, fun u hu => ?_⟩, fun q' => ?_⟩
  · refine (h.settled u hu).congr (fun q' => ?_) Iff.rfl rfl rfl (hframe u hu)
    exact (mem_update_push l q s u q').trans (or_iff_left fun he => hu he.1)
  · exact (mem_update_push l q s s q').trans
      ((or_iff_right (hs q')).trans (and_iff_right rfl))

/-- **A slot is taken out of its queue.** -/
theorem WaitingBut.take (h : k.WaitingBut t l s) {q : Queue} (hs : s ∈ l q) :
    ∃ h' l', k.unlink (.task s) = { k with links := h' }
      ∧ ({ k with links := h' } : Kernel).WaitingBut t l' s
      ∧ h' (.task s) = ⟨none, none⟩ ∧ (∀ q', s ∉ l' q') ∧ ∀ u, u ≠ s → ∀ q', u ∈ l' q' ↔ u ∈ l q' := by
  obtain ⟨h', l', hdel, hr, hnone, hframe, hnot, hmem⟩ := exists_unlink h.rings hs
  refine ⟨h', l', hdel, ⟨hr, fun u hu => ?_⟩, hnone, hnot, hmem⟩
  exact (h.settled u hu).congr (hmem u hu) Iff.rfl rfl rfl (hframe u)

end Moves

/-! ## Giving the CPU to a task -/

theorem rescheduled_dispatch (k : Kernel) (c : Slot) : Rescheduled k (k.dispatch c) := by
  refine Rescheduled.trans (rescheduled_modifyTask k c (fun u => { u with state := .run })
    (fun _ => rfl)) ?_
  exact ⟨rfl, rfl, rfl, rfl, rfl, fun _ => rfl⟩

theorem dispatch_task (k : Kernel) (c s : Slot) :
    (k.dispatch c).task s = if s = c then { k.task c with state := .run } else k.task s :=
  modifyTask_apply k c s fun u => { u with state := .run }

/-- **A task in no queue gets the CPU.** -/
theorem WaitingBut.dispatch {c : Slot} (h : k.WaitingBut t l c) (hc : ∀ q, c ∉ l q)
    (htended : k.Tended t c) (halive : c ∈ t.alive → c ≠ k.idleTask)
    (hlinks : k.links (.task c) = ⟨none, none⟩) (hdir : k.getPt c = c) :
    (k.dispatch c).Queued t l := by
  have hpt : ∀ s, (k.dispatch c).getPt s = k.getPt s := by
    intro s
    rw [getPt, dispatch_task]
    split_ifs with hs
    · rw [hs]
      rfl
    · rfl
  have hstate : ((k.dispatch c).task c).state = .run := by
    rw [dispatch_task, if_pos rfl]
  have hw : (k.dispatch c).WaitingBut t l c :=
    h.congr rfl rfl (fun u hu => by rw [dispatch_task, if_neg hu]) (fun _ _ => Iff.rfl)
  have hsettled : (k.dispatch c).Settled t l c :=
    { free := fun hm => absurd hm (hc .free)
      ready := fun hm => absurd hm (hc .ready)
      blocked := fun hm => absurd hm (hc .blocked)
      alive := halive
      state := fun _ => by
        rw [hstate]
        exact iff_of_false nofun (hc .blocked)
      unlinked := fun _ _ => hlinks
      dir := fun _ => (hpt c).trans hdir }
  exact
    { hw.waiting hsettled with
      current_free := hc .free
      current_ready := hc .ready
      current_tended := htended
      current_state := fun _ => hstate
      cr3 := (hpt c).trans hdir }

/-- `sched_next_rr` with nobody ready. -/
theorem schedNextRr_nil (hr : Rings k.links l) (hl : l .ready = []) :
    k.schedNextRr = k.dispatch k.idleTask := by
  have hempty : listEmpty k.links .readyqueue = true := by
    refine (listEmpty_iff (hr.ring .ready)).mpr ?_
    rw [hl]
    rfl
  rw [schedNextRr, hempty, if_neg nofun]

/-- `sched_next_rr` takes the first ready task. -/
theorem schedNextRr_cons (hr : Rings k.links l) {c : Slot} {cs : List Slot}
    (hl : l .ready = c :: cs) : k.schedNextRr = (k.unlink (.task c)).dispatch c := by
  have hring := hr.ring .ready
  rw [hl] at hring
  have hfirst : listFirst k.links .readyqueue = some (.task c) := hring.next_head
  have hempty : listEmpty k.links .readyqueue = false :=
    Bool.eq_false_iff.mpr (fun he => List.cons_ne_nil _ _ ((listEmpty_iff hring).mp he))
  rw [schedNextRr, hempty, if_pos rfl, hfirst]
  rfl

/-- **`sched_next_rr` runs the first ready task**, or the idle task. -/
theorem schedNextRr_spec (h : k.Waiting t l) :
    (∃ l', k.schedNextRr.Queued t l' ∧ Rescheduled k k.schedNextRr)
      ∧ (l .ready ≠ [] → k.schedNextRr.current ∈ l .ready) := by
  cases hready : l .ready with
  | nil =>
    have hidle := h.settled k.idleTask
    have htended : k.Tended t k.idleTask := Or.inr rfl
    have hnone : ∀ q, k.idleTask ∉ l q := by
      intro q
      by_cases hq : q = .ready
      · rw [hq, hready]
        exact List.not_mem_nil
      · exact hidle.idle_out hq
    rw [schedNextRr_nil h.rings hready]
    exact ⟨⟨l, (h.but _).dispatch hnone htended hidle.alive (hidle.unlinked htended hnone)
      (hidle.dir htended), rescheduled_dispatch k _⟩, fun hne => absurd rfl hne⟩
  | cons c cs =>
    have hcr : c ∈ l .ready := by
      rw [hready]
      exact List.mem_cons_self
    have hsettled := h.settled c
    have htended := (hsettled.ready hcr).2
    obtain ⟨h', l', hunlink, hw, hnone, hnot, -⟩ := (h.but c).take hcr
    rw [schedNextRr_cons h.rings hready, hunlink]
    exact ⟨⟨l', hw.dispatch hnot htended hsettled.alive hnone (hsettled.dir htended),
      (rescheduled_links k h').trans (rescheduled_dispatch _ c)⟩, fun _ => List.mem_cons_self⟩

/-! ## The clock -/

/-- `schedule`, by what `needs_sched_rr` answers. -/
theorem schedule_eq (k : Kernel) :
    k.schedule
      = if 0 < k.ticksSinceCpu - 1 then { k with ticksSinceCpu := k.ticksSinceCpu - 1 }
        else if listEmpty k.links .readyqueue then
          { k with ticksSinceCpu := (k.task k.current).quantum }
        else
          (({ k with ticksSinceCpu := k.ticksSinceCpu - 1 } : Kernel).updateProcessStateRr
            k.current (some .readyqueue)).schedNextRr := by
  unfold schedule updateSchedDataRr needsSchedRr
  split_ifs <;> rfl

/-- **`schedule`** moves the CPU on, or does nothing. -/
theorem schedule_spec (h : k.Queued t l) :
    ∃ l', k.schedule.Queued t l' ∧ Rescheduled k k.schedule := by
  have hticks : ∀ n, ({ k with ticksSinceCpu := n } : Kernel).Queued t l
      ∧ Rescheduled k { k with ticksSinceCpu := n } := by
    intro n
    refine ⟨{ h with settled := fun s => ?_ }, ⟨rfl, rfl, rfl, rfl, rfl, fun _ => rfl⟩⟩
    exact (h.settled s).congr (fun _ => Iff.rfl) Iff.rfl rfl rfl (fun _ => rfl)
  rw [schedule_eq]
  split_ifs with hpos hempty
  · exact ⟨l, hticks _⟩
  · exact ⟨l, hticks _⟩
  · obtain ⟨hq, hres⟩ := hticks (k.ticksSinceCpu - 1)
    have hcur : ({ k with ticksSinceCpu := k.ticksSinceCpu - 1 } : Kernel).current = k.current := rfl
    rw [← hcur]
    generalize ({ k with ticksSinceCpu := k.ticksSinceCpu - 1 } : Kernel) = k₁ at hq hres ⊢
    have hsettled := hq.settled k₁.current
    by_cases hblocked : (k₁.task k₁.current).state = .blocked
    · rw [updateProcessStateRr, if_neg (not_not.mpr hblocked)]
      obtain ⟨⟨l', hq', hres'⟩, -⟩ := schedNextRr_spec hq.toWaiting
      exact ⟨l', hq', hres.trans hres'⟩
    · have hnone := hq.out hblocked
      have hrun := hq.current_state (hnone .blocked)
      obtain ⟨h', hadd, hw, hmem⟩ := (hq.toWaiting.but k₁.current).push .ready hnone
      rw [updateProcessStateRr, if_pos hblocked, if_neg (not_not.mpr hrun)]
      simp only [if_pos]
      rw [show k₁.linkTail (.task k₁.current) .readyqueue = { k₁ with links := h' } from hadd]
      set k₂ := ({ k₁ with links := h' } : Kernel).modifyTask k₁.current
        (fun c => { c with state := .ready }) with hk₂
      have htask : ∀ s, k₂.task s
          = if s = k₁.current then { k₁.task k₁.current with state := .ready } else k₁.task s :=
        fun s => modifyTask_apply _ _ s _
      have hw₂ : k₂.WaitingBut t (Function.update l .ready (l .ready ++ [k₁.current])) k₁.current :=
        hw.congr rfl rfl (fun u hu => by rw [htask, if_neg hu]) (fun _ _ => Iff.rfl)
      have hstate : (k₂.task k₁.current).state = .ready := by
        rw [htask, if_pos rfl]
      have hpt : k₂.getPt k₁.current = k₁.getPt k₁.current := by
        rw [getPt, htask, if_pos rfl]
        rfl
      have hsettled₂ : k₂.Settled t (Function.update l .ready (l .ready ++ [k₁.current]))
          k₁.current :=
        { free := fun hm => absurd ((hmem .free).mp hm) nofun
          ready := fun _ => ⟨hstate, hq.current_tended⟩
          blocked := fun hm => absurd ((hmem .blocked).mp hm) nofun
          alive := hsettled.alive
          state := fun _ => by
            rw [hstate]
            exact iff_of_false nofun (fun hm => absurd ((hmem .blocked).mp hm) nofun)
          unlinked := fun _ hn => absurd ((hmem .ready).mpr rfl) (hn .ready)
          dir := fun ht => hpt.trans (hsettled.dir ht) }
      obtain ⟨⟨l', hq', hres'⟩, -⟩ := schedNextRr_spec (hw₂.waiting hsettled₂)
      refine ⟨l', hq', hres.trans (Rescheduled.trans ?_ hres')⟩
      exact (rescheduled_links k₁ h').trans (rescheduled_modifyTask _ _ _ (fun _ => rfl))

/-! ## Blocking -/

/-- Two states that differ in the queues, in who runs, in what a task struct
says besides the identifier, and in the bytes of the memory. -/
structure Quiet (k k' : Kernel) : Prop where
  pagusrTable : k'.mm.pagusrTable = k.mm.pagusrTable
  physMem : k'.mm.physMem = k.mm.physMem
  family : k'.family = k.family
  idleTask : k'.idleTask = k.idleTask
  startingPid : k'.startingPid = k.startingPid
  pid : ∀ s, (k'.task s).pid = (k.task s).pid

theorem Rescheduled.quiet (h : Rescheduled k k') : Quiet k k' where
  pagusrTable := by rw [h.mm]
  physMem := by rw [h.mm]
  family := h.family
  idleTask := h.idleTask
  startingPid := h.startingPid
  pid := h.pid

theorem Quiet.trans (h₁ : Quiet k k') (h₂ : Quiet k' k'') : Quiet k k'' where
  pagusrTable := h₂.pagusrTable.trans h₁.pagusrTable
  physMem := h₂.physMem.trans h₁.physMem
  family := h₂.family.trans h₁.family
  idleTask := h₂.idleTask.trans h₁.idleTask
  startingPid := h₂.startingPid.trans h₁.startingPid
  pid s := (h₂.pid s).trans (h₁.pid s)

theorem quiet_storeNull (k : Kernel) : Quiet k k.storeNull := by
  unfold storeNull
  cases k.mm.translate k.cr3 0 with
  | none => exact ⟨rfl, rfl, rfl, rfl, rfl, fun _ => rfl⟩
  | some loc => exact ⟨rfl, rfl, rfl, rfl, rfl, fun _ => rfl⟩

theorem storeNull_frame (k : Kernel) :
    k.storeNull.links = k.links ∧ k.storeNull.task = k.task ∧ k.storeNull.current = k.current
      ∧ k.storeNull.cr3 = k.cr3 := by
  unfold storeNull
  cases k.mm.translate k.cr3 0 with
  | none => exact ⟨rfl, rfl, rfl, rfl⟩
  | some loc => exact ⟨rfl, rfl, rfl, rfl⟩

end Kernel

end ZeOS.Zeos
