import ZeOS.RingBuffer
import ZeOS.Practica.Taken

/-!
# The keyboard stream

A character enters the system with a keyboard interrupt and leaves it with a
`sys_read`, and in between it waits in the circular buffer. The buffer is a
bounded queue: what the interrupts brought while there was room is what the
calls have returned followed by what is still waiting, in order.

A call delivers its characters by plain stores to the caller's pages. It
returns if each of them is mapped, and `access_ok`, which is asked before,
does not ensure that.
-/

namespace ZeOS.Practica

namespace CircularBuffer

variable {cb : CircularBuffer}

/-! ## The buffer as a queue -/

/-- The characters waiting, the oldest first. -/
def contents (cb : CircularBuffer) : List Byte :=
  ringContents bufferSize cb.buffer cb.readIndex cb.count

/-- The indices are within the array, and `write_index` is `count` cells
past `read_index`. -/
structure WellFormed (cb : CircularBuffer) : Prop where
  read_lt : cb.readIndex < bufferSize
  count_le : cb.count ≤ bufferSize
  write_eq : cb.writeIndex = (cb.readIndex + cb.count) % bufferSize

theorem length_contents (cb : CircularBuffer) : cb.contents.length = cb.count :=
  ringContents.length

theorem isEmpty_iff : cb.isEmpty = true ↔ cb.contents = [] := by
  rw [isEmpty, decide_eq_true_iff, contents, ringContents.eq_nil_iff]

/-- **`enqueue` appends** while there is room, and drops the character
otherwise. -/
theorem WellFormed.enqueue (h : cb.WellFormed) (element : Byte) :
    (cb.enqueue element).WellFormed
      ∧ (cb.enqueue element).contents
        = cb.contents ++ if cb.count < bufferSize then [element] else [] := by
  have hle := h.count_le
  unfold CircularBuffer.enqueue isFull
  by_cases hfull : cb.count = bufferSize
  · rw [if_pos (decide_eq_true hfull), if_neg (by omega), List.append_nil]
    exact ⟨h, rfl⟩
  · have hlt : cb.count < bufferSize := lt_of_le_of_ne hle hfull
    rw [if_neg (by simpa using hfull), if_pos hlt]
    refine ⟨⟨h.read_lt, hlt, ?_⟩, ?_⟩
    · show (cb.writeIndex + 1) % bufferSize = (cb.readIndex + (cb.count + 1)) % bufferSize
      rw [h.write_eq, Nat.mod_add_mod, Nat.add_assoc]
    · show ringContents bufferSize (Function.update cb.buffer cb.writeIndex element) cb.readIndex
        (cb.count + 1) = _
      rw [h.write_eq]
      exact ringContents.push element hlt

/-- **`dequeue` takes the first character**, if there is one. -/
theorem WellFormed.dequeue (h : cb.WellFormed) {x : Byte} {xs : List Byte}
    (hc : cb.contents = x :: xs) :
    cb.dequeue.1 = x ∧ cb.dequeue.2.WellFormed ∧ cb.dequeue.2.contents = xs := by
  obtain ⟨n, hn⟩ : ∃ n, cb.count = n + 1 := by
    refine ⟨xs.length, ?_⟩
    rw [← cb.length_contents, hc, List.length_cons]
  have hle := h.count_le
  rw [contents, hn, ringContents.pop, Nat.mod_eq_of_lt h.read_lt] at hc
  obtain ⟨hx, hxs⟩ := List.cons_eq_cons.mp hc
  have hne : ¬ cb.isEmpty = true := by simp [isEmpty, hn]
  unfold CircularBuffer.dequeue
  rw [if_neg hne]
  refine ⟨hx, ⟨Nat.mod_lt _ (by decide), ?_, ?_⟩, ?_⟩
  · show cb.count - 1 ≤ bufferSize
    omega
  · show cb.writeIndex = ((cb.readIndex + 1) % bufferSize + (cb.count - 1)) % bufferSize
    rw [h.write_eq, Nat.mod_add_mod, hn, Nat.add_sub_cancel]
    rw [Nat.add_assoc, Nat.add_comm 1 n]
  · show ringContents bufferSize cb.buffer ((cb.readIndex + 1) % bufferSize) (cb.count - 1) = xs
    rw [hn, Nat.add_sub_cancel, hxs]

/-- **Taking characters out one after the other** gives the first ones, and
leaves the others. -/
theorem WellFormed.iterate_dequeue (h : cb.WellFormed) {n : ℕ} (hn : n ≤ cb.count) :
    ((fun cb => cb.dequeue.2)^[n] cb).WellFormed
      ∧ ((fun cb => cb.dequeue.2)^[n] cb).contents = cb.contents.drop n
      ∧ (List.range n).map cb.peek = cb.contents.take n := by
  induction n with
  | zero => exact ⟨h, rfl, rfl⟩
  | succ n ih =>
    obtain ⟨hwf, hdrop, htake⟩ := ih (by omega)
    have hlt : n < cb.contents.length := by
      rw [length_contents]
      exact hn
    obtain ⟨hx, hwf', hxs⟩ := hwf.dequeue (hdrop.trans (List.drop_eq_getElem_cons hlt))
    rw [Function.iterate_succ_apply']
    refine ⟨hwf', hxs, ?_⟩
    rw [List.range_succ, List.map_append, List.map_singleton, htake,
      List.take_succ_eq_append_getElem hlt]
    exact congrArg _ (congrArg (fun c => [c]) hx)

/-- While characters are left the buffer is not empty. -/
theorem WellFormed.not_isEmpty (h : cb.WellFormed) {n : ℕ} (hn : n < cb.count) :
    ((fun cb => cb.dequeue.2)^[n] cb).isEmpty = false := by
  rw [Bool.eq_false_iff, ne_eq, isEmpty_iff, (h.iterate_dequeue hn.le).2.1, List.drop_eq_nil_iff,
    length_contents]
  omega

end CircularBuffer

/-! ## What an event does to the buffer -/

namespace Kernel

variable {k k' : Kernel}

/-- The buffer and the flag after an event. -/
def keyboard (k : Kernel) : Event → CircularBuffer × Bool
  | .key c past =>
    let cb := if k.isDefined then k.cb else k.cb.initBuffer
    (if c &&& 0x80#8 ≠ 0 then cb.enqueue (charMap.getD (c &&& 0x7f#8).toNat past) else cb, true)
  | .read b maxchars => ((k.entered.sysRead b maxchars).2.cb, k.isDefined)
  | _ => (k.cb, k.isDefined)

/-- **`keyboard_routine`** on the buffer. -/
theorem keyboard_keyboardRoutine (k : Kernel) (c past : Byte) :
    ((k.keyboardRoutine c past).cb, (k.keyboardRoutine c past).isDefined)
      = k.keyboard (.key c past) := by
  unfold keyboardRoutine keyboard
  dsimp only
  by_cases hdef : k.isDefined = true
  · rw [if_pos hdef, if_pos hdef]
    split_ifs <;> exact Prod.ext rfl hdef
  · rw [if_neg hdef, if_neg hdef]
    split_ifs <;> rfl

/-- `sys_fork` changes the memory and the scheduler only. -/
theorem exists_sysFork (k : Kernel) (ebp : DWord) :
    ∃ m s, (k.sysFork ebp).2 = { k with mm := m, sched := s } := by
  unfold sysFork
  split
  · exact ⟨k.mm, k.sched, rfl⟩
  · split
    · exact ⟨_, _, rfl⟩
    · dsimp only
      split
      · exact ⟨_, _, rfl⟩
      · exact ⟨_, _, rfl⟩

theorem keyboard_sysExit (k : Kernel) (ebp : DWord) :
    ((k.sysExit ebp).cb, (k.sysExit ebp).isDefined) = (k.cb, k.isDefined) := by
  unfold sysExit
  rfl

theorem keyboard_sysGetStats (k : Kernel) (pid st : DWord) :
    ((k.sysGetStats pid st).2.cb, (k.sysGetStats pid st).2.isDefined) = (k.cb, k.isDefined) := by
  unfold sysGetStats
  split_ifs
  · rfl
  · rfl
  · split <;> rfl

theorem isDefined_sysRead (k : Kernel) (b maxchars : DWord) :
    (k.sysRead b maxchars).2.isDefined = k.isDefined := by
  unfold sysRead
  split
  · rfl
  · dsimp only
    rw [foldl_readChar_eq]

/-- **What a step does to the buffer.** -/
theorem step_keyboard {e : Event} (h : k.step e = some k') :
    (k'.cb, k'.isDefined) = k.keyboard e := by
  obtain ⟨-, hperf, -, -⟩ := step_eq_some_iff.mp h
  cases e with
  | key c past =>
    obtain rfl := Option.some_inj.mp hperf
    exact keyboard_keyboardRoutine
      { k with sched := (k.sched.enter .interruptHandler).userToSystem } c past
  | load addr =>
    obtain rfl := eq_of_perform_load hperf
    rfl
  | store addr b =>
    obtain ⟨m, rfl⟩ := exists_of_perform_store hperf
    rfl
  | fault cr2 =>
    obtain ⟨m, rfl⟩ := exists_of_perform_fault hperf
    rfl
  | fork ebp =>
    obtain rfl := Option.some_inj.mp hperf
    show ((k.entered.sysFork ebp).2.cb, (k.entered.sysFork ebp).2.isDefined) = _
    obtain ⟨m, s, hres⟩ := exists_sysFork k.entered ebp
    rw [hres]
    rfl
  | getStats pid st =>
    obtain rfl := Option.some_inj.mp hperf
    exact keyboard_sysGetStats k.entered pid st
  | read b maxchars =>
    obtain rfl := Option.some_inj.mp hperf
    exact Prod.ext rfl (isDefined_sysRead k.entered b maxchars)
  | exit ebp =>
    obtain rfl := Option.some_inj.mp hperf
    exact keyboard_sysExit k.entered ebp
  | tick ebp | yield ebp | shmat id addr | shmdt addr | shmrm id =>
    obtain rfl := Option.some_inj.mp hperf
    rfl

end Kernel

/-! ## The stream -/

/-- The characters an event brings while there is room for them. -/
def Kernel.arrivals (k : Kernel) : Event → List Byte
  | .key c past =>
    if c &&& 0x80#8 ≠ 0 ∧ k.cb.count < bufferSize then
      [charMap.getD (c &&& 0x7f#8).toNat past]
    else []
  | _ => []

/-- The characters an event gives to its caller. -/
def Kernel.returns (k : Kernel) : Event → List Byte
  | .read b maxchars => (List.range (k.entered.sysRead b maxchars).1.toNat).map k.cb.peek
  | _ => []

/-- What an accepted call returns. -/
theorem Kernel.returns_read {k : Kernel} {b maxchars : DWord}
    (hok : accessOk k.entered.currentPt .verifyWrite b maxchars = true) :
    k.returns (.read b maxchars) = (List.range (k.readCount maxchars)).map k.cb.peek := by
  rw [returns, sysRead_eq, if_pos hok]
  rfl

/-- A state, with all that has arrived and all that has been returned. -/
structure Traffic where
  kernel : Kernel
  arrived : List Byte
  returned : List Byte

namespace Traffic

variable {M : Machine} {t t' : Traffic}

/-- Before the first event. -/
def boot (M : Machine) : Traffic := ⟨M.boot, [], []⟩

def step (t : Traffic) (e : Event) : Option Traffic :=
  (t.kernel.step e).map fun k =>
    ⟨k, t.arrived ++ t.kernel.arrivals e, t.returned ++ t.kernel.returns e⟩

theorem step_of_kernel {e : Event} {k : Kernel} (h : t.kernel.step e = some k) :
    t.step e
      = some ⟨k, t.arrived ++ t.kernel.arrivals e, t.returned ++ t.kernel.returns e⟩ := by
  rw [step, h]
  rfl

/-- **The law of the stream**: what has arrived has been returned or waits.
Before the first interrupt nothing waits. -/
structure Stream (t : Traffic) : Prop where
  wellFormed : t.kernel.cb.WellFormed
  fresh : t.kernel.isDefined = false → t.kernel.cb.initBuffer = t.kernel.cb
  arrived_eq : t.arrived = t.returned ++ t.kernel.cb.contents

/-- An empty buffer in its initial position holds nothing. -/
theorem Stream.contents_of_not_isDefined (h : t.Stream) (hdef : t.kernel.isDefined = false) :
    t.kernel.cb.contents = [] := by
  rw [← h.fresh hdef]
  rfl

/-- A key. -/
theorem Stream.key (h : t.Stream) (c past : Byte) {k : Kernel}
    (hk : (k.cb, k.isDefined) = t.kernel.keyboard (.key c past)) :
    Stream ⟨k, t.arrived ++ t.kernel.arrivals (.key c past), t.returned ++ []⟩ := by
  have hinit : (if t.kernel.isDefined then t.kernel.cb else t.kernel.cb.initBuffer)
      = t.kernel.cb := by
    split
    · rfl
    · exact h.fresh (Bool.eq_false_iff.mpr ‹_›)
  unfold Kernel.keyboard at hk
  dsimp only at hk
  rw [hinit] at hk
  obtain ⟨hcb, hdef⟩ := Prod.mk.injEq .. ▸ hk
  have hfresh : k.isDefined = false → k.cb.initBuffer = k.cb :=
    fun hf => absurd (hdef.symm.trans hf) (by decide)
  by_cases hc : c &&& 0x80#8 ≠ 0
  · rw [if_pos hc] at hcb
    obtain ⟨hwf, hcont⟩ := h.wellFormed.enqueue (charMap.getD (c &&& 0x7f#8).toNat past)
    rw [← hcb] at hwf hcont
    refine ⟨hwf, hfresh, ?_⟩
    show t.arrived ++ _ = t.returned ++ [] ++ k.cb.contents
    rw [hcont, h.arrived_eq, List.append_nil, List.append_assoc, Kernel.arrivals]
    simp only [hc, ne_eq, not_false_eq_true, true_and]
  · rw [if_neg hc] at hcb
    refine ⟨hcb ▸ h.wellFormed, hfresh, ?_⟩
    show t.arrived ++ _ = t.returned ++ [] ++ k.cb.contents
    rw [hcb, h.arrived_eq, List.append_nil, Kernel.arrivals, if_neg (fun hcon => hc hcon.1),
      List.append_nil]

/-- An event that leaves the buffer alone. -/
theorem Stream.other (h : t.Stream) {k : Kernel}
    (hk : (k.cb, k.isDefined) = (t.kernel.cb, t.kernel.isDefined)) :
    Stream ⟨k, t.arrived ++ [], t.returned ++ []⟩ := by
  obtain ⟨hcb, hdef⟩ := Prod.mk.injEq .. ▸ hk
  refine ⟨hcb ▸ h.wellFormed, fun hf => ?_, ?_⟩
  · show k.cb.initBuffer = k.cb
    rw [hcb]
    exact h.fresh (hdef.symm.trans hf)
  · show t.arrived ++ [] = t.returned ++ [] ++ k.cb.contents
    rw [hcb, List.append_nil, List.append_nil]
    exact h.arrived_eq

/-- A call of `sys_read`, whatever becomes of its bytes. -/
theorem Stream.read (h : t.Stream) (b maxchars : DWord) {k : Kernel}
    (hk : (k.cb, k.isDefined) = t.kernel.keyboard (.read b maxchars)) :
    Stream ⟨k, t.arrived ++ [], t.returned ++ t.kernel.returns (.read b maxchars)⟩ := by
  obtain ⟨hcb, hdef⟩ := Prod.mk.injEq .. ▸ hk
  rw [Kernel.sysRead_eq] at hcb
  split at hcb
  · rename_i hok
    rw [Kernel.returns_read hok]
    set n := t.kernel.entered.readCount maxchars
    have hn : n ≤ t.kernel.cb.count := t.kernel.entered.readCount_le_count maxchars
    obtain ⟨hwf, hdrop, htake⟩ := h.wellFormed.iterate_dequeue hn
    replace hcb : k.cb = (fun cb => cb.dequeue.2)^[n] t.kernel.cb := hcb
    refine ⟨hcb ▸ hwf, fun hf => ?_, ?_⟩
    · -- nothing is taken from a buffer that has not been initialized
      have hfresh := h.fresh (hdef.symm.trans hf)
      have hzero : n = 0 := by
        rw [← hfresh] at hn
        exact Nat.le_zero.mp hn
      rw [hcb, hzero]
      exact hfresh
    · show t.arrived ++ [] = t.returned ++ (List.range n).map t.kernel.cb.peek ++ k.cb.contents
      rw [hcb, hdrop, htake, List.append_assoc, List.take_append_drop, List.append_nil]
      exact h.arrived_eq
  · rename_i hok
    rw [Kernel.returns, Kernel.sysRead_eq, if_neg hok]
    exact h.other (Prod.ext hcb hdef)

/-- **Every event keeps the law.** -/
theorem Stream.step (h : t.Stream) {e : Event} (hst : t.step e = some t') : t'.Stream := by
  obtain ⟨k, hk, rfl⟩ := Option.map_eq_some_iff.mp hst
  have hcb := Kernel.step_keyboard hk
  cases e with
  | key c past => exact h.key c past hcb
  | read b maxchars => exact h.read b maxchars hcb
  | _ => exact h.other hcb

theorem stream_boot (M : Machine) : (boot M).Stream where
  wellFormed := ⟨Nat.zero_lt_succ _, Nat.zero_le _, rfl⟩
  fresh _ := rfl
  arrived_eq := rfl

end Traffic

/-! ## Calls that return -/

/-- **A call that does what it is for**: it returns the smaller of the two
counts, stores that many characters from the buffer at its destination, in
order, and nothing else, and leaves the others waiting. -/
def ReadServed (k : Kernel) (b n : DWord) : Prop :=
  ∃ k', k.step (.read b n) = some k'
    ∧ (k.entered.sysRead b n).1 = min n.toInt k.cb.count
    ∧ k'.mm = { k.mm with
        ram := writeRun k.mm.ram (fun i => k.dest (b.toNat + i)) k.cb.peek (k.readCount n) }
    ∧ (List.range (k.readCount n)).map k.cb.peek = k.cb.contents.take (k.readCount n)
    ∧ k'.cb.contents = k.cb.contents.drop (k.readCount n)

/-- **Every character has somewhere to go**: the page of each of its bytes is
mapped, and not to the kernel's image. -/
def Deliverable (k : Kernel) (b n : DWord) : Prop := k.Delivers b (k.readCount n)

section Calls

variable {k : Kernel} {a : Schedule} {b n : DWord}

/-- A call that is accepted has a next state only if its characters have
somewhere to go. -/
theorem deliverable_of_step (hf : k.Follows a)
    (hok : accessOk k.currentPt .verifyWrite b n = true) {k' : Kernel}
    (hst : k.step (.read b n) = some k') : Deliverable k b n := by
  obtain ⟨-, hperf, hdown, -⟩ := Kernel.step_eq_some_iff.mp hst
  obtain rfl := Option.some_inj.mp hperf
  rw [Kernel.systemCall_mm, Kernel.sysRead_eq, currentPt_entered hf, if_pos hok] at hdown
  exact (storeRun_down_iff hf).mp hdown

/-- **A call is served exactly if its characters have somewhere to go.** -/
theorem readServed_iff (hf : k.Follows a) (hwf : k.cb.WellFormed)
    (hidle : k.sched.current ≠ k.sched.idleTask) (hn : 0 ≤ n.toInt)
    (hok : accessOk k.currentPt .verifyWrite b n = true) :
    ReadServed k b n ↔ Deliverable k b n := by
  have hres : k.entered.sysRead b n = (min n.toInt k.cb.count,
      { k.entered with
        cb := (fun cb => cb.dequeue.2)^[k.readCount n] k.cb
        mm := storeRun (Mm.kernelStore k.sched.cr3) b.toNat k.cb.peek k.mm (k.readCount n) }) := by
    rw [Kernel.sysRead_eq, currentPt_entered hf, if_pos hok]
    refine Prod.ext ?_ rfl
    have hcount := Kernel.readCount_eq (k := k) hn
    show (if (k.cb.count : ℤ) < n.toInt then (k.cb.count : ℤ) else n.toInt) = _
    split_ifs <;> omega
  obtain ⟨-, hdrop, htake⟩ := hwf.iterate_dequeue (k.readCount_le_count n)
  constructor
  · rintro ⟨k', hst, -, -⟩
    exact deliverable_of_step hf hok hst
  · intro h
    have hstore := Kernel.Delivers.storeRun hf h k.cb.peek
    have hdown : (k.entered.sysRead b n).2.mm.stuck = false := by
      rw [hres, hstore]
      exact hf.mm_down
    have hsched := (Kernel.ramOnly_sysRead k.entered b n).2
    obtain ⟨k', hst, hf', hmm', hcb'⟩ := Kernel.exists_step (e := .read b n)
      (f := fun k => (k.sysRead b n).2) hf
      (by rwa [← hf.threads.current_eq, ← hf.threads.idle_eq]) rfl
      ⟨hsched ▸ hf.entered.threads, hdown,
        (congrArg Sched.stuck hsched).trans hf.entered.sched_down,
        hf.counts_fit.congr (Kernel.ramOnly_sysRead k.entered b n).1.shmMem⟩
    rw [hres] at hmm' hcb'
    exact ⟨k', hst, congrArg Prod.fst hres, hmm'.trans hstore, htake, hcb' ▸ hdrop⟩

end Calls

/-- **The reads that `access_ok` accepts have somewhere to go.** -/
def Traffic.ReadsDeliverable (t : Traffic) (e : Event) : Prop :=
  ∀ b n, e = .read b n → accessOk t.kernel.currentPt .verifyWrite b n = true →
    Deliverable t.kernel b n

/-- **The keyboard stream.** In every run from boot whose accepted reads are
deliverable, what has been returned, followed by what waits, is what arrived
while there was room; the late initialization discards nothing; no call takes
a character from an empty buffer; a call whose destination is accepted is
served exactly if its characters have somewhere to go; and where they have
not, it has no next state. -/
theorem keyboard_stream (M : Machine) (es : List Event) (t : Traffic)
    (h : Run Traffic.step Traffic.ReadsDeliverable (Traffic.boot M) es t) :
    t.arrived = t.returned ++ t.kernel.cb.contents
    ∧ (t.kernel.isDefined = false → t.kernel.cb.contents = [])
    ∧ (∀ n, ∀ i < t.kernel.readCount n,
        ((fun cb => cb.dequeue.2)^[i] t.kernel.cb).isEmpty = false)
    ∧ (∀ b n, t.kernel.sched.current ≠ t.kernel.sched.idleTask → 0 ≤ n.toInt →
        accessOk t.kernel.currentPt .verifyWrite b n = true →
        (ReadServed t.kernel b n ↔ Deliverable t.kernel b n))
    ∧ ∀ b n, ¬ t.ReadsDeliverable (.read b n) → t.step (.read b n) = none := by
  obtain ⟨⟨a, hf⟩, hs⟩ := h.invariant
    (I := fun t => (∃ a, t.kernel.Follows a) ∧ t.Stream)
    (fun t e t' ⟨⟨a, hf⟩, hs⟩ _ hst => by
      refine ⟨?_, hs.step hst⟩
      obtain ⟨k, hk, rfl⟩ := Option.map_eq_some_iff.mp hst
      obtain ⟨a', hf', -⟩ := hf.step hk
      exact ⟨a', hf'⟩)
    ⟨⟨bootSchedule, follows_boot M⟩, Traffic.stream_boot M⟩
  refine ⟨hs.arrived_eq, hs.contents_of_not_isDefined, fun n i hi => ?_, ?_, fun b n hnot => ?_⟩
  · exact hs.wellFormed.not_isEmpty (hi.trans_le (t.kernel.readCount_le_count n))
  · exact fun b n hidle hn hok => readServed_iff hf hs.wellFormed hidle hn hok
  · refine Option.eq_none_iff_forall_ne_some.mpr fun t' hst => hnot ?_
    obtain ⟨k', hk', -⟩ := Option.map_eq_some_iff.mp hst
    rintro b' n' he hok
    obtain ⟨rfl, rfl⟩ := Event.read.inj he
    exact deliverable_of_step hf hok hk'

/-- A key typed after boot, as the traffic sees it. -/
theorem exists_first_key :
    ∃ t, Run Traffic.step Traffic.ReadsDeliverable (Traffic.boot Machine.sample)
        [.key 0x9e#8 0#8] t
      ∧ t.kernel.Follows bootSchedule ∧ t.kernel.mm = Machine.sample.boot.mm
      ∧ t.kernel.cb = Machine.sample.boot.cb.enqueue 97#8 ∧ t.returned = [] := by
  obtain ⟨k, hst, hf, hmm, hcb⟩ := Kernel.exists_key (c := 0x9e#8)
    (follows_boot Machine.sample) rfl (by decide) 0#8
  exact ⟨_, Run.single (fun _ _ he => absurd he (by simp)) (Traffic.step_of_kernel hst), hf, hmm,
    hcb, rfl⟩

/-- The key is returned by a call with room for it in a data page. -/
theorem keyboard_stream_key :
    ∃ t, Run Traffic.step Traffic.ReadsDeliverable (Traffic.boot Machine.sample)
        [.key 0x9e#8 0#8, .read 0x108000#32 1#32] t
      ∧ t.returned = [97#8] ∧ t.arrived = t.returned ++ t.kernel.cb.contents := by
  obtain ⟨t, hrun, hf, hmm, hcb, hret⟩ := exists_first_key
  have hm : Mapped Machine.sample bootSchedule t.kernel.mm := by
    rw [hmm]
    exact Mapped.boot Machine.sample
  have hin : InData 0x108000#32 (1#32).toNat := by decide
  obtain ⟨k', hst, -, -⟩ := step_read hf hm (by decide) hin
  have hdel : t.ReadsDeliverable (.read 0x108000#32 1#32) := by
    rintro b n he hok
    obtain ⟨rfl, rfl⟩ := Event.read.inj he
    exact deliverable_of_step hf hok hst
  have hrun' := hrun.append (Run.single hdel (Traffic.step_of_kernel hst))
  refine ⟨_, hrun', ?_, (keyboard_stream Machine.sample _ _ hrun').1⟩
  show t.returned ++ t.kernel.returns (.read 0x108000#32 1#32) = _
  rw [hret, Kernel.returns_read (accessOk_of_inData hin), Kernel.readCount, hcb]
  rfl

/-- **A call whose destination is the first page after the data pages** is
accepted by `access_ok` and does not return the character that waits. -/
theorem not_readServed_past_data :
    ∃ t, Run Traffic.step Traffic.ReadsDeliverable (Traffic.boot Machine.sample)
        [.key 0x9e#8 0#8] t
      ∧ t.kernel.sched.current ≠ t.kernel.sched.idleTask ∧ t.kernel.cb.contents = [97#8]
      ∧ accessOk t.kernel.currentPt .verifyWrite 0x11c000#32 1#32 = true
      ∧ ¬ ReadServed t.kernel 0x11c000#32 1#32 := by
  obtain ⟨t, hrun, hf, hmm, hcb, -⟩ := exists_first_key
  have hidle := hf.ne (by decide)
  have hok : accessOk t.kernel.currentPt .verifyWrite 0x11c000#32 1#32 = true :=
    accessOk_iff.mpr ⟨by decide, fun p hw => absurd ⟨rfl, by decide, by decide⟩ hw.1.2.2⟩
  have hwf : t.kernel.cb.WellFormed := by
    rw [hcb]
    exact ((Traffic.stream_boot Machine.sample).wellFormed.enqueue _).1
  refine ⟨t, hrun, hidle, by rw [hcb]; rfl, hok, fun hserved => ?_⟩
  have hdel := (readServed_iff hf hwf hidle (by decide) hok).mp hserved 0 (by
    rw [Kernel.readCount, hcb]
    decide)
  rw [Kernel.currentPt_eq hf.threads, hmm] at hdel
  have hpage : (Machine.sample.boot.mm.pagusrTable bootSchedule.current 284).present = false := by
    rw [boot_mm]
    rfl
  exact absurd hdel.2.1 (by
    rw [show ((0x11c000#32).toNat + 0) / pageSize = 284 from rfl, hpage]
    decide)

end ZeOS.Practica
