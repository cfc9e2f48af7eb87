import ZeOS.Practica.Copy
import ZeOS.Practica.Entry

/-!
# Writing to the console

`io.c`, `devices.c` and the body of `sys_write`. The console is kept beside
the memory of the machine: the cursor, the attribute, the words of the screen,
and the bytes sent to the debugging port. The screen is in frames of the
kernel, which no page from `USER_FIRST_PAGE` on maps; but a child may read the
pages below, and finds in page 184 what is on the screen.

`sys_write` moves the caller's buffer to the console in chunks, through a
buffer on its stack. How the bytes are cut into chunks leaves no trace: the
console ends as if each byte of the caller's buffer had been printed once, in
order, and no store to the buffer on the stack lies outside of it. A chunk is
printed by a loop over the buffer on the stack, and a loop over `n + k`
indices is a loop over the first `n` followed by one over the rest.
-/

namespace ZeOS.Practica

abbrev Word := BitVec 16

/-- `NUM_COLUMNS`. -/
abbrev numColumns : ℕ := 80

/-- `NUM_ROWS`. -/
abbrev numRows : ℕ := 25

/-- `TAM_BUFFER`. -/
abbrev tamBuffer : ℕ := 512

/-- The console: the cursor, the attribute in the high byte of a word, the
words from `0xb8000` on, and what went out at port `0xe9`. -/
structure Console where
  x : Byte
  y : Byte
  color : Word
  screen : ℕ → Word
  port : List Byte

namespace Console

/-- The cursor moves to the start of the next row. -/
def newLine (con : Console) : Console :=
  { con with x := 0, y := BitVec.ofNat 8 ((con.y.toNat + 1) % numRows) }

/-- `printc`. -/
def printc (con : Console) (c : Byte) : Console :=
  let con := { con with port := con.port ++ [c] }
  if c = 10#8 then con.newLine
  else
    let ch : Word := c.setWidth 16 ||| con.color
    let con :=
      { con with
        screen := Function.update con.screen (con.y.toNat * numColumns + con.x.toNat) ch
        x := con.x + 1 }
    if numColumns ≤ con.x.toNat then con.newLine else con

/-- A byte of the screen, which starts at frame `0xb8`. -/
def byteAt (con : Console) (loc : Location) : Byte :=
  let w := con.screen (((loc.1 - 0xb8) * pageSize + loc.2) / 2)
  if loc.2 % 2 = 0 then w.setWidth 8 else (w >>> 8).setWidth 8

/-- `printc` of a run of bytes, once each and in order. -/
def printBytes (con : Console) (bytes : ℕ → Byte) (n : ℕ) : Console :=
  (List.range n).foldl (fun con i => con.printc (bytes i)) con

/-- `sys_write_console`. -/
def sysWriteConsole (buffer : ℕ → Byte) (size : ℕ) (con : Console) : ℤ × Console :=
  (size, con.printBytes buffer size)

/-- A run of bytes is cut anywhere. -/
theorem printBytes_add (con : Console) (bytes : ℕ → Byte) (n k : ℕ) :
    con.printBytes bytes (n + k)
      = (con.printBytes bytes n).printBytes (fun i => bytes (n + i)) k := by
  rw [printBytes, List.range_add, List.foldl_append, List.foldl_map]
  rfl

theorem printBytes_congr (con : Console) {bytes bytes' : ℕ → Byte} {n : ℕ}
    (h : ∀ i < n, bytes i = bytes' i) : con.printBytes bytes n = con.printBytes bytes' n :=
  List.foldl_ext _ _ con (fun _ i hi => by rw [h i (List.mem_range.mp hi)])

end Console

/-! ## The chunks of `sys_write` -/

/-- The addresses of a block are mapped. -/
def Mm.MappedBlock (m : Mm) (s : Slot) (addr n : ℕ) : Prop :=
  ∀ i < n, (m.translate s (addr + i)).isSome

instance (m : Mm) (s : Slot) (addr n : ℕ) : Decidable (m.MappedBlock s addr n) :=
  inferInstanceAs (Decidable (∀ i < n, _))

theorem Mm.mappedBlock_add (m : Mm) (s : Slot) (addr n k : ℕ) :
    m.MappedBlock s addr (n + k) ↔ m.MappedBlock s addr n ∧ m.MappedBlock s (addr + n) k := by
  constructor
  · refine fun h => ⟨fun i hi => h i (by omega), fun i hi => ?_⟩
    rw [Nat.add_assoc]
    exact h (n + i) (by omega)
  · rintro ⟨h₁, h₂⟩ i hi
    rcases Nat.lt_or_ge i n with hlt | hge
    · exact h₁ i hlt
    · have hrest := h₂ (i - n) (by omega)
      rwa [Nat.add_assoc, Nat.add_sub_cancel' hge] at hrest

/-- No address of a block leads into the first 256 frames, the kernel's. -/
def Mm.OffKernel (m : Mm) (s : Slot) (addr n : ℕ) : Prop :=
  ∀ i < n, ∀ loc ∈ m.translate s (addr + i), numPagKernel ≤ loc.1

instance (m : Mm) (s : Slot) (addr n : ℕ) : Decidable (m.OffKernel s addr n) :=
  inferInstanceAs (Decidable (∀ i < n, ∀ loc ∈ m.translate s (addr + i), _))

theorem Mm.OffKernel.left {m : Mm} {s : Slot} {addr n k : ℕ} (h : m.OffKernel s addr (n + k)) :
    m.OffKernel s addr n := fun i hi => h i (Nat.lt_add_right k hi)

theorem Mm.OffKernel.right {m : Mm} {s : Slot} {addr n k : ℕ} (h : m.OffKernel s addr (n + k)) :
    m.OffKernel s (addr + n) k := by
  intro i hi
  rw [Nat.add_assoc]
  exact h (n + i) (Nat.add_lt_add_left hi n)

/-- What `sys_write` works on: the memory of the machine, the buffer on its
stack with a mark for a store outside of it, and the console. -/
structure Writing where
  mm : Mm
  localbuffer : ℕ → Byte
  overrun : Bool
  console : Console

attribute [ext] Writing

namespace Writing

/-- A byte of the caller's buffer. The frames from `0xb8` to `0xbf` are the
screen. -/
def load (cr3 : Slot) (w : Writing) (addr : ℕ) : Byte :=
  match w.mm.translate cr3 addr with
  | some loc => if 0xb8 ≤ loc.1 ∧ loc.1 < 0xc0 then w.console.byteAt loc else w.mm.ram loc
  | none => 0

/-- A store to `localbuffer`. -/
def store (w : Writing) (i : ℕ) (b : Byte) : Writing :=
  { w with
    localbuffer := Function.update w.localbuffer i b
    overrun := w.overrun || !decide (i < tamBuffer) }

/-- `copy_from_user` to `localbuffer`. A page of the caller that is not
present is a fault taken in kernel mode. -/
def copyFromUser (cr3 : Slot) (w : Writing) (start size : ℕ) : Writing :=
  let w := { w with mm := w.mm.require (w.mm.MappedBlock cr3 start size) }
  copyLoop (load cr3) store w start 0 size

/-- A chunk: the copy and `sys_write_console`, with the value it returns. -/
def chunk (cr3 : Slot) (w : Writing) (buffer size : ℕ) : ℤ × Writing :=
  let w := w.copyFromUser cr3 buffer size
  let (ret, console) := w.console.sysWriteConsole w.localbuffer size
  (ret, { w with console := console })

theorem chunk_fst (cr3 : Slot) (w : Writing) (buffer size : ℕ) :
    (w.chunk cr3 buffer size).1 = size := rfl

/-- The loop of `sys_write`: what is left of the buffer when it ends, and of
the count. -/
def loop (cr3 : Slot) (w : Writing) (buffer : ℕ) (bytesLeft : ℤ) : Writing × ℕ × ℤ :=
  if (tamBuffer : ℤ) < bytesLeft then
    let r := w.chunk cr3 buffer tamBuffer
    loop cr3 r.2 (buffer + r.1.toNat) (bytesLeft - r.1)
  else (w, buffer, bytesLeft)
termination_by bytesLeft.toNat
decreasing_by
  rw [chunk_fst]
  simp only [tamBuffer] at *
  omega

end Writing

/-- `sys_write`, with the contents its stack buffer has on entry. -/
def Console.sysWrite (console : Console) (fd buffer nbytes : DWord) (localbuffer : ℕ → Byte)
    (k : Kernel) : ℤ × Writing :=
  let w : Writing := ⟨k.mm, localbuffer, false, console⟩
  let ret := Kernel.checkFd fd Kernel.escriptura
  if ret ≠ 0 then (ret, w)
  else if nbytes.toInt < 0 then (-eINVAL, w)
  else if !accessOk k.currentPt .verifyRead buffer nbytes then (-eFAULT, w)
  else
    let (w, buffer, bytesLeft) := w.loop k.sched.cr3 buffer.toNat nbytes.toInt
    if 0 < bytesLeft then
      let (ret, w) := w.chunk k.sched.cr3 buffer bytesLeft.toNat
      (nbytes.toInt - (bytesLeft - ret), w)
    else (nbytes.toInt - bytesLeft, w)

/-! ## What the chunks leave -/

namespace Writing

variable {cr3 : Slot} {w : Writing} {addr n : ℕ}

/-- A byte that is not the kernel's is read from memory. -/
theorem load_eq {i : ℕ} (h : w.mm.OffKernel cr3 addr n) (hi : i < n) :
    load cr3 w (addr + i) = Mm.kernelLoad cr3 w.mm (addr + i) := by
  rw [load, Mm.kernelLoad]
  cases htr : w.mm.translate cr3 (addr + i) with
  | none => rfl
  | some loc =>
    have hloc : 256 ≤ loc.1 := h i hi loc htr
    exact if_neg fun hc => absurd hc.2 (by omega)

/-- A run of stores into the buffer on the stack. -/
theorem storeRun_store (bytes : ℕ → Byte) (hn : n ≤ tamBuffer) :
    storeRun store 0 bytes w n
      = { w with localbuffer := fun i => if i < n then bytes i else w.localbuffer i } := by
  induction n with
  | zero => rfl
  | succ n ih =>
    rw [storeRun, ih (Nat.le_of_succ_le hn), store, Nat.zero_add,
      decide_eq_true (Nat.lt_of_succ_le hn), Bool.not_true]
    refine Writing.ext rfl (funext fun i => ?_) (Bool.or_false _) rfl
    dsimp only
    rw [Function.update_apply]
    by_cases hi : i = n
    · rw [if_pos hi, if_pos (by omega), hi]
    · rw [if_neg hi]
      exact if_congr (by omega) rfl rfl

/-- The copy of a chunk. -/
theorem copyLoop_localbuffer (w : Writing) (hn : n ≤ tamBuffer) :
    copyLoop (load cr3) store w addr 0 n
      = { w with localbuffer := fun i =>
            if i < n then load cr3 w (addr + i) else w.localbuffer i } := by
  have hload : ∀ k < n, ∀ i < n,
      load cr3 (storeRun store 0 (fun i => load cr3 w (addr + i)) w k) (addr + i)
        = load cr3 w (addr + i) := by
    intro k hk i _
    rw [storeRun_store _ (hk.le.trans hn)]
    rfl
  rw [copyLoop_eq hload, storeRun_store _ hn]

/-- **`copy_from_user` of a chunk**: the bytes of the caller are in the
buffer, and no store has missed it. -/
theorem copyFromUser_eq (hn : n ≤ tamBuffer) :
    w.copyFromUser cr3 addr n
      = { w with
          mm := w.mm.require (w.mm.MappedBlock cr3 addr n)
          localbuffer := fun i =>
            if i < n then load cr3 w (addr + i) else w.localbuffer i } :=
  copyLoop_localbuffer _ hn

/-- **What a part of the buffer leaves when it has been written**, but for
the contents of the buffer on the stack. Its bytes have been printed; a part
on the screen has changed meanwhile. -/
structure Printed (cr3 : Slot) (w : Writing) (addr n : ℕ) (w' : Writing) : Prop where
  mm : w'.mm = w.mm.require (w.mm.MappedBlock cr3 addr n)
  overrun : w'.overrun = w.overrun
  console : ∃ bytes, w'.console = w.console.printBytes bytes n
    ∧ (w.mm.OffKernel cr3 addr n → ∀ i < n, bytes i = Mm.kernelLoad cr3 w.mm (addr + i))

theorem Printed.refl (cr3 : Slot) (w : Writing) (addr : ℕ) : Printed cr3 w addr 0 w where
  mm := by
    have hmap : w.mm.MappedBlock cr3 addr 0 := fun i hi => absurd hi (Nat.not_lt_zero i)
    rw [Mm.require, decide_eq_true hmap]
    exact Mm.ext rfl rfl rfl rfl (Bool.or_false _).symm
  overrun := rfl
  console := ⟨fun _ => 0, rfl, fun _ i hi => absurd hi (Nat.not_lt_zero i)⟩

/-- Parts in a row are one part. -/
theorem Printed.trans {k : ℕ} {w₁ w₂ : Writing} (h₁ : Printed cr3 w addr n w₁)
    (h₂ : Printed cr3 w₁ (addr + n) k w₂) : Printed cr3 w addr (n + k) w₂ where
  mm := by
    rw [h₂.mm, h₁.mm]
    refine Mm.ext rfl rfl rfl rfl ?_
    show (w.mm.stuck || !decide (w.mm.MappedBlock cr3 addr n)
      || !decide (w.mm.MappedBlock cr3 (addr + n) k))
      = (w.mm.stuck || !decide (w.mm.MappedBlock cr3 addr (n + k)))
    rw [decide_eq_decide.mpr (Mm.mappedBlock_add w.mm cr3 addr n k), Bool.decide_and,
      Bool.not_and, Bool.or_assoc]
  overrun := h₂.overrun.trans h₁.overrun
  console := by
    obtain ⟨bytes₁, hcon₁, hread₁⟩ := h₁.console
    obtain ⟨bytes₂, hcon₂, hread₂⟩ := h₂.console
    refine ⟨fun i => if i < n then bytes₁ i else bytes₂ (i - n), ?_, fun hoff i hi => ?_⟩
    · have hfirst : w.console.printBytes (fun i => if i < n then bytes₁ i else bytes₂ (i - n)) n
          = w.console.printBytes bytes₁ n :=
        Console.printBytes_congr _ fun i hi => if_pos hi
      rw [hcon₂, hcon₁, Console.printBytes_add, hfirst]
      refine Console.printBytes_congr _ fun i _ => ?_
      rw [if_neg (Nat.not_lt.mpr (Nat.le_add_right n i)), Nat.add_sub_cancel_left]
    · dsimp only
      split_ifs with hn
      · exact hread₁ hoff.left i hn
      · have hoff₂ : w₁.mm.OffKernel cr3 (addr + n) k := by
          rw [h₁.mm]
          exact hoff.right
        rw [hread₂ hoff₂ (i - n) (by omega), h₁.mm, Nat.add_assoc,
          Nat.add_sub_cancel' (Nat.not_lt.mp hn)]
        rfl

/-- **A chunk.** -/
theorem printed_chunk (hn : n ≤ tamBuffer) :
    Printed cr3 w addr n (w.chunk cr3 addr n).2 := by
  have hcopy : w.copyFromUser cr3 addr n = _ := copyFromUser_eq hn
  refine ⟨?_, ?_, fun i => load cr3 w (addr + i), ?_, fun hoff i hi => load_eq hoff hi⟩
  · show (w.copyFromUser cr3 addr n).mm = _
    rw [hcopy]
  · show (w.copyFromUser cr3 addr n).overrun = _
    rw [hcopy]
  · show (w.copyFromUser cr3 addr n).console.printBytes
      (w.copyFromUser cr3 addr n).localbuffer n = _
    rw [hcopy]
    exact Console.printBytes_congr _ (fun i hi => if_pos hi)

/-- **The loop** writes whole chunks and leaves a rest that fits one. -/
theorem loop_eq (cr3 : Slot) (w : Writing) (addr n : ℕ) :
    ∃ w' d, w.loop cr3 addr n = (w', addr + d, ((n - d : ℕ) : ℤ)) ∧ d ≤ n
      ∧ n - d ≤ tamBuffer ∧ Printed cr3 w addr d w' := by
  induction n using Nat.strong_induction_on generalizing w addr with
  | _ n ih =>
    rw [loop]
    by_cases hn : (tamBuffer : ℤ) < (n : ℤ)
    · rw [if_pos hn]
      have hlt : tamBuffer < n := Int.ofNat_lt.mp hn
      have hleft : (n : ℤ) - (w.chunk cr3 addr tamBuffer).1 = ((n - tamBuffer : ℕ) : ℤ) := by
        rw [chunk_fst]
        omega
      obtain ⟨w', d, hloop, hd, hrest, hp⟩ :=
        ih (n - tamBuffer) (by simp only [tamBuffer] at *; omega)
        (w.chunk cr3 addr tamBuffer).2 (addr + tamBuffer)
      refine ⟨w', tamBuffer + d, ?_, by omega, by omega, (printed_chunk le_rfl).trans hp⟩
      dsimp only
      rw [hleft, chunk_fst, Int.toNat_natCast, hloop, Nat.add_assoc, Nat.sub_sub]
    · rw [if_neg hn]
      exact ⟨w, 0, rfl, Nat.zero_le n, by omega, Printed.refl cr3 w addr⟩

end Writing

/-! ## The call -/

/-- **A call past its tests** writes the whole buffer. -/
theorem Console.printed_sysWrite (con : Console) (localbuffer : ℕ → Byte) {k : Kernel}
    {buffer nbytes : DWord} (hn : 0 ≤ nbytes.toInt)
    (hacc : accessOk k.currentPt .verifyRead buffer nbytes = true) :
    ∃ w, con.sysWrite 1#32 buffer nbytes localbuffer k = (nbytes.toInt, w)
      ∧ Writing.Printed k.sched.cr3 ⟨k.mm, localbuffer, false, con⟩ buffer.toNat nbytes.toNat
          w := by
  have hint : nbytes.toInt = (nbytes.toNat : ℤ) := toInt_eq_toNat_of_nonneg hn
  obtain ⟨w, d, hloop, hd, hrest, hp⟩ := Writing.loop_eq k.sched.cr3
    ⟨k.mm, localbuffer, false, con⟩ buffer.toNat nbytes.toNat
  have hfd : ¬ Kernel.checkFd 1#32 Kernel.escriptura ≠ 0 := by decide
  rw [Console.sysWrite, if_neg hfd, if_neg (Int.not_lt.mpr hn), hacc, hint, hloop]
  dsimp only
  by_cases hleft : (0 : ℤ) < ((nbytes.toNat - d : ℕ) : ℤ)
  · have hchunk : Writing.Printed k.sched.cr3 w (buffer.toNat + d) (nbytes.toNat - d) _ :=
      Writing.printed_chunk hrest
    have hall := hp.trans hchunk
    rw [Nat.add_sub_cancel' hd] at hall
    refine ⟨_, ?_, hall⟩
    rw [if_pos hleft, Int.toNat_natCast, Writing.chunk_fst, Int.sub_self, Int.sub_zero]
    rfl
  · have hzero : d = nbytes.toNat := by omega
    refine ⟨w, ?_, hzero ▸ hp⟩
    rw [if_neg hleft, hzero, Nat.sub_self]
    rfl

/-- The only descriptor that can be written is 1. -/
theorem Kernel.eq_one_of_checkFd {fd : DWord} (h : Kernel.checkFd fd Kernel.escriptura = 0) :
    fd = 1#32 := by
  by_contra hne
  have hint : fd.toInt ≠ 1 := fun hc => hne (BitVec.eq_of_toInt_eq hc)
  rw [checkFd, if_pos hint] at h
  exact absurd h (by decide)

/-- **What the call returns and asks of the memory** is what `Kernel.sysWrite`
says, whatever is on the screen. -/
theorem Kernel.sysWrite_eq_console (k : Kernel) (con : Console) (localbuffer : ℕ → Byte)
    (fd buffer nbytes : DWord) :
    k.sysWrite fd buffer nbytes = ((con.sysWrite fd buffer nbytes localbuffer k).1,
      { k with mm := (con.sysWrite fd buffer nbytes localbuffer k).2.mm }) := by
  by_cases hfd : Kernel.checkFd fd Kernel.escriptura ≠ 0
  · rw [Kernel.sysWrite, Console.sysWrite, if_pos hfd, if_pos hfd]
  by_cases hneg : nbytes.toInt < 0
  · rw [Kernel.sysWrite, Console.sysWrite, if_neg hfd, if_pos hneg, if_neg hfd, if_pos hneg]
  cases hacc : accessOk k.currentPt .verifyRead buffer nbytes with
  | false =>
    rw [Kernel.sysWrite, Console.sysWrite, if_neg hfd, if_neg hneg, hacc, if_neg hfd, if_neg hneg]
    rfl
  | true =>
    obtain rfl := Kernel.eq_one_of_checkFd (not_not.mp hfd)
    obtain ⟨w, hres, hp⟩ := con.printed_sysWrite localbuffer (Int.not_lt.mp hneg) hacc
    rw [hres, hp.mm, Kernel.sysWrite, if_neg hfd, if_neg hneg, hacc]
    rfl

/-- **`sys_write` is transparent to chunking**: a buffer the caller can read,
in frames that are not the kernel's, is written whole, no store misses the
buffer on the stack, and the console is as if its bytes had been printed one by
one. -/
theorem sysWrite_transparent (k : Kernel) (con : Console) (localbuffer : ℕ → Byte)
    (buffer nbytes : DWord) (bytes : ℕ → Byte) (hn : 0 ≤ nbytes.toInt)
    (hacc : accessOk k.currentPt .verifyRead buffer nbytes = true)
    (hbytes : ∀ i < nbytes.toNat, k.mm.userLoad k.sched.cr3 (buffer.toNat + i) = some (bytes i))
    (huser : k.mm.OffKernel k.sched.cr3 buffer.toNat nbytes.toNat) :
    ∃ w, con.sysWrite 1#32 buffer nbytes localbuffer k = (nbytes.toInt, w)
      ∧ w.overrun = false ∧ w.mm = k.mm ∧ w.console = con.printBytes bytes nbytes.toNat := by
  obtain ⟨w, hres, hp⟩ := con.printed_sysWrite localbuffer hn hacc
  have hload : ∀ i < nbytes.toNat, k.mm.translate k.sched.cr3 (buffer.toNat + i) ≠ none
      ∧ Mm.kernelLoad k.sched.cr3 k.mm (buffer.toNat + i) = bytes i := by
    intro i hi
    have hb := hbytes i hi
    rw [Mm.userLoad] at hb
    split_ifs at hb
    rw [Mm.kernelLoad]
    cases htr : k.mm.translate k.sched.cr3 (buffer.toNat + i) with
    | none =>
      rw [htr] at hb
      exact absurd hb (by simp)
    | some loc =>
      rw [htr] at hb
      exact ⟨Option.some_ne_none loc, Option.some_inj.mp hb⟩
  have hmap : k.mm.MappedBlock k.sched.cr3 buffer.toNat nbytes.toNat :=
    fun i hi => Option.isSome_iff_ne_none.mpr (hload i hi).1
  refine ⟨w, hres, hp.overrun, ?_, ?_⟩
  · rw [hp.mm, Mm.require, decide_eq_true hmap]
    exact Mm.ext rfl rfl rfl rfl (Bool.or_false _)
  · obtain ⟨printed, hcon, hread⟩ := hp.console
    rw [hcon]
    exact Console.printBytes_congr con (fun i hi => (hread huser i hi).trans (hload i hi).2)

/-- The console the kernel starts with. -/
def Console.start : Console := ⟨0, 19, 0x0200, fun _ => 0, []⟩

/-- Bytes of which no two in a row of 251 are the same. -/
def countBytes (i : ℕ) : Byte := BitVec.ofNat 8 (i % 251)

/-- The first task writes 600 bytes of its data, more than a chunk. -/
theorem sysWrite_transparent_boot :
    ∃ M w, Console.start.sysWrite 1#32 0x108000#32 600#32 (fun _ => 0) (Machine.boot M) = (600, w)
      ∧ w.console = Console.start.printBytes countBytes 600 := by
  let M : Machine := { Machine.sample with ram := fun loc => countBytes loc.2 }
  have hf := follows_boot M
  have hcr3 : M.boot.sched.cr3 = 1 := hf.threads.cr3_eq
  have hpt : M.boot.currentPt = bootTable M := by
    rw [Kernel.currentPt_eq hf.threads, boot_mm]
    rfl
  have hentry : bootTable M 264 = ⟨true, true, true, BitVec.ofNat 20 272⟩ := if_pos (by decide)
  have htab : M.boot.mm.pagusrTable 1 264 = ⟨true, true, true, BitVec.ofNat 20 272⟩ := by
    rw [boot_mm]
    exact hentry
  have hacc : accessOk M.boot.currentPt .verifyRead 0x108000#32 600#32 = true := by
    refine accessOk_iff.mpr ⟨by decide, fun p hw => ?_⟩
    have hp : p = 264 := by
      have h₁ : 264 ≤ p := hw.2.1
      have h₂ : p < 264 + 1 := hw.2.2
      omega
    rw [hpt, hp, getFrame, hentry]
    decide
  have haddr : (0x108000#32).toNat = 264 * pageSize := by decide
  have htr : ∀ i < (600#32).toNat,
      M.boot.mm.translate M.boot.sched.cr3 ((0x108000#32).toNat + i) = some (272, i) := by
    intro i hi
    replace hi : i < 600 := hi
    rw [hcr3, haddr, Mm.translate_page (by decide) (hi.trans (by decide)) (by rw [htab]), getFrame,
      htab]
    rfl
  have hbytes : ∀ i < (600#32).toNat, M.boot.mm.userLoad M.boot.sched.cr3
      ((0x108000#32).toNat + i) = some (countBytes i) := by
    intro i hi
    have hpage : (264 * pageSize + i) % 2 ^ 32 / pageSize = 264 := by
      replace hi : i < 600 := hi
      simp only [pageSize]
      omega
    rw [Mm.userLoad, htr i hi, hcr3, haddr, hpage, htab, if_pos rfl, boot_mm]
    rfl
  have huser : M.boot.mm.OffKernel M.boot.sched.cr3 (0x108000#32).toNat (600#32).toNat := by
    intro i hi loc hloc
    obtain rfl := Option.some_inj.mp ((htr i hi).symm.trans hloc)
    exact (by decide : numPagKernel ≤ 272)
  obtain ⟨w, hres, -, -, hcon⟩ := sysWrite_transparent M.boot Console.start (fun _ => 0)
    0x108000#32 600#32 countBytes (by decide) hacc hbytes huser
  exact ⟨M, w, hres, hcon⟩

end ZeOS.Practica
