import ZeOS.Practica.Console
import ZeOS.Zeos.Boot

/-!
# Writing to the console in the zeos kernel

`io.c`, `devices.c`, `access_ok` and `sys_write` of the kernel in `zeos/`. The
console is the one of `ZeOS.Practica.Console`; its attribute is a constant
here.

`sys_write` goes through a buffer too, `sys_buff`, but it is a variable of the
kernel, and the offset that moves along the caller's buffer moves along
`sys_buff` as well. The second chunk is stored behind it. What lies there is
for the linker to say: a store outside of `sys_buff` is marked and the bytes
are kept where they fall.
-/

namespace ZeOS.Zeos

open Practica (Console Word AccessType pageOf copyLoop storeRun copyLoop_eq)

/-! ## `errno.h` -/

abbrev eFAULT : ℤ := 14
abbrev eINVAL : ℤ := 22

/-- `sizeof(sys_buff)`. -/
abbrev sysBuffSize : ℕ := 64

/-! ## `io.c` and `devices.c` -/

/-- `printc`. -/
def printc (con : Console) (c : Byte) : Console :=
  { con with color := 0x0200#16 }.printc c

/-- Bytes printed one after the other. -/
def printAll (con : Console) (bytes : List Byte) : Console := bytes.foldl printc con

/-- The bytes of a string literal. -/
def text (string : String) : List Byte := string.toList.map fun c => BitVec.ofNat 8 c.toNat

/-- `printk`. -/
def printk (con : Console) (string : String) : Console := printAll con (text string)

/-- `sys_write_console`. -/
def sysWriteConsole (buffer : ℕ → Byte) (size : ℕ) (con : Console) : ℤ × Console :=
  (size, (List.range size).foldl (fun con i => printc con (buffer i)) con)

theorem printAll_append (con : Console) (bytes bytes' : List Byte) :
    printAll con (bytes ++ bytes') = printAll (printAll con bytes) bytes' :=
  List.foldl_append

/-- **What is printed leaves at the port**, byte by byte. -/
theorem port_printAll (con : Console) (bytes : List Byte) :
    (printAll con bytes).port = con.port ++ bytes := by
  induction bytes generalizing con with
  | nil => exact (List.append_nil _).symm
  | cons c bytes ih =>
    have hport : (printc con c).port = con.port ++ [c] := by
      unfold printc Console.printc
      dsimp only
      split_ifs <;> rfl
    show (printAll (printc con c) bytes).port = _
    rw [ih, hport, List.append_assoc, List.singleton_append]

theorem sysWriteConsole_eq (buffer : ℕ → Byte) (size : ℕ) (con : Console) :
    sysWriteConsole buffer size con
      = ((size : ℤ), printAll con ((List.range size).map buffer)) := by
  rw [sysWriteConsole, printAll, List.foldl_map]

/-! ## `access_ok` -/

/-- Checks if a user space pointer is valid. The `VERIFY_WRITE` case falls
through into the `default` one. -/
def accessOk (type : AccessType) (addr size : DWord) : Bool :=
  let addrIni := pageOf addr
  let addrFin := pageOf (addr + size)
  if addrFin < addrIni then false
  else
    let dflt := decide (pagLogInitData ≤ addrIni
      ∧ addrFin ≤ pagLogInitData + numPagCode + numPagData)
    match type with
    | .verifyWrite =>
      if pagLogInitData ≤ addrIni ∧ addrFin ≤ pagLogInitData + numPagData then true else dflt
    | .verifyRead => dflt

/-! ## `sys_write` -/

/-- What `sys_write` works on: the bytes from `sys_buff` on with a mark for a
store past its end, and the console. -/
structure Writing where
  sysBuff : ℕ → Byte
  overrun : Bool
  console : Console

attribute [ext] Writing

/-- `ESCRIPTURA`. -/
abbrev escriptura : ℤ := 1

/-- `check_fd`. -/
def checkFd (fd permissions : ℤ) : ℤ :=
  if fd ≠ 1 then -9 else if permissions ≠ escriptura then -13 else 0

namespace Writing

/-- A store to `sys_buff`. -/
def store (w : Writing) (i : ℕ) (b : Byte) : Writing :=
  { w with
    sysBuff := Function.update w.sysBuff i b
    overrun := w.overrun || !decide (i < sysBuffSize) }

/-- `copy_from_user` to `sys_buff`. A page of the caller that is not present
is a fault taken in kernel mode, and `pagefault_routine` does not return. -/
def copyFromUser (k : Kernel) (w : Writing) (start dest size : ℕ) : Option Writing :=
  if k.mm.MappedBlock k.cr3 start size then
    some (copyLoop (fun _ addr => k.mm.kernelLoad k.cr3 addr) store w start dest size)
  else none

/-- A round of the loop: the copy, and `sys_write_console` with the value it
returns. -/
def chunk (k : Kernel) (buffer : ℕ) (w : Writing) (offset n : ℕ) : Option (ℤ × Writing) :=
  (w.copyFromUser k (buffer + offset) offset n).map fun w =>
    let (ret, console) := sysWriteConsole (fun i => w.sysBuff (offset + i)) n w.console
    (ret, { w with console := console })

/-- The loop of `sys_write`. -/
def loop (k : Kernel) (buffer : ℕ) (w : Writing) (total offset : ℕ) (bytesLeidos : ℤ) :
    Option (ℤ × Writing) :=
  if 0 < total then
    if total < sysBuffSize then
      match w.chunk k buffer offset total with
      | none => none
      | some (ret, w) => loop k buffer w (total - total) (offset + total) (bytesLeidos + ret)
    else
      match w.chunk k buffer offset sysBuffSize with
      | none => none
      | some (ret, w) =>
        loop k buffer w (total - sysBuffSize) (offset + sysBuffSize) (bytesLeidos + ret)
  else some (bytesLeidos, w)
termination_by total
decreasing_by
  all_goals
    simp only [sysBuffSize] at *
    omega

end Writing

/-- `sys_write`, with the contents `sys_buff` has on entry. -/
def Kernel.sysWrite (k : Kernel) (sysBuff : ℕ → Byte) (console : Console) (fd : ℤ)
    (buffer : DWord) (size : ℤ) : Option (ℤ × Writing) :=
  let w : Writing := ⟨sysBuff, false, console⟩
  let retorno := checkFd fd escriptura
  if retorno ≠ 0 then some (retorno, w)
  else if buffer = 0 then some (-eFAULT, w)
  else if accessOk .verifyRead buffer (BitVec.ofInt 32 size) = false then some (-eFAULT, w)
  else if size < 0 then some (-eINVAL, w)
  else
    match w.loop k buffer.toNat size.toNat 0 0 with
    | none => none
    | some (bytesLeidos, w) => some (if bytesLeidos = size then bytesLeidos else -1, w)

/-! ## What the chunks leave -/

/-- The bytes from an address on, as the kernel reads them. -/
def Kernel.bytesFrom (k : Kernel) (addr n : ℕ) : List Byte :=
  (List.range n).map fun i => k.mm.kernelLoad k.cr3 (addr + i)

theorem Kernel.bytesFrom_add (k : Kernel) (addr n n' : ℕ) :
    k.bytesFrom addr (n + n') = k.bytesFrom addr n ++ k.bytesFrom (addr + n) n' := by
  unfold bytesFrom
  rw [List.range_add, List.map_append, List.map_map]
  refine congrArg _ (List.map_congr_left fun i _ => ?_)
  rw [Nat.add_assoc]
  rfl

namespace Writing

variable {k : Kernel} {w w' : Writing} {buffer offset n : ℕ}

/-- A run of stores from an index of `sys_buff` on. -/
theorem storeRun_store (w : Writing) (offset : ℕ) (bytes : ℕ → Byte) (n : ℕ) :
    storeRun store offset bytes w n
      = { w with
          sysBuff := fun i =>
            if offset ≤ i ∧ i < offset + n then bytes (i - offset) else w.sysBuff i
          overrun := w.overrun || decide (0 < n ∧ sysBuffSize < offset + n) } := by
  induction n with
  | zero =>
    refine Writing.ext (funext fun i => ?_) ?_ rfl
    · exact (if_neg (by omega)).symm
    · exact (Bool.or_false _).symm
  | succ n ih =>
    rw [storeRun, ih, store]
    refine Writing.ext (funext fun i => ?_) ?_ rfl
    · dsimp only
      rw [Function.update_apply]
      by_cases hi : i = offset + n
      · rw [if_pos hi, if_pos (by omega), hi, Nat.add_sub_cancel_left]
      · rw [if_neg hi]
        exact if_congr (by omega) rfl rfl
    · dsimp only
      rw [Bool.or_assoc, ← decide_not, ← Bool.decide_or]
      refine congrArg _ (decide_eq_decide.mpr ?_)
      omega

/-- **What a part of the buffer leaves when it has been written.** -/
structure Printed (k : Kernel) (buffer : ℕ) (w : Writing) (offset n : ℕ) (w' : Writing) :
    Prop where
  overrun : w'.overrun = (w.overrun || decide (0 < n ∧ sysBuffSize < offset + n))
  console : w'.console = printAll w.console (k.bytesFrom (buffer + offset) n)

theorem Printed.refl (k : Kernel) (buffer : ℕ) (w : Writing) (offset : ℕ) :
    Printed k buffer w offset 0 w where
  overrun := (Bool.or_false _).symm
  console := rfl

/-- Parts in a row are one part. -/
theorem Printed.trans {w'' : Writing} {n' : ℕ} (h : Printed k buffer w offset n w')
    (h' : Printed k buffer w' (offset + n) n' w'') :
    Printed k buffer w offset (n + n') w'' where
  overrun := by
    rw [h'.overrun, h.overrun, Bool.or_assoc, ← Bool.decide_or]
    refine congrArg _ (decide_eq_decide.mpr ?_)
    omega
  console := by
    rw [h'.console, h.console, Kernel.bytesFrom_add, printAll_append, Nat.add_assoc]

/-- **A chunk** of mapped addresses is printed; the mark is set if it ends
behind `sys_buff`. -/
theorem exists_chunk (hmap : k.mm.MappedBlock k.cr3 (buffer + offset) n) (w : Writing) :
    ∃ w', w.chunk k buffer offset n = some ((n : ℤ), w') ∧ Printed k buffer w offset n w' := by
  have hcopy : copyLoop (fun _ addr => k.mm.kernelLoad k.cr3 addr) store w (buffer + offset) offset n
      = _ := (copyLoop_eq fun _ _ _ _ => rfl).trans (storeRun_store w offset _ n)
  unfold chunk copyFromUser
  rw [if_pos hmap, hcopy, Option.map_some, sysWriteConsole_eq]
  refine ⟨_, rfl, rfl, congrArg (printAll w.console) (List.map_congr_left fun i hi => ?_)⟩
  dsimp only
  rw [if_pos ⟨Nat.le_add_right _ _, Nat.add_lt_add_left (List.mem_range.mp hi) _⟩,
    Nat.add_sub_cancel_left]

theorem chunk_eq_none (hmap : ¬ k.mm.MappedBlock k.cr3 (buffer + offset) n) (w : Writing) :
    w.chunk k buffer offset n = none := by
  unfold chunk copyFromUser
  rw [if_neg hmap]
  rfl

/-- **The loop** prints all there is, or faults. -/
theorem loop_eq (k : Kernel) (buffer : ℕ) (w : Writing) (total offset : ℕ) (bytesLeidos : ℤ) :
    (k.mm.MappedBlock k.cr3 (buffer + offset) total →
        ∃ w', w.loop k buffer total offset bytesLeidos = some (bytesLeidos + total, w')
          ∧ Printed k buffer w offset total w')
      ∧ (¬ k.mm.MappedBlock k.cr3 (buffer + offset) total →
        w.loop k buffer total offset bytesLeidos = none) := by
  induction total using Nat.strong_induction_on generalizing w offset bytesLeidos with
  | _ total ih =>
    by_cases htotal : 0 < total
    · obtain ⟨n, hn, hle, hround⟩ : ∃ n, 0 < n ∧ n ≤ total
          ∧ w.loop k buffer total offset bytesLeidos
            = match w.chunk k buffer offset n with
              | none => none
              | some (ret, w) =>
                loop k buffer w (total - n) (offset + n) (bytesLeidos + ret) := by
        rw [loop, if_pos htotal]
        split_ifs with hlast
        · exact ⟨total, htotal, le_rfl, rfl⟩
        · exact ⟨sysBuffSize, by decide, Nat.not_lt.mp hlast, rfl⟩
      obtain ⟨rest, rfl⟩ := Nat.exists_eq_add_of_le hle
      rw [hround, Practica.Mm.mappedBlock_add, Nat.add_sub_cancel_left]
      by_cases hmap : k.mm.MappedBlock k.cr3 (buffer + offset) n
      · obtain ⟨w₁, hchunk, hp⟩ := exists_chunk hmap w
        obtain ⟨hsome, hnone⟩ := ih rest (by omega) w₁ (offset + n) (bytesLeidos + n)
        rw [← Nat.add_assoc] at hsome hnone
        rw [hchunk]
        constructor
        · rintro ⟨-, hrest⟩
          obtain ⟨w₂, hloop, hp'⟩ := hsome hrest
          refine ⟨w₂, ?_, hp.trans hp'⟩
          have hsum : bytesLeidos + ((n + rest : ℕ) : ℤ) = bytesLeidos + n + rest := by omega
          rw [hsum]
          exact hloop
        · exact fun hnot => hnone fun hrest => hnot ⟨hmap, hrest⟩
      · rw [chunk_eq_none hmap]
        exact ⟨fun h => absurd h.1 hmap, fun _ => rfl⟩
    · obtain rfl : total = 0 := by omega
      rw [loop, if_neg htotal]
      refine ⟨fun _ => ⟨w, ?_, Printed.refl k buffer w offset⟩, fun hnot => ?_⟩
      · exact congrArg (fun ret => some (ret, w)) (Int.add_zero bytesLeidos).symm
      · exact absurd (fun i hi => absurd hi (Nat.not_lt_zero i)) hnot

end Writing

/-! ## The call -/

/-- The call writes within `sys_buff` only, prints the bytes of the caller's
buffer once each and in order, and returns how many there are. -/
def Kernel.WritesExactly (k : Kernel) (sysBuff : ℕ → Byte) (con : Console) (buffer : DWord)
    (size : ℤ) : Prop :=
  ∃ w, k.sysWrite sysBuff con 1 buffer size = some (size, w) ∧ w.overrun = false
    ∧ w.console = printAll con (k.bytesFrom buffer.toNat size.toNat)

variable {k : Kernel} {buffer : DWord} {n : ℕ}

/-- What `access_ok` lets a reader have: the block starts in user memory and
its end is at most one page behind it. -/
theorem accessOk_read (hn : n < 2 ^ 31) :
    accessOk .verifyRead buffer (BitVec.ofNat 32 n) = true ↔
      pagLogInitData * pageSize ≤ buffer.toNat
        ∧ buffer.toNat + n < (pagLogEnd + 1) * pageSize := by
  have hpage : ∀ a : DWord, pageOf a = a.toNat / pageSize := Practica.pageOf_eq
  have hsum : (buffer + BitVec.ofNat 32 n).toNat = (buffer.toNat + n) % 2 ^ 32 := by
    rw [BitVec.toNat_add, BitVec.toNat_ofNat, Nat.add_mod_mod]
  have hlt := buffer.isLt
  unfold accessOk
  rw [hpage, hpage, hsum]
  simp only [pagLogEnd, pagLogInitData, numPagKernel, numPagCode, numPagData, pageSize]
  split_ifs with hwrap
  · simp only [false_iff]
    omega
  · rw [decide_eq_true_iff]
    omega

/-- **The call past its tests**, by where the block is mapped. -/
theorem Kernel.writesExactly_iff (k : Kernel) (sysBuff : ℕ → Byte) (con : Console)
    (hn : n < 2 ^ 31) (hacc : accessOk .verifyRead buffer (BitVec.ofNat 32 n) = true) :
    k.WritesExactly sysBuff con buffer n ↔
      k.mm.MappedBlock k.cr3 buffer.toNat n ∧ n ≤ sysBuffSize := by
  have hnull : buffer ≠ 0 := by
    rintro rfl
    exact absurd ((accessOk_read hn).mp hacc).1 (by decide)
  obtain ⟨hsome, hnone⟩ := Writing.loop_eq k buffer.toNat ⟨sysBuff, false, con⟩ n 0 0
  rw [Nat.add_zero] at hsome hnone
  have hcall : k.sysWrite sysBuff con 1 buffer n
      = match Writing.loop k buffer.toNat ⟨sysBuff, false, con⟩ n 0 0 with
        | none => none
        | some (bytesLeidos, w) =>
          some (if bytesLeidos = (n : ℤ) then bytesLeidos else -1, w) := by
    have hneg : ¬ (n : ℤ) < 0 := by omega
    have hsize : BitVec.ofInt 32 (n : ℤ) = BitVec.ofNat 32 n := BitVec.ofInt_natCast 32 n
    unfold sysWrite
    dsimp only
    rw [if_neg (by decide), if_neg hnull, hsize, if_neg (by rw [hacc]; decide), if_neg hneg,
      Int.toNat_natCast]
  unfold WritesExactly
  rw [hcall, Int.toNat_natCast]
  by_cases hmap : k.mm.MappedBlock k.cr3 buffer.toNat n
  · obtain ⟨w, hloop, hp⟩ := hsome hmap
    rw [hloop, Int.zero_add]
    dsimp only
    rw [if_pos rfl]
    have hoverrun : w.overrun = false ↔ n ≤ sysBuffSize := by
      rw [hp.overrun, Bool.false_or, decide_eq_false_iff_not, Nat.zero_add]
      omega
    constructor
    · rintro ⟨w', heq, hin, -⟩
      obtain rfl : w = w' := congrArg Prod.snd (Option.some_inj.mp heq)
      exact ⟨hmap, hoverrun.mp hin⟩
    · exact fun h => ⟨w, rfl, hoverrun.mpr h.2, hp.console⟩
  · rw [hnone hmap]
    exact iff_of_false (by simp) fun h => hmap h.1

/-- **The pages of a process** end where its code does. -/
theorem mappedBlock_iff (hu : UserTable (k.mm.pagusrTable k.cr3)) (hn : n < 2 ^ 31)
    (hacc : accessOk .verifyRead buffer (BitVec.ofNat 32 n) = true) :
    k.mm.MappedBlock k.cr3 buffer.toNat n ↔
      n = 0 ∨ buffer.toNat + n ≤ pagLogEnd * pageSize := by
  obtain ⟨hstart, hend⟩ := (accessOk_read hn).mp hacc
  have htranslate : ∀ i < n, (k.mm.translate k.cr3 (buffer.toNat + i)).isSome ↔
      (buffer.toNat + i) / pageSize < pagLogEnd := by
    intro i hi
    have hmod : (buffer.toNat + i) % 2 ^ 32 = buffer.toNat + i := by
      simp only [pagLogEnd, numPagKernel, numPagCode, numPagData, pageSize] at hend
      omega
    unfold Practica.Mm.translate
    dsimp only
    rw [hmod]
    by_cases hlt : (buffer.toNat + i) / pageSize < pagLogEnd
    · have hge : numPagKernel ≤ (buffer.toNat + i) / pageSize := by
        simp only [pagLogInitData, numPagKernel, pageSize] at *
        omega
      rw [if_pos ⟨hlt.trans (by decide), (hu.user _ hge hlt).1⟩]
      exact iff_of_true rfl hlt
    · rw [hu.beyond _ (Nat.not_lt.mp hlt), if_neg (fun h => Bool.false_ne_true h.2)]
      exact iff_of_false Bool.false_ne_true hlt
  constructor
  · intro hmap
    by_contra hnot
    obtain ⟨hpos, hbehind⟩ := not_or.mp hnot
    have hlast := (htranslate (n - 1) (by omega)).mp (hmap (n - 1) (by omega))
    simp only [pagLogEnd, numPagKernel, numPagCode, numPagData, pageSize] at *
    omega
  · intro h i hi
    refine (htranslate i hi).mpr ?_
    rcases h with rfl | h
    · exact absurd hi (Nat.not_lt_zero i)
    · simp only [pagLogEnd, numPagKernel, numPagCode, numPagData, pageSize] at *
      omega

/-! ## In a run -/

/-- **`sys_write` stays inside `sys_buff`, and writes the whole buffer, exactly
if** there is nothing to write, or one chunk of it that ends where the pages of
the process do. Behind them `access_ok` lets one more page through, which is
not mapped. -/
theorem sysWrite_exact_iff {ram : Location → Byte} {w : World} (hw : Reachable ram w)
    (hidle : w.kernel.current ≠ w.kernel.idleTask) (sysBuff : ℕ → Byte) (con : Console)
    (buffer : DWord) (size : ℤ) (hpos : 0 ≤ size) (hmax : size ≤ intMax)
    (hacc : accessOk .verifyRead buffer (BitVec.ofInt 32 size) = true) :
    w.kernel.WritesExactly sysBuff con buffer size ↔
      size = 0 ∨ size ≤ sysBuffSize ∧ buffer.toNat + size ≤ pagLogEnd * pageSize := by
  obtain ⟨n, rfl⟩ := Int.eq_ofNat_of_zero_le hpos
  have hn : n < 2 ^ 31 := by
    simp only [intMax] at hmax
    omega
  have hsize : BitVec.ofInt 32 (n : ℤ) = BitVec.ofNat 32 n := BitVec.ofInt_natCast 32 n
  rw [hsize] at hacc
  obtain ⟨l, hq⟩ := hw.sound.queued
  have hu : UserTable (w.kernel.mm.pagusrTable w.kernel.cr3) := by
    rw [hq.cr3]
    exact hw.sound.tabled.user _ (hw.sound.current_alive hidle)
  rw [Kernel.writesExactly_iff w.kernel sysBuff con hn hacc, mappedBlock_iff hu hn hacc]
  simp only [sysBuffSize, pagLogEnd, numPagKernel, numPagCode, numPagData, pageSize]
  omega

/-- The first process writes a greeting of five bytes at the start of its
data. -/
theorem sysWrite_exact_iff_five :
    (World.boot (fun _ => 0)).kernel.WritesExactly (fun _ => 0) Console.start 0x100000#32 5 := by
  obtain ⟨-, hcur, hidle, -⟩ := World.boot_frame (fun _ => 0)
  refine (sysWrite_exact_iff ⟨[], Run.nil _⟩ ?_ (fun _ => 0) Console.start 0x100000#32 5
    (by decide) (by decide) (by decide)).mpr (Or.inr ⟨by decide, by decide⟩)
  rw [hcur, hidle]
  decide

/-- **Two chunks leave `sys_buff`**: the 67 bytes of the test in `user.c`. -/
theorem not_sysWrite_exact :
    Reachable (fun _ => 0) (World.boot (fun _ => 0))
      ∧ (World.boot (fun _ => 0)).kernel.current ≠ (World.boot (fun _ => 0)).kernel.idleTask
      ∧ accessOk .verifyRead 0x100000#32 (BitVec.ofInt 32 67) = true
      ∧ ¬ (World.boot (fun _ => 0)).kernel.WritesExactly (fun _ => 0) Console.start
        0x100000#32 67 := by
  obtain ⟨-, hcur, hidle, -⟩ := World.boot_frame (fun _ => 0)
  refine ⟨⟨[], Run.nil _⟩, ?_, by decide, fun hexact => ?_⟩
  · rw [hcur, hidle]
    decide
  · have hchunk := (Kernel.writesExactly_iff (n := 67) _ _ _ (by decide) (by decide)).mp hexact
    exact absurd hchunk.2 (by decide)

end ZeOS.Zeos
