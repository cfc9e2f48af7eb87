import ZeOS.Writes
import ZeOS.Practica.Utils

/-!
# What the copy loop does

The loop moves words while it can and bytes at the end, and a word is loaded
whole before any of its bytes is stored. Where nothing it stores is read
back this makes no difference: the bytes that arrive are those the source
held before the loop. Read on the memory of the machine, a copy to a range
that is mapped is a run of writes to the bytes the range is translated to,
and nothing else changes.
-/

namespace ZeOS.Practica

/-! ## Stores of fixed bytes -/

section Stores

variable {M : Type*} (store : M → ℕ → Byte → M)

/-- A run of stores from address `q` on. -/
def storeRun (q : ℕ) (bytes : ℕ → Byte) (m : M) : ℕ → M
  | 0 => m
  | n + 1 => store (storeRun q bytes m n) (q + n) (bytes n)

variable {store} {load : M → ℕ → Byte} {p q n : ℕ} {m : M}

/-- A run of stores is cut anywhere. -/
theorem storeRun_add (bytes : ℕ → Byte) (n k : ℕ) :
    storeRun store q bytes m (n + k)
      = storeRun store (q + n) (fun i => bytes (n + i)) (storeRun store q bytes m n) k := by
  induction k with
  | zero => rfl
  | succ k ih => rw [← Nat.add_assoc, storeRun, ih, storeRun, Nat.add_assoc]

/-- The byte loop, entered after `k` bytes have been stored. -/
theorem copyBytes_storeRun
    (hload : ∀ k < n, ∀ i < n, load (storeRun store q (fun i => load m (p + i)) m k) (p + i)
      = load m (p + i)) {size k : ℕ} (hk : k + size = n) :
    copyBytes load store (storeRun store q (fun i => load m (p + i)) m k) (p + k) (q + k) size
      = storeRun store q (fun i => load m (p + i)) m n := by
  induction size generalizing k with
  | zero =>
    subst hk
    rfl
  | succ size ih =>
    have hk' : k + 1 + size = n := by omega
    rw [copyBytes, hload k (by omega) k (by omega)]
    exact ih hk'

/-- The word loop, entered after `k` bytes have been stored. -/
theorem copyLoop_storeRun
    (hload : ∀ k < n, ∀ i < n, load (storeRun store q (fun i => load m (p + i)) m k) (p + i)
      = load m (p + i)) {size k : ℕ} (hk : k + size = n) :
    copyLoop load store (storeRun store q (fun i => load m (p + i)) m k) (p + k) (q + k) size
      = storeRun store q (fun i => load m (p + i)) m n := by
  induction size using Nat.strong_induction_on generalizing k with
  | _ size ih =>
    match size with
    | 0 => exact copyBytes_storeRun hload hk
    | 1 => exact copyBytes_storeRun hload hk
    | 2 => exact copyBytes_storeRun hload hk
    | 3 => exact copyBytes_storeRun hload hk
    | 4 => exact copyBytes_storeRun hload hk
    | size + 5 =>
      rw [copyLoop, copyWord]
      simp only [Nat.add_assoc]
      rw [hload k (by omega) k (by omega), hload k (by omega) (k + 1) (by omega),
        hload k (by omega) (k + 2) (by omega), hload k (by omega) (k + 3) (by omega)]
      have hk' : k + 4 + (size + 1) = n := by omega
      exact ih (size + 1) (by omega) hk'

/-- **The copy loop stores what its source held**, if what it stores is not
read back. -/
theorem copyLoop_eq
    (hload : ∀ k < n, ∀ i < n, load (storeRun store q (fun i => load m (p + i)) m k) (p + i)
      = load m (p + i)) :
    copyLoop load store m p q n = storeRun store q (fun i => load m (p + i)) m n :=
  copyLoop_storeRun hload (Nat.zero_add n)

end Stores

/-! ## On the memory of the machine -/

/-- A run of writes to the bytes of one frame. -/
theorem writeRun_frame (ram : Location → Byte) (g : ℕ) (bytes : ℕ → Byte) (n : ℕ) :
    writeRun ram (fun i => (g, i)) bytes n
      = fun loc => if loc.1 = g ∧ loc.2 < n then bytes loc.2 else ram loc := by
  funext ⟨f, o⟩
  by_cases hx : f = g ∧ o < n
  · obtain ⟨rfl, ho⟩ := hx
    rw [if_pos ⟨rfl, ho⟩]
    show writeRun ram (fun i => (f, i)) bytes n ((fun i => (f, i)) o) = bytes o
    exact writeRun.of_injOn (fun j _ he => (Prod.ext_iff.mp he).2) ho
  · rw [if_neg hx]
    refine writeRun.of_notMem (fun i hi he => hx ?_)
    rw [Prod.mk.injEq] at he
    exact ⟨he.1.symm, he.2 ▸ hi⟩

/-- **A copy from the bytes of one frame to those of another**, or of the same
one, however its loads and stores get there. -/
theorem copyLoop_frame {X : Type*} (load : X → ℕ → Byte) (store : X → ℕ → Byte → X)
    (mk : (Location → Byte) → X) {src g p q n : ℕ}
    (hload : ∀ ram, ∀ i < n, load (mk ram) (p + i) = ram (src, i))
    (hstore : ∀ ram b, ∀ i < n, store (mk ram) (q + i) b = mk (Function.update ram (g, i) b))
    (ram : Location → Byte) :
    copyLoop load store (mk ram) p q n
      = mk (fun loc => if loc.1 = g ∧ loc.2 < n then ram (src, loc.2) else ram loc) := by
  set bytes : ℕ → Byte := fun i => load (mk ram) (p + i) with hbytes
  have hrun : ∀ k ≤ n, storeRun store q bytes (mk ram) k
      = mk (writeRun ram (fun i => (g, i)) bytes k) := by
    intro k hk
    induction k with
    | zero => rfl
    | succ k ih => rw [storeRun, ih (by omega), hstore _ _ k hk, writeRun]
  have hbyte : ∀ i < n, bytes i = ram (src, i) := hload ram
  rw [copyLoop_eq, hrun n le_rfl, writeRun_frame]
  · congr 1
    funext loc
    split_ifs with hx
    · exact hbyte loc.2 hx.2
    · rfl
  · intro k hk i hi
    -- a byte of the source is not one of those stored, or is stored as it was
    rw [hrun k hk.le, hload _ i hi, hload _ i hi, writeRun_frame]
    dsimp only
    split_ifs
    · exact hbyte i hi
    · rfl

namespace Mm

variable {m : Mm} {s : Slot} {q n : ℕ} {locs : ℕ → Location} {bytes : ℕ → Byte}

/-- A store past the kernel's frames changes one byte and raises no mark. -/
theorem store_of_le {loc : Location} (hloc : numPagKernel ≤ loc.1) (b : Byte) :
    m.store loc b = { m with ram := Function.update m.ram loc b } := by
  simp [store, require, hloc]

/-- **A run of kernel stores to mapped addresses** writes the bytes they are
translated to. -/
theorem storeRun_kernelStore (hloc : ∀ i < n, m.translate s (q + i) = some (locs i))
    (hframe : ∀ i < n, numPagKernel ≤ (locs i).1) :
    storeRun (kernelStore s) q bytes m n = { m with ram := writeRun m.ram locs bytes n } := by
  induction n with
  | zero => rfl
  | succ n ih =>
    have hn : numPagKernel ≤ (locs n).1 := hframe n (Nat.lt_succ_self n)
    have htr : ({ m with ram := writeRun m.ram locs bytes n } : Mm).translate s (q + n)
        = some (locs n) := hloc n (Nat.lt_succ_self n)
    rw [storeRun, ih (fun i hi => hloc i (Nat.lt_succ_of_lt hi))
      (fun i hi => hframe i (Nat.lt_succ_of_lt hi)), kernelStore, htr]
    exact store_of_le hn (bytes n)

/-- `copy_to_user` is a run of stores. -/
theorem copyToUser_storeRun (s : Slot) (m : Mm) (bytes : ℕ → Byte) (q n : ℕ) :
    copyToUser s m bytes q n = storeRun (kernelStore s) q bytes m n := by
  have h : copyLoop (fun _ i => bytes i) (kernelStore s) m 0 q n
      = storeRun (kernelStore s) q (fun i => bytes (0 + i)) m n :=
    copyLoop_eq (fun _ _ _ _ => rfl)
  simp only [Nat.zero_add] at h
  exact h

/-- **`copy_to_user` to a mapped range.** -/
theorem copyToUser_eq (hloc : ∀ i < n, m.translate s (q + i) = some (locs i))
    (hframe : ∀ i < n, numPagKernel ≤ (locs i).1) :
    copyToUser s m bytes q n = { m with ram := writeRun m.ram locs bytes n } := by
  rw [copyToUser_storeRun, storeRun_kernelStore hloc hframe]

/-- An address in the `i`-th byte of a page is translated through the entry
of that page. -/
theorem translate_page {page i : ℕ} (hp : page < totalPages) (hi : i < pageSize)
    (hpres : (m.pagusrTable s page).present = true) :
    m.translate s (page * pageSize + i) = some (getFrame (m.pagusrTable s) page, i) := by
  have hdiv : (page * pageSize + i) % 2 ^ 32 / pageSize = page := by
    simp only [totalPages, pageSize] at *
    omega
  have hmod : (page * pageSize + i) % pageSize = i := by
    simp only [pageSize] at *
    omega
  rw [translate]
  simp only [hdiv, hmod, hp, hpres, and_self, if_true]

theorem translate_page_start {page : ℕ} (hp : page < totalPages)
    (hpres : (m.pagusrTable s page).present = true) :
    m.translate s (page * pageSize) = some (getFrame (m.pagusrTable s) page, 0) := by
  have h := translate_page (i := 0) hp (by decide) hpres
  rwa [Nat.add_zero] at h

/-- **`copy_data` of a whole page**, to another frame or onto its own one. -/
theorem copyData_page {src dst : ℕ} (hsrc : src < totalPages) (hdst : dst < totalPages)
    (hps : (m.pagusrTable s src).present = true) (hpd : (m.pagusrTable s dst).present = true)
    (hframe : numPagKernel ≤ getFrame (m.pagusrTable s) dst) :
    copyData s m (src * pageSize) (dst * pageSize) pageSize
      = { m with ram := fun loc =>
          if loc.1 = getFrame (m.pagusrTable s) dst ∧ loc.2 < pageSize then
            m.ram (getFrame (m.pagusrTable s) src, loc.2)
          else m.ram loc } := by
  have hload : ∀ ram : Location → Byte, ∀ i < pageSize,
      kernelLoad s { m with ram := ram } (src * pageSize + i)
        = ram (getFrame (m.pagusrTable s) src, i) := by
    intro ram i hi
    have htr : ({ m with ram := ram } : Mm).translate s (src * pageSize + i)
        = some (getFrame (m.pagusrTable s) src, i) := translate_page hsrc hi hps
    rw [kernelLoad, htr]
  have hstore : ∀ (ram : Location → Byte) (b : Byte), ∀ i < pageSize,
      kernelStore s { m with ram := ram } (dst * pageSize + i) b
        = { m with ram := Function.update ram (getFrame (m.pagusrTable s) dst, i) b } := by
    intro ram b i hi
    have htr : ({ m with ram := ram } : Mm).translate s (dst * pageSize + i)
        = some (getFrame (m.pagusrTable s) dst, i) := translate_page hdst hi hpd
    rw [kernelStore, htr]
    exact store_of_le hframe b
  have h := copyLoop_frame (kernelLoad s) (kernelStore s)
    (fun ram : Location → Byte => { m with ram := ram }) hload hstore m.ram
  exact h

end Mm

end ZeOS.Practica
