import ZeOS.Practica.Sys

/-!
# Interrupts and exceptions

`interrupt.c` with the handlers of `entry.S` that call it: the clock, the
keyboard, and the page fault that makes a shared page private.
-/

namespace ZeOS.Practica

/-- `char_map`: the character of a scan code. The source's accented letters
have been replaced by one three-byte character, whose last byte is what
fits a `char`. -/
def charMap : List Byte :=
  [0, 0, 49, 50, 51, 52, 53, 54,
   55, 56, 57, 48, 39, 0xbd, 0, 0,
   113, 119, 101, 114, 116, 121, 117, 105,
   111, 112, 96, 43, 0, 0, 97, 115,
   100, 102, 103, 104, 106, 107, 108, 0xbd,
   0, 0xbd, 0, 0xbd, 122, 120, 99, 118,
   98, 110, 109, 44, 46, 45, 0, 42,
   0, 0, 0, 0, 0, 0, 0, 0,
   0, 0, 0, 0, 0, 0, 0, 55,
   56, 57, 45, 52, 53, 54, 43, 49,
   50, 51, 48, 0, 0, 0, 60, 0,
   0, 0, 0, 0, 0, 0, 0, 0,
   0, 0]

/-- The logical page the fault handler borrows for its copy. -/
abbrev paginaAUsar : ℕ := numPagCode + numPagKernel + numPagData + 1

namespace Mm

/-- `frameaux`: the frame mapped at the borrowed page, if there is one. -/
def frameaux (m : Mm) (s : Slot) : ℤ :=
  if (m.pagusrTable s paginaAUsar).present then getFrame (m.pagusrTable s) paginaAUsar else -1

/-- What follows the copy: what was mapped at the borrowed page is put back
by its frame, and the new frame is mapped where the fault was. -/
def giveBack (m : Mm) (s : Slot) (posicion : ℕ) (frame frameaux : ℤ) : Mm :=
  let m := m.setTable s (delSsPag (m.pagusrTable s) paginaAUsar)
  let m := if frameaux ≠ -1 then
      m.setTable s (setSsPag (m.pagusrTable s) paginaAUsar frameaux)
    else m
  let m := m.setTable s (delSsPag (m.pagusrTable s) posicion)
  m.setTable s (setSsPag (m.pagusrTable s) posicion frame)

/-- The copy itself, through a borrowed page. Every address is translated by
the page table here: what a TLB changes in the copy is said in `TlbCopy`. -/
def copyThrough (m : Mm) (cr3 s : Slot) (posicion : ℕ) (frame : ℤ) : Mm :=
  let frameaux := m.frameaux s
  let m := m.setTable s (setSsPag (m.pagusrTable s) paginaAUsar frame)
  let m := m.require (m.translate cr3 (posicion * pageSize)).isSome
  let m := copyData cr3 m (posicion * pageSize) (paginaAUsar * pageSize) pageSize
  m.giveBack s posicion frame frameaux

/-- The branch of the fault handler that copies the page. The count goes
down before the new frame is asked for. -/
def copyOnWrite (m : Mm) (cr3 s : Slot) (posicion : ℕ) : Mm :=
  let shared := getFrame (m.pagusrTable s) posicion
  let phys := Function.update m.physMem shared (m.physMem shared - 1)
  match allocFrame phys with
  | (frame, phys) => { m with physMem := phys }.copyThrough cr3 s posicion frame

/-- `pagefault_routine`, given `CR2`. Without a result the handler has
printed its message and loops with interrupts disabled. -/
def pagefaultRoutine (m : Mm) (cr3 s : Slot) (cr2 : DWord) : Option Mm :=
  let posicion := pageOf cr2
  let m := m.require (posicion < totalPages)
  let frame := getFrame (m.pagusrTable s) posicion
  let m := m.require (frame < totalPages)
  let value := m.physMem frame
  if value = 0 then none
  else if value = 1 then
    some (m.setTable s (setRw (m.pagusrTable s) posicion true))
  else some (m.copyOnWrite cr3 s posicion)

end Mm

namespace Kernel

/-- `clock_routine`. -/
def clockRoutine (ebp : DWord) (k : Kernel) : Kernel :=
  { k with zeosTicks := k.zeosTicks + 1, sched := k.sched.schedule ebp }

/-- `keyboard_routine`, given the byte of the port. `past` is what lies in
memory past the end of `char_map`, which has fewer entries than there are
scan codes. -/
def keyboardRoutine (c past : Byte) (k : Kernel) : Kernel :=
  let k := if k.isDefined then k else { k with cb := k.cb.initBuffer, isDefined := true }
  if c &&& 0x80#8 ≠ 0 then
    { k with cb := k.cb.enqueue (charMap.getD (c &&& 0x7f#8).toNat past) }
  else k

/-- The page fault exception of the current task. The flush at the end of
the copying branch loads the directory that is loaded already. -/
def pagefault (cr2 : DWord) (k : Kernel) : Option Kernel :=
  let s := k.sched.enter .interruptHandler
  let s := s.userToSystem
  (k.mm.pagefaultRoutine s.cr3 (s.getPt s.current) cr2).map
    (fun m => { k with mm := m, sched := s.leave })

/-- `clock_handler`. -/
def clockHandler (ebp : DWord) (k : Kernel) : Kernel :=
  let k := { k with sched := (k.sched.enter .interruptHandler).userToSystem }
  let k := k.clockRoutine ebp
  { k with sched := k.sched.leave }

/-- `keyboard_handler`. -/
def keyboardHandler (c past : Byte) (k : Kernel) : Kernel :=
  let k := { k with sched := (k.sched.enter .interruptHandler).userToSystem }
  let k := k.keyboardRoutine c past
  { k with sched := k.sched.leave }

end Kernel

end ZeOS.Practica
