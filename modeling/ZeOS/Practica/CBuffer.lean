import ZeOS.Practica.Mm

/-!
# The keyboard buffer

`c_buffer.c`: the circular buffer between the keyboard interrupt and
`sys_read`.
-/

namespace ZeOS.Practica

/-- `BUFFER_SIZE`. -/
abbrev bufferSize : ℕ := 2048

/-- `circular_buffer`. -/
structure CircularBuffer where
  buffer : ℕ → Byte
  readIndex : ℕ
  writeIndex : ℕ
  count : ℕ

namespace CircularBuffer

/-- `init_buffer`: the indices and the count, not the characters. -/
def initBuffer (cb : CircularBuffer) : CircularBuffer :=
  { cb with readIndex := 0, writeIndex := 0, count := 0 }

def isFull (cb : CircularBuffer) : Bool := decide (cb.count = bufferSize)

def isEmpty (cb : CircularBuffer) : Bool := decide (cb.count = 0)

/-- A character put into the buffer, or dropped when it is full. -/
def enqueue (cb : CircularBuffer) (element : Byte) : CircularBuffer :=
  if cb.isFull then cb
  else
    { buffer := Function.update cb.buffer cb.writeIndex element
      readIndex := cb.readIndex
      writeIndex := (cb.writeIndex + 1) % bufferSize
      count := cb.count + 1 }

/-- The oldest character taken out. From an empty buffer the source returns
the low byte of the address of a string literal; no caller gets there. -/
def dequeue (cb : CircularBuffer) : Byte × CircularBuffer :=
  if cb.isEmpty then (0, cb)
  else
    (cb.buffer cb.readIndex,
      { cb with readIndex := (cb.readIndex + 1) % bufferSize, count := cb.count - 1 })

end CircularBuffer

end ZeOS.Practica
