import Kids.Buffer.Basic
import Kids.Lib.Heap

/-!
The objects of class `Buffer` and the memory they share: blocks of characters, and the counters that
`refcount_` points to. `none` is a step that C++ does not define: an access outside a block or through
`NULL`, or the use of a block that has been freed. `new` and `malloc` succeed.
-/

namespace Kids

open Bytes

-- a byte that has never been written is `none`
abbrev Cell := Option UInt8

structure Memory where
  blocks : Heap (List Cell)
  counts : Heap Nat

namespace Memory

def init : Memory := ⟨[], []⟩

def blockOf (m : Memory) (p : Option Nat) : Option (List Cell) :=
  p.bind m.blocks.get

def countOf (m : Memory) (c : Option Nat) : Option Nat :=
  c.bind m.counts.get

def malloc (m : Memory) (size : Nat) : Option Nat × Memory :=
  (some m.blocks.next, { m with blocks := m.blocks.alloc (List.replicate size none) })

def free (m : Memory) : Option Nat → Option Memory
  | none => some m
  | some p => (m.blocks.get p).map fun _ => { m with blocks := m.blocks.free p }

-- a size of zero frees the block
def realloc (m : Memory) (p : Option Nat) (size : Nat) : Option (Option Nat × Memory) :=
  match p with
  | none => some (m.malloc size)
  | some p =>
    match m.blocks.get p with
    | none => none
    | some cells =>
      let blocks := m.blocks.free p
      if size = 0 then
        some (none, { m with blocks := blocks })
      else
        let kept := cells.take size
        some (some blocks.next, { m with blocks := blocks.alloc (kept ++ List.replicate (size - kept.length) none) })

def load (m : Memory) (p : Option Nat) (pos size : Nat) : Option (List Cell) :=
  (m.blockOf p).bind fun cells =>
    if pos + size ≤ cells.length then some ((cells.drop pos).take size) else none

def overwrite (cells : List Cell) (pos : Nat) (data : List Cell) : List Cell :=
  cells.take pos ++ data ++ cells.drop (pos + data.length)

def store (m : Memory) (p : Option Nat) (pos : Nat) (data : List Cell) : Option Memory :=
  p.bind fun p => (m.blocks.get p).bind fun cells =>
    if pos + data.length ≤ cells.length then
      some { m with blocks := m.blocks.put p (overwrite cells pos data) }
    else
      none

def newCount (m : Memory) : Option Nat × Memory :=
  (some m.counts.next, { m with counts := m.counts.alloc 1 })

def setCount (m : Memory) (c : Option Nat) (k : Nat) : Option Memory :=
  c.bind fun c => (m.counts.get c).map fun _ => { m with counts := m.counts.put c k }

def deleteCount (m : Memory) (c : Option Nat) : Option Memory :=
  c.bind fun c => (m.counts.get c).map fun _ => { m with counts := m.counts.free c }

end Memory

/--
The members `data_`, `size_`, `capacity_` and `refcount_`.
-/
structure BufferObject where
  data : Option Nat
  size : Nat
  capacity : Nat
  refcount : Option Nat
  deriving DecidableEq

namespace BufferObject

open Memory

-- unsigned 32 bit numbers
def uint32 (n : Nat) : Nat :=
  n % uint32Size

def sub32 (a b : Nat) : Nat :=
  (a + uint32Size - b) % uint32Size

def cells (data : Bytes) : List Cell :=
  data.map some

-- a C string and the NUL behind it
def cstring (str : Bytes) : List Cell :=
  cells (str ++ [nul])

def ofData (m : Memory) (data : Bytes) : Option (BufferObject × Memory) := do
  let size := uint32 data.length
  let (p, m) := m.malloc (uint32 (size + 1))
  let m ← m.store p 0 (cells data)
  let m ← m.store p size [some nul]
  let (c, m) := m.newCount
  some (⟨p, size, size, c⟩, m)

def ofCapacity (m : Memory) (size : Nat) : Option (BufferObject × Memory) := do
  let (p, m) := m.malloc (uint32 (size + 1))
  let m ← m.store p size [some nul]
  let (c, m) := m.newCount
  some (⟨p, 0, size, c⟩, m)

def ofString (m : Memory) (str : Bytes) : Option (BufferObject × Memory) := do
  let size := uint32 str.length
  let (p, m) := m.malloc (uint32 (size + 1))
  let m ← m.store p 0 ((cstring str).take (uint32 (size + 1)))
  let (c, m) := m.newCount
  some (⟨p, size, size, c⟩, m)

def shallowCopy (other : BufferObject) (m : Memory) : Option (BufferObject × Memory) := do
  let k ← m.countOf other.refcount
  let m ← m.setCount other.refcount (uint32 (k + 1))
  some (other, m)

def null : BufferObject := ⟨none, 0, 0, none⟩

def free (o : BufferObject) (m : Memory) : Option (BufferObject × Memory) := do
  let k ← m.countOf o.refcount
  let m ← m.setCount o.refcount (sub32 k 1)
  if sub32 k 1 = 0 then
    let m ← m.free o.data
    let m ← m.deleteCount o.refcount
    some (null, m)
  else
    some (null, m)

def clone (o : BufferObject) (m : Memory) : Option (BufferObject × Memory) := do
  let k ← m.countOf o.refcount
  if k = 1 then
    some (o, m)
  else
    let (p, m) := m.malloc (uint32 (o.capacity + 1))
    let data ← m.load o.data 0 (uint32 (o.size + 1))
    let m ← m.store p 0 data
    let m ← m.setCount o.refcount (sub32 k 1)
    let (c, m) := m.newCount
    some ({ o with data := p, refcount := c }, m)

def resize (o : BufferObject) (m : Memory) (size : Nat) : Option (BufferObject × Memory) := do
  let (p, m) ← m.realloc o.data (uint32 (size + 1))
  if p.isSome then
    let m ← m.store p size [some nul]
    some ({ o with data := p, capacity := size }, m)
  else
    some (o, m)

def reserve (o : BufferObject) (m : Memory) (size : Nat) : Option (Bool × BufferObject × Memory) :=
  if size < o.capacity then
    some (true, o, m)
  else do
    let s := max (uint32 (2 * o.capacity)) size
    let (o, m) ← o.resize m s
    some (decide (s ≤ o.capacity), o, m)

def append (o : BufferObject) (m : Memory) (data : Bytes) : Option (Bool × BufferObject × Memory) :=
  if data.length = 0 then
    some (true, o, m)
  else do
    let (o, m) ← o.clone m
    let (ok, o, m) ← o.reserve m (uint32 (o.size + data.length))
    if ok then
      let m ← m.store o.data o.size (cells data)
      let o := { o with size := uint32 (o.size + data.length) }
      let m ← m.store o.data o.size [some nul]
      some (true, o, m)
    else
      some (false, o, m)

-- the end of `remove_front` and of `pop_front`
def takeFront (o : BufferObject) (m : Memory) (size : Nat) : Option (BufferObject × Memory) := do
  let data ← m.load o.data size (uint32 (sub32 o.size size + 1))
  let m ← m.store o.data 0 data
  let o := { o with size := sub32 o.size size }
  if uint32 (o.size * 2) < o.capacity then
    o.resize m o.size
  else
    some (o, m)

def removeFront (o : BufferObject) (m : Memory) (size : Nat) : Option (BufferObject × Memory) :=
  if size = 0 then
    some (o, m)
  else do
    let (o, m) ← o.clone m
    o.takeFront m size

/--
The buffer that is returned, if it is not `NULL`, and the one it has been taken from.
-/
def popFront (o : BufferObject) (m : Memory) (size : Nat) : Option (Option BufferObject × BufferObject × Memory) :=
  if o.size < size then
    some (none, o, m)
  else do
    let (o, m) ← o.clone m
    let (buf, m) ← ofCapacity m size
    let data ← m.load o.data 0 size
    let m ← m.store buf.data 0 data
    let (o, m) ← o.takeFront m size
    some (some buf, o, m)

def clear (o : BufferObject) (m : Memory) : Option (BufferObject × Memory) := do
  let k ← m.countOf o.refcount
  let m ← if k = 1 then do
      let m ← m.free o.data
      m.deleteCount o.refcount
    else
      m.setCount o.refcount (sub32 k 1)
  let (p, m) := m.malloc 1
  let m ← m.store p 0 [some nul]
  let (c, m) := m.newCount
  some (⟨p, 0, 0, c⟩, m)

def assignString (o : BufferObject) (m : Memory) (str : Bytes) : Option (BufferObject × Memory) := do
  let k ← m.countOf o.refcount
  let (o, m) ← if 1 < k then do
      let (o, m) ← o.free m
      let (c, m) := m.newCount
      some ({ o with refcount := c }, m)
    else
      some (o, m)
  let o := { o with size := uint32 str.length }
  let (o, m) ← if o.capacity < o.size ∨ o.data = none then do
      let (p, m) ← m.realloc o.data (uint32 (o.size + 1))
      if p.isSome then
        some ({ o with data := p, capacity := o.size }, m)
      else
        some (o, m)
    else
      some (o, m)
  let m ← m.store o.data 0 ((cstring str).take (uint32 (o.size + 1)))
  some (o, m)

end BufferObject
end Kids
