import Kids.Util.Bytes

/-!
The growable byte buffer of `buffer.cc`, for an object that is the only owner of its block (`req_` and
`rep_` of a client and of a network agent are never copied, so `Clone` returns at once). Sizes are
unsigned 32 bit numbers and every allocation succeeds. `none` is an access outside the allocated block.
-/

namespace Kids

def uint32Size : Nat := 2 ^ 32

/--
`data` is what stands at `data_[0 .. size_)`. The block has `capacity_ + 1` bytes.
-/
structure Buffer where
  data : Bytes
  capacity : Nat
  size_le : data.length ≤ capacity
  capacity_lt : capacity < uint32Size

namespace Buffer

def size (b : Buffer) : Nat :=
  b.data.length

def ofCapacity (capacity : Nat) (h : capacity < uint32Size) : Buffer where
  data := []
  capacity := capacity
  size_le := by simp
  capacity_lt := h

def empty : Buffer :=
  ofCapacity 0 (by decide)

/--
`resize`, called with room for the bytes in use. The length that goes to `realloc` is `size + 1` modulo
`2 ^ 32`; a length of zero frees the block.
-/
def resize (b : Buffer) (size : Nat) (h : b.data.length ≤ size) : Option Buffer :=
  if hsize : size + 1 < uint32Size then
    some {
      data := b.data
      capacity := size
      size_le := h
      capacity_lt := by omega
    }
  else
    none

def reserve (b : Buffer) (size : Nat) : Option Buffer :=
  if h : size < b.capacity then
    some b
  else
    b.resize (max (2 * b.capacity % uint32Size) size) <| by
      have := b.size_le
      omega

def append (b : Buffer) (d : Bytes) : Option Buffer :=
  if d.length = 0 then
    some b
  else
    match b.reserve ((b.size + d.length) % uint32Size) with
    | none => none
    | some b =>
      -- `memcpy(data_ + size_, data, size)` and the NUL behind it have to stay inside the block
      if h : b.data.length + d.length ≤ b.capacity then
        some {
          data := b.data ++ d
          capacity := b.capacity
          size_le := by simpa using h
          capacity_lt := b.capacity_lt
        }
      else
        none

def removeFront (b : Buffer) (n : Nat) : Option Buffer :=
  if n = 0 then
    some b
  else if n ≤ b.size then
    let b : Buffer := {
      data := b.data.drop n
      capacity := b.capacity
      size_le := by
        have := b.size_le
        simp only [List.length_drop]
        omega
      capacity_lt := b.capacity_lt
    }
    if b.size * 2 % uint32Size < b.capacity then
      b.resize b.size (Nat.le_refl _)
    else
      some b
  else
    none

def clear (_b : Buffer) : Buffer :=
  empty

/--
The retry loop of `append_vaprintf` with a scratch buffer of `16 * 2 ^ k` bytes, for a format result
`w`. `vsnprintf` writes the first `buflen - 1` bytes of `w` and a NUL, and the byte at `buflen - 2` was
zeroed before the call.
-/
def vaprintf.go (w : Bytes) (k : Nat) : Bytes :=
  if h : 16 * 2 ^ k - 1 ≤ w.length ∧ w[16 * 2 ^ k - 2]? ≠ some Bytes.nul then
    go w (k + 1)
  else
    Bytes.cstr (w.take (16 * 2 ^ k - 1))
termination_by w.length + 2 - 16 * 2 ^ k
decreasing_by
  have := h.1
  have := Nat.two_pow_pos k
  have : 2 ^ (k + 1) = 2 * 2 ^ k := by rw [Nat.pow_succ]; omega
  omega

def vaprintf (w : Bytes) : Bytes :=
  vaprintf.go w 0

def appendVaprintf (b : Buffer) (w : Bytes) : Option Buffer :=
  b.append (vaprintf w)

end Buffer
end Kids
