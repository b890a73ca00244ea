import Kids.Message

/-!
The file of a secondary `FileStore`: what `File::Write` appends for a message and what
`FileStore::GetOldestMessages` makes of the bytes of a file. Sizes are written and read as a little-endian
`int`.
-/

namespace Kids

def sizeBytes (size : Nat) : Bytes :=
  [.ofNat size, .ofNat (size / 256), .ofNat (size / 65536), .ofNat (size / 16777216)]

def intOfBytes (a b c d : UInt8) : Int :=
  let n := a.toNat + 256 * b.toNat + 65536 * c.toNat + 16777216 * d.toNat
  if n < 2 ^ 31 then n else n - 2 ^ 32

theorem intOfBytes_lt (a b c d : UInt8) : intOfBytes a b c d < 2 ^ 31 := by
  have := a.toNat_lt
  have := b.toNat_lt
  have := c.toNat_lt
  have := d.toNat_lt
  unfold intOfBytes
  dsimp only
  split <;> omega

namespace File

def write (file data : Bytes) (prependSize appendEol : Bool) : Bytes :=
  file ++ (if prependSize then sizeBytes data.length else []) ++ data ++ (if appendEol then [Bytes.lf] else [])

def addMessage (file : Bytes) (m : Message) : Bytes :=
  write (write file m.topic.data true false) m.content.data true false

def addMessages (file : Bytes) (ms : List Message) : Bytes :=
  ms.foldl addMessage file

inductive ReadError
  | failed
  | outOfBounds

/--
`sdsnewlen(NULL, size)`. A negative size is added to the size of the header as a `size_t`: either the sum
is more than `calloc` can give, or it wraps around and the string ends before its header.
-/
def sdsnewlen (size : Int) : Except ReadError Unit :=
  if 0 ≤ size then
    .ok ()
  else if -9 ≤ size then
    .error .outOfBounds
  else
    .error .failed

def read (file : Bytes) (size : Nat) (h : size < 2 ^ 31) : Except ReadError (Sds × Bytes) :=
  -- `fread` of zero bytes does not return one item
  if size = 0 ∨ file.length < size then
    .error .failed
  else
    .ok (⟨file.take size, by rw [List.length_take]; omega⟩, file.drop size)

def readSds (file : Bytes) : Except ReadError (Sds × Bytes) :=
  match file with
  | a :: b :: c :: d :: file =>
    match sdsnewlen (intOfBytes a b c d) with
    | .error e => .error e
    | .ok () => read file (intOfBytes a b c d).toNat (by have := intOfBytes_lt a b c d; omega)
  | _ => .error .failed

def readMessage (file : Bytes) : Except ReadError (Message × Bytes) :=
  match readSds file with
  | .error e => .error e
  | .ok (topic, file) =>
    match readSds file with
    | .error e => .error e
    | .ok (content, file) => .ok (⟨topic, content⟩, file)

theorem length_of_readSds (h : readSds file = .ok (s, rest)) : rest.length < file.length := by
  unfold readSds at h
  split at h
  . split at h
    . cases h
    . unfold read at h
      split at h
      . cases h
      . cases h
        simp only [List.length_drop, List.length_cons]
        omega
  . cases h

theorem length_of_readMessage (h : readMessage file = .ok (m, rest)) : rest.length < file.length := by
  unfold readMessage at h
  split at h
  . cases h
  . next htopic =>
    split at h
    . cases h
    . next hcontent =>
      cases h
      have := length_of_readSds htopic
      have := length_of_readSds hcontent
      omega

def getMessages (file : Bytes) : Option (List Message) :=
  match h : readMessage file with
  | .error .outOfBounds => none
  | .error .failed => some []
  | .ok (m, rest) =>
    have := length_of_readMessage h
    (getMessages rest).map (m :: .)
termination_by file.length

end File
end Kids
