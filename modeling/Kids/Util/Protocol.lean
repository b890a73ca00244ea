import Kids.Util.Bytes

/-!
The wire format that a client and a network agent both write.
-/

namespace Kids

open Bytes

def headerLine (type : UInt8) (n : Nat) : Bytes :=
  type :: (decimal n ++ crlf)

def bulkEncoding (data : Bytes) : Bytes :=
  headerLine dollar data.length ++ (data ++ crlf)

def commandEncoding (argv : List Bytes) : Bytes :=
  headerLine 42 argv.length ++ (argv.map bulkEncoding).flatten

theorem headerLine_noNul (type : UInt8) (n : Nat) (htype : type ≠ nul) : nul ∉ headerLine type n := by
  have := not_mem_decimal n nul (by decide)
  simp only [headerLine, List.mem_cons, List.mem_append, not_or]
  exact ⟨htype.symm, this, by decide⟩

theorem length_headerLine (type : UInt8) (n : Nat) : (headerLine type n).length = (decimal n).length + 3 := by
  simp [headerLine]

end Kids
