/-! Byte arrays of a fixed size. -/

@[ext] structure Bytes (n : Nat) where
  toList : List UInt8
  size : toList.length = n
  deriving DecidableEq

namespace Bytes

variable {n : Nat}

def ofList (n : Nat) (bytes : List UInt8) : Option (Bytes n) :=
  if size : bytes.length = n then some ⟨bytes, size⟩ else none

def replicate (n : Nat) (byte : UInt8) : Bytes n :=
  ⟨List.replicate n byte, List.length_replicate ..⟩

@[simp] theorem ofList_toList (bytes : Bytes n) : ofList n bytes.toList = some bytes := by
  rw [ofList, dif_pos bytes.size]

theorem toList_of_ofList {list : List UInt8} {bytes : Bytes n}
    (found : ofList n list = some bytes) :
    bytes.toList = list := by
  unfold ofList at found
  split at found
  · cases found
    rfl
  · cases found

end Bytes
