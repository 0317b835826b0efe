/-! Text on the wire. A string is its UTF-8 bytes, and only those. -/
namespace Utf8

def encode (text : String) : List UInt8 := text.toByteArray.data.toList

def decode (bytes : List UInt8) : Option String := String.fromUTF8? ⟨bytes.toArray⟩

@[simp] theorem decode_encode (text : String) : decode (encode text) = some text := by
  have valid : (⟨(encode text).toArray⟩ : ByteArray).IsValidUTF8 := by
    simpa [encode] using text.isValidUTF8
  rw [decode, String.fromUTF8?, dif_pos valid]
  simp [encode, String.fromUTF8]

theorem encode_of_decode {bytes : List UInt8} {text : String} (decoded : decode bytes = some text) :
    encode text = bytes := by
  unfold decode String.fromUTF8? at decoded
  split at decoded
  · cases decoded
    simp [encode, String.fromUTF8]
  · cases decoded

theorem encode_inj {text text' : String} (same : encode text = encode text') : text = text' := by
  have decoded := decode_encode text
  rw [same, decode_encode] at decoded
  exact (Option.some.inj decoded).symm

theorem toList_loop (bytes : ByteArray) (i : Nat) (read : List UInt8) :
    ByteArray.toList.loop bytes i read = read.reverse ++ bytes.data.toList.drop i := by
  fun_induction ByteArray.toList.loop bytes i read with
  | case1 i read inside ih =>
    have listed : i < bytes.data.toList.length := by simpa using inside
    have held : i < bytes.data.size := by simpa using listed
    rw [ih, List.drop_eq_getElem_cons listed]
    simp [ByteArray.get!, getElem!_pos bytes.data i held]
  | case2 i read outside =>
    rw [List.drop_eq_nil_of_le (by simpa using outside), List.append_nil]

@[simp] theorem toByteArray_toList (text : String) : text.toByteArray.toList = encode text :=
  toList_loop text.toByteArray 0 []

end Utf8
