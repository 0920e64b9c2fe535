import Mathlib.Data.List.Basic

/-! # UTF-8 text as a list of bytes

Strict decoding: it fails on every sequence that encodes no text. -/
namespace Utf8Text

def encode (cs : List Char) : List UInt8 := cs.flatMap String.utf8EncodeChar

def decode (bs : List UInt8) : Option (List Char) :=
  bs.toByteArray.utf8Decode?.map Array.toList

@[simp] theorem encode_nil : encode [] = [] := rfl

@[simp] theorem encode_cons (c : Char) (cs : List Char) :
    encode (c :: cs) = String.utf8EncodeChar c ++ encode cs := rfl

@[simp] theorem encode_append (xs ys : List Char) : encode (xs ++ ys) = encode xs ++ encode ys :=
  List.flatMap_append

theorem toByteArray_encode (cs : List Char) : (encode cs).toByteArray = cs.utf8Encode := rfl

theorem toByteArray_injective {xs ys : List UInt8} (h : xs.toByteArray = ys.toByteArray) :
    xs = ys := by
  have hdata := congrArg ByteArray.data h
  rw [List.data_toByteArray, List.data_toByteArray] at hdata
  exact List.toArray_inj hdata

@[simp] theorem decode_encode (cs : List Char) : decode (encode cs) = some cs := by
  rw [decode, toByteArray_encode, List.utf8Decode?_utf8Encode]
  rfl

theorem encode_of_decode {bs : List UInt8} {cs : List Char} (h : decode bs = some cs) :
    encode cs = bs := by
  obtain ⟨a, ha, rfl⟩ := Option.map_eq_some_iff.mp h
  have hsome : bs.toByteArray.utf8Decode?.isSome := Option.isSome_of_eq_some ha
  have hget : bs.toByteArray.utf8Decode?.get hsome = a := Option.get_of_eq_some hsome ha
  apply toByteArray_injective
  rw [toByteArray_encode, ← hget]
  exact ByteArray.utf8Encode_get_utf8Decode?

theorem encode_injective {xs ys : List Char} (h : encode xs = encode ys) : xs = ys := by
  have hdecode := congrArg decode h
  rw [decode_encode, decode_encode] at hdecode
  exact Option.some.inj hdecode

theorem encode_eq_nil_iff {cs : List Char} : encode cs = [] ↔ cs = [] := by
  constructor
  · intro h
    exact encode_injective (h.trans encode_nil.symm)
  · rintro rfl
    rfl

/-- What decodes to the front of a text leaves the bytes of the rest of it. -/
theorem exists_rest {xs ys : List Char} {bs : List UInt8} (h : encode xs ++ bs = encode ys) :
    ∃ zs, ys = xs ++ zs ∧ encode zs = bs := by
  have hbytes : xs.utf8Encode ++ bs.toByteArray = ys.utf8Encode := by
    rw [← toByteArray_encode, ← toByteArray_encode, ← List.toByteArray_append, h]
  obtain ⟨zs, rfl⟩ := List.isPrefix_of_utf8Encode_append_eq_utf8Encode _ hbytes
  refine ⟨zs, rfl, ?_⟩
  rw [encode_append] at h
  exact (List.append_cancel_left h).symm

theorem exists_rest_of_decode_take {cs piece : List Char} {n : ℕ}
    (h : decode ((encode cs).take n) = some piece) :
    ∃ rest, cs = piece ++ rest ∧ encode rest = (encode cs).drop n := by
  apply exists_rest
  rw [encode_of_decode h, List.take_append_drop]

/-- A text of ASCII characters has one byte for each. -/
theorem length_encode_ascii {cs : List Char} (h : ∀ c ∈ cs, c.utf8Size = 1) :
    (encode cs).length = cs.length := by
  induction cs with
  | nil => rfl
  | cons c cs ih =>
    have htail := ih fun d hd => h d (List.mem_cons_of_mem c hd)
    rw [encode_cons, List.length_append, String.length_utf8EncodeChar, htail,
      h c List.mem_cons_self, List.length_cons]
    omega

end Utf8Text
