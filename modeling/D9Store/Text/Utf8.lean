import Mathlib

/-!
Byte strings as UTF-8 text.

A decoder reads one rune at a time: the bytes at the front are the encoding of a rune, or the first
of them is invalid and stands for itself. Writing byte strings where only text may stand replaces
each invalid byte by the replacement character; the result is text, and text is left alone.
-/

namespace Utf8

/-! ### Strings -/

/-- The bytes of a string. -/
def encode (s : String) : List UInt8 := s.toList.flatMap String.utf8EncodeChar

theorem encode_injective : Function.Injective encode := by
  intro s t same
  have bytes : s.toList.utf8Encode = t.toList.utf8Encode := congrArg List.toByteArray same
  rwa [String.utf8Encode_toList, String.utf8Encode_toList, String.toByteArray_inj] at bytes

end Utf8
