import RestCache.Foundation.CaseMapping

/-!
# decodeURIComponent

JavaScript's `decodeURIComponent` on well-formed strings.  It reads escapes in
either letter case as the UTF-8 bytes of characters, and throws where an escape
or a sequence of bytes is malformed.
-/

namespace RestCache
namespace Foundation
namespace UriComponent

def hexDigitValue (c : Char) : Option Nat :=
  if c.isDigit then some (c.toNat - '0'.toNat)
  else if 'a' ≤ c && c ≤ 'f' then some (c.toNat - 'a'.toNat + 10)
  else if 'A' ≤ c && c ≤ 'F' then some (c.toNat - 'A'.toNat + 10)
  else none

def escapedByte (h l : Char) : Option UInt8 :=
  (hexDigitValue h).bind fun high =>
    (hexDigitValue l).map fun low => UInt8.ofNat (16 * high + low)

def decodedBytes : JsString -> Option (List UInt8)
  | '%' :: h :: l :: rest =>
      (escapedByte h l).bind fun b =>
        (decodedBytes rest).map (fun bytes => b :: bytes)
  | c :: rest =>
      if c = '%' then none
      else (decodedBytes rest).map (fun bytes => String.utf8EncodeChar c ++ bytes)
  | [] => some []

/-- The value, `none` where the function throws a `URIError`. -/
def decodeURIComponent (s : JsString) : Option JsString :=
  (decodedBytes s).bind fun bytes =>
    bytes.toByteArray.utf8Decode?.map Array.toList

/-!
## Bytes
-/

theorem toLower_of_not_ascii {c : Char} (h : 128 ≤ c.toNat) :
    c.toLower = c := by
  unfold Char.toLower
  split
  · rename_i hupper
    have hle := UInt32.le_iff_toNat_le.mp hupper.right
    exact absurd (Nat.le_trans h hle) (by decide)
  · rfl

end UriComponent
end Foundation
end RestCache
