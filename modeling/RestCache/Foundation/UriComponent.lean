import Mathlib.Data.List.Basic
import Mathlib.Tactic.IntervalCases

/-!
# encodeURIComponent

JavaScript's `encodeURIComponent` on well-formed strings, which are lists of
Unicode scalar values: it leaves a fixed set of ASCII characters alone and
writes every other character as the percent escapes of its UTF-8 bytes.
-/

namespace RestCache
namespace Foundation

/-- A well-formed JavaScript string. -/
abbrev JsString := List Char

instance JsString.lawfulBEq : LawfulBEq JsString :=
  inferInstance

theorem forall_mem_of_all {s : JsString} {p : Char -> Prop} [DecidablePred p]
    (h : s.all (fun c => decide (p c)) = true) : ∀ c ∈ s, p c := by
  simpa using h

namespace UriComponent

def unreservedChars : JsString :=
  "ABCDEFGHIJKLMNOPQRSTUVWXYZabcdefghijklmnopqrstuvwxyz0123456789-_.!~*'()".toList

def hexDigits : JsString :=
  "0123456789ABCDEF".toList

def hexDigit (n : Nat) : Char :=
  hexDigits.getD n '0'

def percentByte (b : UInt8) : JsString :=
  ['%', hexDigit (b.toNat / 16), hexDigit (b.toNat % 16)]

def encodeChar (c : Char) : JsString :=
  if c ∈ unreservedChars then
    [c]
  else
    (String.utf8EncodeChar c).flatMap percentByte

def encodeURIComponent (s : JsString) : JsString :=
  s.flatMap encodeChar

/-!
## Decoding

Reading the percent escapes back gives the UTF-8 bytes of the string, and those
determine the string.
-/

def hexValue (c : Char) : Nat :=
  hexDigits.idxOf c

def unpercent : JsString -> List Nat
  | [] => []
  | c :: rest =>
      if c = '%' then
        match rest with
        | h :: l :: tail => (16 * hexValue h + hexValue l) :: unpercent tail
        | _ => []
      else
        c.toNat :: unpercent rest

theorem hexValue_hexDigit {n : Nat} (hn : n < 16) :
    hexValue (hexDigit n) = n := by
  interval_cases n <;> decide

theorem unreserved_ascii {c : Char} (h : c ∈ unreservedChars) :
    c.toNat ≤ 127 ∧ c ≠ '%' := by
  have hall : ∀ c ∈ unreservedChars, c.toNat ≤ 127 ∧ c ≠ '%' :=
    forall_mem_of_all (by decide)
  exact hall c h

theorem utf8EncodeChar_ascii {c : Char} (h : c.toNat ≤ 127) :
    (String.utf8EncodeChar c).map UInt8.toNat = [c.toNat] := by
  have hcode : String.utf8EncodeChar c = [UInt8.ofNat c.toNat] := by
    unfold String.utf8EncodeChar
    exact if_pos h
  have hbyte : (UInt8.ofNat c.toNat).toNat = c.toNat := by
    rw [UInt8.toNat_ofNat']
    exact Nat.mod_eq_of_lt (by omega)
  rw [hcode, List.map_cons, hbyte, List.map_nil]

theorem unpercent_cons_of_ne {c : Char} (hc : c ≠ '%') (rest : JsString) :
    unpercent (c :: rest) = c.toNat :: unpercent rest := by
  cases rest with
  | nil => simp [unpercent, hc]
  | cons h rest =>
      cases rest <;> simp [unpercent, hc]

theorem unpercent_percentBytes (bytes : List UInt8) (rest : JsString) :
    unpercent (bytes.flatMap percentByte ++ rest) =
      bytes.map UInt8.toNat ++ unpercent rest := by
  induction bytes with
  | nil => rfl
  | cons b bytes ih =>
      have hb : b.toNat < 256 := b.toNat_lt
      have hvalue : 16 * hexValue (hexDigit (b.toNat / 16)) +
          hexValue (hexDigit (b.toNat % 16)) = b.toNat := by
        rw [hexValue_hexDigit (n := b.toNat / 16) (by omega),
          hexValue_hexDigit (n := b.toNat % 16) (by omega)]
        omega
      simp only [List.flatMap_cons, percentByte, List.cons_append,
        List.nil_append, unpercent, if_true, List.map_cons]
      rw [hvalue, ← ih]

theorem unpercent_encodeChar (c : Char) (rest : JsString) :
    unpercent (encodeChar c ++ rest) =
      (String.utf8EncodeChar c).map UInt8.toNat ++ unpercent rest := by
  unfold encodeChar
  split
  · rename_i hc
    rcases unreserved_ascii hc with ⟨hascii, hpercent⟩
    rw [utf8EncodeChar_ascii hascii]
    exact unpercent_cons_of_ne hpercent rest
  · exact unpercent_percentBytes (String.utf8EncodeChar c) rest

theorem unpercent_encodeURIComponent (s : JsString) :
    unpercent (encodeURIComponent s) =
      (s.flatMap String.utf8EncodeChar).map UInt8.toNat := by
  induction s with
  | nil => rfl
  | cons c rest ih =>
      change unpercent (encodeChar c ++ encodeURIComponent rest) = _
      rw [unpercent_encodeChar, ih, List.flatMap_cons, List.map_append]

theorem encodeURIComponent_injective :
    Function.Injective encodeURIComponent := by
  intro s t h
  have hbytes : (s.flatMap String.utf8EncodeChar).map UInt8.toNat =
      (t.flatMap String.utf8EncodeChar).map UInt8.toNat := by
    rw [← unpercent_encodeURIComponent, ← unpercent_encodeURIComponent, h]
  have hutf8 : s.utf8Encode = t.utf8Encode := by
    unfold List.utf8Encode
    rw [List.map_injective_iff.mpr (fun _ _ => UInt8.toNat_inj.mp) hbytes]
  have hdecode : some s.toArray = some t.toArray := by
    rw [← List.utf8Decode?_utf8Encode, ← List.utf8Decode?_utf8Encode, hutf8]
  simpa using hdecode

/-!
## The characters of an encoded text
-/

theorem mem_percentByte {b : UInt8} {c : Char} (h : c ∈ percentByte b) :
    c = '%' ∨ c ∈ hexDigits := by
  have hdigit : forall n, n < 16 -> hexDigit n ∈ hexDigits := by
    intro n hn
    interval_cases n <;> decide
  have hb : b.toNat < 256 := b.toNat_lt
  simp only [percentByte, List.mem_cons, List.not_mem_nil, or_false] at h
  rcases h with h | h | h
  · exact Or.inl h
  · rw [h]
    exact Or.inr (hdigit _ (by omega))
  · rw [h]
    exact Or.inr (hdigit _ (by omega))

theorem mem_encodeURIComponent {s : JsString} {c : Char}
    (h : c ∈ encodeURIComponent s) : c = '%' ∨ c ∈ unreservedChars := by
  have hhex : ∀ c ∈ hexDigits, c ∈ unreservedChars :=
    forall_mem_of_all (by decide)
  rcases List.mem_flatMap.mp h with ⟨d, _, hc⟩
  unfold encodeChar at hc
  split at hc
  · rename_i hd
    simp only [List.mem_cons, List.not_mem_nil, or_false] at hc
    rw [hc]
    exact Or.inr hd
  · rcases List.mem_flatMap.mp hc with ⟨b, _, hb⟩
    exact (mem_percentByte hb).imp id (hhex c)

theorem percent_of_mem {s : JsString} {c : Char}
    (hc : c ∈ s) (hres : c ∉ unreservedChars) :
    '%' ∈ encodeURIComponent s ∧ 3 ≤ (encodeURIComponent s).length := by
  have hcode : encodeChar c <:+: encodeURIComponent s := by
    rcases List.append_of_mem hc with ⟨before, after, hs⟩
    refine ⟨encodeURIComponent before, encodeURIComponent after, ?_⟩
    simp [hs, encodeURIComponent]
  cases hbytes : String.utf8EncodeChar c with
  | nil => exact absurd hbytes String.utf8EncodeChar_ne_nil
  | cons b bytes =>
      have hchar : encodeChar c = percentByte b ++ bytes.flatMap percentByte := by
        simp [encodeChar, hres, hbytes]
      constructor
      · apply hcode.subset
        simp [hchar, percentByte]
      · have hlen := hcode.length_le
        simp only [hchar, percentByte, List.length_append, List.length_cons,
          List.length_nil] at hlen
        omega

end UriComponent

end Foundation
end RestCache
