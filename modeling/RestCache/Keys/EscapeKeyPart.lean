import RestCache.Foundation.UriComponent

/-!
# Escaping names and values

A string goes into a key as it is unless it contains a character that could be
read as structure; then the whole string is percent-encoded.
-/

namespace RestCache
namespace Keys

open Foundation
open UriComponent

def KEY_NULL : JsString :=
  "%".toList

def jsonOpeners : JsString :=
  ['{', '[', '"']

/-- A character of `chars` anywhere, or an opener of JSON at the start. -/
def hasStructure (chars s : JsString) : Bool :=
  s.any (· ∈ chars) || s.head?.any (· ∈ jsonOpeners)

def VALUE_STRUCTURE : JsString :=
  "%&=".toList

def NAME_STRUCTURE : JsString :=
  "%&,=".toList

-- The `catch` of the source replaces lone surrogates, which a well-formed
-- string does not have.
def encode (s : JsString) : JsString :=
  encodeURIComponent s

def escapeUnless (chars s : JsString) : JsString :=
  if hasStructure chars s then encode s else s

def escapeKeyName (name : JsString) : JsString :=
  escapeUnless NAME_STRUCTURE name

def escapeKeyValue (value : JsString) : JsString :=
  escapeUnless VALUE_STRUCTURE value

/-!
## What escaping leaves in a text

The facts hold for every set of structural characters that contains the percent
sign and none of the characters `encodeURIComponent` keeps.
-/

structure Structural (chars : JsString) : Prop where
  percent : '%' ∈ chars
  reserved : ∀ c ∈ chars, c ∉ unreservedChars

theorem structural_value : Structural VALUE_STRUCTURE := by
  constructor
  · decide
  · exact forall_mem_of_all (by decide)

theorem structural_name : Structural NAME_STRUCTURE := by
  constructor
  · decide
  · exact forall_mem_of_all (by decide)

theorem hasStructure_reserved {chars s : JsString} (hchars : Structural chars)
    (h : hasStructure chars s = true) :
    exists c, c ∈ s ∧ c ∉ unreservedChars := by
  have hopeners : ∀ c ∈ jsonOpeners, c ∉ unreservedChars :=
    forall_mem_of_all (by decide)
  unfold hasStructure at h
  rw [Bool.or_eq_true, List.any_eq_true] at h
  rcases h with ⟨c, hc, hmem⟩ | hhead
  · exact ⟨c, hc, hchars.reserved c (by simpa using hmem)⟩
  · cases s with
    | nil => simp at hhead
    | cons c rest =>
        refine ⟨c, List.mem_cons_self, hopeners c ?_⟩
        simpa using hhead

theorem raw_not_mem {chars s : JsString} {c : Char}
    (h : ¬ hasStructure chars s = true) (hc : c ∈ chars) : c ∉ s := by
  intro hmem
  apply h
  unfold hasStructure
  rw [Bool.or_eq_true, List.any_eq_true]
  exact Or.inl ⟨c, hmem, by simpa using hc⟩

theorem escapeUnless_injective {chars : JsString} (hchars : Structural chars) :
    Function.Injective (escapeUnless chars) := by
  have hcross : forall s t, hasStructure chars s = true ->
      ¬ hasStructure chars t = true -> encode s ≠ t := by
    intro s t hs ht heq
    rcases hasStructure_reserved hchars hs with ⟨c, hc, hres⟩
    have hpercent : '%' ∈ encode s := (percent_of_mem hc hres).left
    rw [heq] at hpercent
    exact raw_not_mem ht hchars.percent hpercent
  intro s t h
  unfold escapeUnless at h
  split at h
  · rename_i hs
    split at h
    · exact encodeURIComponent_injective h
    · rename_i ht
      exact absurd h (hcross s t hs ht)
  · rename_i hs
    split at h
    · rename_i ht
      exact absurd h.symm (hcross t s ht hs)
    · exact h

theorem escapeKeyName_injective : Function.Injective escapeKeyName :=
  escapeUnless_injective structural_name

theorem escapeKeyValue_injective : Function.Injective escapeKeyValue :=
  escapeUnless_injective structural_value

theorem not_mem_escapeUnless {chars s : JsString} {c : Char}
    (hchars : Structural chars) (hc : c ∈ chars) (hne : c ≠ '%') :
    c ∉ escapeUnless chars s := by
  unfold escapeUnless
  split
  · intro hmem
    rcases mem_encodeURIComponent hmem with hpercent | hunreserved
    · exact hne hpercent
    · exact hchars.reserved c hc hunreserved
  · rename_i hs
    exact raw_not_mem hs hc

theorem not_mem_escapeKeyName {c : Char} (name : JsString)
    (hc : c ∈ "&,=".toList) : c ∉ escapeKeyName name := by
  have hall : ∀ c ∈ "&,=".toList, c ∈ NAME_STRUCTURE ∧ c ≠ '%' :=
    forall_mem_of_all (by decide)
  rcases hall c hc with ⟨hmem, hne⟩
  exact not_mem_escapeUnless structural_name hmem hne

theorem not_mem_escapeKeyValue {c : Char} (value : JsString)
    (hc : c ∈ "&=".toList) : c ∉ escapeKeyValue value := by
  have hall : ∀ c ∈ "&=".toList, c ∈ VALUE_STRUCTURE ∧ c ≠ '%' :=
    forall_mem_of_all (by decide)
  rcases hall c hc with ⟨hmem, hne⟩
  exact not_mem_escapeUnless structural_value hmem hne

/-- An escaped text never opens like JSON. -/
theorem head_escapeUnless {chars s : JsString} {c : Char}
    (h : (escapeUnless chars s).head? = some c) : c ∉ jsonOpeners := by
  have hkept : ∀ c ∈ jsonOpeners, c ≠ '%' ∧ c ∉ unreservedChars :=
    forall_mem_of_all (by decide)
  intro hopener
  unfold escapeUnless at h
  split at h
  · have hmem : c ∈ encode s := List.mem_of_head? h
    rcases mem_encodeURIComponent hmem with hpercent | hunreserved
    · exact (hkept c hopener).left hpercent
    · exact (hkept c hopener).right hunreserved
  · rename_i hs
    apply hs
    unfold hasStructure
    rw [h, Bool.or_eq_true]
    exact Or.inr (by simpa using hopener)

theorem escapeKeyValue_ne_null (value : JsString) :
    escapeKeyValue value ≠ KEY_NULL := by
  intro h
  unfold escapeKeyValue escapeUnless at h
  split at h
  · rename_i hs
    rcases hasStructure_reserved structural_value hs with ⟨c, hc, hres⟩
    have hlen : 3 ≤ (encode value).length := (percent_of_mem hc hres).right
    rw [h] at hlen
    exact absurd hlen (by decide)
  · rename_i hs
    exact raw_not_mem hs structural_value.percent (by rw [h]; decide)

end Keys
end RestCache
