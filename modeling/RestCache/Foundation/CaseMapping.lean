import Mathlib.Data.List.Basic
import RestCache.Foundation.UriComponent

/-!
# Lower-casing

What the results need of `String.prototype.toLowerCase`: it maps ASCII text
letter by letter, neither makes nor removes an ASCII character that is not a
letter, does not look past a slash, and never shortens a text.
-/

namespace RestCache
namespace Foundation

structure CaseMapping where
  toLowerCase : JsString -> JsString
  ascii : forall s, (forall c, c ∈ s -> c.toNat < 128) ->
    toLowerCase s = s.map Char.toLower
  kept : forall s c, c ∈ toLowerCase s -> c.toNat < 128 ->
    c.isAlpha = false -> c ∈ s
  slash : forall s t,
    toLowerCase (s ++ '/' :: t) = toLowerCase s ++ '/' :: toLowerCase t
  length_le : forall s, s.length ≤ (toLowerCase s).length

namespace CaseMapping

variable (lower : CaseMapping)

@[simp]
theorem toLowerCase_nil : lower.toLowerCase [] = [] :=
  lower.ascii [] (by simp)

theorem toLowerCase_eq_nil {s : JsString} (h : lower.toLowerCase s = []) :
    s = [] := by
  have hlen := lower.length_le s
  rw [h] at hlen
  exact List.eq_nil_of_length_eq_zero (Nat.le_zero.mp hlen)

theorem not_mem_toLowerCase {s : JsString} {c : Char} (hc : c ∉ s)
    (hascii : c.toNat < 128) (halpha : c.isAlpha = false) :
    c ∉ lower.toLowerCase s :=
  fun hmem => hc (lower.kept s c hmem hascii halpha)

theorem toLowerCase_slash_cons (s : JsString) :
    lower.toLowerCase ('/' :: s) = '/' :: lower.toLowerCase s := by
  have h := lower.slash [] s
  simpa using h

theorem of_ascii {p : Char -> Prop}
    (h : forall n, n < 128 -> p (Char.ofNat n)) {c : Char}
    (hc : c.toNat < 128) : p c := by
  rw [← Char.ofNat_toNat c]
  exact h c.toNat hc

/-!
## Latin-1

The mapping on the characters a request line can hold; every other character is
left alone.
-/

def latin1Char (c : Char) : Char :=
  if c.toNat ∈ List.range' 0x41 26 ∨
      (c.toNat ∈ List.range' 0xC0 31 ∧ c.toNat ≠ 0xD7) then
    Char.ofNat (c.toNat + 32)
  else
    c

theorem latin1Char_ascii {c : Char} (h : c.toNat < 128) :
    latin1Char c = c.toLower :=
  @of_ascii (fun c => latin1Char c = c.toLower) (by decide) c h

theorem latin1Char_eq {c d : Char} (h : latin1Char c = d)
    (hascii : d.toNat < 128) (halpha : d.isAlpha = false) : c = d := by
  have hmapped : forall n, n ∈ List.range' 0x41 26 ∨ n ∈ List.range' 0xC0 31 ->
      128 ≤ (Char.ofNat (n + 32)).toNat ∨
        (Char.ofNat (n + 32)).isAlpha = true := by
    intro n hn
    have hlists : (∀ m ∈ List.range' 0x41 26,
        128 ≤ (Char.ofNat (m + 32)).toNat ∨
          (Char.ofNat (m + 32)).isAlpha = true) ∧
        (∀ m ∈ List.range' 0xC0 31,
          128 ≤ (Char.ofNat (m + 32)).toNat ∨
            (Char.ofNat (m + 32)).isAlpha = true) := by
      decide
    exact hn.elim (hlists.left n) (hlists.right n)
  unfold latin1Char at h
  split at h
  · rename_i hrange
    rw [← h] at hascii halpha
    rcases hmapped c.toNat (hrange.imp id And.left) with hbig | hletter
    · exact absurd hascii (Nat.not_lt.mpr hbig)
    · exact absurd halpha (by simp [hletter])
  · exact h

theorem latin1Char_congr {p : Char -> Bool}
    (h : forall n, n ∈ List.range' 0x41 26 ++ List.range' 0xC0 31 ->
      p (Char.ofNat (n + 32)) = p (Char.ofNat n)) (c : Char) :
    p (latin1Char c) = p c := by
  unfold latin1Char
  split
  · rename_i hrange
    rw [h c.toNat, Char.ofNat_toNat]
    rw [List.mem_append]
    exact hrange.imp id And.left
  · rfl

theorem latin1Char_of_ascii {c : Char} (h : (latin1Char c).toNat < 128) :
    latin1Char c = c.toLower := by
  have hlatin : (latin1Char c).toNat < 128 -> c.toNat < 128 := by
    have hiff := @latin1Char_congr (fun d => decide (d.toNat < 128))
      (by decide) c
    exact (decide_eq_decide.mp hiff).mp
  exact latin1Char_ascii (hlatin h)

theorem toLower_of_not_ascii {c : Char} (h : 128 ≤ c.toNat) :
    c.toLower = c := by
  have hupper : ¬ ('A'.val ≤ c.val ∧ c.val ≤ 'Z'.val) := by
    intro hrange
    have hle : c.toNat ≤ 90 := UInt32.le_iff_toNat_le.mp hrange.right
    omega
  exact dif_neg hupper

theorem map_latin1Char_of_toLower {s t : JsString}
    (h : s.map Char.toLower = t) (ht : forall c, c ∈ t -> c.toNat < 128) :
    s.map latin1Char = t := by
  rw [← h]
  apply List.map_congr_left
  intro c hc
  have hlower : c.toLower.toNat < 128 :=
    ht _ (h ▸ List.mem_map_of_mem hc)
  apply latin1Char_ascii
  by_contra hbig
  rw [toLower_of_not_ascii (Nat.le_of_not_lt hbig)] at hlower
  exact hbig hlower

theorem map_toLower_of_latin1Char {s t : JsString}
    (h : s.map latin1Char = t) (ht : forall c, c ∈ t -> c.toNat < 128) :
    s.map Char.toLower = t := by
  rw [← h]
  apply List.map_congr_left
  intro c hc
  exact (latin1Char_of_ascii (ht _ (h ▸ List.mem_map_of_mem hc))).symm

/-- Lower-casing where a text holds Latin-1 characters only. -/
def latin1 : CaseMapping where
  toLowerCase s := s.map latin1Char
  ascii s hs := List.map_congr_left (fun c hc => latin1Char_ascii (hs c hc))
  kept s c hmem hascii halpha := by
    rcases List.mem_map.mp hmem with ⟨d, hd, hdc⟩
    exact latin1Char_eq hdc hascii halpha ▸ hd
  slash s t := by
    have hslash : latin1Char '/' = '/' := by
      decide
    rw [List.map_append, List.map_cons, hslash]
  length_le s := by simp

/-!
## Ignoring case
-/

def latin1Upper (c : Char) : Char :=
  if c.toNat ∈ List.range' 0x61 26 ∨
      (c.toNat ∈ List.range' 0xE0 31 ∧ c.toNat ≠ 0xF7) then
    Char.ofNat (c.toNat - 32)
  else
    c

def latin1Variants (c : Char) : List Char :=
  [c, latin1Char c, latin1Upper c]

def latin1Chars : List Char :=
  (List.range 256).map Char.ofNat

theorem mem_latin1Chars {c : Char} (h : c.toNat < 256) : c ∈ latin1Chars := by
  rw [← Char.ofNat_toNat c]
  exact List.mem_map_of_mem (List.mem_range.mpr h)

end CaseMapping

end Foundation
end RestCache
