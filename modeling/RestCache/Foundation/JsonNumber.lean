import Mathlib.Data.List.DropRight
import RestCache.Foundation.UriComponent

/-!
# Numbers in JSON

A finite number is given by its decimal digits.  Its text is laid out as
`Number::toString` does; a numeral is read with all its digits, also with those
that a double does not have.
-/

namespace RestCache
namespace Foundation

abbrev Digits := { s : JsString // s.all Char.isDigit = true }

/--
The number `0.d...d` times ten to the exponent.  Zero has no digits, and no sign
as its text has none.
-/
structure JsNumber where
  negative : Bool
  digits : Digits
  exponent : Int
  first : digits.val.head? ≠ some '0'
  last : digits.val.getLast? ≠ some '0'
  zero : digits.val = [] -> negative = false ∧ exponent = 0
deriving DecidableEq

/-- What stands before and behind the point, and behind the `e`. -/
structure Numeral where
  whole : Digits
  fraction : Digits
  exponent : Option Int
deriving DecidableEq

namespace Digits

def zeros (n : Nat) : Digits :=
  ⟨List.replicate n '0', by simp⟩

def append (a b : Digits) : Digits :=
  ⟨a.val ++ b.val, by rw [List.all_append, a.property, b.property]; rfl⟩

def take (a : Digits) (n : Nat) : Digits :=
  ⟨a.val.take n, List.all_eq_true.mpr (fun c hc =>
    List.all_eq_true.mp a.property c (List.mem_of_mem_take hc))⟩

def drop (a : Digits) (n : Nat) : Digits :=
  ⟨a.val.drop n, List.all_eq_true.mpr (fun c hc =>
    List.all_eq_true.mp a.property c (List.mem_of_mem_drop hc))⟩

def isZero (c : Char) : Bool :=
  c = '0'

def significant (a : Digits) : Digits :=
  ⟨(a.val.dropWhile isZero).rdropWhile isZero,
    List.all_eq_true.mpr (fun c hc => List.all_eq_true.mp a.property c
      ((List.dropWhile_sublist isZero).mem
        ((List.rdropWhile_prefix isZero (a.val.dropWhile isZero)).mem hc)))⟩

theorem significant_first (a : Digits) :
    a.significant.val.head? ≠ some '0' := by
  intro hhead
  have hrest : (a.val.dropWhile isZero).head? = some '0' := by
    rcases List.rdropWhile_prefix isZero (a.val.dropWhile isZero) with
      ⟨zeros, hzeros⟩
    rw [← hzeros, List.head?_append,
      show ((a.val.dropWhile isZero).rdropWhile isZero).head? = _ from hhead]
    rfl
  have hnot := List.head?_dropWhile_not isZero a.val
  rw [hrest] at hnot
  exact absurd hnot (by decide)

theorem significant_last (a : Digits) :
    a.significant.val.getLast? ≠ some '0' := by
  intro hlast
  have hne : a.significant.val ≠ [] := by
    intro hnil
    rw [hnil] at hlast
    exact absurd hlast (by simp)
  have hnot := @List.rdropWhile_last_not _ isZero (a.val.dropWhile isZero) hne
  rw [List.getLast?_eq_some_getLast hne, Option.some.injEq] at hlast
  rw [show List.getLast ((a.val.dropWhile isZero).rdropWhile isZero) hne = '0'
    from hlast] at hnot
  exact hnot rfl

end Digits

/-!
## Texts
-/

def exponentText : Option Int -> JsString
  | none => []
  | some e => 'e' :: (if e < 0 then '-' else '+') :: Nat.toDigits 10 e.natAbs

def fractionText (fraction : JsString) : JsString :=
  if fraction = [] then [] else '.' :: fraction

def Numeral.text (m : Numeral) : JsString :=
  m.whole ++ (fractionText m.fraction ++ exponentText m.exponent)

namespace JsNumber

/-- The layouts of `Number::toString`. -/
def numeral (x : JsNumber) : Numeral :=
  let k := x.digits.val.length
  let n := x.exponent
  if k = 0 then
    Numeral.mk (Digits.zeros 1) (Digits.zeros 0) none
  else if k <= n ∧ n <= 21 then
    Numeral.mk (x.digits.append (Digits.zeros (n - k).toNat)) (Digits.zeros 0) none
  else if 0 < n ∧ n <= 21 then
    Numeral.mk (x.digits.take n.toNat) (x.digits.drop n.toNat) none
  else if -6 < n ∧ n <= 0 then
    Numeral.mk (Digits.zeros 1) ((Digits.zeros (-n).toNat).append x.digits) none
  else
    Numeral.mk (x.digits.take 1) (x.digits.drop 1) (some (n - 1))

def text (x : JsNumber) : JsString :=
  if x.negative then '-' :: x.numeral.text else x.numeral.text

end JsNumber

/-!
## Reading
-/

def readDigits (text : JsString) : Digits × JsString :=
  (⟨text.takeWhile Char.isDigit, List.all_takeWhile⟩,
    text.dropWhile Char.isDigit)

def readNatural (text : JsString) : Option (Nat × JsString) :=
  let digits := readDigits text
  if digits.1.val = [] then none
  else some (Nat.ofDigitChars 10 digits.1 0, digits.2)

def readSigned : JsString -> Option (Int × JsString)
  | [] => none
  | c :: rest =>
      if c = '-' then (readNatural rest).map fun p => (-(p.1 : Int), p.2)
      else if c = '+' then (readNatural rest).map fun p => ((p.1 : Int), p.2)
      else (readNatural (c :: rest)).map fun p => ((p.1 : Int), p.2)

def readExponent : JsString -> Option (Option Int × JsString)
  | [] => some (none, [])
  | c :: rest =>
      if c = 'e' ∨ c = 'E' then (readSigned rest).map fun p => (some p.1, p.2)
      else some (none, c :: rest)

def readFraction : JsString -> Option (Digits × JsString)
  | [] => some (Digits.zeros 0, [])
  | c :: rest =>
      if c = '.' then
        if (readDigits rest).1.val = [] then none else some (readDigits rest)
      else
        some (Digits.zeros 0, c :: rest)

/-- A numeral begins with a digit, and with a zero only where it is alone. -/
def isWhole (digits : JsString) : Bool :=
  digits ≠ [] && (digits.head? ≠ some '0' || digits = ['0'])

def readNumeral (text : JsString) : Option (Numeral × JsString) :=
  let whole := readDigits text
  if isWhole whole.1 then
    (readFraction whole.2).bind fun p =>
      (readExponent p.2).map fun q => (Numeral.mk whole.1 p.1 q.1, q.2)
  else
    none

namespace JsNumber

def ofNumeral (negative : Bool) (m : Numeral) : JsNumber :=
  let all := m.whole.append m.fraction
  if h : all.significant.val = [] then
    { negative := false
      digits := Digits.zeros 0
      exponent := 0
      first := by decide
      last := by decide
      zero := fun _ => ⟨rfl, rfl⟩ }
  else
    { negative
      digits := all.significant
      exponent := m.whole.val.length + m.exponent.getD 0 -
        (all.val.takeWhile Digits.isZero).length
      first := all.significant_first
      last := all.significant_last
      zero := fun hnil => absurd hnil h }

end JsNumber

def readNumber : JsString -> Option (JsNumber × JsString)
  | [] => none
  | c :: rest =>
      if c = '-' then
        (readNumeral rest).map fun p => (JsNumber.ofNumeral true p.1, p.2)
      else
        (readNumeral (c :: rest)).map fun p => (JsNumber.ofNumeral false p.1, p.2)

/-!
## A numeral is read back
-/

/-- The text does not go on as a numeral would. -/
def Ends (rest : JsString) : Prop :=
  forall c, rest.head? = some c -> c.isDigit = false ∧ c ∉ ['.', 'e', 'E']

theorem readDigits_append {rest : JsString} (a : Digits)
    (h : forall c, rest.head? = some c -> c.isDigit = false) :
    readDigits (a.val ++ rest) = (a, rest) := by
  have hall := List.all_eq_true.mp a.property
  have htake : rest.takeWhile Char.isDigit = [] ∧
      rest.dropWhile Char.isDigit = rest := by
    cases rest with
    | nil => exact ⟨rfl, rfl⟩
    | cons c more =>
        have hc := h c rfl
        simp [hc]
  rw [readDigits]
  apply Prod.ext
  · apply Subtype.ext
    show (a.val ++ rest).takeWhile Char.isDigit = a.val
    rw [List.takeWhile_append_of_pos hall, htake.left, List.append_nil]
  · show (a.val ++ rest).dropWhile Char.isDigit = rest
    rw [List.dropWhile_append_of_pos hall, htake.right]

theorem readNatural_append {rest : JsString} (n : Nat)
    (h : forall c, rest.head? = some c -> c.isDigit = false) :
    readNatural (Nat.toDigits 10 n ++ rest) = some (n, rest) := by
  have hdigits : (Nat.toDigits 10 n).all Char.isDigit = true :=
    List.all_eq_true.mpr (fun c hc =>
      Nat.isDigit_of_mem_toDigits (by decide) (by decide) hc)
  have hread := readDigits_append ⟨_, hdigits⟩ h
  rw [readNatural]
  simp only [hread]
  rw [if_neg Nat.toDigits_ne_nil, Nat.ofDigitChars_ten_toDigits]

theorem readExponent_append {rest : JsString} (e : Option Int) (h : Ends rest) :
    readExponent (exponentText e ++ rest) = some (e, rest) := by
  cases e with
  | none =>
      cases rest with
      | nil => rfl
      | cons c more =>
          have hc := (h c rfl).right
          simp only [List.mem_cons, List.not_mem_nil, or_false, not_or] at hc
          show readExponent (c :: more) = _
          rw [readExponent, if_neg (not_or.mpr hc.right)]
  | some e =>
      have hread := readNatural_append e.natAbs (fun c hc => (h c hc).left)
      show readExponent ('e' :: ((if e < 0 then '-' else '+') ::
        (Nat.toDigits 10 e.natAbs ++ rest))) = _
      rw [readExponent, if_pos (Or.inl rfl)]
      by_cases he : e < 0
      · rw [if_pos he, readSigned, if_pos rfl, hread]
        simp only [Option.map_some]
        rw [show (-(e.natAbs : Int)) = e by omega]
      · rw [if_neg he, readSigned, if_neg (by decide), if_pos rfl, hread]
        simp only [Option.map_some]
        rw [show ((e.natAbs : Int)) = e by omega]

theorem exponentText_ends {rest : JsString} (e : Option Int) (h : Ends rest) :
    forall c, (exponentText e ++ rest).head? = some c ->
      c.isDigit = false ∧ c ≠ '.' := by
  intro c hc
  cases e with
  | none =>
      have hends := h c hc
      exact ⟨hends.left, fun hdot => hends.right (by simp [hdot])⟩
  | some e =>
      have hhead : 'e' = c := Option.some.inj hc
      rw [← hhead]
      decide

theorem readFraction_append {rest : JsString} (fraction : Digits)
    (e : Option Int) (h : Ends rest) :
    readFraction (fractionText fraction ++ (exponentText e ++ rest)) =
      some (fraction, exponentText e ++ rest) := by
  have hends := exponentText_ends e h
  unfold fractionText
  split
  · rename_i hnil
    have hfraction : fraction = Digits.zeros 0 := Subtype.ext hnil
    rw [hfraction]
    generalize exponentText e ++ rest = text at hends
    cases text with
    | nil => rfl
    | cons c more =>
        show readFraction (c :: more) = _
        rw [readFraction, if_neg (hends c rfl).right]
  · rename_i hne
    have hread := readDigits_append fraction (fun c hc => (hends c hc).left)
    show readFraction ('.' :: (fraction.val ++ (exponentText e ++ rest))) = _
    rw [readFraction, if_pos rfl, hread, if_neg hne]

theorem readNumeral_append {rest : JsString} {m : Numeral}
    (hwhole : isWhole m.whole = true) (h : Ends rest) :
    readNumeral (m.text ++ rest) = some (m, rest) := by
  have hends : forall c, (fractionText m.fraction ++
      (exponentText m.exponent ++ rest)).head? = some c -> c.isDigit = false := by
    intro c hc
    unfold fractionText at hc
    split at hc
    · exact (exponentText_ends m.exponent h c hc).left
    · have hhead : '.' = c := Option.some.inj hc
      rw [← hhead]
      decide
  have htext : m.text ++ rest = m.whole.val ++ (fractionText m.fraction ++
      (exponentText m.exponent ++ rest)) := by
    rw [Numeral.text, List.append_assoc, List.append_assoc]
  rw [htext, readNumeral, readDigits_append m.whole hends]
  simp only
  rw [if_pos hwhole, readFraction_append m.fraction m.exponent h,
    Option.bind_some, readExponent_append m.exponent h]
  rfl

/-!
## A number is read back
-/

theorem Digits.significant_between {a : Digits} {d : JsString} {p q : Nat}
    (hdigits : a.val = List.replicate p '0' ++ (d ++ List.replicate q '0'))
    (hne : d ≠ []) (hfirst : d.head? ≠ some '0') (hlast : d.getLast? ≠ some '0') :
    a.significant.val = d ∧ (a.val.takeWhile Digits.isZero).length = p := by
  have hzero : forall n, forall c, c ∈ List.replicate n '0' ->
      Digits.isZero c = true := by
    intro n c hc
    rw [List.eq_of_mem_replicate hc]
    rfl
  have hfront : (d ++ List.replicate q '0').takeWhile Digits.isZero = [] ∧
      (d ++ List.replicate q '0').dropWhile Digits.isZero =
        d ++ List.replicate q '0' := by
    cases d with
    | nil => exact absurd rfl hne
    | cons c rest =>
        have hc : Digits.isZero c = false :=
          decide_eq_false (fun hzero => hfirst (congrArg some hzero))
        simp [hc]
  have hback : (List.replicate q '0').reverse.dropWhile Digits.isZero = [] := by
    rw [List.reverse_replicate]
    exact List.dropWhile_eq_nil_iff.mpr (hzero q)
  have hkept : d.reverse.dropWhile Digits.isZero = d.reverse := by
    cases hreverse : d.reverse with
    | nil => rfl
    | cons c rest =>
        have hc : Digits.isZero c = false := by
          apply decide_eq_false
          intro hzero
          apply hlast
          rw [← List.head?_reverse, hreverse, hzero]
          rfl
        simp [hc]
  constructor
  · show (a.val.dropWhile Digits.isZero).rdropWhile Digits.isZero = d
    rw [hdigits, List.dropWhile_append_of_pos (hzero p), hfront.right,
      List.rdropWhile, List.reverse_append, List.dropWhile_append, hback,
      List.isEmpty_nil, if_pos rfl, hkept, List.reverse_reverse]
  · rw [hdigits, List.takeWhile_append_of_pos (hzero p), hfront.left,
      List.append_nil, List.length_replicate]

namespace JsNumber

variable {x : JsNumber}

theorem ofNumeral_between {m : Numeral} {p q : Nat} (hne : x.digits.val ≠ [])
    (hdigits : (m.whole.append m.fraction).val =
      List.replicate p '0' ++ (x.digits.val ++ List.replicate q '0'))
    (hexponent : m.whole.val.length + m.exponent.getD 0 - p = x.exponent) :
    ofNumeral x.negative m = x := by
  rcases Digits.significant_between hdigits hne x.first x.last with
    ⟨hsignificant, hleading⟩
  have hsome : (m.whole.append m.fraction).significant.val ≠ [] := by
    rw [hsignificant]
    exact hne
  rw [ofNumeral]
  simp only [dif_neg hsome, hleading, hexponent]
  have hsame : (m.whole.append m.fraction).significant = x.digits :=
    Subtype.ext hsignificant
  cases x
  simp only [hsame]

/-- The layout of a number is read as the number. -/
theorem ofNumeral_numeral (x : JsNumber) : ofNumeral x.negative x.numeral = x := by
  by_cases hk : x.digits.val.length = 0
  · have hnil := List.length_eq_zero_iff.mp hk
    rcases x.zero hnil with ⟨hnegative, hexponent⟩
    have hdigits : x.digits = Digits.zeros 0 := Subtype.ext hnil
    have hnumeral : x.numeral =
        Numeral.mk (Digits.zeros 1) (Digits.zeros 0) none := by
      rw [numeral]
      exact if_pos hk
    rw [hnumeral]
    cases x
    subst hnegative hexponent hdigits
    rfl
  · have hne : x.digits.val ≠ [] :=
      fun hnil => hk (List.length_eq_zero_iff.mpr hnil)
    unfold numeral
    simp only
    rw [if_neg hk]
    split
    · rename_i hlarge
      refine @ofNumeral_between x _ 0 (x.exponent - x.digits.val.length).toNat
        hne ?_ ?_
      · simp [Digits.append, Digits.zeros]
      · simp only [Digits.append, Digits.zeros, List.length_append,
          List.length_replicate, Option.getD_none]
        omega
    · rename_i hshort
      split
      · rename_i hpoint
        refine @ofNumeral_between x _ 0 0 hne ?_ ?_
        · simp [Digits.append, Digits.take, Digits.drop]
        · simp only [Digits.take, List.length_take, Option.getD_none]
          omega
      · split
        · rename_i hsmall
          refine @ofNumeral_between x _ (1 + (-x.exponent).toNat) 0 hne ?_ ?_
          · simp [Digits.append, Digits.zeros, List.replicate_add]
          · simp only [Digits.zeros, List.length_replicate, Option.getD_none]
            omega
        · refine @ofNumeral_between x _ 0 0 hne ?_ ?_
          · show x.digits.val.take 1 ++ x.digits.val.drop 1 = [] ++ _
            rw [List.take_append_drop, List.nil_append, List.replicate_zero,
              List.append_nil]
          · simp only [Digits.take, List.length_take, Option.getD_some]
            omega

theorem isWhole_of_first {digits : JsString} (hne : digits ≠ [])
    (hfirst : digits.head? ≠ some '0') : isWhole digits = true := by
  simp [isWhole, hne, hfirst]

theorem isWhole_numeral (x : JsNumber) : isWhole x.numeral.whole = true := by
  have hzero : isWhole (Digits.zeros 1).val = true := by
    decide
  unfold numeral
  simp only
  split
  · exact hzero
  · rename_i hk
    have hne : x.digits.val ≠ [] :=
      fun hnil => hk (List.length_eq_zero_iff.mpr hnil)
    have hbegins : forall more : JsString,
        isWhole (x.digits.val ++ more) = true := by
      intro more
      apply isWhole_of_first (List.append_ne_nil_of_left_ne_nil hne more)
      rw [List.head?_append_of_ne_nil _ hne]
      exact x.first
    have htake : forall n, 0 < n -> isWhole (x.digits.val.take n) = true := by
      intro n hn
      apply isWhole_of_first
      · intro hnil
        rcases List.take_eq_nil_iff.mp hnil with hzero | hnone
        · omega
        · exact hne hnone
      · rw [List.head?_take, if_neg (by omega)]
        exact x.first
    split
    · exact hbegins _
    · split
      · exact htake _ (by omega)
      · split
        · exact hzero
        · exact htake 1 Nat.one_pos

theorem numeral_text_head (x : JsNumber) (rest : JsString) :
    exists c more, x.numeral.text ++ rest = c :: more ∧ c.isDigit = true := by
  have hwhole := isWhole_numeral x
  have hall := x.numeral.whole.property
  unfold Numeral.text
  cases hdigits : x.numeral.whole.val with
  | nil =>
      rw [hdigits] at hwhole
      exact absurd hwhole (by decide)
  | cons c more =>
      rw [hdigits, List.all_cons, Bool.and_eq_true] at hall
      exact ⟨c, _, rfl, hall.left⟩

end JsNumber

theorem readNumber_text (x : JsNumber) {rest : JsString} (h : Ends rest) :
    readNumber (x.text ++ rest) = some (x, rest) := by
  have hread := readNumeral_append (JsNumber.isWhole_numeral x) h
  have hback := JsNumber.ofNumeral_numeral x
  unfold JsNumber.text
  cases hnegative : x.negative with
  | true =>
      rw [hnegative] at hback
      show readNumber ('-' :: (x.numeral.text ++ rest)) = _
      rw [readNumber, if_pos rfl, hread, Option.map_some, hback]
  | false =>
      rw [hnegative] at hback
      rcases JsNumber.numeral_text_head x rest with ⟨c, more, htext, hdigit⟩
      show readNumber (x.numeral.text ++ rest) = _
      have hminus : c ≠ '-' := by
        intro hc
        rw [hc] at hdigit
        exact absurd hdigit (by decide)
      rw [htext, readNumber, if_neg hminus, ← htext, hread, Option.map_some, hback]

end Foundation
end RestCache
