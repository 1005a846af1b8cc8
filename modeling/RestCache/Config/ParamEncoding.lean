import RestCache.Config.WildcardPattern

/-!
# Values in a path

How a client may write a value as a part of a path, and that the source a
targeted purge puts in the place of a parameter stands for these texts.
-/

namespace RestCache
namespace Config

open Foundation
open RegExpSource
open Router

/-!
## Encodings
-/

def percentText (c : Char) : JsString :=
  (String.utf8EncodeChar c).flatMap UriComponent.percentByte

/-- What may stand for a character; `literal` ones stand for themselves. -/
def CharEncodes (literal : Char -> Bool) (c : Char) (text : JsString) : Prop :=
  if literal c then text = [c]
  else if isPrintable c ∧ c ≠ '#' ∧ c ≠ '?' then
    text = [c] ∨ text = percentText c
  else text = percentText c

/-- What may stand for a value, in which an escape stands for itself. -/
def Encodes (literal : Char -> Bool) : JsString -> JsString -> Prop
  | '%' :: h :: l :: rest, text =>
      if isHexDigit h ∧ isHexDigit l then
        exists more, text = '%' :: h :: l :: more ∧ Encodes literal rest more
      else
        exists first more, text = first ++ more ∧
          CharEncodes literal '%' first ∧ Encodes literal (h :: l :: rest) more
  | c :: rest, text =>
      exists first more, text = first ++ more ∧
        CharEncodes literal c first ∧ Encodes literal rest more
  | [], text => text = []

def isUnreservedOrSubDelim (c : Char) : Bool :=
  c.isAlphanum || c ∈ "-._~!$&'()*+,;=".toList

def isPathChar (c : Char) : Bool :=
  isUnreservedOrSubDelim c || c = ':' || c = '@'

/-!
## Lower-cased sources
-/

/-- The source stands for these texts once it is in lower case. -/
def Stands (source : JsString) (A : JsString -> Prop) : Prop :=
  exists lowered, Lowers source lowered ∧ Reads lowered (Meaning.ofSet A)

theorem stands_nil : Stands [] (fun s => s = []) :=
  ⟨[], Lowers.fixed rfl rfl rfl, reads_nil⟩

theorem Stands.congr {source : JsString} {A B : JsString -> Prop}
    (h : Stands source A) (heq : forall s, A s <-> B s) : Stands source B := by
  rcases h with ⟨lowered, hlowers, hreads⟩
  exact ⟨lowered, hlowers, hreads.congr (fun _ mid _ => heq mid)⟩

theorem Stands.append {s t : JsString} {A B C : JsString -> Prop}
    (hs : Stands s A) (ht : Stands t B)
    (h : forall mid, C mid <-> exists x y, mid = x ++ y ∧ A x ∧ B y) :
    Stands (s ++ t) C := by
  rcases hs with ⟨s', hs', hA⟩
  rcases ht with ⟨t', ht', hB⟩
  exact ⟨s' ++ t', hs'.append ht', reads_seq hA hB h⟩

/-!
## Characters
-/

theorem isPrintable_ascii {c : Char} (h : isPrintable c = true) :
    c.toNat < 128 ∧ isLineTerminator c = false := by
  rw [isPrintable, Bool.and_eq_true, decide_eq_true_eq,
    decide_eq_true_eq] at h
  have hascii : c.toNat < 128 := by
    omega
  have hall := @CaseMapping.of_ascii
    (fun c => 0x21 ≤ c.toNat -> isLineTerminator c = false) (by decide)
  exact ⟨hascii, hall hascii h.left⟩

theorem alphanum_or_mem_ascii {others : JsString} {c : Char}
    (hothers : ∀ d ∈ others, d.toNat < 128)
    (h : (c.isAlphanum || c ∈ others) = true) : c.toNat < 128 := by
  rw [Bool.or_eq_true] at h
  rcases h with h | h
  · apply isStatic_toNat
    simp [isStatic, h]
  · exact hothers c (of_decide_eq_true h)

theorem isPathLiteral_ascii {c : Char} (h : isPathLiteral c = true) :
    c.toNat < 128 :=
  alphanum_or_mem_ascii (forall_mem_of_all (by decide)) h

theorem isPathChar_ascii {c : Char} (h : isPathChar c = true) :
    c.toNat < 128 := by
  rw [isPathChar, Bool.or_eq_true, Bool.or_eq_true, decide_eq_true_eq,
    decide_eq_true_eq] at h
  rcases h with (h | h) | h
  · exact alphanum_or_mem_ascii (forall_mem_of_all (by decide)) h
  · rw [h]
    decide
  · rw [h]
    decide

theorem isPrintable_of_isPathLiteral {c : Char}
    (h : isPathLiteral c = true) : isPrintable c = true :=
  @CaseMapping.of_ascii
    (fun c => isPathLiteral c = true -> isPrintable c = true)
    (by decide +kernel) c (isPathLiteral_ascii h) h

theorem textChar_plain {c : Char} (h : c ∉ regExpSpecials) :
    textChar c = ([ofChar c], Mode.text) := by
  unfold textChar
  split
  all_goals first
    | rfl
    | exact absurd (by decide) h

theorem scans_escaped {c : Char} (h : c ∈ regExpSpecials) :
    Scans ['\\', c] [Token.atom (literal c)] := by
  have hall : ∀ c ∈ regExpSpecials, c ≠ 'b' ∧ c ≠ 'B' ∧
      (setEscape c).isNone = true ∧ isUnsupportedEscape c = false ∧
        controlEscape c = none :=
    forall_mem_of_all (by decide)
  rcases hall c h with ⟨hb, hB, hset, hcode, hcontrol⟩
  rw [Option.isNone_iff_eq_none] at hset
  have hescape : scanChar Mode.escape c = Except.ok ([ofChar c], Mode.text) := by
    rw [scanChar, if_neg hb, if_neg hB, hset]
    simp [charEscape, hcode, hcontrol, Except.map]
  have hscan : scan Mode.escape [c] =
      Except.ok ([Token.atom (literal c)], Mode.text) := by
    rw [scan, hescape]
    rfl
  show (scan Mode.escape [c]).map _ = _
  rw [hscan]
  rfl

theorem escapeRegExp_single (c : Char) :
    escapeRegExp [c] = if c ∈ regExpSpecials then ['\\', c] else [c] := by
  rw [escapeRegExp, List.flatMap_cons, List.flatMap_nil, List.append_nil]

theorem stands_escapeRegExp {c : Char} (h : isPrintable c = true) :
    Stands (escapeRegExp [c]) (fun s => s = [c.toLower]) := by
  have hascii := isPrintable_ascii h
  have hspecial := @CaseMapping.of_ascii
    (fun c => (c ∈ regExpSpecials -> c.toLower = c) ∧
      (c ∉ regExpSpecials -> c.toLower ∉ regExpSpecials)) (by decide)
    c hascii.left
  rw [escapeRegExp_single]
  split
  · rename_i hc
    refine ⟨['\\', c], ⟨?_, rfl, rfl⟩, ?_⟩
    · exact isAsciiLine_cons.mpr ⟨by decide,
        isAsciiLine_cons.mpr ⟨hascii, fun _ hnil => absurd hnil List.not_mem_nil⟩⟩
    · rw [hspecial.left hc]
      apply (readsAtom_of_scan (scans_escaped hc)).reads.congr
      intro before mid after
      simp [Meaning.char, Meaning.ofSet, literal]
  · rename_i hc
    have hbackslash : c ≠ '\\' := by
      intro heq
      rw [heq] at hc
      exact hc (by decide)
    refine ⟨[c.toLower], ⟨?_, ?_, ?_⟩, ?_⟩
    · exact isAsciiLine_cons.mpr
        ⟨hascii, fun _ hnil => absurd hnil List.not_mem_nil⟩
    · rw [escapesEnd_cons _ hbackslash]
      rfl
    · rw [lowerLetters_cons _ hbackslash]
      rfl
    · apply reads_text
      intro d hd
      rw [List.mem_singleton.mp hd]
      exact textChar_plain (hspecial.right hc)

theorem digit_lower {n : Nat} (h : n < 16) :
    (UriComponent.hexDigit n).toLower = lowerHexDigit n ∧
      (UriComponent.hexDigit n).toNat < 128 ∧
      isHexDigit (UriComponent.hexDigit n) = true ∧
      isHexDigit (lowerHexDigit n) = true := by
  have hall : forall n, n < 16 ->
      (UriComponent.hexDigit n).toLower = lowerHexDigit n ∧
        (UriComponent.hexDigit n).toNat < 128 ∧
        isHexDigit (UriComponent.hexDigit n) = true ∧
        isHexDigit (lowerHexDigit n) = true := by
    decide
  exact hall n h

theorem percentEncode_eq (c : Char) :
    percentEncode c = (percentText c).map Char.toLower := by
  have hbyte : forall b : UInt8,
      ['%', lowerHexDigit (b.toNat / 16), lowerHexDigit (b.toNat % 16)] =
        (UriComponent.percentByte b).map Char.toLower := by
    intro b
    have hb : b.toNat < 256 := b.toNat_lt
    have hhigh := @digit_lower (b.toNat / 16) (by omega)
    have hlow := @digit_lower (b.toNat % 16) (by omega)
    rw [← hhigh.left, ← hlow.left]
    rfl
  unfold percentEncode percentText
  rw [List.map_flatMap, funext hbyte]

def isEscapeChar (c : Char) : Bool :=
  c = '%' || isHexDigit c

theorem escapeChar_facts {c : Char} (h : isEscapeChar c = true) :
    c.toNat < 128 ∧ isLineTerminator c = false ∧ c ≠ '\\' ∧ c ≠ '/' ∧
      c.toLower ∉ regExpSpecials ∧ isEscapeChar c.toLower = true := by
  have hascii : c.toNat < 128 := by
    simp only [isEscapeChar, isHexDigit, Bool.or_eq_true, decide_eq_true_eq,
      Bool.and_eq_true] at h
    rcases h with h | (h | h) | h
    · rw [h]
      decide
    · apply isStatic_toNat
      simp [isStatic, Char.isAlphanum, h]
    · exact Nat.lt_of_le_of_lt (UInt32.le_iff_toNat_le.mp h.right) (by decide)
    · exact Nat.lt_of_le_of_lt (UInt32.le_iff_toNat_le.mp h.right) (by decide)
  exact ⟨hascii, @CaseMapping.of_ascii
    (fun c => isEscapeChar c = true -> isLineTerminator c = false ∧
      c ≠ '\\' ∧ c ≠ '/' ∧ c.toLower ∉ regExpSpecials ∧
        isEscapeChar c.toLower = true)
    (by decide +kernel) c hascii h⟩

theorem percentText_escape (c : Char) :
    (percentText c).all isEscapeChar = true := by
  rw [List.all_eq_true]
  intro d hd
  rcases List.mem_flatMap.mp hd with ⟨b, _, hd⟩
  have hb : b.toNat < 256 := b.toNat_lt
  have hhigh := @digit_lower (b.toNat / 16) (by omega)
  have hlow := @digit_lower (b.toNat % 16) (by omega)
  simp only [UriComponent.percentByte, List.mem_cons, List.not_mem_nil,
    or_false] at hd
  rcases hd with rfl | rfl | rfl
  · rfl
  · simp [isEscapeChar, hhigh.right.right.left]
  · simp [isEscapeChar, hlow.right.right.left]

theorem stands_escapes {text : JsString} (h : text.all isEscapeChar = true) :
    Stands text (fun s => s = text.map Char.toLower) := by
  refine ⟨text.map Char.toLower, ?_, ?_⟩
  · induction text with
    | nil => exact Lowers.fixed rfl rfl rfl
    | cons c text ih =>
        rw [List.all_cons, Bool.and_eq_true] at h
        have hc := escapeChar_facts h.left
        have hrest := ih h.right
        constructor
        · exact isAsciiLine_cons.mpr ⟨⟨hc.left, hc.right.left⟩, hrest.line⟩
        · rw [escapesEnd_cons _ hc.right.right.left, hrest.escapes]
        · rw [lowerLetters_cons _ hc.right.right.left, hrest.letters]
          rfl
  · apply reads_text
    intro d hd
    rcases List.mem_map.mp hd with ⟨c, hc, rfl⟩
    have hfacts := escapeChar_facts (List.all_eq_true.mp h c hc)
    exact textChar_plain hfacts.right.right.right.right.left

theorem stands_percentEncode (c : Char) :
    Stands (percentEncode c)
      (fun s => s = (percentText c).map Char.toLower) := by
  have hescape : (percentEncode c).all isEscapeChar = true := by
    rw [percentEncode_eq, List.all_map, List.all_eq_true]
    intro d hd
    have hfacts :=
      escapeChar_facts (List.all_eq_true.mp (percentText_escape c) d hd)
    exact hfacts.right.right.right.right.right
  have hlower : (percentEncode c).map Char.toLower =
      (percentText c).map Char.toLower := by
    rw [percentEncode_eq, List.map_map]
    apply List.map_congr_left
    intro d hd
    have hfacts :=
      escapeChar_facts (List.all_eq_true.mp (percentText_escape c) d hd)
    exact @CaseMapping.of_ascii (fun d => d.toLower.toLower = d.toLower)
      (by decide) d hfacts.left
  rw [← hlower]
  exact stands_escapes hescape

theorem stands_either {s t : JsString} {A B : JsString -> Prop}
    (hs : Stands s A) (ht : Stands t B) :
    Stands ("(?:".toList ++ s ++ '|' :: t ++ [')'])
      (fun mid => A mid ∨ B mid) := by
  rcases hs with ⟨s', hs', hA⟩
  rcases ht with ⟨t', ht', hB⟩
  have hopen : Lowers "(?:".toList "(?:".toList :=
    Lowers.fixed rfl rfl rfl
  have hbar : Lowers ['|'] ['|'] :=
    Lowers.fixed rfl rfl rfl
  have hclose : Lowers [')'] [')'] :=
    Lowers.fixed rfl rfl rfl
  refine ⟨"(?:".toList ++ ((s' ++ '|' :: t') ++ [')']), ?_, ?_⟩
  · have hall :=
      (((hopen.append hs').append hbar).append ht').append hclose
    simpa using hall
  · exact (readsAtom_group (closes_either hA hB)).reads

/-!
## Values
-/

def LowerEncodes (encodes : JsString -> Prop) (s : JsString) : Prop :=
  exists text, encodes text ∧ s = text.map Char.toLower

theorem stands_charToPattern (c : Char) :
    Stands (charToPattern c)
      (LowerEncodes (CharEncodes isPathLiteral c)) := by
  unfold charToPattern
  split
  · rename_i hliteral
    apply (stands_escapeRegExp (isPrintable_of_isPathLiteral hliteral)).congr
    intro s
    simp [LowerEncodes, CharEncodes, hliteral]
  · rename_i hliteral
    split
    · rename_i hprintable
      apply (stands_either (stands_escapeRegExp hprintable.left)
        (stands_percentEncode c)).congr
      intro s
      simp [LowerEncodes, CharEncodes, hliteral, hprintable, or_and_right,
        exists_or]
    · rename_i hprintable
      apply (stands_percentEncode c).congr
      intro s
      simp [LowerEncodes, CharEncodes, hliteral, hprintable]

theorem lowerEncodes_append {A B C : JsString -> Prop}
    (h : forall text, C text <-> exists x y, text = x ++ y ∧ A x ∧ B y)
    (mid : JsString) :
    LowerEncodes C mid <->
      exists x y, mid = x ++ y ∧ LowerEncodes A x ∧ LowerEncodes B y := by
  constructor
  · intro hgiven
    rcases hgiven with ⟨text, htext, hmid⟩
    rcases (h text).mp htext with ⟨x, y, hxy, hx, hy⟩
    exact ⟨x.map Char.toLower, y.map Char.toLower,
      by rw [hmid, hxy, List.map_append], ⟨x, hx, rfl⟩, ⟨y, hy, rfl⟩⟩
  · intro hgiven
    rcases hgiven with ⟨x', y', hmid, ⟨x, hx, hx'⟩, ⟨y, hy, hy'⟩⟩
    exact ⟨x ++ y, (h _).mpr ⟨x, y, rfl, hx, hy⟩,
      by rw [hmid, hx', hy', List.map_append]⟩

/-- The source of a value stands for what a client may send for it. -/
theorem stands_paramToPattern (value : JsString) :
    Stands (paramToPattern value)
      (LowerEncodes (Encodes isPathLiteral value)) := by
  fun_induction paramToPattern value with
  | case1 h l rest hhex ih =>
      have hescape : ['%', h, l].all isEscapeChar = true := by
        simp [isEscapeChar, hhex]
      have hkept : Stands ['%', h, l]
          (LowerEncodes (fun text => text = ['%', h, l])) := by
        apply (stands_escapes hescape).congr
        intro s
        simp [LowerEncodes]
      apply hkept.append ih
      apply lowerEncodes_append
      intro text
      simp [Encodes, hhex]
  | case2 h l rest hhex ih =>
      apply (stands_charToPattern '%').append ih
      apply lowerEncodes_append
      intro text
      simp [Encodes, hhex]
  | case3 c rest hnot ih =>
      apply (stands_charToPattern c).append ih
      apply lowerEncodes_append
      intro text
      rw [Encodes]
      exact hnot
  | case4 =>
      apply stands_nil.congr
      intro s
      simp [LowerEncodes, Encodes]

/-!
## The characters of encodings
-/

theorem charEncodes_all {p : Char -> Bool} {literal : Char -> Bool}
    {c : Char} {text : JsString}
    (hescape : forall d, isEscapeChar d = true -> p d = true)
    (hself : isPrintable c = true -> c ≠ '#' -> c ≠ '?' -> p c = true)
    (hliteral : literal c = true -> p c = true)
    (h : CharEncodes literal c text) : text.all p = true := by
  have hone : p c = true -> [c].all p = true := by
    intro hc
    rw [List.all_cons, hc]
    rfl
  have hpercent : (percentText c).all p = true := by
    rw [List.all_eq_true]
    exact fun d hd =>
      hescape d (List.all_eq_true.mp (percentText_escape c) d hd)
  unfold CharEncodes at h
  split at h
  · rename_i hc
    rw [h]
    exact hone (hliteral hc)
  · split at h
    · rename_i hprintable
      rcases hprintable with ⟨hprint, hhash, hquestion⟩
      rcases h with h | h
      · rw [h]
        exact hone (hself hprint hhash hquestion)
      · rw [h]
        exact hpercent
    · rw [h]
      exact hpercent

def NoEscapeAt (c : Char) (rest : JsString) : Prop :=
  forall h l tail, c = '%' -> rest = h :: l :: tail ->
    ¬ (isHexDigit h = true ∧ isHexDigit l = true)

theorem encodes_escape {literal : Char -> Bool} {h l : Char}
    {rest more : JsString} (hhex : isHexDigit h = true ∧ isHexDigit l = true)
    (hmore : Encodes literal rest more) :
    Encodes literal ('%' :: h :: l :: rest) ('%' :: h :: l :: more) := by
  rw [Encodes, if_pos hhex]
  exact ⟨more, rfl, hmore⟩

theorem encodes_char_iff {literal : Char -> Bool} {c : Char}
    {rest text : JsString} (hnot : NoEscapeAt c rest) :
    Encodes literal (c :: rest) text <->
      exists first more, text = first ++ more ∧
        CharEncodes literal c first ∧ Encodes literal rest more := by
  by_cases hc : c = '%'
  · subst hc
    cases rest with
    | nil => exact Iff.rfl
    | cons h tail =>
        cases tail with
        | nil => exact Iff.rfl
        | cons l tail => rw [Encodes, if_neg (hnot h l tail rfl rfl)]
  · rw [Encodes]
    exact fun h l tail hpercent => absurd hpercent hc

theorem encodes_char {literal : Char -> Bool} {c : Char}
    {rest first more : JsString} (hnot : NoEscapeAt c rest)
    (hfirst : CharEncodes literal c first) (hmore : Encodes literal rest more) :
    Encodes literal (c :: rest) (first ++ more) :=
  (encodes_char_iff hnot).mpr ⟨first, more, rfl, hfirst, hmore⟩

@[elab_as_elim]
theorem encodes_induction {literal : Char -> Bool}
    {motive : forall value text, Encodes literal value text -> Prop}
    (nil : motive [] [] rfl)
    (escape : forall h l rest more
      (hhex : isHexDigit h = true ∧ isHexDigit l = true)
      (hmore : Encodes literal rest more), motive rest more hmore ->
        motive ('%' :: h :: l :: rest) ('%' :: h :: l :: more)
          (encodes_escape hhex hmore))
    (char : forall c rest first more (hnot : NoEscapeAt c rest)
      (hfirst : CharEncodes literal c first)
      (hmore : Encodes literal rest more), motive rest more hmore ->
        motive (c :: rest) (first ++ more) (encodes_char hnot hfirst hmore))
    {value text : JsString} (h : Encodes literal value text) :
    motive value text h := by
  induction value using paramToPattern.induct generalizing text with
  | case1 hd l rest hhex ih =>
      have hgiven := h
      rw [Encodes, if_pos hhex] at hgiven
      rcases hgiven with ⟨more, rfl, hmore⟩
      exact escape hd l rest more hhex hmore (ih hmore)
  | case2 hd l rest hhex ih =>
      have hnot : NoEscapeAt '%' (hd :: l :: rest) := by
        intro hd' l' tail _ heq
        rw [← (List.cons.inj heq).left,
          ← (List.cons.inj (List.cons.inj heq).right).left]
        exact hhex
      rcases (encodes_char_iff hnot).mp h with ⟨first, more, rfl, hfirst, hmore⟩
      exact char '%' _ first more hnot hfirst hmore (ih hmore)
  | case3 c rest hnot ih =>
      have hnone : NoEscapeAt c rest :=
        fun hd l tail hc heq => absurd heq (hnot hd l tail hc)
      rcases (encodes_char_iff hnone).mp h with ⟨first, more, rfl, hfirst, hmore⟩
      exact char c rest first more hnone hfirst hmore (ih hmore)
  | case4 =>
      have htext : text = [] := h
      subst htext
      exact nil

theorem encodes_all {p : Char -> Bool} {literal : Char -> Bool}
    {value text : JsString}
    (hescape : forall d, isEscapeChar d = true -> p d = true)
    (hself : forall c, isPrintable c = true -> c ≠ '#' -> c ≠ '?' ->
      p c = true)
    (hliteral : forall c, literal c = true -> p c = true)
    (h : Encodes literal value text) : text.all p = true := by
  induction h using encodes_induction with
  | nil => rfl
  | escape hd l rest more hhex hmore ih =>
      have hpercent : p '%' = true := hescape '%' rfl
      have hhd : p hd = true := hescape hd (by simp [isEscapeChar, hhex.left])
      have hl : p l = true := hescape l (by simp [isEscapeChar, hhex.right])
      rw [List.all_cons, List.all_cons, List.all_cons, hpercent, hhd, hl, ih]
      rfl
  | char c rest first more hnot hfirst hmore ih =>
      rw [List.all_append, ih,
        charEncodes_all hescape (hself c) (hliteral c) hfirst]
      rfl

theorem encodes_of_literals {literal literal' : Char -> Bool}
    {value text : JsString}
    (hsame : forall c, c ∈ value -> literal c = literal' c)
    (h : Encodes literal value text) : Encodes literal' value text := by
  induction h using encodes_induction with
  | nil => rfl
  | escape hd l rest more hhex hmore ih =>
      apply encodes_escape hhex
      apply ih
      intro c hc
      exact hsame c (by simp [hc])
  | char c rest first more hnot hfirst hmore ih =>
      have hown : CharEncodes literal' c first := by
        rw [CharEncodes, ← hsame c List.mem_cons_self]
        exact hfirst
      apply encodes_char hnot hown
      apply ih
      exact fun d hd => hsame d (List.mem_cons_of_mem c hd)

theorem encodes_congr {literal literal' : Char -> Bool}
    {value text : JsString}
    (h : forall c, c ∈ value -> literal c = literal' c) :
    Encodes literal value text <-> Encodes literal' value text := by
  constructor
  · exact encodes_of_literals h
  · exact encodes_of_literals (fun c hc => (h c hc).symm)

/-!
## The characters of the source of a value
-/

theorem charToPattern_all {p : Char -> Bool} {c : Char}
    (hescape : forall d, isEscapeChar d = true -> p d = true)
    (hmarks : "(?:|)\\".toList.all p = true) (hc : p c = true) :
    (charToPattern c).all p = true := by
  rw [List.all_eq_true] at hmarks
  have hpercent : (percentEncode c).all p = true := by
    rw [percentEncode_eq, List.all_map, List.all_eq_true]
    intro d hd
    have hfacts :=
      escapeChar_facts (List.all_eq_true.mp (percentText_escape c) d hd)
    exact hescape _ hfacts.right.right.right.right.right
  have hself : (escapeRegExp [c]).all p = true := by
    rw [escapeRegExp_single]
    split
    · rw [List.all_cons, List.all_cons, hc, hmarks '\\' (by decide)]
      rfl
    · rw [List.all_cons, hc]
      rfl
  have hopen : "(?:".toList.all p = true := by
    rw [List.all_eq_true]
    intro d hd
    exact hmarks d (List.mem_append_left "|)\\".toList hd)
  unfold charToPattern
  split
  · exact hself
  · split
    · rw [List.all_append, List.all_append, List.all_append, List.all_cons,
        hopen, hself, hmarks '|' (by decide), hpercent, List.all_cons,
        hmarks ')' (by decide)]
      rfl
    · exact hpercent

theorem paramToPattern_all {p : Char -> Bool} {value : JsString}
    (hescape : forall d, isEscapeChar d = true -> p d = true)
    (hmarks : "(?:|)\\".toList.all p = true)
    (h : value.all p = true) : (paramToPattern value).all p = true := by
  fun_induction paramToPattern value with
  | case1 hd l rest hhex ih =>
      simp only [List.all_cons, Bool.and_eq_true] at h ⊢
      exact ⟨h.left, h.right.left, h.right.right.left, ih h.right.right.right⟩
  | case2 hd l rest hhex ih =>
      rw [List.all_cons, Bool.and_eq_true] at h
      rw [List.all_append, charToPattern_all hescape hmarks h.left,
        ih h.right]
      rfl
  | case3 c rest hnot ih =>
      rw [List.all_cons, Bool.and_eq_true] at h
      rw [List.all_append, charToPattern_all hescape hmarks h.left,
        ih h.right]
      rfl
  | case4 => rfl

theorem charToPattern_ne_nil (c : Char) : charToPattern c ≠ [] := by
  have hpercent : percentEncode c ≠ [] := by
    rw [percentEncode_eq, percentText]
    cases hbytes : String.utf8EncodeChar c with
    | nil => exact absurd hbytes String.utf8EncodeChar_ne_nil
    | cons b bytes => simp [UriComponent.percentByte]
  unfold charToPattern
  split
  · rw [escapeRegExp_single]
    split
    · exact List.cons_ne_nil _ _
    · exact List.cons_ne_nil _ _
  · split
    · simp
    · exact hpercent

theorem paramToPattern_ne_nil {value : JsString} (h : value ≠ []) :
    paramToPattern value ≠ [] := by
  fun_cases paramToPattern value with
  | case1 hd l rest hhex => exact List.cons_ne_nil _ _
  | case2 hd l rest hhex =>
      exact fun hnil => charToPattern_ne_nil '%' (List.append_eq_nil_iff.mp hnil).left
  | case3 c rest hnot =>
      exact fun hnil => charToPattern_ne_nil c (List.append_eq_nil_iff.mp hnil).left
  | case4 => exact absurd rfl h

end Config
end RestCache
