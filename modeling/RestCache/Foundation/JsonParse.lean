import RestCache.Foundation.JsonText

/-!
# JSON.parse

A text is read with fuel, of which one piece is used for each level of nesting
and for each item or character within one.  Strings hold no lone surrogates, so
the escape of one is not read.
-/

namespace RestCache
namespace Foundation

namespace JsValue

/-!
## Strings
-/

def isJsonSpace (c : Char) : Bool :=
  c ∈ [' ', '\t', '\n', '\r']

def skipSpace (text : JsString) : JsString :=
  text.dropWhile isJsonSpace

def readHexDigit (c : Char) : Option Nat :=
  let n := lowerHexDigits.idxOf c.toLower
  if n < 16 then some n else none

def readUnit : JsString -> Option (Nat × JsString)
  | a :: b :: c :: d :: rest =>
      match readHexDigit a, readHexDigit b, readHexDigit c, readHexDigit d with
      | some a, some b, some c, some d =>
          some (((a * 16 + b) * 16 + c) * 16 + d, rest)
      | _, _, _, _ => none
  | _ => none

def readLow (high : Nat) : JsString -> Option (Char × JsString)
  | '\\' :: 'u' :: rest =>
      (readUnit rest).bind fun p =>
        if high < 0xDC00 ∧ 0xDC00 ≤ p.1 ∧ p.1 ≤ 0xDFFF then
          some (Char.ofNat
            (0x10000 + (high - 0xD800) * 0x400 + (p.1 - 0xDC00)), p.2)
        else
          none
  | _ => none

def readUnicode (text : JsString) : Option (Char × JsString) :=
  (readUnit text).bind fun p =>
    if p.1 < 0xD800 ∨ 0xDFFF < p.1 then some (Char.ofNat p.1, p.2)
    else readLow p.1 p.2

def readEscapes : List (Char × Char) :=
  ('/', '/') :: shortEscapes.map Prod.swap

def readEscape : JsString -> Option (Char × JsString)
  | [] => none
  | e :: rest =>
      if e = 'u' then readUnicode rest
      else (readEscapes.lookup e).map fun c => (c, rest)

def readChar : JsString -> Option (Char × JsString)
  | [] => none
  | c :: rest =>
      if c = '\\' then
        readEscape rest
      else if c = '"' ∨ c.toNat < 32 then
        none
      else
        some (c, rest)

def readString : Nat -> JsString -> Option (JsString × JsString)
  | 0, _ => none
  | n + 1, text =>
      if text.head? = some '"' then
        some ([], text.tail)
      else
        (readChar text).bind fun p =>
          (readString n p.2).map fun q => (p.1 :: q.1, q.2)

/-!
## Values
-/

section Items

variable {α : Type} (close : Char) (item : JsString -> Option (α × JsString))

def readItems : Nat -> JsString -> Option (List α × JsString)
  | 0, _ => none
  | n + 1, text =>
      (item text).bind fun p =>
        match skipSpace p.2 with
        | [] => none
        | c :: rest =>
            if c = ',' then
              (readItems n rest).map fun q => (p.1 :: q.1, q.2)
            else if c = close then
              some ([p.1], rest)
            else
              none

def readList (n : Nat) (text : JsString) : Option (List α × JsString) :=
  if (skipSpace text).head? = some close then some ([], (skipSpace text).tail)
  else readItems close item n text

end Items

def readProp (value : JsString -> Option (JsValue × JsString)) (n : Nat)
    (text : JsString) : Option ((JsString × JsValue) × JsString) :=
  if (skipSpace text).head? = some '"' then
    (readString n (skipSpace text).tail).bind fun k =>
      if (skipSpace k.2).head? = some ':' then
        (value (skipSpace k.2).tail).map fun v => ((k.1, v.1), v.2)
      else
        none
  else
    none

def words : List (JsString × JsValue) :=
  [("null".toList, null), ("true".toList, bool true), ("false".toList, bool false)]

def readWord (text : JsString) : Option (JsValue × JsString) :=
  words.findSome? fun w =>
    if w.1.isPrefixOf text then some (w.2, text.drop w.1.length) else none

def readValue : Nat -> JsString -> Option (JsValue × JsString)
  | 0, _ => none
  | n + 1, text =>
      match skipSpace text with
      | [] => none
      | c :: rest =>
          if c = '"' then
            (readString n rest).map fun p => (str p.1, p.2)
          else if c = '[' then
            (readList ']' (readValue n) n rest).map fun p => (arr p.1, p.2)
          else if c = '{' then
            (readList '}' (readProp (readValue n) n) n rest).map fun p =>
              (obj (fromEntries p.1), p.2)
          else
            (readWord (c :: rest)).or
              ((readNumber (c :: rest)).map fun p => (num p.1, p.2))

/-- `none` where `JSON.parse` throws. -/
def readText (text : JsString) : Option JsValue :=
  (readValue text.length text).bind fun p =>
    if skipSpace p.2 = [] then some p.1 else none

/-!
## A string is read back
-/

theorem escapeChar_head (c : Char) (u : JsString) :
    (escapeChar c ++ u).head? ≠ some '"' := by
  rcases short_or_control_or_raw c with ⟨e, _, hc⟩ | ⟨_, hc⟩ | ⟨_, hne, hc⟩
  · rw [hc]
    simp
  · rw [hc]
    simp
  · rw [hc]
    simpa using hne

theorem readHexDigit_lower {n : Nat} (h : n < 16) :
    readHexDigit (lowerHexDigit n) = some n := by
  have hall : forall n, n < 16 -> readHexDigit (lowerHexDigit n) = some n := by
    decide
  exact hall n h

theorem readChar_escape (c : Char) (rest : JsString) :
    readChar (escapeChar c ++ rest) = some (c, rest) := by
  rcases short_or_control_or_raw c with ⟨e, he, hc⟩ | ⟨hctl, hc⟩ | ⟨hne, hquote, hc⟩
  · have hletters : ∀ p ∈ shortEscapes, p.2 ≠ 'u' ∧
        readEscapes.lookup p.2 = some p.1 := by
      decide
    rcases hletters (c, e) he with ⟨hu, hlookup⟩
    rw [hc]
    show readChar ('\\' :: e :: rest) = _
    rw [readChar, if_pos rfl, readEscape, if_neg hu, hlookup]
    rfl
  · have hunit : readUnit ('0' :: '0' :: lowerHexDigit (c.toNat / 16) ::
        lowerHexDigit (c.toNat % 16) :: rest) = some (c.toNat, rest) := by
      have hzero : readHexDigit '0' = some 0 := by
        decide
      simp only [readUnit, hzero,
        readHexDigit_lower (show c.toNat / 16 < 16 by omega),
        readHexDigit_lower (show c.toNat % 16 < 16 by omega)]
      rw [show ((0 * 16 + 0) * 16 + c.toNat / 16) * 16 + c.toNat % 16 = c.toNat
        by omega]
    rw [hc]
    show readChar ('\\' :: 'u' :: '0' :: '0' :: lowerHexDigit (c.toNat / 16) ::
      lowerHexDigit (c.toNat % 16) :: rest) = _
    rw [readChar, if_pos rfl, readEscape, if_pos rfl, readUnicode, hunit,
      Option.bind_some, if_pos (Or.inl (by omega)), Char.ofNat_toNat]
  · rw [hc]
    show readChar (c :: rest) = _
    have hhigh : ¬ c.toNat < 32 := by
      intro hlow
      have hlong : (escapeChar c).length ≠ 1 := by
        unfold escapeChar
        cases shortEscapes.lookup c with
        | some e => simp
        | none => simp [hlow]
      rw [hc] at hlong
      exact hlong rfl
    rw [readChar, if_neg hne, if_neg (not_or.mpr ⟨hquote, hhigh⟩)]

theorem readString_append (s : JsString) {n : Nat} (rest : JsString)
    (h : s.length < n) :
    readString n (s.flatMap escapeChar ++ '"' :: rest) = some (s, rest) := by
  induction s generalizing n with
  | nil =>
      cases n with
      | zero => omega
      | succ n => rfl
  | cons c s ih =>
      cases n with
      | zero => omega
      | succ n =>
          have hlength : s.length < n := by
            simpa using h
          rw [List.flatMap_cons, List.append_assoc, readString,
            if_neg (escapeChar_head c _), readChar_escape, Option.bind_some,
            ih hlength]
          rfl

theorem length_le_flatMap (s : JsString) :
    s.length <= (s.flatMap escapeChar).length := by
  induction s with
  | nil => exact Nat.le_refl 0
  | cons c s ih =>
      have hone : 1 <= (escapeChar c).length := by
        rcases short_or_control_or_raw c with ⟨e, _, hc⟩ | ⟨_, hc⟩ | ⟨_, _, hc⟩ <;>
          simp [hc]
      rw [List.flatMap_cons, List.length_append, List.length_cons]
      omega

theorem readString_quote (s : JsString) {n : Nat} (rest : JsString)
    (h : (quote s).length <= n + 1) :
    readString n ((quote s ++ rest).tail) = some (s, rest) := by
  have htail : (quote s ++ rest).tail = s.flatMap escapeChar ++ '"' :: rest := by
    simp [quote]
  have hlength := length_le_flatMap s
  rw [htail]
  apply readString_append
  simp only [quote, List.length_cons, List.length_append, List.length_nil] at h
  omega

/-!
## A list is read back
-/

theorem skipSpace_cons {c : Char} (rest : JsString) (h : isJsonSpace c = false) :
    skipSpace (c :: rest) = c :: rest := by
  rw [skipSpace, List.dropWhile_cons_of_neg (by simp [h])]

section Items

variable {α : Type} {close : Char} {item : JsString -> Option (α × JsString)}
  {text : α -> JsString}

def Follows (close : Char) (rest : JsString) : Prop :=
  rest.head? = some ',' ∨ rest.head? = some close

theorem readItems_append (hcomma : close ≠ ',') (hspace : isJsonSpace close = false)
    {xs : List α} (hne : xs ≠ []) {n : Nat} (hn : xs.length <= n)
    (hitem : forall x, x ∈ xs -> forall rest, Follows close rest ->
      item (text x ++ rest) = some (x, rest)) (rest : JsString) :
    readItems close item n ([','].intercalate (xs.map text) ++ close :: rest) =
      some (xs, rest) := by
  induction xs generalizing n with
  | nil => exact absurd rfl hne
  | cons x xs ih =>
      cases n with
      | zero => simp at hn
      | succ n =>
          have hfirst := hitem x List.mem_cons_self
          cases xs with
          | nil =>
              have hread := hfirst (close :: rest) (Or.inr rfl)
              rw [List.map_singleton, List.intercalate_singleton, readItems, hread,
                Option.bind_some]
              simp only [skipSpace_cons rest hspace, if_neg hcomma, if_true]
          | cons y ys =>
              have hread := hfirst (',' :: ([','].intercalate
                ((y :: ys).map text) ++ close :: rest)) (Or.inl rfl)
              have hmore := ih (List.cons_ne_nil y ys)
                (by simpa using hn)
                (fun z hz => hitem z (List.mem_cons_of_mem x hz))
              have htext : [','].intercalate ((x :: y :: ys).map text) ++
                  close :: rest = text x ++ (',' :: ([','].intercalate
                    ((y :: ys).map text) ++ close :: rest)) := by
                rw [List.map_cons, List.map_cons, List.intercalate_cons_cons]
                simp
              rw [htext, readItems, hread, Option.bind_some]
              simp only [skipSpace_cons _ (show isJsonSpace ',' = false by decide),
                if_true, hmore, Option.map_some]

theorem readList_append (hcomma : close ≠ ',') (hspace : isJsonSpace close = false)
    {xs : List α} {n : Nat} (hn : xs.length <= n)
    (hhead : forall x, x ∈ xs -> exists c more, text x = c :: more ∧
      isJsonSpace c = false ∧ c ≠ close)
    (hitem : forall x, x ∈ xs -> forall rest, Follows close rest ->
      item (text x ++ rest) = some (x, rest)) (rest : JsString) :
    readList close item n ([','].intercalate (xs.map text) ++ close :: rest) =
      some (xs, rest) := by
  cases xs with
  | nil =>
      rw [List.map_nil, List.intercalate_nil, List.nil_append, readList,
        skipSpace_cons rest hspace, List.head?_cons, if_pos rfl, List.tail_cons]
  | cons x xs =>
      have hread := readItems_append hcomma hspace (List.cons_ne_nil x xs) hn
        hitem rest
      rcases hhead x List.mem_cons_self with ⟨c, more, htext, hc, hne⟩
      have hstart : ([','].intercalate ((x :: xs).map text) ++
          close :: rest).head? = some c := by
        cases xs with
        | nil => simp [htext]
        | cons y ys => simp [List.intercalate_cons_cons, htext]
      rw [readList]
      rw [if_neg, hread]
      cases hwhole : [','].intercalate ((x :: xs).map text) ++ close :: rest with
      | nil =>
          rw [hwhole] at hstart
          exact absurd hstart (by simp)
      | cons d tail =>
          rw [hwhole] at hstart
          have hd : d = c := Option.some.inj hstart
          rw [hd, skipSpace_cons tail hc]
          exact fun hclose => hne (Option.some.inj hclose)

theorem length_mem_intercalate {parts : List JsString} {part : JsString}
    (h : part ∈ parts) : part.length <= ([','].intercalate parts).length := by
  induction parts with
  | nil => exact absurd h List.not_mem_nil
  | cons first rest ih =>
      cases rest with
      | nil => simp_all
      | cons second more =>
          rw [List.intercalate_cons_cons]
          rcases List.mem_cons.mp h with rfl | h
          · simp
          · have hrest := ih h
            simp only [List.length_append]
            omega

theorem length_le_intercalate (parts : List JsString) :
    parts.length <= ([','].intercalate parts).length + 1 := by
  induction parts with
  | nil => simp
  | cons first rest ih =>
      cases rest with
      | nil => simp
      | cons second more =>
          rw [List.intercalate_cons_cons]
          simp only [List.length_append, List.length_cons, List.length_nil] at ih ⊢
          omega

end Items

/-!
## A value is read back
-/

theorem ends_of_follows {close : Char} {rest : JsString}
    (hclose : close = ']' ∨ close = '}') (h : Follows close rest) : Ends rest := by
  intro c hc
  rcases h with h | h
  · rw [h, Option.some.injEq] at hc
    rw [← hc]
    decide
  · rw [h, Option.some.injEq] at hc
    rw [← hc]
    rcases hclose with rfl | rfl <;> decide

theorem numberText_head (x : JsNumber) :
    exists c more, x.text = c :: more ∧ (c.isDigit = true ∨ c = '-') := by
  rcases JsNumber.numeral_text_head x [] with ⟨c, more, htext, hdigit⟩
  rw [List.append_nil] at htext
  unfold JsNumber.text
  split
  · exact ⟨'-', _, rfl, Or.inr rfl⟩
  · exact ⟨c, more, htext, Or.inl hdigit⟩

theorem stringify_head (v : JsValue) :
    exists c more, stringify v = c :: more ∧ isJsonSpace c = false ∧
      c ≠ ']' ∧ c ≠ '}' := by
  cases v with
  | str s => exact ⟨'"', _, rfl, by decide, by decide, by decide⟩
  | null => exact ⟨'n', _, rfl, by decide, by decide, by decide⟩
  | bool b =>
      cases b with
      | true => exact ⟨'t', _, rfl, by decide, by decide, by decide⟩
      | false => exact ⟨'f', _, rfl, by decide, by decide, by decide⟩
  | num x =>
      rcases numberText_head x with ⟨c, more, htext, hc⟩
      refine ⟨c, more, htext, ?_⟩
      have hother : forall d, d.isDigit = false -> d ≠ '-' -> c ≠ d := by
        intro d hdigit hminus hcd
        rw [hcd, hdigit] at hc
        rcases hc with hc | hc
        · exact absurd hc (by simp)
        · exact hminus hc
      refine ⟨?_, hother _ (by decide) (by decide),
        hother _ (by decide) (by decide)⟩
      have hspaces : ∀ d ∈ [' ', '\t', '\n', '\r'], c ≠ d := by
        intro d hd
        simp only [List.mem_cons, List.not_mem_nil, or_false] at hd
        rcases hd with rfl | rfl | rfl | rfl <;>
          exact hother _ (by decide) (by decide)
      exact decide_eq_false (fun hmem => hspaces c hmem rfl)
  | arr items => exact ⟨'[', _, rfl, by decide, by decide, by decide⟩
  | obj props => exact ⟨'{', _, rfl, by decide, by decide, by decide⟩

theorem readWord_number {x : JsNumber} {rest : JsString} :
    readWord (x.text ++ rest) = none := by
  rcases numberText_head x with ⟨c, more, htext, hc⟩
  have hletters : ∀ d ∈ "ntf".toList, c ≠ d := by
    intro d hd hcd
    have hnot : ∀ d ∈ "ntf".toList, d.isDigit = false ∧ d ≠ '-' :=
      forall_mem_of_all (by decide)
    rcases hnot d hd with ⟨hdigit, hminus⟩
    rw [hcd, hdigit] at hc
    rcases hc with hc | hc
    · exact absurd hc (by simp)
    · exact hminus hc
  have hn := hletters 'n' (by decide)
  have ht := hletters 't' (by decide)
  have hf := hletters 'f' (by decide)
  rw [htext]
  simp [readWord, words, Ne.symm hn, Ne.symm ht, Ne.symm hf]

theorem readWord_bool (b : Bool) (rest : JsString) :
    readWord (boolText b ++ rest) = some (bool b, rest) := by
  cases b <;> simp [readWord, words, boolText]

theorem readWord_null (rest : JsString) :
    readWord ("null".toList ++ rest) = some (null, rest) := by
  simp [readWord, words]

theorem readValue_word {text rest : JsString} {v : JsValue} {n : Nat} {c : Char}
    (hhead : text.head? = some c) (hspace : isJsonSpace c = false)
    (hquote : c ≠ '"') (hbracket : c ≠ '[') (hbrace : c ≠ '{')
    (h : readWord text = some (v, rest)) :
    readValue (n + 1) text = some (v, rest) := by
  cases text with
  | nil => exact absurd hhead (by simp)
  | cons d more =>
      have hd : d = c := Option.some.inj hhead
      subst hd
      simp only [readValue, skipSpace_cons more hspace, if_neg hquote,
        if_neg hbracket, if_neg hbrace, h, Option.some_or]

theorem readProp_append {p : JsString × JsValue}
    {value : JsString -> Option (JsValue × JsString)} {n : Nat} {rest : JsString}
    (hn : (quote p.1).length <= n + 1)
    (hvalue : value (stringify p.2 ++ rest) = some (p.2, rest)) :
    readProp value n (propText p ++ rest) = some (p, rest) := by
  have hspace : skipSpace (propText p ++ rest) = propText p ++ rest :=
    skipSpace_cons _ (by decide)
  have hhead : (propText p ++ rest).head? = some '"' := rfl
  have htext : propText p ++ rest =
      quote p.1 ++ (':' :: (stringify p.2 ++ rest)) := by
    rw [propText, List.append_assoc]
    rfl
  have hread := readString_quote p.1 (':' :: (stringify p.2 ++ rest)) hn
  rw [readProp, hspace, if_pos hhead, htext, hread, Option.bind_some]
  simp only [skipSpace_cons _ (show isJsonSpace ':' = false by decide)]
  rw [List.head?_cons, if_pos rfl, List.tail_cons, hvalue]
  rfl

theorem readValue_str (s : JsString) {n : Nat} (rest : JsString)
    (hn : (quote s).length <= n + 1) :
    readValue (n + 1) (stringify (str s) ++ rest) = some (str s, rest) := by
  have hspace : skipSpace (stringify (str s) ++ rest) =
      '"' :: (quote s ++ rest).tail :=
    skipSpace_cons _ (by decide)
  have hread := readString_quote s rest hn
  simp only [readValue, hspace, if_true, hread, Option.map_some]

theorem readValue_num (x : JsNumber) (n : Nat) {rest : JsString}
    (hrest : Ends rest) :
    readValue (n + 1) (stringify (num x) ++ rest) = some (num x, rest) := by
  rcases numberText_head x with ⟨c, more, htext, hc⟩
  rcases stringify_head (num x) with ⟨d, tail, htext', hspace, _⟩
  rw [stringify] at htext' ⊢
  have hsame : d = c := by
    rw [htext] at htext'
    injection htext' with hcd
    exact hcd.symm
  rw [hsame] at hspace
  have hother : forall d, d.isDigit = false -> d ≠ '-' -> c ≠ d := by
    intro d hdigit hminus hcd
    rw [hcd, hdigit] at hc
    rcases hc with hc | hc
    · exact absurd hc (by simp)
    · exact hminus hc
  have hword := @readWord_number x rest
  have hnumber := readNumber_text x hrest
  rw [htext, List.cons_append] at hword hnumber ⊢
  simp only [readValue, skipSpace_cons _ hspace,
    if_neg (hother '"' (by decide) (by decide)),
    if_neg (hother '[' (by decide) (by decide)),
    if_neg (hother '{' (by decide) (by decide)), hword, hnumber,
    Option.none_or, Option.map_some]

theorem readValue_arr {items : List JsValue} {n : Nat} (rest : JsString)
    (hn : (stringify (arr items)).length <= n + 1)
    (hitem : forall x, x ∈ items -> (stringify x).length <= n ->
      forall rest, Follows ']' rest ->
        readValue n (stringify x ++ rest) = some (x, rest)) :
    readValue (n + 1) (stringify (arr items) ++ rest) =
      some (arr items, rest) := by
  simp only [stringify, itemTexts_eq_map, List.length_cons, List.length_append,
    List.length_nil] at hn
  have hlength := length_le_intercalate (items.map stringify)
  rw [List.length_map] at hlength
  have hread := @readList_append _ ']' (readValue n) stringify (by decide)
    (by decide) items n (by omega)
    (fun x hx => by
      rcases stringify_head x with ⟨c, more, htext, hspace, hne, _⟩
      exact ⟨c, more, htext, hspace, hne⟩)
    (fun x hx rest hfollows => by
      have hpart := length_mem_intercalate
        (List.mem_map_of_mem hx (f := stringify))
      exact hitem x hx (by omega) rest hfollows) rest
  have hspace : skipSpace (stringify (arr items) ++ rest) = '[' ::
      ([','].intercalate (items.map stringify) ++ ']' :: rest) := by
    rw [stringify, itemTexts_eq_map, List.cons_append,
      skipSpace_cons _ (by decide)]
    simp
  simp only [readValue, hspace, hread, Option.map_some]
  rfl

theorem readValue_obj {props : List (JsString × JsValue)} {n : Nat}
    (rest : JsString) (hkeys : OwnKeys (props.map Prod.fst))
    (hn : (stringify (obj props)).length <= n + 1)
    (hprop : forall p, p ∈ props -> (stringify p.2).length <= n ->
      forall rest, Follows '}' rest ->
        readValue n (stringify p.2 ++ rest) = some (p.2, rest)) :
    readValue (n + 1) (stringify (obj props) ++ rest) =
      some (obj props, rest) := by
  simp only [stringify, propTexts_eq_map, List.length_cons, List.length_append,
    List.length_nil] at hn
  have hlength := length_le_intercalate (props.map propText)
  rw [List.length_map] at hlength
  have hread := @readList_append _ '}' (readProp (readValue n) n) propText
    (by decide) (by decide) props n (by omega)
    (fun p hp => ⟨'"', _, rfl, by decide, by decide⟩)
    (fun p hp rest hfollows => by
      have hpart := length_mem_intercalate
        (List.mem_map_of_mem hp (f := propText))
      rw [propText, List.length_append, List.length_cons] at hpart
      exact readProp_append (by omega) (hprop p hp (by omega) rest hfollows)) rest
  have hspace : skipSpace (stringify (obj props) ++ rest) = '{' ::
      ([','].intercalate (props.map propText) ++ '}' :: rest) := by
    rw [stringify, propTexts_eq_map, List.cons_append,
      skipSpace_cons _ (by decide)]
    simp
  simp only [readValue, hspace, hread, Option.map_some]
  rw [fromEntries_ownKeys hkeys]
  rfl

theorem fuel_left {v : JsValue} {n : Nat} (hn : (stringify v).length <= n) :
    exists m, n = m + 1 := by
  rcases stringify_head v with ⟨c, more, htext, _⟩
  rw [htext, List.length_cons] at hn
  exact ⟨n - 1, by omega⟩

/-- A piece of fuel for each character of the text is enough. -/
theorem readValue_append {v : JsValue} (hv : Ordered v) {n : Nat}
    (hn : (stringify v).length <= n) {rest : JsString} (hrest : Ends rest) :
    readValue n (stringify v ++ rest) = some (v, rest) := by
  induction v using memInduction generalizing n rest with
  | str s =>
      rcases fuel_left hn with ⟨n, rfl⟩
      exact readValue_str s rest hn
  | null =>
      rcases fuel_left hn with ⟨n, rfl⟩
      exact readValue_word rfl (by decide) (by decide) (by decide) (by decide)
        (readWord_null rest)
  | bool b =>
      rcases fuel_left hn with ⟨n, rfl⟩
      cases b <;>
        exact readValue_word rfl (by decide) (by decide) (by decide)
          (by decide) (readWord_bool _ rest)
  | num x =>
      rcases fuel_left hn with ⟨n, rfl⟩
      exact readValue_num x n hrest
  | arr items ih =>
      rcases fuel_left hn with ⟨n, rfl⟩
      cases hv with
      | arr hitems =>
          apply readValue_arr rest hn
          intro x hx hlength rest hfollows
          exact ih x hx (hitems x hx) hlength (ends_of_follows (Or.inl rfl) hfollows)
  | obj props ih =>
      rcases fuel_left hn with ⟨n, rfl⟩
      cases hv with
      | obj hkeys hprops =>
          apply readValue_obj rest hkeys hn
          intro p hp hlength rest hfollows
          exact ih p hp (hprops p hp) hlength
            (ends_of_follows (Or.inr rfl) hfollows)

/-- `JSON.parse` gives back what `JSON.stringify` wrote. -/
theorem readText_stringify {v : JsValue} (hv : Ordered v) :
    readText (stringify v) = some v := by
  have hends : Ends [] := fun c hc => absurd hc (by simp)
  have hread := readValue_append hv (Nat.le_refl _) hends
  rw [List.append_nil] at hread
  rw [readText, hread, Option.bind_some]
  rfl

theorem stringify_inj {v w : JsValue} (hv : Ordered v) (hw : Ordered w)
    (h : stringify v = stringify w) : v = w := by
  have hread := readText_stringify hv
  rw [h, readText_stringify hw] at hread
  exact (Option.some.inj hread).symm

/-!
## What is read is in order
-/

theorem mem_readItems {α : Type} {close : Char}
    {item : JsString -> Option (α × JsString)} {n : Nat} {text rest : JsString}
    {xs : List α} (h : readItems close item n text = some (xs, rest)) :
    forall x, x ∈ xs -> exists text rest, item text = some (x, rest) := by
  induction n generalizing text xs rest with
  | zero => exact absurd h (by simp [readItems])
  | succ n ih =>
      rw [readItems, Option.bind_eq_some_iff] at h
      rcases h with ⟨p, hfirst, h⟩
      split at h
      · exact absurd h (by simp)
      · split at h
        · rcases Option.map_eq_some_iff.mp h with ⟨q, hmore, hq⟩
          injection hq with hxs _
          intro x hx
          rw [← hxs, List.mem_cons] at hx
          rcases hx with rfl | hx
          · exact ⟨text, p.2, hfirst⟩
          · exact ih hmore x hx
        · split at h
          · injection h with h
            injection h with hxs _
            intro x hx
            rw [← hxs, List.mem_singleton] at hx
            rw [hx]
            exact ⟨text, p.2, hfirst⟩
          · exact absurd h (by simp)

theorem mem_readList {α : Type} {close : Char}
    {item : JsString -> Option (α × JsString)} {n : Nat} {text rest : JsString}
    {xs : List α} (h : readList close item n text = some (xs, rest)) :
    forall x, x ∈ xs -> exists text rest, item text = some (x, rest) := by
  unfold readList at h
  split at h
  · injection h with h
    injection h with hxs _
    intro x hx
    rw [← hxs] at hx
    exact absurd hx List.not_mem_nil
  · exact mem_readItems h

theorem readProp_value {value : JsString -> Option (JsValue × JsString)} {n : Nat}
    {text rest : JsString} {p : JsString × JsValue}
    (h : readProp value n text = some (p, rest)) :
    exists text rest, value text = some (p.2, rest) := by
  unfold readProp at h
  split at h
  · rcases Option.bind_eq_some_iff.mp h with ⟨k, _, h⟩
    split at h
    · rcases Option.map_eq_some_iff.mp h with ⟨v, hv, hp⟩
      injection hp with hp _
      rw [← hp]
      exact ⟨_, v.2, hv⟩
    · exact absurd h (by simp)
  · exact absurd h (by simp)

theorem ordered_readWord {text rest : JsString} {v : JsValue}
    (h : readWord text = some (v, rest)) : Ordered v := by
  rcases List.exists_of_findSome?_eq_some h with ⟨w, hw, hword⟩
  split at hword
  · injection hword with hword
    injection hword with hv _
    rw [← hv]
    simp only [words, List.mem_cons, List.not_mem_nil, or_false] at hw
    rcases hw with rfl | rfl | rfl
    · exact Ordered.null
    · exact Ordered.bool true
    · exact Ordered.bool false
  · exact absurd hword (by simp)

theorem ordered_readValue {n : Nat} {text rest : JsString} {v : JsValue}
    (h : readValue n text = some (v, rest)) : Ordered v := by
  induction n generalizing text rest v with
  | zero => exact absurd h (by simp [readValue])
  | succ n ih =>
      rw [readValue] at h
      split at h
      · exact absurd h (by simp)
      · rename_i c more _
        split at h
        · rcases Option.map_eq_some_iff.mp h with ⟨p, _, hp⟩
          injection hp with hv _
          rw [← hv]
          exact Ordered.str p.1
        · split at h
          · rcases Option.map_eq_some_iff.mp h with ⟨p, hlist, hp⟩
            injection hp with hv _
            rw [← hv]
            apply Ordered.arr
            intro x hx
            rcases mem_readList hlist x hx with ⟨text, rest, hitem⟩
            exact ih hitem
          · split at h
            · rcases Option.map_eq_some_iff.mp h with ⟨p, hlist, hp⟩
              injection hp with hv _
              rw [← hv]
              rcases ownKeys_fromEntries p.1 with ⟨hkeys, hmem⟩
              apply Ordered.obj hkeys
              intro q hq
              rcases mem_readList hlist q (hmem q hq) with ⟨text, rest, hprop⟩
              rcases readProp_value hprop with ⟨text, rest, hvalue⟩
              exact ih hvalue
            · rcases Option.or_eq_some_iff.mp h with hword | ⟨_, hnumber⟩
              · exact ordered_readWord hword
              · rcases Option.map_eq_some_iff.mp hnumber with ⟨p, _, hp⟩
                injection hp with hv _
                rw [← hv]
                exact Ordered.num p.1

theorem ordered_readText {text : JsString} {v : JsValue}
    (h : readText text = some v) : Ordered v := by
  rcases Option.bind_eq_some_iff.mp h with ⟨p, hread, hv⟩
  split at hv
  · rw [← Option.some.inj hv]
    exact ordered_readValue hread
  · exact absurd hv (by simp)

end JsValue

/-!
## Values in order
-/

/-- A value of JSON whose objects list their properties in order. -/
structure JsonValue where
  value : JsValue
  ordered : value.Ordered

namespace JsonValue

@[ext]
theorem ext {v w : JsonValue} (h : v.value = w.value) : v = w := by
  cases v
  cases w
  simp only at h
  subst h
  rfl

def stringify (v : JsonValue) : JsString :=
  v.value.stringify

/-- `JSON.parse`, `none` where it throws. -/
def parse (text : JsString) : Option JsonValue :=
  match h : JsValue.readText text with
  | none => none
  | some value => some ⟨value, JsValue.ordered_readText h⟩

theorem parse_stringify (v : JsonValue) : parse v.stringify = some v := by
  have hread := JsValue.readText_stringify v.ordered
  unfold parse
  split
  · rename_i h
    rw [stringify, hread] at h
    exact absurd h (by simp)
  · rename_i value h
    rw [stringify, hread, Option.some.injEq] at h
    subst h
    rfl

theorem stringify_injective : Function.Injective stringify := by
  intro v w h
  have hparse := parse_stringify v
  rw [h, parse_stringify] at hparse
  exact (Option.some.inj hparse).symm

theorem stringify_ne_nil (v : JsonValue) : v.stringify ≠ [] := by
  rcases JsValue.stringify_head v.value with ⟨c, more, htext, _⟩
  rw [stringify, htext]
  exact List.cons_ne_nil c more

def null : JsonValue :=
  ⟨JsValue.null, JsValue.Ordered.null⟩

def str (s : JsString) : JsonValue :=
  ⟨JsValue.str s, JsValue.Ordered.str s⟩

def truthy (v : JsonValue) : Bool :=
  match v.value with
  | JsValue.null => false
  | JsValue.str s => s ≠ []
  | JsValue.bool b => b
  | JsValue.num x => x.digits.val ≠ []
  | _ => true

def props (v : JsonValue) : List (JsString × JsValue) :=
  match v.value with
  | JsValue.obj props => props
  | _ => []

theorem ordered_of_mem_props {v : JsonValue} {p : JsString × JsValue}
    (h : p ∈ v.props) : p.2.Ordered := by
  rcases v with ⟨value, hordered⟩
  cases hordered with
  | obj _ hprops => exact hprops p h
  | _ => exact absurd h List.not_mem_nil

def property (v : JsonValue) (name : JsString) : Option JsonValue :=
  (v.props.find? fun p => p.1 = name).pmap
    (fun p hp => ⟨p.2, ordered_of_mem_props hp⟩)
    (fun _ hp => List.mem_of_find?_eq_some hp)

theorem property_value (v : JsonValue) (name : JsString) :
    (v.property name).map JsonValue.value =
      (v.props.find? fun p => p.1 = name).map Prod.snd := by
  rw [property, Option.map_pmap]
  exact Option.pmap_eq_map ..

theorem property_eq_some {v w : JsonValue} {name : JsString}
    (h : (v.props.find? fun p => p.1 = name) = some (name, w.value)) :
    v.property name = some w := by
  have hvalue := property_value v name
  rw [h] at hvalue
  rcases Option.map_eq_some_iff.mp hvalue with ⟨found, hfound, hsame⟩
  rw [hfound, ext hsame]

instance : DecidableEq JsonValue :=
  fun v w => decidable_of_iff (v.stringify = w.stringify) stringify_injective.eq_iff

instance : Inhabited JsonValue :=
  ⟨null⟩

end JsonValue

end Foundation
end RestCache
