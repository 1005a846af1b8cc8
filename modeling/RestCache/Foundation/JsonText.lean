import RestCache.Foundation.JsonNumber
import RestCache.Foundation.UniqueDecoding

/-!
# JSON texts

The values of JSON, and the text `JSON.stringify` writes for them.
-/

namespace RestCache
namespace Foundation

/-- The values of JSON, objects by their own properties in order. -/
inductive JsValue where
  | str (s : JsString)
  | null
  | bool (b : Bool)
  | num (x : JsNumber)
  | arr (items : List JsValue)
  | obj (props : List (JsString × JsValue))

namespace JsValue

@[elab_as_elim]
theorem memInduction {motive : JsValue -> Prop}
    (str : forall s, motive (JsValue.str s))
    (null : motive JsValue.null)
    (bool : forall b, motive (JsValue.bool b))
    (num : forall x, motive (JsValue.num x))
    (arr : forall items, (forall x, x ∈ items -> motive x) ->
      motive (JsValue.arr items))
    (obj : forall props, (forall p, p ∈ props -> motive p.2) ->
      motive (JsValue.obj props)) (v : JsValue) : motive v :=
  JsValue.rec (motive_2 := fun items => forall x, x ∈ items -> motive x)
    (motive_3 := fun props => forall p, p ∈ props -> motive p.2)
    (motive_4 := fun p => motive p.2)
    str null bool num arr obj
    (by simp) (by simp +contextual)
    (by simp) (by simp +contextual)
    (fun _ _ hv => hv) v

/-!
## JSON.stringify
-/

def shortEscapes : List (Char × Char) :=
  [('"', '"'), ('\\', '\\'), ('\x08', 'b'), ('\x0c', 'f'), ('\n', 'n'),
    ('\r', 'r'), ('\t', 't')]

def lowerHexDigits : JsString :=
  "0123456789abcdef".toList

def lowerHexDigit (n : Nat) : Char :=
  lowerHexDigits.getD n '0'

def escapeChar (c : Char) : JsString :=
  match shortEscapes.lookup c with
  | some e => ['\\', e]
  | none =>
      if c.toNat < 32 then
        ['\\', 'u', '0', '0', lowerHexDigit (c.toNat / 16),
          lowerHexDigit (c.toNat % 16)]
      else
        [c]

def quote (s : JsString) : JsString :=
  '"' :: (s.flatMap escapeChar ++ ['"'])

def boolText (b : Bool) : JsString :=
  if b then "true".toList else "false".toList

mutual

def stringify : JsValue -> JsString
  | str s => quote s
  | null => "null".toList
  | bool b => boolText b
  | num x => x.text
  | arr items => '[' :: ([','].intercalate (itemTexts items) ++ [']'])
  | obj props => '{' :: ([','].intercalate (propTexts props) ++ ['}'])

def itemTexts : List JsValue -> List JsString
  | [] => []
  | v :: rest => stringify v :: itemTexts rest

def propTexts : List (JsString × JsValue) -> List JsString
  | [] => []
  | (k, v) :: rest => (quote k ++ ':' :: stringify v) :: propTexts rest

end

def propText (p : JsString × JsValue) : JsString :=
  quote p.1 ++ ':' :: stringify p.2

theorem itemTexts_eq_map (items : List JsValue) :
    itemTexts items = items.map stringify := by
  induction items with
  | nil => rfl
  | cons v rest ih => rw [itemTexts, ih, List.map_cons]

theorem propTexts_eq_map (props : List (JsString × JsValue)) :
    propTexts props = props.map propText := by
  induction props with
  | nil => rfl
  | cons p rest ih =>
      cases p
      rw [propTexts, ih, List.map_cons]
      rfl

/-!
## Escaped characters

Every escape starts with a backslash, and what follows tells the escapes apart.
-/

theorem lookup_mem {c e : Char} (h : shortEscapes.lookup c = some e) :
    (c, e) ∈ shortEscapes := by
  rcases List.lookup_eq_some_iff.mp h with ⟨before, after, hsplit, _⟩
  rw [hsplit]
  simp

theorem short_or_control_or_raw (c : Char) :
    (exists e, (c, e) ∈ shortEscapes ∧ escapeChar c = ['\\', e]) ∨
      (c.toNat < 32 ∧ escapeChar c = ['\\', 'u', '0', '0',
        lowerHexDigit (c.toNat / 16), lowerHexDigit (c.toNat % 16)]) ∨
      (c ≠ '\\' ∧ c ≠ '"' ∧ escapeChar c = [c]) := by
  cases hlookup : shortEscapes.lookup c with
  | some e =>
      refine Or.inl ⟨e, lookup_mem hlookup, ?_⟩
      simp [escapeChar, hlookup]
  | none =>
      right
      by_cases hctl : c.toNat < 32
      · refine Or.inl ⟨hctl, ?_⟩
        simp [escapeChar, hlookup, hctl]
      · refine Or.inr ⟨?_, ?_, ?_⟩
        · intro h
          subst h
          exact absurd hlookup (by decide)
        · intro h
          subst h
          exact absurd hlookup (by decide)
        · simp [escapeChar, hlookup, hctl]

/-!
## The characters of a text
-/

def jsonChars : JsString :=
  "[]:,nulbfrts.+-\\".toList ++ ['{', '}', '"'] ++ lowerHexDigits

theorem mem_escapeChar {c d : Char} (h : d ∈ escapeChar c) :
    d = c ∨ d ∈ jsonChars := by
  have hshort : ∀ p ∈ shortEscapes, p.2 ∈ jsonChars := by
    decide
  have hslash : '\\' ∈ jsonChars ∧ 'u' ∈ jsonChars ∧ '0' ∈ jsonChars := by
    decide
  have hdigit : forall n, n < 16 -> lowerHexDigit n ∈ jsonChars := by
    decide
  rcases short_or_control_or_raw c with ⟨e, he, hc⟩ | ⟨hctl, hc⟩ | ⟨_, _, hc⟩
  · rw [hc] at h
    simp only [List.mem_cons, List.not_mem_nil, or_false] at h
    rcases h with h | h
    · exact Or.inr (h ▸ hslash.left)
    · exact Or.inr (h ▸ hshort (c, e) he)
  · rw [hc] at h
    simp only [List.mem_cons, List.not_mem_nil, or_false] at h
    rcases h with h | h | h | h | h | h
    · exact Or.inr (h ▸ hslash.left)
    · exact Or.inr (h ▸ hslash.right.left)
    · exact Or.inr (h ▸ hslash.right.right)
    · exact Or.inr (h ▸ hslash.right.right)
    · exact Or.inr (h ▸ hdigit _ (by omega))
    · exact Or.inr (h ▸ hdigit _ (by omega))
  · rw [hc] at h
    exact Or.inl (by simpa using h)

theorem mem_quote {s : JsString} {c : Char} (h : c ∈ quote s) :
    c ∈ s ∨ c ∈ jsonChars := by
  have hquote : '"' ∈ jsonChars := by
    decide
  simp only [quote, List.mem_cons, List.mem_append, List.mem_flatMap,
    List.not_mem_nil, or_false] at h
  rcases h with h | ⟨d, hd, hc⟩ | h
  · exact Or.inr (h ▸ hquote)
  · rcases mem_escapeChar hc with hcd | hjson
    · exact Or.inl (hcd ▸ hd)
    · exact Or.inr hjson
  · exact Or.inr (h ▸ hquote)

theorem digit_mem_jsonChars {c : Char} (h : c.isDigit = true) :
    c ∈ jsonChars := by
  have hdigits : forall n, 48 <= n -> n <= 57 -> Char.ofNat n ∈ jsonChars := by
    intro n hlow hhigh
    interval_cases n <;> decide
  rw [Char.isDigit, Bool.and_eq_true, decide_eq_true_iff, decide_eq_true_iff,
    ge_iff_le, UInt32.le_iff_toNat_le, UInt32.le_iff_toNat_le] at h
  rw [← Char.ofNat_toNat c]
  exact hdigits c.toNat h.left h.right

theorem mem_numberText {x : JsNumber} {c : Char} (h : c ∈ x.text) :
    c ∈ jsonChars := by
  have hmarks : ∀ c ∈ "-+e.".toList, c ∈ jsonChars := by
    apply forall_mem_of_all
    decide
  have hdigits : forall a : Digits, c ∈ a.val -> c ∈ jsonChars :=
    fun a hc => digit_mem_jsonChars (List.all_eq_true.mp a.property c hc)
  have hnumeral : c ∈ x.numeral.text -> c ∈ jsonChars := by
    intro hc
    rw [Numeral.text, List.mem_append, List.mem_append] at hc
    rcases hc with hc | hc | hc
    · exact hdigits _ hc
    · unfold fractionText at hc
      split at hc
      · exact absurd hc List.not_mem_nil
      · rcases List.mem_cons.mp hc with hc | hc
        · exact hmarks c (by simp [hc])
        · exact hdigits _ hc
    · cases hexponent : x.numeral.exponent with
      | none =>
          rw [hexponent] at hc
          exact absurd hc List.not_mem_nil
      | some e =>
          rw [hexponent, exponentText, List.mem_cons, List.mem_cons] at hc
          rcases hc with hc | hc | hc
          · exact hmarks c (by simp [hc])
          · split at hc
            · exact hmarks c (by simp [hc])
            · exact hmarks c (by simp [hc])
          · exact digit_mem_jsonChars
              (Nat.isDigit_of_mem_toDigits (by decide) (by decide) hc)
  unfold JsNumber.text at h
  split at h
  · rcases List.mem_cons.mp h with h | h
    · exact hmarks c (by simp [h])
    · exact hnumeral h
  · exact hnumeral h

/-- The character stands in no string of the value. -/
inductive Avoids (c : Char) : JsValue -> Prop where
  | str {s : JsString} : c ∉ s -> Avoids c (JsValue.str s)
  | null : Avoids c JsValue.null
  | bool (b : Bool) : Avoids c (JsValue.bool b)
  | num (x : JsNumber) : Avoids c (JsValue.num x)
  | arr {items : List JsValue} :
      (forall x, x ∈ items -> Avoids c x) -> Avoids c (JsValue.arr items)
  | obj {props : List (JsString × JsValue)} :
      (forall p, p ∈ props -> c ∉ p.1) ->
      (forall p, p ∈ props -> Avoids c p.2) -> Avoids c (JsValue.obj props)

theorem stringify_avoids {c : Char} {v : JsValue} (hc : c ∉ jsonChars)
    (h : Avoids c v) : c ∉ stringify v := by
  have hpunct : '[' ∈ jsonChars ∧ ']' ∈ jsonChars ∧ '{' ∈ jsonChars ∧
      '}' ∈ jsonChars ∧ ',' ∈ jsonChars ∧ ':' ∈ jsonChars := by
    decide
  rcases hpunct with ⟨hopen, hclose, hbrace, hunbrace, hcomma, hcolon⟩
  have hnull : ∀ d ∈ "null".toList, d ∈ jsonChars :=
    forall_mem_of_all (by decide)
  have hbool : forall b, ∀ d ∈ boolText b, d ∈ jsonChars := by
    intro b
    cases b <;> exact forall_mem_of_all (by decide)
  have hne : forall {d}, d ∈ jsonChars -> c ≠ d := by
    intro d hd hcd
    exact hc (hcd ▸ hd)
  induction v using memInduction with
  | str s =>
      cases h with
      | str hs =>
          intro hmem
          exact (mem_quote hmem).elim hs hc
  | null =>
      intro hmem
      exact hc (hnull c hmem)
  | bool b =>
      intro hmem
      exact hc (hbool b c hmem)
  | num x =>
      intro hmem
      exact hc (mem_numberText hmem)
  | arr items ih =>
      cases h with
      | arr hitems =>
          intro hmem
          simp only [stringify, itemTexts_eq_map, List.mem_cons,
            List.mem_append, List.not_mem_nil, or_false] at hmem
          rcases hmem with hmem | hmem | hmem
          · exact hne hopen hmem
          · rcases UniqueDecoding.mem_intercalate hmem with hmem | ⟨text, htext, hin⟩
            · exact hne hcomma hmem
            · rcases List.mem_map.mp htext with ⟨x, hx, rfl⟩
              exact ih x hx (hitems x hx) hin
          · exact hne hclose hmem
  | obj props ih =>
      cases h with
      | obj hkeys hvalues =>
          intro hmem
          simp only [stringify, propTexts_eq_map, List.mem_cons,
            List.mem_append, List.not_mem_nil, or_false] at hmem
          rcases hmem with hmem | hmem | hmem
          · exact hne hbrace hmem
          · rcases UniqueDecoding.mem_intercalate hmem with hmem | ⟨text, htext, hin⟩
            · exact hne hcomma hmem
            · rcases List.mem_map.mp htext with ⟨p, hp, rfl⟩
              simp only [propText, List.mem_append, List.mem_cons] at hin
              rcases hin with hin | hin | hin
              · exact (mem_quote hin).elim (hkeys p hp) hc
              · exact hne hcolon hin
              · exact ih p hp (hvalues p hp) hin
          · exact hne hunbrace hmem

/-!
## Own properties

An object lists its array indices in ascending order, then its other names in
the order they were created.
-/

def arrayIndex? (k : JsString) : Option Nat :=
  let n := k.foldl (fun n c => 10 * n + (c.toNat - 48)) 0
  if Nat.toDigits 10 n = k ∧ n < 4294967295 then some n else none

/-- A property named `k` is listed before an existing one named `l`. -/
def listedBefore (k l : JsString) : Bool :=
  match arrayIndex? k, arrayIndex? l with
  | some m, some n => m < n
  | some _, none => true
  | none, _ => false

def setProperty (k : JsString) (v : JsValue) :
    List (JsString × JsValue) -> List (JsString × JsValue)
  | [] => [(k, v)]
  | (l, w) :: rest =>
      if k = l then
        (l, v) :: rest
      else if listedBefore k l then
        (k, v) :: (l, w) :: rest
      else
        (l, w) :: setProperty k v rest

def fromEntries (entries : List (JsString × JsValue)) :
    List (JsString × JsValue) :=
  entries.foldl (fun props p => setProperty p.1 p.2 props) []

def OwnKeys (names : List JsString) : Prop :=
  names.Pairwise fun k l => k ≠ l ∧ listedBefore l k = false

/-- A value whose objects all list their properties as JavaScript does. -/
inductive Ordered : JsValue -> Prop where
  | str (s : JsString) : Ordered (JsValue.str s)
  | null : Ordered JsValue.null
  | bool (b : Bool) : Ordered (JsValue.bool b)
  | num (x : JsNumber) : Ordered (JsValue.num x)
  | arr {items : List JsValue} :
      (forall x, x ∈ items -> Ordered x) -> Ordered (JsValue.arr items)
  | obj {props : List (JsString × JsValue)} :
      OwnKeys (props.map Prod.fst) ->
      (forall p, p ∈ props -> Ordered p.2) -> Ordered (JsValue.obj props)

/-- Such a value of strings and `null` only, as a query string parses to. -/
inductive Valid : JsValue -> Prop where
  | str (s : JsString) : Valid (JsValue.str s)
  | null : Valid JsValue.null
  | arr {items : List JsValue} :
      (forall x, x ∈ items -> Valid x) -> Valid (JsValue.arr items)
  | obj {props : List (JsString × JsValue)} :
      OwnKeys (props.map Prod.fst) ->
      (forall p, p ∈ props -> Valid p.2) -> Valid (JsValue.obj props)

theorem Valid.ordered {v : JsValue} (h : Valid v) : Ordered v := by
  induction v using memInduction with
  | str s => exact Ordered.str s
  | null => exact Ordered.null
  | bool b => exact Ordered.bool b
  | num x => exact Ordered.num x
  | arr items ih =>
      cases h with
      | arr hitems => exact Ordered.arr (fun x hx => ih x hx (hitems x hx))
  | obj props ih =>
      cases h with
      | obj hkeys hprops =>
          exact Ordered.obj hkeys (fun p hp => ih p hp (hprops p hp))

theorem setProperty_append {k : JsString} {v : JsValue}
    {props : List (JsString × JsValue)}
    (h : forall p, p ∈ props -> p.1 ≠ k ∧ listedBefore k p.1 = false) :
    setProperty k v props = props ++ [(k, v)] := by
  induction props with
  | nil => rfl
  | cons p rest ih =>
      rcases h p List.mem_cons_self with ⟨hne, hbefore⟩
      have hrest := ih (fun q hq => h q (List.mem_cons_of_mem p hq))
      rw [setProperty, if_neg (Ne.symm hne), hbefore, hrest]
      rfl

theorem fromEntries_ownKeys {entries : List (JsString × JsValue)}
    (h : OwnKeys (entries.map Prod.fst)) : fromEntries entries = entries := by
  have hfold : forall (done todo : List (JsString × JsValue)),
      OwnKeys ((done ++ todo).map Prod.fst) ->
      todo.foldl (fun props p => setProperty p.1 p.2 props) done =
        done ++ todo := by
    intro done todo
    induction todo generalizing done with
    | nil =>
        intro _
        simp
    | cons p rest ih =>
        intro hkeys
        have hdone : forall q, q ∈ done ->
            q.1 ≠ p.1 ∧ listedBefore p.1 q.1 = false := by
          intro q hq
          rw [OwnKeys, List.map_append, List.pairwise_append] at hkeys
          exact hkeys.right.right q.1 (List.mem_map_of_mem hq) p.1
            (by simp)
        rw [List.foldl_cons, setProperty_append hdone]
        have hnext : OwnKeys (((done ++ [p]) ++ rest).map Prod.fst) := by
          simpa using hkeys
        rw [ih (done ++ [p]) hnext]
        simp
  exact hfold [] entries h

theorem listedBefore_asymm {k l : JsString} (h : listedBefore k l = true) :
    listedBefore l k = false := by
  unfold listedBefore at h ⊢
  cases hk : arrayIndex? k <;> cases hl : arrayIndex? l <;>
    simp_all [Nat.le_of_lt]

theorem listedBefore_of_not {k l m : JsString} (h : listedBefore k l = true)
    (hnot : listedBefore m l = false) : listedBefore k m = true := by
  unfold listedBefore at h hnot ⊢
  cases hk : arrayIndex? k <;> cases hl : arrayIndex? l <;>
    cases hm : arrayIndex? m <;> simp_all
  omega

theorem mem_setProperty {k : JsString} {v : JsValue}
    {props : List (JsString × JsValue)} {p : JsString × JsValue}
    (h : p ∈ setProperty k v props) : p = (k, v) ∨ p ∈ props := by
  induction props with
  | nil => exact Or.inl (List.mem_singleton.mp h)
  | cons q rest ih =>
      rw [setProperty] at h
      split at h
      · rename_i hkey
        rcases List.mem_cons.mp h with h | h
        · rw [h, hkey]
          exact Or.inl rfl
        · exact Or.inr (List.mem_cons_of_mem q h)
      · split at h
        · exact List.mem_cons.mp h
        · rcases List.mem_cons.mp h with h | h
          · exact Or.inr (h ▸ List.mem_cons_self)
          · exact (ih h).imp_right (List.mem_cons_of_mem q)

theorem ownKeys_setProperty {props : List (JsString × JsValue)}
    (h : OwnKeys (props.map Prod.fst)) (k : JsString) (v : JsValue) :
    OwnKeys ((setProperty k v props).map Prod.fst) := by
  induction props with
  | nil => exact List.pairwise_singleton _ _
  | cons p rest ih =>
      rw [OwnKeys, List.map_cons, List.pairwise_cons] at h
      rcases h with ⟨hfirst, hrest⟩
      rw [setProperty]
      split
      · exact List.pairwise_cons.mpr ⟨hfirst, hrest⟩
      · rename_i hne
        split
        · rename_i hbefore
          -- What does not stand before the next name stands behind the new one.
          have hall : forall l, l ∈ (p :: rest).map Prod.fst ->
              listedBefore k l = true := by
            intro l hl
            rcases List.mem_cons.mp hl with rfl | hl
            · exact hbefore
            · exact listedBefore_of_not hbefore (hfirst l hl).right
          apply List.pairwise_cons.mpr
          refine ⟨?_, List.pairwise_cons.mpr ⟨hfirst, hrest⟩⟩
          intro l hl
          have hnot := listedBefore_asymm (hall l hl)
          refine ⟨?_, hnot⟩
          intro hkl
          subst hkl
          rw [hall k hl] at hnot
          exact absurd hnot (by simp)
        · rename_i hbehind
          apply List.pairwise_cons.mpr
          refine ⟨?_, ih hrest⟩
          intro l hl
          rcases List.mem_map.mp hl with ⟨q, hq, rfl⟩
          rcases mem_setProperty hq with rfl | hq
          · exact ⟨Ne.symm hne, by simpa using hbehind⟩
          · exact hfirst q.1 (List.mem_map_of_mem hq)

/-- The object lists what is left of the entries, in the order of JavaScript. -/
theorem ownKeys_fromEntries (entries : List (JsString × JsValue)) :
    OwnKeys ((fromEntries entries).map Prod.fst) ∧
      forall p, p ∈ fromEntries entries -> p ∈ entries := by
  have hfold : forall (todo done : List (JsString × JsValue)),
      OwnKeys (done.map Prod.fst) ->
      OwnKeys ((todo.foldl (fun props p => setProperty p.1 p.2 props) done).map
          Prod.fst) ∧
        forall p, p ∈ todo.foldl (fun props p => setProperty p.1 p.2 props) done ->
          p ∈ done ∨ p ∈ todo := by
    intro todo
    induction todo with
    | nil => exact fun done hdone => ⟨hdone, fun p hp => Or.inl hp⟩
    | cons q rest ih =>
        intro done hdone
        rcases ih _ (ownKeys_setProperty hdone q.1 q.2) with ⟨hkeys, hmem⟩
        refine ⟨hkeys, ?_⟩
        intro p hp
        rcases hmem p hp with hset | hrest
        · rcases mem_setProperty hset with rfl | hold
          · exact Or.inr List.mem_cons_self
          · exact Or.inl hold
        · exact Or.inr (List.mem_cons_of_mem q hrest)
  rcases hfold entries [] List.Pairwise.nil with ⟨hkeys, hmem⟩
  exact ⟨hkeys, fun p hp => (hmem p hp).resolve_left List.not_mem_nil⟩

theorem arrayIndex?_digits {k : JsString} {n : Nat}
    (h : arrayIndex? k = some n) : forall c, c ∈ k -> c.isDigit = true := by
  unfold arrayIndex? at h
  simp only at h
  split at h
  · rename_i hk
    intro c hc
    rw [← hk.left] at hc
    exact Nat.isDigit_of_mem_toDigits (by decide) (by decide) hc
  · exact absurd h (by simp)

end JsValue

end Foundation
end RestCache
