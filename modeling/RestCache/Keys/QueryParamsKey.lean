import Mathlib.Data.List.Sort
import Mathlib.Data.List.Lex
import RestCache.Foundation.JsonParse
import RestCache.Keys.EscapeKeyPart

/-!
# The query part of a cache key

The selected parameters are sorted by name and written as `name=value` pairs.
A string is escaped, a nested value is written as JSON with every string in it
escaped first, and a bare parameter becomes a lone percent sign.
-/

namespace RestCache
namespace Keys

open Foundation
open JsValue

mutual

def escapeKeyJson : JsValue -> JsValue
  | str s => JsValue.str (escapeKeyValue s)
  | null => JsValue.null
  | JsValue.bool b => JsValue.bool b
  | num x => JsValue.num x
  | arr items => JsValue.arr (escapeKeyItems items)
  | obj props => JsValue.obj (fromEntries (escapeKeyEntries props))

def escapeKeyItems : List JsValue -> List JsValue
  | [] => []
  | v :: rest => escapeKeyJson v :: escapeKeyItems rest

def escapeKeyEntries : List (JsString × JsValue) -> List (JsString × JsValue)
  | [] => []
  | (k, v) :: rest =>
      (escapeKeyValue k, escapeKeyJson v) :: escapeKeyEntries rest

end

/-- A parsed query string: an object with its own properties in order. -/
structure Query where
  params : List (JsString × JsValue)
  valid : Valid (JsValue.obj params)

namespace Query

def names (query : Query) : List JsString :=
  query.params.map Prod.fst

def get (query : Query) (name : JsString) : Option JsValue :=
  query.params.lookup name

def empty : Query where
  params := []
  valid := Valid.obj List.Pairwise.nil (by simp)

end Query

inductive UseQueryParams where
  | bool (b : Bool)
  | names (l : List JsString)
deriving DecidableEq

def codeUnits (c : Char) : List Nat :=
  if c.toNat < 0x10000 then
    [c.toNat]
  else
    [0xD800 + (c.toNat - 0x10000) / 0x400, 0xDC00 + (c.toNat - 0x10000) % 0x400]

/-- The order of `Array.prototype.sort`, by UTF-16 code units. -/
def sortsBefore (s t : JsString) : Prop :=
  s.flatMap codeUnits ≤ t.flatMap codeUnits

instance : DecidableRel sortsBefore :=
  fun s t => inferInstanceAs
    (Decidable (s.flatMap codeUnits ≤ t.flatMap codeUnits))

def sortNames (names : List JsString) : List JsString :=
  names.insertionSort sortsBefore

def queryValueText : Option JsValue -> JsString
  | some JsValue.null => KEY_NULL
  | some (JsValue.str s) => escapeKeyValue s
  | some (JsValue.bool b) => escapeKeyValue (boolText b)
  | some (JsValue.num x) => escapeKeyValue x.text
  | some value => stringify (escapeKeyJson value)
  | none => escapeKeyValue "undefined".toList

def queryPair (query : Query) (name : JsString) : JsString × JsString :=
  (escapeKeyName name, queryValueText (query.get name))

def selectedNames (query : Query) : UseQueryParams -> List JsString
  | UseQueryParams.bool true => query.names
  | UseQueryParams.bool false => []
  | UseQueryParams.names l =>
      if l.length > 0 then query.names.filter (· ∈ l) else []

def generateQueryParamsKey (query : Query) (useQueryParams : UseQueryParams) :
    JsString :=
  let keys := selectedNames query useQueryParams
  if keys.length = 0 then
    []
  else
    UniqueDecoding.joinPairs '=' ','
      ((sortNames keys).map (queryPair query))

/-!
## Escaped values

Escaping keeps a list of own property names in order, so the object it builds
lists the escaped properties where the originals stood.
-/

theorem escapeKeyItems_eq_map (items : List JsValue) :
    escapeKeyItems items = items.map escapeKeyJson := by
  induction items with
  | nil => rfl
  | cons v rest ih => rw [escapeKeyItems, ih, List.map_cons]

def escapeEntry (p : JsString × JsValue) : JsString × JsValue :=
  (escapeKeyValue p.1, escapeKeyJson p.2)

theorem escapeKeyEntries_eq_map (props : List (JsString × JsValue)) :
    escapeKeyEntries props = props.map escapeEntry := by
  induction props with
  | nil => rfl
  | cons p rest ih =>
      cases p
      rw [escapeKeyEntries, ih, List.map_cons]
      rfl

theorem arrayIndex?_escapeKeyValue (k : JsString) :
    arrayIndex? (escapeKeyValue k) = arrayIndex? k := by
  have hdigit : forall c : Char, c.isDigit = true ->
      c ∈ UriComponent.unreservedChars ∧ c ≠ '%' := by
    intro c hc
    have hall : forall n, n < 58 -> (Char.ofNat n).isDigit = true ->
        Char.ofNat n ∈ UriComponent.unreservedChars ∧ Char.ofNat n ≠ '%' := by
      decide
    have hlt : c.toNat < 58 := by
      simp only [Char.isDigit, Bool.and_eq_true, decide_eq_true_eq] at hc
      exact Nat.lt_succ_of_le (UInt32.le_iff_toNat_le.mp hc.right)
    have hchar := hall c.toNat hlt
    rw [Char.ofNat_toNat] at hchar
    exact hchar hc
  have hnone : forall (t : JsString) (c : Char), c ∈ t ->
      c ∉ UriComponent.unreservedChars ∨ c = '%' -> arrayIndex? t = none := by
    intro t c hc hbad
    cases hindex : arrayIndex? t with
    | none => rfl
    | some n =>
        have hgood := hdigit c (arrayIndex?_digits hindex c hc)
        rcases hbad with hres | hpercent
        · exact absurd hgood.left hres
        · exact absurd hpercent hgood.right
  unfold escapeKeyValue escapeUnless
  split
  · rename_i hs
    rcases hasStructure_reserved structural_value hs with ⟨c, hc, hres⟩
    have hpercent := (UriComponent.percent_of_mem hc hres).left
    rw [hnone k c hc (Or.inl hres)]
    exact hnone (encode k) '%' hpercent (Or.inr rfl)
  · rfl

theorem ownKeys_escaped {props : List (JsString × JsValue)}
    (h : OwnKeys (props.map Prod.fst)) :
    OwnKeys ((escapeKeyEntries props).map Prod.fst) := by
  have hnames : (escapeKeyEntries props).map Prod.fst =
      (props.map Prod.fst).map escapeKeyValue := by
    rw [escapeKeyEntries_eq_map, List.map_map, List.map_map]
    rfl
  rw [hnames]
  unfold OwnKeys at h ⊢
  rw [List.pairwise_map]
  apply h.imp
  intro k l hgiven
  rcases hgiven with ⟨hne, hbefore⟩
  constructor
  · exact fun heq => hne (escapeKeyValue_injective heq)
  · unfold listedBefore at hbefore ⊢
    rwa [arrayIndex?_escapeKeyValue, arrayIndex?_escapeKeyValue]

theorem escapeKeyJson_obj {props : List (JsString × JsValue)}
    (h : Valid (JsValue.obj props)) :
    escapeKeyJson (JsValue.obj props) =
      JsValue.obj (props.map escapeEntry) := by
  cases h with
  | obj hkeys _ =>
      rw [escapeKeyJson, fromEntries_ownKeys (ownKeys_escaped hkeys),
        escapeKeyEntries_eq_map]

theorem escapeKeyJson_valid {v : JsValue} (h : Valid v) :
    Valid (escapeKeyJson v) := by
  induction v using memInduction with
  | str s =>
      rw [escapeKeyJson]
      exact Valid.str _
  | null =>
      rw [escapeKeyJson]
      exact Valid.null
  | bool b => cases h
  | num x => cases h
  | arr items ih =>
      cases h with
      | arr hitems =>
          rw [escapeKeyJson, escapeKeyItems_eq_map]
          apply Valid.arr
          intro y hy
          rcases List.mem_map.mp hy with ⟨x, hx, rfl⟩
          exact ih x hx (hitems x hx)
  | obj props ih =>
      rw [escapeKeyJson_obj h]
      cases h with
      | obj hkeys hprops =>
          have hescaped := ownKeys_escaped hkeys
          rw [escapeKeyEntries_eq_map] at hescaped
          apply Valid.obj hescaped
          intro q hq
          rcases List.mem_map.mp hq with ⟨p, hp, rfl⟩
          exact ih p hp (hprops p hp)

theorem map_inj_of_mem {α β : Type _} {f : α -> β} {xs ys : List α}
    (hf : forall x, x ∈ xs -> forall y, y ∈ ys -> f x = f y -> x = y)
    (h : xs.map f = ys.map f) : xs = ys := by
  induction xs generalizing ys with
  | nil =>
      cases ys with
      | nil => rfl
      | cons y ys => simp at h
  | cons x xs ih =>
      cases ys with
      | nil => simp at h
      | cons y ys =>
          rw [List.map_cons, List.map_cons] at h
          injection h with hhead htail
          have hxy := hf x List.mem_cons_self y List.mem_cons_self hhead
          have hrest := ih
            (fun a ha b hb => hf a (List.mem_cons_of_mem x ha) b
              (List.mem_cons_of_mem y hb)) htail
          rw [hxy, hrest]

theorem escapeKeyJson_inj {v w : JsValue} (hv : Valid v) (hw : Valid w)
    (h : escapeKeyJson v = escapeKeyJson w) : v = w := by
  induction v using memInduction generalizing w with
  | str s =>
      cases w with
      | str t =>
          rw [escapeKeyJson, escapeKeyJson] at h
          injection h with hst
          rw [escapeKeyValue_injective hst]
      | _ => simp [escapeKeyJson] at h
  | null =>
      cases w with
      | null => rfl
      | _ => simp [escapeKeyJson] at h
  | bool b => cases hv
  | num x => cases hv
  | arr items ih =>
      cases w with
      | arr others =>
          rw [escapeKeyJson, escapeKeyJson, escapeKeyItems_eq_map,
            escapeKeyItems_eq_map] at h
          injection h with hmap
          cases hv with
          | arr hitems =>
              cases hw with
              | arr hothers =>
                  have heq := map_inj_of_mem (fun x hx y hy hxy =>
                    ih x hx (hitems x hx) (hothers y hy) hxy) hmap
                  rw [heq]
      | _ => simp [escapeKeyJson] at h
  | obj props ih =>
      cases w with
      | obj others =>
          rw [escapeKeyJson_obj hv, escapeKeyJson_obj hw] at h
          injection h with hmap
          cases hv with
          | obj _ hprops =>
              cases hw with
              | obj _ hothers =>
                  have heq := map_inj_of_mem (fun p hp q hq hpq => by
                    injection hpq with hkey hvalue
                    exact Prod.ext (escapeKeyValue_injective hkey)
                      (ih p hp (hprops p hp) (hothers q hq) hvalue)) hmap
                  rw [heq]
      | _ => simp [escapeKeyJson] at h

theorem escapeKeyJson_avoids {v : JsValue} {c : Char} (hv : Valid v)
    (hc : c ∈ "&=".toList) : Avoids c (escapeKeyJson v) := by
  induction v using memInduction with
  | str s =>
      rw [escapeKeyJson]
      exact Avoids.str (not_mem_escapeKeyValue s hc)
  | null =>
      rw [escapeKeyJson]
      exact Avoids.null
  | bool b => cases hv
  | num x => cases hv
  | arr items ih =>
      cases hv with
      | arr hitems =>
          rw [escapeKeyJson, escapeKeyItems_eq_map]
          apply Avoids.arr
          intro y hy
          rcases List.mem_map.mp hy with ⟨x, hx, rfl⟩
          exact ih x hx (hitems x hx)
  | obj props ih =>
      rw [escapeKeyJson_obj hv]
      cases hv with
      | obj _ hprops =>
          refine Avoids.obj ?_ ?_
          · intro q hq
            rcases List.mem_map.mp hq with ⟨p, _, rfl⟩
            exact not_mem_escapeKeyValue p.1 hc
          · intro q hq
            rcases List.mem_map.mp hq with ⟨p, hp, rfl⟩
            exact ih p hp (hprops p hp)

/-!
## Values and pairs
-/

theorem queryValueText_json {v : JsValue} (hv : Valid v)
    (hnested : (exists items, v = JsValue.arr items) ∨
      (exists props, v = JsValue.obj props)) :
    queryValueText (some v) = stringify (escapeKeyJson v) ∧
      exists c, c ∈ jsonOpeners ∧ c ≠ '%' ∧
        (queryValueText (some v)).head? = some c := by
  rcases hnested with ⟨items, rfl⟩ | ⟨props, rfl⟩
  · refine ⟨rfl, '[', by decide, by decide, ?_⟩
    change (stringify (escapeKeyJson (JsValue.arr items))).head? = _
    rw [escapeKeyJson]
    rfl
  · refine ⟨rfl, '{', by decide, by decide, ?_⟩
    change (stringify (escapeKeyJson (JsValue.obj props))).head? = _
    rw [escapeKeyJson_obj hv]
    rfl

theorem queryValueText_inj {v w : JsValue} (hv : Valid v) (hw : Valid w)
    (h : queryValueText (some v) = queryValueText (some w)) : v = w := by
  have hplain : forall {x : JsValue}, Valid x -> x = JsValue.null ∨
      (exists s, x = JsValue.str s) ∨ ((exists items, x = JsValue.arr items) ∨
        (exists props, x = JsValue.obj props)) := by
    intro x hx
    cases hx <;> simp
  rcases hplain hv with rfl | ⟨s, rfl⟩ | hvj
  · rcases hplain hw with rfl | ⟨t, rfl⟩ | hwj
    · rfl
    · exact absurd h.symm (escapeKeyValue_ne_null t)
    · rcases queryValueText_json hw hwj with ⟨_, c, _, hne, hhead⟩
      rw [← h] at hhead
      injection hhead with hc
      exact absurd hc.symm hne
  · rcases hplain hw with rfl | ⟨t, rfl⟩ | hwj
    · exact absurd h (escapeKeyValue_ne_null s)
    · rw [escapeKeyValue_injective h]
    · rcases queryValueText_json hw hwj with ⟨_, c, hopen, _, hhead⟩
      rw [← h] at hhead
      exact absurd hopen (head_escapeUnless hhead)
  · rcases queryValueText_json hv hvj with ⟨hvtext, c, hopen, hne, hhead⟩
    rcases hplain hw with rfl | ⟨t, rfl⟩ | hwj
    · rw [h] at hhead
      injection hhead with hc
      exact absurd hc.symm hne
    · rw [h] at hhead
      exact absurd hopen (head_escapeUnless hhead)
    · rcases queryValueText_json hw hwj with ⟨hwtext, _⟩
      rw [hvtext, hwtext] at h
      exact escapeKeyJson_inj hv hw (stringify_inj (escapeKeyJson_valid hv).ordered
        (escapeKeyJson_valid hw).ordered h)

theorem queryValueText_not_mem {value : Option JsValue} {c : Char}
    (hvalid : forall v, value = some v -> Valid v) (hc : c ∈ "&=".toList) :
    c ∉ queryValueText value := by
  have hjson : ∀ c ∈ "&=".toList, c ∉ jsonChars ∧ c ∉ KEY_NULL :=
    forall_mem_of_all (by decide)
  rcases hjson c hc with ⟨hchars, hnull⟩
  cases value with
  | none => exact not_mem_escapeKeyValue _ hc
  | some v =>
      have hv := hvalid v rfl
      cases v with
      | null => exact hnull
      | str s => exact not_mem_escapeKeyValue s hc
      | bool b => exact not_mem_escapeKeyValue _ hc
      | num x => exact not_mem_escapeKeyValue _ hc
      | arr items => exact stringify_avoids hchars (escapeKeyJson_avoids hv hc)
      | obj props => exact stringify_avoids hchars (escapeKeyJson_avoids hv hc)

/-!
## The order of the names

Two lists of distinct names with the same members are sorted into one list.
-/

theorem codeUnits_cases (c : Char) :
    (c.toNat < 0x10000 ∧ (c.toNat < 0xD800 ∨ 0xDFFF < c.toNat) ∧
      codeUnits c = [c.toNat]) ∨
    (0x10000 ≤ c.toNat ∧ c.toNat < 0x110000 ∧
      codeUnits c = [0xD800 + (c.toNat - 0x10000) / 0x400,
        0xDC00 + (c.toNat - 0x10000) % 0x400]) := by
  have hvalid : c.toNat < 0xD800 ∨ (0xDFFF < c.toNat ∧ c.toNat < 0x110000) :=
    c.valid
  unfold codeUnits
  split
  · rename_i hlt
    exact Or.inl ⟨hlt, hvalid.imp id And.left, rfl⟩
  · exact Or.inr ⟨by omega, by omega, rfl⟩

theorem codeUnits_prefixFree : UniqueDecoding.PrefixFree codeUnits := by
  intro c d u v h
  apply Char.toNat_inj.mp
  rcases codeUnits_cases c with ⟨_, hcrange, hc⟩ | ⟨hcge, hclt, hc⟩
  · rcases codeUnits_cases d with ⟨_, _, hd⟩ | ⟨hdge, hdlt, hd⟩
    · rw [hc, hd] at h
      injection h
    · rw [hc, hd] at h
      injection h with hunit _
      omega
  · rcases codeUnits_cases d with ⟨_, hdrange, hd⟩ | ⟨hdge, hdlt, hd⟩
    · rw [hc, hd] at h
      injection h with hunit _
      omega
    · rw [hc, hd] at h
      simp only [List.cons_append, List.cons.injEq] at h
      have hhigh := h.left
      have hlow := h.right.left
      omega

theorem sortsBefore_antisymm {s t : JsString}
    (hst : sortsBefore s t) (hts : sortsBefore t s) : s = t := by
  have hunits : s.flatMap codeUnits = t.flatMap codeUnits :=
    @le_antisymm (List Nat) _ _ _ hst hts
  have hstop : forall (c : Char) (u : List Nat),
      (codeUnits c ++ u).head? ≠ some 0x110000 := by
    intro c u
    rcases codeUnits_cases c with ⟨hlt, _, hc⟩ | ⟨_, hlt, hc⟩
    · rw [hc]
      simp only [List.cons_append, List.head?_cons, ne_eq, Option.some.injEq]
      omega
    · rw [hc]
      simp only [List.cons_append, List.head?_cons, ne_eq, Option.some.injEq]
      omega
  have hclosed : s.flatMap codeUnits ++ 0x110000 :: [] =
      t.flatMap codeUnits ++ 0x110000 :: [] := by
    rw [hunits]
  exact (UniqueDecoding.flatMap_stop_inj codeUnits_prefixFree hstop
    hclosed).left

theorem sortNames_perm (names : List JsString) :
    (sortNames names).Perm names :=
  List.perm_insertionSort sortsBefore names

theorem sortNames_pairwise (names : List JsString) :
    (sortNames names).Pairwise sortsBefore := by
  have : Std.Total sortsBefore :=
    ⟨fun s t => le_total (s.flatMap codeUnits) (t.flatMap codeUnits)⟩
  have : IsTrans JsString sortsBefore :=
    ⟨fun _ _ _ hst htu => @le_trans (List Nat) _ _ _ _ hst htu⟩
  exact List.pairwise_insertionSort sortsBefore names

theorem sortNames_eq {xs ys : List JsString} (hxs : xs.Nodup)
    (hys : ys.Nodup) (h : forall name, name ∈ xs <-> name ∈ ys) :
    sortNames xs = sortNames ys := by
  have hperm : (sortNames xs).Perm (sortNames ys) :=
    ((sortNames_perm xs).trans ((List.perm_ext_iff_of_nodup hxs hys).mpr h)).trans
      (sortNames_perm ys).symm
  exact List.Perm.eq_of_pairwise (fun _ _ _ _ => sortsBefore_antisymm)
    (sortNames_pairwise xs) (sortNames_pairwise ys) hperm

/-!
## The key of a query

The text determines the value of every selected parameter, and is determined by
these values.
-/

def UseQueryParams.selects : UseQueryParams -> JsString -> Bool
  | UseQueryParams.bool b, _ => b
  | UseQueryParams.names l, name => name ∈ l

namespace Query

variable (query : Query)

theorem names_ownKeys : OwnKeys query.names := by
  cases query.valid with
  | obj hkeys _ => exact hkeys

theorem names_nodup : query.names.Nodup :=
  query.names_ownKeys.imp (fun h => h.left)

theorem get_valid {name : JsString} {v : JsValue}
    (h : query.get name = some v) : Valid v := by
  rcases List.lookup_eq_some_iff.mp h with ⟨before, after, hsplit, _⟩
  cases query.valid with
  | obj _ hvalues =>
      apply hvalues (name, v)
      rw [hsplit]
      simp

theorem get_eq_none_iff {name : JsString} :
    query.get name = none <-> name ∉ query.names := by
  unfold get names
  rw [List.lookup_eq_none_iff]
  constructor
  · intro h hmem
    rcases List.mem_map.mp hmem with ⟨p, hp, hname⟩
    exact absurd hname.symm (by simpa using h p hp)
  · intro h p hp
    simp only [bne_iff_ne, ne_eq]
    intro hgiven
    subst hgiven
    exact h (List.mem_map_of_mem hp)

end Query

theorem mem_selectedNames {query : Query} {use : UseQueryParams}
    {name : JsString} :
    name ∈ selectedNames query use <->
      name ∈ query.names ∧ use.selects name = true := by
  cases use with
  | bool b => cases b <;> simp [selectedNames, UseQueryParams.selects]
  | names l =>
      cases l with
      | nil => simp [selectedNames, UseQueryParams.selects]
      | cons x rest => simp [selectedNames, UseQueryParams.selects]

theorem selectedNames_nodup (query : Query) (use : UseQueryParams) :
    (selectedNames query use).Nodup := by
  cases use with
  | bool b =>
      cases b with
      | true => exact query.names_nodup
      | false => exact List.nodup_nil
  | names l =>
      simp only [selectedNames]
      split
      · exact query.names_nodup.filter _
      · exact List.nodup_nil

theorem generateQueryParamsKey_eq_joinPairs (query : Query)
    (use : UseQueryParams) :
    generateQueryParamsKey query use =
      UniqueDecoding.joinPairs '=' ','
        ((sortNames (selectedNames query use)).map (queryPair query)) := by
  unfold generateQueryParamsKey
  simp only
  split
  · rename_i hnil
    rw [List.eq_nil_of_length_eq_zero hnil]
    rfl
  · rfl

theorem queryPair_clean (query : Query) (name : JsString) :
    UniqueDecoding.CleanPair '=' ',' (queryPair query name) := by
  refine ⟨?_, ?_, ?_⟩
  · exact not_mem_escapeKeyName name (by decide)
  · exact not_mem_escapeKeyName name (by decide)
  · exact queryValueText_not_mem (fun _ => query.get_valid) (by decide)

theorem queryPair_not_amp (query : Query) (name : JsString) :
    '&' ∉ (queryPair query name).1 ∧ '&' ∉ (queryPair query name).2 :=
  ⟨not_mem_escapeKeyName name (by decide),
    queryValueText_not_mem (fun _ => query.get_valid) (by decide)⟩

theorem generateQueryParamsKey_eq_iff {a b : Query} {use : UseQueryParams} :
    generateQueryParamsKey a use = generateQueryParamsKey b use <->
      forall name, use.selects name = true -> a.get name = b.get name := by
  rw [generateQueryParamsKey_eq_joinPairs, generateQueryParamsKey_eq_joinPairs]
  constructor
  · intro h name hname
    have hclean : forall (query : Query) (names : List JsString) p,
        p ∈ names.map (queryPair query) ->
        UniqueDecoding.CleanPair '=' ',' p := by
      intro query names p hp
      rcases List.mem_map.mp hp with ⟨k, _, rfl⟩
      exact queryPair_clean query k
    have hpairs := UniqueDecoding.joinPairs_inj (by decide)
      (hclean a _) (hclean b _) h
    have hsorted : sortNames (selectedNames a use) =
        sortNames (selectedNames b use) := by
      have hfst := congrArg (List.map Prod.fst) hpairs
      rw [List.map_map, List.map_map] at hfst
      exact List.map_injective_iff.mpr escapeKeyName_injective hfst
    have hmem : name ∈ a.names <-> name ∈ b.names := by
      have hsel : name ∈ selectedNames a use <->
          name ∈ selectedNames b use := by
        rw [← (sortNames_perm (selectedNames a use)).mem_iff, hsorted,
          (sortNames_perm (selectedNames b use)).mem_iff]
      simpa [mem_selectedNames, hname] using hsel
    cases ha : a.get name with
    | none =>
        symm
        rw [Query.get_eq_none_iff, ← hmem, ← Query.get_eq_none_iff]
        exact ha
    | some v =>
        have hin : name ∈ a.names := by
          by_contra hout
          rw [a.get_eq_none_iff.mpr hout] at ha
          exact absurd ha (by simp)
        cases hb : b.get name with
        | none => exact absurd (hmem.mp hin) (b.get_eq_none_iff.mp hb)
        | some w =>
            have hsel : name ∈ sortNames (selectedNames a use) :=
              (sortNames_perm _).mem_iff.mpr
                (mem_selectedNames.mpr ⟨hin, hname⟩)
            rw [← hsorted] at hpairs
            have hpair := List.map_inj_left.mp hpairs name hsel
            have htext := congrArg Prod.snd hpair
            simp only [queryPair, ha, hb] at htext
            rw [queryValueText_inj (a.get_valid ha) (b.get_valid hb) htext]
  · intro h
    have hmem : forall name, name ∈ selectedNames a use <->
        name ∈ selectedNames b use := by
      intro name
      rw [mem_selectedNames, mem_selectedNames, and_congr_left_iff]
      intro hname
      have hnone : a.get name = none <-> name ∉ a.names :=
        a.get_eq_none_iff
      rw [h name hname, b.get_eq_none_iff] at hnone
      exact (not_iff_not.mp hnone).symm
    have hsorted := sortNames_eq (selectedNames_nodup a use)
      (selectedNames_nodup b use) hmem
    rw [hsorted]
    congr 1
    apply List.map_congr_left
    intro name hname
    have hsel := mem_selectedNames.mp ((sortNames_perm _).mem_iff.mp hname)
    rw [queryPair, queryPair, h name hsel.right]

theorem generateQueryParamsKey_not_amp (query : Query) (use : UseQueryParams) :
    '&' ∉ generateQueryParamsKey query use := by
  rw [generateQueryParamsKey_eq_joinPairs]
  apply UniqueDecoding.not_mem_joinPairs (by decide) (by decide)
  intro p hp
  rcases List.mem_map.mp hp with ⟨name, _, rfl⟩
  exact queryPair_not_amp query name

end Keys
end RestCache
