import RestCache.Store.CacheStore

/-!
# Stores that share a keyspace

Two stores with different prefixes over one provider.  What one of them does
never shows in what the other reads, unless one prefix is the beginning of the
other, or the other's followed by a slash is the beginning of the one.
-/

namespace RestCache
namespace Store

open Foundation
open Config

/-!
## A keyspace
-/

abbrev Keyspace :=
  AList (fun _ : JsString => JsString)

def eraseAll (keys : List JsString) (held : Keyspace) : Keyspace :=
  keys.foldl (fun held key => held.erase key) held

/-- A provider that never fails.  It lists all keys, whatever the prefix. -/
def keyspace : CacheProvider Keyspace where
  ready _ := true
  get key held := (Answer.value (held.lookup key), held)
  set key val _ held := (Answer.value (), held.insert key val)
  del key held := (Answer.value (), held.erase key)
  delMany keys held := (Answer.value (), eraseAll keys held)
  keys _ held := (Answer.value held.keys, held)
  clear _ := (Answer.value (), ∅)

theorem lookup_eraseAll_of_not_mem {key : JsString} {keys : List JsString}
    (h : key ∉ keys) (held : Keyspace) :
    (eraseAll keys held).lookup key = held.lookup key := by
  induction keys generalizing held with
  | nil => rfl
  | cons first rest ih =>
      rw [List.mem_cons, not_or] at h
      show (eraseAll rest (held.erase first)).lookup key = _
      rw [ih h.right, AList.lookup_erase_ne h.left]

theorem lookup_eraseAll_of_mem {key : JsString} {keys : List JsString}
    (h : key ∈ keys) (held : Keyspace) :
    (eraseAll keys held).lookup key = none := by
  induction keys generalizing held with
  | nil => exact absurd h List.not_mem_nil
  | cons first rest ih =>
      show (eraseAll rest (held.erase first)).lookup key = none
      by_cases hrest : key ∈ rest
      · exact ih hrest _
      · have hfirst : key = first :=
          (List.mem_cons.mp h).resolve_right hrest
        rw [lookup_eraseAll_of_not_mem hrest, hfirst]
        exact AList.lookup_erase first held

/-!
## Operations of one store
-/

inductive Operation where
  | get (key : JsString)
  | keys
  | set (key : JsString) (val : JsonValue) (maxAge : Nat) (type : Option JsString)
  | del (key : JsString)
  | delMany (keys : List JsString)
  | clearByRegexp (regExps : List Pattern)
  | clearByUid (uid : JsString) (params : RouteParams) (wildcard : Bool)
  | reset

/-- A logical key starts with a slash, as the keys of request paths do. -/
def IsLogical (key : JsString) : Prop :=
  key.head? = some '/'

def Operation.Logical : Operation -> Prop
  | Operation.get key => IsLogical key
  | Operation.set key _ _ _ => IsLogical key
  | Operation.del key => IsLogical key
  | Operation.delMany names => forall key, key ∈ names -> IsLogical key
  | _ => True

def prefixed (keysPrefix : JsString) : CacheStore where
  initialized := true
  keysPrefix := keysPrefix

section Run

variable (strategy : RelatedStrategy) (lower : CaseMapping) (self : CacheStore)

def Operation.run (op : Operation) (s : State Keyspace) : State Keyspace :=
  match op with
  | Operation.get key => (self.readEntry keyspace key s).2
  | Operation.keys => (self.keys keyspace s).2
  | Operation.set key val maxAge type =>
      (self.set keyspace key val maxAge type s).2
  | Operation.del key => (self.del keyspace key s).2
  | Operation.delMany names => (self.delMany keyspace names s).2
  | Operation.clearByRegexp regExps => (self.clearByRegexp keyspace regExps s).2
  | Operation.clearByUid uid params wildcard =>
      (self.clearByUid keyspace strategy lower uid params wildcard s).2
  | Operation.reset => (self.reset keyspace s).2

def runAll (ops : List Operation) (s : State Keyspace) : State Keyspace :=
  ops.foldl (fun s op => op.run strategy lower self s) s

/-- Whatever the store does, another store's reads do not change. -/
def Undisturbed (other : CacheStore) : Prop :=
  forall (ops : List Operation) (s : State Keyspace),
    (forall op, op ∈ ops -> op.Logical) ->
      forall key, IsLogical key ->
        other.get keyspace key (runAll strategy lower self ops s) =
          other.get keyspace key s

end Run

/-!
## What an operation touches

Every key that a store writes or removes starts with its prefix.
-/

section Frame

variable {strategy : RelatedStrategy} {lower : CaseMapping} {keysPrefix : JsString}

theorem delMany_frame {key : JsString} (h : ¬ keysPrefix <+: key)
    (keys : List JsString) (s : State Keyspace) :
    ((prefixed keysPrefix).delMany keyspace keys s).2.held.lookup key =
      s.held.lookup key := by
  unfold CacheStore.delMany
  split
  · rfl
  · split
    · rfl
    · apply lookup_eraseAll_of_not_mem
      intro hmem
      rcases List.mem_map.mp hmem with ⟨logical, _, hkey⟩
      apply h
      rw [← hkey]
      exact List.prefix_append keysPrefix logical

theorem clearByRegexp_frame {key : JsString} (h : ¬ keysPrefix <+: key)
    (regExps : List Pattern) (s : State Keyspace) :
    ((prefixed keysPrefix).clearByRegexp keyspace regExps s).2.held.lookup key =
      s.held.lookup key :=
  delMany_frame h _ (s.record (some regExps))

theorem reset_frame {key : JsString} (h : ¬ keysPrefix <+: key)
    (s : State Keyspace) :
    ((prefixed keysPrefix).reset keyspace s).2.held.lookup key =
      s.held.lookup key := by
  have hne : (prefixed keysPrefix).keysPrefix ≠ [] := by
    intro hnil
    apply h
    rw [show keysPrefix = [] from hnil]
    exact List.nil_prefix
  have hreset : (prefixed keysPrefix).reset keyspace s =
      (prefixed keysPrefix).delMany keyspace
        ((prefixed keysPrefix).logicalKeys s.held.keys) (s.record none) := by
    unfold CacheStore.reset
    rw [if_neg (show (prefixed keysPrefix).unusable keyspace s ≠ true from
      Bool.false_ne_true), if_pos hne]
    rfl
  rw [hreset]
  exact delMany_frame h _ (s.record none)

theorem run_frame {key : JsString} (h : ¬ keysPrefix <+: key)
    (op : Operation) (s : State Keyspace) :
    (op.run strategy lower (prefixed keysPrefix) s).held.lookup key =
      s.held.lookup key := by
  have hstored : forall logical, key ≠ (prefixed keysPrefix).stored logical := by
    intro logical hkey
    apply h
    rw [hkey]
    exact List.prefix_append keysPrefix logical
  cases op with
  | get logical => rfl
  | keys => rfl
  | set logical val maxAge type =>
      exact AList.lookup_insert_ne (hstored logical)
  | del logical => exact AList.lookup_erase_ne (hstored logical)
  | delMany keys => exact delMany_frame h keys s
  | clearByRegexp regExps => exact clearByRegexp_frame h regExps s
  | clearByUid uid params wildcard =>
      show ((prefixed keysPrefix).clearByUid keyspace strategy lower uid params
        wildcard s).2.held.lookup key = _
      unfold CacheStore.clearByUid CacheStore.clearByPatterns
      split
      · rfl
      · exact clearByRegexp_frame h _ s
  | reset => exact reset_frame h s

theorem runAll_frame {key : JsString} (h : ¬ keysPrefix <+: key)
    (ops : List Operation) (s : State Keyspace) :
    (runAll strategy lower (prefixed keysPrefix) ops s).held.lookup key =
      s.held.lookup key := by
  induction ops generalizing s with
  | nil => rfl
  | cons op rest ih =>
      show (runAll strategy lower (prefixed keysPrefix) rest
        (op.run strategy lower (prefixed keysPrefix) s)).held.lookup key = _
      rw [ih, run_frame h]

theorem get_eq {other key : JsString} (s : State Keyspace) :
    (prefixed other).get keyspace key s =
      ((s.held.lookup (other ++ key)).bind
        (fun text => (deserializeEntry text).join)).map CacheEntry.data := by
  have husable : (prefixed other).unusable keyspace s ≠ true :=
    Bool.false_ne_true
  have hanswer : (keyspace.get ((prefixed other).stored key) s.held).1 =
      Answer.value (s.held.lookup (other ++ key)) := rfl
  rw [CacheStore.get, CacheStore.readEntry, if_neg husable]
  simp only [hanswer]
  cases s.held.lookup (other ++ key) with
  | none => rfl
  | some text => rfl

theorem get_of_lookup {other key : JsString} {s : State Keyspace}
    {val : JsonValue} {type : Option JsString}
    (h : s.held.lookup (other ++ key) = some (serialize val type)) :
    (prefixed other).get keyspace key s = some val := by
  rw [get_eq, h, Option.bind_some, deserializeEntry_serialize]
  rfl

theorem get_of_no_lookup {other key : JsString} {s : State Keyspace}
    (h : s.held.lookup (other ++ key) = none) :
    (prefixed other).get keyspace key s = none := by
  rw [get_eq, h]
  rfl

theorem mem_logicalKeys {key : JsString} {listed : List JsString} :
    key ∈ (prefixed keysPrefix).logicalKeys listed <->
      keysPrefix ++ key ∈ listed := by
  unfold CacheStore.logicalKeys
  split
  · rename_i hnil
    rw [show keysPrefix = [] from hnil, List.nil_append]
  · rw [List.mem_map]
    constructor
    · intro hgiven
      rcases hgiven with ⟨stored, hstored, hstrip⟩
      rcases List.mem_filter.mp hstored with ⟨hmem, hprefix⟩
      rcases List.isPrefixOf_iff_prefix.mp hprefix with ⟨rest, rfl⟩
      rw [← hstrip]
      show keysPrefix ++ (keysPrefix ++ rest).drop keysPrefix.length ∈ listed
      rw [List.drop_left]
      exact hmem
    · intro hmem
      refine ⟨keysPrefix ++ key, List.mem_filter.mpr ⟨hmem, ?_⟩, ?_⟩
      · exact List.isPrefixOf_iff_prefix.mpr (List.prefix_append keysPrefix key)
      · show (keysPrefix ++ key).drop keysPrefix.length = key
        rw [List.drop_left]

theorem delMany_lookup (keys : List JsString) (key : JsString)
    (s : State Keyspace) :
    ((prefixed keysPrefix).delMany keyspace keys s).2.held.lookup
        (keysPrefix ++ key) =
      if key ∈ keys then none else s.held.lookup (keysPrefix ++ key) := by
  have hmem : keysPrefix ++ key ∈ keys.map (prefixed keysPrefix).stored <->
      key ∈ keys := by
    constructor
    · intro hgiven
      rcases List.mem_map.mp hgiven with ⟨other, hother, hstored⟩
      rw [← List.append_cancel_left hstored]
      exact hother
    · exact fun hkey => List.mem_map.mpr ⟨key, hkey, rfl⟩
  unfold CacheStore.delMany
  rw [if_neg (show (prefixed keysPrefix).unusable keyspace s ≠ true from
    Bool.false_ne_true)]
  split
  · rename_i hnil
    rw [hnil]
    rfl
  · show (eraseAll (keys.map (prefixed keysPrefix).stored) s.held).lookup
      (keysPrefix ++ key) = _
    split
    · rename_i hkey
      exact lookup_eraseAll_of_mem (hmem.mpr hkey) s.held
    · rename_i hkey
      exact lookup_eraseAll_of_not_mem (fun hgiven => hkey (hmem.mp hgiven)) s.held

end Frame

/-!
## Which prefixes are apart
-/

def Apart (own other : JsString) : Prop :=
  ¬ own <+: other ∧ ¬ other ++ ['/'] <+: own

theorem not_prefix_of_apart {own other key : JsString}
    (h : Apart own other) (hkey : IsLogical key) : ¬ own <+: other ++ key := by
  intro hprefix
  rcases List.prefix_or_prefix_of_prefix hprefix (List.prefix_append other key)
    with hshort | hlong
  · exact h.left hshort
  · rcases hlong with ⟨more, rfl⟩
    have hmore : more <+: key := (List.prefix_append_right_inj other).mp hprefix
    rcases hmore with ⟨rest, rfl⟩
    cases more with
    | nil => exact h.left (by simp)
    | cons c more =>
        have hslash : c = '/' := Option.some.inj hkey
        subst hslash
        exact h.right ⟨more, by simp⟩

section Disturbed

variable {strategy : RelatedStrategy} {lower : CaseMapping} {own other : JsString}

theorem undisturbed_of_apart (h : Apart own other) :
    Undisturbed strategy lower (prefixed own) (prefixed other) := by
  intro ops s _ key hkey
  rw [get_eq, get_eq, runAll_frame (not_prefix_of_apart h hkey)]

/-- A reset removes every key that starts with the prefix, whoever wrote it. -/
theorem reset_removes {key : JsString} {s : State Keyspace}
    (hbegins : own <+: key) (hkey : key ∈ s.held.keys) :
    ((prefixed own).reset keyspace s).2.held.lookup key = none := by
  have husable : (prefixed own).unusable keyspace s ≠ true :=
    Bool.false_ne_true
  unfold CacheStore.reset
  rw [if_neg husable]
  by_cases hnil : own = []
  · rw [if_neg (show ¬ (prefixed own).keysPrefix ≠ [] from not_not_intro hnil)]
    rfl
  · rw [if_pos (show (prefixed own).keysPrefix ≠ [] from hnil)]
    rcases hbegins with ⟨rest, rfl⟩
    have hlisted : rest ∈ (prefixed own).logicalKeys s.held.keys :=
      mem_logicalKeys.mpr hkey
    show ((prefixed own).delMany keyspace
      ((prefixed own).logicalKeys s.held.keys) (s.record none)).2.held.lookup
        (own ++ rest) = none
    rw [delMany_lookup, if_pos hlisted]

theorem disturbed_of_prefix (h : own <+: other) :
    ¬ Undisturbed strategy lower (prefixed own) (prefixed other) := by
  intro hundisturbed
  let entry : JsString := serialize default none
  let s : State Keyspace :=
    { log := PurgeLog.init, held := AList.singleton (other ++ ['/']) entry }
  have hsame := hundisturbed [Operation.reset] s
    (fun op hop => by
      rw [List.mem_singleton.mp hop]
      trivial) ['/'] rfl
  have hbefore : (prefixed other).get keyspace ['/'] s = some default :=
    get_of_lookup (AList.lookup_insert ∅)
  have hafter : (prefixed other).get keyspace ['/']
      (runAll strategy lower (prefixed own) [Operation.reset] s) = none := by
    apply get_of_no_lookup
    apply reset_removes (h.trans (List.prefix_append other ['/']))
    exact List.mem_singleton.mpr rfl
  rw [hbefore, hafter] at hsame
  exact absurd hsame (by simp)

theorem disturbed_of_slash (h : other ++ ['/'] <+: own) :
    ¬ Undisturbed strategy lower (prefixed own) (prefixed other) := by
  rcases h with ⟨more, rfl⟩
  intro hundisturbed
  let s : State Keyspace := { log := PurgeLog.init, held := ∅ }
  let op : Operation := Operation.set ['/'] default 0 none
  have hsame := hundisturbed [op] s
    (fun op hop => by
      rw [List.mem_singleton.mp hop]
      exact rfl) ('/' :: (more ++ ['/'])) rfl
  have hbefore : (prefixed other).get keyspace
      ('/' :: (more ++ ['/'])) s = none :=
    get_of_no_lookup (AList.lookup_empty _)
  have hkey : other ++ '/' :: (more ++ ['/']) =
      (prefixed (other ++ ['/'] ++ more)).stored ['/'] := by
    simp [CacheStore.stored, prefixed]
  have hafter : (prefixed other).get keyspace ('/' :: (more ++ ['/']))
      (runAll strategy lower (prefixed (other ++ ['/'] ++ more)) [op] s) =
        some default := by
    apply @get_of_lookup _ _ _ _ none
    rw [hkey]
    exact AList.lookup_insert ∅
  rw [hbefore, hafter] at hsame
  exact absurd hsame (by simp)

end Disturbed

/--
One store never shows in another's reads exactly when its prefix is not the
beginning of the other's, nor the other's with a slash the beginning of its own.
-/
theorem undisturbed_iff (strategy : RelatedStrategy) (lower : CaseMapping)
    (own other : JsString) :
    Undisturbed strategy lower (prefixed own) (prefixed other) <->
      Apart own other := by
  constructor
  · intro h
    exact ⟨fun hprefix => disturbed_of_prefix hprefix h,
      fun hslash => disturbed_of_slash hslash h⟩
  · exact undisturbed_of_apart

/-!
## An example
-/

def noContentTypes : RelatedStrategy where
  enableDocumentServiceMiddleware := true
  contentTypes := []
  clearRelatedCache := false
  relatedContentTypeUid _ := []

/-- The store of `blog` removes the entries of the store of `blog-v2`. -/
theorem not_undisturbed_blog :
    ¬ Undisturbed noContentTypes CaseMapping.latin1
        (prefixed "blog".toList) (prefixed "blog-v2".toList) :=
  disturbed_of_prefix (by decide)

end Store
end RestCache
