import RestCache.Store.SharedRegExps

/-!
# What a purge by shared expressions removes

A purge removes the entries that its expressions match from their start, and
answers afterwards for the same keys, where the tests of expressions with the
global or the sticky flag may begin at any index that tests leave.
-/

namespace RestCache
namespace Store

open Foundation

/-!
## Providers that list their keys in any order
-/

/-- The listing holds every stored key with the prefix once; it may hold others. -/
structure Listing where
  list : JsString -> Keyspace -> List JsString
  nodup : forall keysPrefix held, (list keysPrefix held).Nodup
  mem : forall keysPrefix held key, keysPrefix <+: key ->
    (key ∈ list keysPrefix held <-> key ∈ held.keys)

def Listing.provider (listing : Listing) : CacheProvider Keyspace :=
  { keyspace with
    keys := fun keysPrefix held =>
      (Answer.value (listing.list keysPrefix held), held) }

def Listing.inOrder : Listing where
  list _ held := held.keys
  nodup _ held := held.nodupKeys
  mem _ _ _ _ := Iff.rfl

theorem logicalKeys_nodup {keysPrefix : JsString} {listed : List JsString}
    (h : listed.Nodup) : ((prefixed keysPrefix).logicalKeys listed).Nodup := by
  unfold CacheStore.logicalKeys
  split
  · exact h
  · apply List.Nodup.map_on _ (List.Nodup.filter _ h)
    intro first hfirst second hsecond hstrip
    rcases List.isPrefixOf_iff_prefix.mp (List.mem_filter.mp hfirst).right
      with ⟨rest, rfl⟩
    rcases List.isPrefixOf_iff_prefix.mp (List.mem_filter.mp hsecond).right
      with ⟨rest', rfl⟩
    have hrest : (keysPrefix ++ rest).drop keysPrefix.length =
        (keysPrefix ++ rest').drop keysPrefix.length := hstrip
    rw [List.drop_left, List.drop_left] at hrest
    rw [hrest]

namespace SharedRegExps

variable {ι : Type} [DecidableEq ι] {object : ι -> RegExp}

/--
The purge removes the entries under the keys that an expression matches from
its start and no others, and it is answered for exactly these keys when they
are asked afterwards with the generation before it.
-/
def ClearsExactly (object : ι -> RegExp) (listing : Listing)
    (keysPrefix : JsString) (regExps : List ι) (s : State ι Keyspace) : Prop :=
  let after := (clearByRegexp object (prefixed keysPrefix) listing.provider
    regExps s).2
  (forall key, anyFromStart object regExps key = true ->
    after.held.lookup (keysPrefix ++ key) = none) ∧
  (forall stored,
    (forall key, stored = keysPrefix ++ key ->
      anyFromStart object regExps key = false) ->
    after.held.lookup stored = s.held.lookup stored) ∧
  forall asked : List JsString,
    (purgedSinceAll object s.generation asked after).1 =
      asked.map (anyFromStart object regExps)

/-- The logical keys in the order in which the purge tests them. -/
def testedKeys (listing : Listing) (keysPrefix : JsString)
    (held : Keyspace) : List JsString :=
  (prefixed keysPrefix).logicalKeys (listing.list keysPrefix held)

theorem mem_testedKeys {listing : Listing} {keysPrefix : JsString}
    {held : Keyspace} {key : JsString} :
    key ∈ testedKeys listing keysPrefix held <->
      keysPrefix ++ key ∈ held.keys := by
  rw [← listing.mem keysPrefix held _ (List.prefix_append keysPrefix key)]
  exact mem_logicalKeys

section Purge

variable {listing : Listing} {keysPrefix : JsString} {regExps : List ι}
  {s : State ι Keyspace}

def taken (object : ι -> RegExp) (listing : Listing) (keysPrefix : JsString)
    (regExps : List ι) (lastIndex : LastIndex ι) (held : Keyspace) :
    List JsString :=
  (filterMatches object regExps (testedKeys listing keysPrefix held)
    lastIndex).1

theorem clearByRegexp_held :
    (clearByRegexp object (prefixed keysPrefix) listing.provider regExps
      s).2.held =
        ((prefixed keysPrefix).delMany keyspace
          (taken object listing keysPrefix regExps s.lastIndex s.held)
            { log := PurgeLog.init, held := s.held }).2.held :=
  rfl

theorem clearByRegexp_lastIndex :
    (clearByRegexp object (prefixed keysPrefix) listing.provider regExps
      s).2.lastIndex =
        (answers object regExps (testedKeys listing keysPrefix s.held)
          s.lastIndex).2 := by
  rw [← filterMatches_indices]
  rfl

theorem clearByRegexp_removed (key : JsString) :
    (clearByRegexp object (prefixed keysPrefix) listing.provider regExps
      s).2.held.lookup (keysPrefix ++ key) =
        if key ∈ taken object listing keysPrefix regExps s.lastIndex s.held then
          none
        else s.held.lookup (keysPrefix ++ key) := by
  rw [clearByRegexp_held, delMany_lookup]

theorem clearByRegexp_kept {stored : JsString}
    (h : ¬ keysPrefix <+: stored) :
    (clearByRegexp object (prefixed keysPrefix) listing.provider regExps
      s).2.held.lookup stored = s.held.lookup stored := by
  rw [clearByRegexp_held, delMany_frame h]

theorem removes_iff :
    ((forall key, anyFromStart object regExps key = true ->
      (clearByRegexp object (prefixed keysPrefix) listing.provider regExps
        s).2.held.lookup (keysPrefix ++ key) = none) ∧
    (forall stored,
      (forall key, stored = keysPrefix ++ key ->
        anyFromStart object regExps key = false) ->
      (clearByRegexp object (prefixed keysPrefix) listing.provider regExps
        s).2.held.lookup stored = s.held.lookup stored)) <->
    Unaffected object regExps (testedKeys listing keysPrefix s.held)
      s.lastIndex := by
  have hnodup : (testedKeys listing keysPrefix s.held).Nodup :=
    logicalKeys_nodup (listing.nodup keysPrefix s.held)
  rw [← filterMatches_exact_iff hnodup]
  constructor
  · intro h key hkey
    have hremoved := @clearByRegexp_removed ι _ object listing keysPrefix regExps
      s key
    have hheld : s.held.lookup (keysPrefix ++ key) ≠ none := by
      intro hnone
      exact AList.lookup_eq_none.mp hnone
        (AList.mem_keys.mpr (mem_testedKeys.mp hkey))
    show key ∈ taken object listing keysPrefix regExps s.lastIndex s.held <-> _
    constructor
    · intro htaken
      rw [if_pos htaken] at hremoved
      cases hany : anyFromStart object regExps key with
      | true => rfl
      | false =>
          have hsame := h.right (keysPrefix ++ key) (fun other hother => by
            rw [← List.append_cancel_left hother]
            exact hany)
          rw [hremoved] at hsame
          exact absurd hsame.symm hheld
    · intro hany
      by_contra htaken
      have hnone := h.left key hany
      rw [hremoved, if_neg htaken] at hnone
      exact hheld hnone
  · intro h
    constructor
    · intro key hany
      rw [clearByRegexp_removed]
      split
      · rfl
      · rename_i htaken
        apply AList.lookup_eq_none.mpr
        intro hmem
        have hkey : key ∈ testedKeys listing keysPrefix s.held :=
          mem_testedKeys.mpr (AList.mem_keys.mp hmem)
        exact htaken ((h key hkey).mpr hany)
    · intro stored hnone
      by_cases hbegins : keysPrefix <+: stored
      · rcases hbegins with ⟨key, rfl⟩
        rw [clearByRegexp_removed, if_neg]
        intro htaken
        have hany := (h key (mem_of_mem_filterMatches htaken)).mp htaken
        rw [hnone key rfl] at hany
        exact absurd hany Bool.false_ne_true
      · exact clearByRegexp_kept hbegins

theorem purgedSinceAll_eq {recorded : List (Recorded ι)} (asked : List JsString)
    {s : State ι Keyspace}
    (hkeeps : BoundedLog.Keeps PURGE_LOG_SIZE s.log
      (recorded ++ [some regExps])) :
    (purgedSinceAll object recorded.length asked s).1 =
      (answers object regExps asked s.lastIndex).1 := by
  induction asked generalizing s with
  | nil => rfl
  | cons key rest ih =>
      have hanswer : purgedSince object recorded.length key s =
          ((someMatches object regExps key s.lastIndex).1,
            { s with
              lastIndex := (someMatches object regExps key s.lastIndex).2 }) := by
        rcases @purgedSince_cases ι Keyspace _ object _ _ key _ hkeeps with
          ⟨hnone, _⟩ | ⟨hmany, _⟩ | ⟨_, hanswer⟩
        · exact absurd hnone (by simp)
        · exact absurd hmany (Nat.not_lt_of_le
            (show 1 <= PURGE_LOG_SIZE by decide))
        · have hscan : scanItems object key [some regExps].reverse s.lastIndex =
              someMatches object regExps key s.lastIndex := by
            show (if (someMatches object regExps key s.lastIndex).1 = true then
              (true, (someMatches object regExps key s.lastIndex).2) else
              (false, (someMatches object regExps key s.lastIndex).2)) = _
            cases hfirst : someMatches object regExps key s.lastIndex with
            | mk found indices => cases found <;> rfl
          rw [hanswer, hscan]
      rw [purgedSinceAll, answers, hanswer]
      show _ :: (purgedSinceAll object recorded.length rest
        { s with lastIndex := (someMatches object regExps key s.lastIndex).2 }).1 = _
      rw [@ih { s with lastIndex :=
        (someMatches object regExps key s.lastIndex).2 } hkeeps]

/-- A purge is exact if and only if no test of it or behind it is affected. -/
theorem clearsExactly_unaffected {recorded : List (Recorded ι)}
    (hkeeps : BoundedLog.Keeps PURGE_LOG_SIZE s.log recorded) :
    ClearsExactly object listing keysPrefix regExps s <->
      forall asked, Unaffected object regExps
        (testedKeys listing keysPrefix s.held ++ asked) s.lastIndex := by
  have hlog : BoundedLog.Keeps PURGE_LOG_SIZE
      (clearByRegexp object (prefixed keysPrefix) listing.provider regExps s).2.log
        (recorded ++ [some regExps]) := by
    rw [clearByRegexp_log]
    exact BoundedLog.keeps_push hkeeps (some regExps)
  have hasked : forall asked,
      (purgedSinceAll object s.generation asked
        (clearByRegexp object (prefixed keysPrefix) listing.provider regExps
          s).2).1 = asked.map (anyFromStart object regExps) <->
        Unaffected object regExps asked
          (answers object regExps (testedKeys listing keysPrefix s.held)
            s.lastIndex).2 := by
    intro asked
    rw [show s.generation = recorded.length from hkeeps.count,
      purgedSinceAll_eq asked hlog, clearByRegexp_lastIndex]
    exact Iff.rfl
  have hremoves := @removes_iff ι _ object listing keysPrefix regExps s
  simp only [unaffected_append]
  constructor
  · intro h asked
    exact ⟨hremoves.mp ⟨h.left, h.right.left⟩, (hasked asked).mp (h.right.right asked)⟩
  · intro h
    have hlisted := hremoves.mpr (h []).left
    exact ⟨hlisted.left, hlisted.right, fun asked => (hasked asked).mpr (h asked).right⟩

theorem ClearsExactly.never {recorded : List (Recorded ι)}
    (hkeeps : BoundedLog.Keeps PURGE_LOG_SIZE s.log recorded)
    (h : ClearsExactly object listing keysPrefix regExps s) :
    NeverAffected object regExps
      (answers object regExps (testedKeys listing keysPrefix s.held)
        s.lastIndex).2 := by
  intro asked
  have hall := (clearsExactly_unaffected hkeeps).mp h asked
  exact ((unaffected_append regExps _ asked s.lastIndex).mp hall).right

end Purge

/-- The keys of the purge do not hide where the expression begins: there are none,
or it begins at the start and is tested on the empty key. -/
def BeginsInSight (object : ι -> RegExp) (regExps : List ι) (id : ι)
    (tested : List JsString) (lastIndex : LastIndex ι) : Prop :=
  tested = [] ∨ (lastIndex id = 0 ∧ Reaches object regExps id [])

/--
In every state of the store a purge is exact if from every index at which the
tests can begin a key is matched exactly when it is from the start; and only
then, where one of the expressions has a flag.
-/
theorem clearsExactly_when_beginsAlike (object : ι -> RegExp) (listing : Listing)
    (keysPrefix : JsString) (regExps : List ι)
    (calls : List (Call ι Keyspace)) (held : Keyspace) (lastIndex : LastIndex ι) :
    let s := runAll object (prefixed keysPrefix) listing.provider calls
      (created held lastIndex)
    (BeginsAlike object regExps s.lastIndex ->
      ClearsExactly object listing keysPrefix regExps s) ∧
    forall id, Alone object regExps id ->
      BeginsInSight object regExps id (testedKeys listing keysPrefix s.held)
        s.lastIndex ->
      (ClearsExactly object listing keysPrefix regExps s <->
        BeginsAlike object regExps s.lastIndex) := by
  intro s
  have hkeeps := @keeps_created ι Keyspace _ object (prefixed keysPrefix)
    listing.provider held lastIndex calls
  have hwhen : BeginsAlike object regExps s.lastIndex ->
      ClearsExactly object listing keysPrefix regExps s := by
    intro h
    exact (clearsExactly_unaffected hkeeps).mpr
      (fun asked => unaffected_of_beginsAlike h _)
  refine ⟨hwhen, fun id halone hsight => ⟨fun hexact => ?_, hwhen⟩⟩
  have hnever := hexact.never hkeeps
  rcases hsight with hnothing | ⟨hzero, hreaches⟩
  · rw [hnothing] at hnever
    exact beginsAlike_of_neverAffected halone rfl hnever
  · rcases hnever.back halone hreaches with ⟨reached, hreached, hfrom⟩
    exact beginsAlike_of_neverAffected halone (hreached.trans hzero.symm) hfrom

def globalA : RegExp :=
  RegExp.ofPattern true false
    (Pattern.seq Pattern.start
      (Pattern.seq (Pattern.char (fun c => c = '/'))
        (Pattern.char (fun c => c = 'a'))))

def twoEntries : Keyspace :=
  (AList.singleton "/a2".toList "2".toList).insert "/a1".toList "1".toList

/-- The test of the second key begins where the match in the first one ended. -/
theorem not_clearsExactly_global :
    ¬ ClearsExactly (fun _ : Unit => globalA) Listing.inOrder [] [()]
        (created twoEntries (fun _ => 0)) := by
  intro h
  have hremoved := h.left "/a2".toList (by decide)
  have hkept : (clearByRegexp (fun _ : Unit => globalA) (prefixed [])
      Listing.inOrder.provider [()]
        (created twoEntries (fun _ => 0))).2.held.lookup
          ([] ++ "/a2".toList) = some "2".toList := by
    decide +kernel
  rw [hkept] at hremoved
  exact absurd hremoved (by simp)

def globalAndPlain (global : Bool) : RegExp :=
  RegExp.ofPattern global false (Pattern.char (fun c => c = 'a'))

theorem clearsExactly_globalAndPlain :
    ClearsExactly globalAndPlain Listing.inOrder [] [true, false]
      (created twoEntries (fun _ => 0)) := by
  refine (clearsExactly_when_beginsAlike globalAndPlain Listing.inOrder []
    [true, false] [] twoEntries (fun _ => 0)).left ?_
  apply beginsAlike_covered
  · exact fun _ _ => rfl
  · intro global _ text hmatch
    refine ⟨false, by simp, rfl, ?_⟩
    unfold globalAndPlain at hmatch ⊢
    rw [RegExp.matchesFromStart_ofPattern] at hmatch ⊢
    exact hmatch

end SharedRegExps

end Store
end RestCache
