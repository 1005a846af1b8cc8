import Mathlib.Data.List.Duplicate
import Mathlib.Logic.Function.Basic
import RestCache.Foundation.RegExp

/-!
# Regular expression objects

`RegExp.prototype.test` on objects that are shared by reference.  The global and
the sticky flag make a test begin at the `lastIndex` that the test before it
left, so that an answer may depend on the tests made before.
-/

namespace RestCache
namespace Foundation

/-- The two flags that matter to a test, and where a match that begins at an
index ends. -/
structure RegExp where
  global : Bool
  sticky : Bool
  matchAt : JsString -> Nat -> Option Nat

namespace RegExp

def stateful (r : RegExp) : Bool :=
  r.global || r.sticky

def find (r : RegExp) (text : JsString) (index : Nat) : Option Nat :=
  if text.length < index then none
  else if r.sticky then r.matchAt text index
  else (List.range' index (text.length + 1 - index)).findSome? (r.matchAt text)

def test (r : RegExp) (text : JsString) (lastIndex : Nat) : Bool × Nat :=
  match r.find text (if r.stateful then lastIndex else 0) with
  | some stop => (true, if r.stateful then stop else lastIndex)
  | none => (false, if r.stateful then 0 else lastIndex)

def matchesFromStart (r : RegExp) (text : JsString) : Bool :=
  (r.find text 0).isSome

/-- A match is found where a test with this `lastIndex` looks for one. -/
def finds (r : RegExp) (text : JsString) (lastIndex : Nat) : Bool :=
  (r.find text (if r.stateful then lastIndex else 0)).isSome

theorem finds_stateless {r : RegExp} (h : r.stateful = false) (text : JsString)
    (lastIndex : Nat) : r.finds text lastIndex = r.matchesFromStart text := by
  unfold finds matchesFromStart
  rw [h]
  rfl

theorem test_fst (r : RegExp) (text : JsString) (lastIndex : Nat) :
    (r.test text lastIndex).1 = r.finds text lastIndex := by
  unfold test finds
  cases r.find text (if r.stateful then lastIndex else 0) <;> rfl

theorem finds_after_failure {r : RegExp} {text : JsString} {lastIndex : Nat}
    (h : r.finds text lastIndex = false) (other : JsString) :
    r.finds other (r.test text lastIndex).2 = r.matchesFromStart other := by
  cases hstateful : r.stateful with
  | false => exact finds_stateless hstateful other _
  | true =>
      unfold finds at h
      unfold test
      cases hfind : r.find text (if r.stateful then lastIndex else 0) with
      | none => simp [finds, matchesFromStart, hstateful]
      | some stop =>
          rw [hfind] at h
          exact absurd h (by simp)

theorem find_search {r : RegExp} (h : r.sticky = false) (text : JsString)
    (index : Nat) :
    (r.find text index).isSome = true <->
      exists first, index <= first ∧ first <= text.length ∧
        (r.matchAt text first).isSome = true := by
  unfold find
  rw [h]
  split
  · rename_i hbehind
    apply iff_of_false (by simp)
    rintro ⟨first, hfirst, hend, _⟩
    omega
  · rename_i hinside
    rw [if_neg Bool.false_ne_true, List.findSome?_isSome_iff]
    constructor
    · rintro ⟨first, hfirst, hmatch⟩
      rw [List.mem_range'_1] at hfirst
      exact ⟨first, hfirst.left, by omega, hmatch⟩
    · rintro ⟨first, hfirst, hend, hmatch⟩
      refine ⟨first, ?_, hmatch⟩
      rw [List.mem_range'_1]
      omega

theorem matchesFromStart_of_finds {r : RegExp} (h : r.sticky = false)
    {text : JsString} {lastIndex : Nat} (hfinds : r.finds text lastIndex = true) :
    r.matchesFromStart text = true := by
  rcases (find_search h text _).mp hfinds with ⟨first, _, hend, hmatch⟩
  exact (find_search h text 0).mpr ⟨first, Nat.zero_le first, hend, hmatch⟩

theorem finds_behind_end {r : RegExp} (h : r.stateful = true) {text : JsString}
    {lastIndex : Nat} (hend : text.length < lastIndex) :
    r.finds text lastIndex = false := by
  unfold finds find
  rw [h, if_pos rfl, if_pos hend]
  rfl

/-- The `lastIndex` that tests of such texts can leave. -/
inductive Left (r : RegExp) (texts : JsString -> Prop) (start : Nat) :
    Nat -> Prop where
  | start : Left r texts start start
  | test {lastIndex : Nat} {text : JsString} (h : Left r texts start lastIndex)
      (htext : texts text) : Left r texts start (r.test text lastIndex).2

theorem test_stateless {r : RegExp} (h : r.stateful = false) (text : JsString)
    (lastIndex : Nat) :
    r.test text lastIndex = (r.matchesFromStart text, lastIndex) := by
  unfold test matchesFromStart
  rw [h]
  simp only [Bool.false_eq_true, if_false]
  cases r.find text 0 <;> rfl

def ofPattern (global sticky : Bool) (p : Pattern) : RegExp where
  global := global
  sticky := sticky
  matchAt text index :=
    (p.ends (text.take index) (text.drop index)).head?.map
      (fun z => z.1.length)

theorem matchAt_isSome (global sticky : Bool) (p : Pattern)
    (before after : JsString) :
    ((ofPattern global sticky p).matchAt (before ++ after)
      before.length).isSome = !(p.ends before after).isEmpty := by
  show ((p.ends ((before ++ after).take before.length)
    ((before ++ after).drop before.length)).head?.map _).isSome = _
  rw [List.take_left, List.drop_left]
  cases p.ends before after <;> rfl

theorem search_eq (global sticky : Bool) (p : Pattern)
    (before after : JsString) :
    ((List.range' before.length (after.length + 1)).findSome?
      ((ofPattern global sticky p).matchAt (before ++ after))).isSome =
        p.search before after := by
  induction after generalizing before with
  | nil =>
      rw [List.length_nil, List.range'_succ, List.range'_zero,
        List.findSome?_cons, Pattern.search, ← matchAt_isSome global sticky p]
      cases (ofPattern global sticky p).matchAt (before ++ [])
        before.length <;> rfl
  | cons c rest ih =>
      have hrest := ih (before ++ [c])
      rw [List.append_assoc, List.singleton_append, List.length_append,
        List.length_singleton] at hrest
      rw [List.length_cons, List.range'_succ, List.findSome?_cons,
        Pattern.search, ← matchAt_isSome global sticky p, ← hrest]
      cases (ofPattern global sticky p).matchAt (before ++ c :: rest)
        before.length <;> rfl

theorem matchesFromStart_ofPattern (global : Bool) (p : Pattern)
    (text : JsString) :
    (ofPattern global false p).matchesFromStart text = p.test text := by
  have hsearch := search_eq global false p [] text
  rw [List.nil_append] at hsearch
  unfold matchesFromStart find Pattern.test
  rw [if_neg (Nat.not_lt_zero _), if_neg (show ¬ (ofPattern global false p).sticky =
    true from Bool.false_ne_true)]
  exact hsearch

end RegExp

/-!
## Tests of shared objects

The expressions are given by reference; `ι` are the identities of the objects.
-/

abbrev LastIndex (ι : Type _) := ι -> Nat

section Objects

variable {ι : Type _} [DecidableEq ι] (object : ι -> RegExp)

def testObject (id : ι) (text : JsString) (indices : LastIndex ι) :
    Bool × LastIndex ι :=
  let z := (object id).test text (indices id)
  (z.1, Function.update indices id z.2)

/-- `regExps.some((r) => r.test(text))`. -/
def someMatches : List ι -> JsString -> LastIndex ι -> Bool × LastIndex ι
  | [], _, indices => (false, indices)
  | id :: rest, text, indices =>
      let z := testObject object id text indices
      if z.1 then (true, z.2) else someMatches rest text z.2

/-- `texts.filter((text) => regExps.some((r) => r.test(text)))`. -/
def filterMatches (regExps : List ι) :
    List JsString -> LastIndex ι -> List JsString × LastIndex ι
  | [], indices => ([], indices)
  | text :: rest, indices =>
      let z := someMatches object regExps text indices
      let y := filterMatches regExps rest z.2
      (if z.1 then text :: y.1 else y.1, y.2)

def answers (regExps : List ι) :
    List JsString -> LastIndex ι -> List Bool × LastIndex ι
  | [], indices => ([], indices)
  | text :: rest, indices =>
      let z := someMatches object regExps text indices
      let y := answers regExps rest z.2
      (z.1 :: y.1, y.2)

def anyFromStart (regExps : List ι) (text : JsString) : Bool :=
  regExps.any (fun id => (object id).matchesFromStart text)

def Stateless (regExps : List ι) : Prop :=
  forall id, id ∈ regExps -> (object id).stateful = false

/-- One of the expressions finds a match.  One that stands twice is tested again
after it has failed, and then from the start. -/
def Found (regExps : List ι) (text : JsString) (indices : LastIndex ι) : Prop :=
  exists id, id ∈ regExps ∧
    ((object id).finds text (indices id) = true ∨
      (List.Duplicate id regExps ∧ (object id).matchesFromStart text = true))

/-- No expression without flags that stands before this one matches the text. -/
def Reaches (regExps : List ι) (id : ι) (text : JsString) : Prop :=
  forall other, other ∈ regExps.takeWhile (fun other => other ≠ id) ->
    (object other).stateful = false ->
      (object other).matchesFromStart text = false

/-- Wherever the tests can begin, a text is matched if and only if it is from the
start. -/
def BeginsAlike (regExps : List ι) (indices : LastIndex ι) : Prop :=
  forall carried : LastIndex ι,
    (forall id, id ∈ regExps -> (object id).Left (Reaches object regExps id)
      (indices id) (carried id)) ->
    forall text, Found object regExps text carried <->
      anyFromStart object regExps text = true

/-- The one expression of the list with a flag, which stands there once. -/
structure Alone (regExps : List ι) (id : ι) : Prop where
  mem : id ∈ regExps
  stateful : (object id).stateful = true
  once : ¬ List.Duplicate id regExps
  others : forall other, other ∈ regExps -> other ≠ id ->
    (object other).stateful = false

/-- No test is answered differently for the tests that were made before it. -/
def Unaffected (regExps : List ι) (texts : List JsString)
    (indices : LastIndex ι) : Prop :=
  (answers object regExps texts indices).1 =
    texts.map (anyFromStart object regExps)

end Objects

section Tests

variable {ι : Type _} [DecidableEq ι] {object : ι -> RegExp}

theorem someMatches_stateless {regExps : List ι}
    (h : Stateless object regExps) (text : JsString) (indices : LastIndex ι) :
    someMatches object regExps text indices =
      (anyFromStart object regExps text, indices) := by
  induction regExps with
  | nil => rfl
  | cons id rest ih =>
      have hrest := ih (fun other hother => h other (List.mem_cons_of_mem id hother))
      have htest : testObject object id text indices =
          ((object id).matchesFromStart text, indices) := by
        unfold testObject
        rw [RegExp.test_stateless (h id List.mem_cons_self)]
        simp only [Function.update_eq_self]
      rw [someMatches, htest, anyFromStart, List.any_cons]
      cases (object id).matchesFromStart text with
      | true => rfl
      | false => exact hrest

theorem answers_append (regExps : List ι) (texts more : List JsString)
    (indices : LastIndex ι) :
    (answers object regExps (texts ++ more) indices).1 =
      (answers object regExps texts indices).1 ++
        (answers object regExps more
          (answers object regExps texts indices).2).1 := by
  induction texts generalizing indices with
  | nil => rfl
  | cons text rest ih =>
      rw [List.cons_append, answers, ih]
      rfl

theorem answers_length (regExps : List ι) (texts : List JsString)
    (indices : LastIndex ι) :
    (answers object regExps texts indices).1.length = texts.length := by
  induction texts generalizing indices with
  | nil => rfl
  | cons text rest ih =>
      rw [answers, List.length_cons, ih, List.length_cons]

theorem unaffected_append (regExps : List ι) (texts more : List JsString)
    (indices : LastIndex ι) :
    Unaffected object regExps (texts ++ more) indices <->
      Unaffected object regExps texts indices ∧
        Unaffected object regExps more
          (answers object regExps texts indices).2 := by
  unfold Unaffected
  rw [answers_append, List.map_append]
  constructor
  · intro h
    apply List.append_inj h
    rw [answers_length, List.length_map]
  · intro h
    rw [h.left, h.right]

theorem filterMatches_indices (regExps : List ι) (texts : List JsString)
    (indices : LastIndex ι) :
    (filterMatches object regExps texts indices).2 =
      (answers object regExps texts indices).2 := by
  induction texts generalizing indices with
  | nil => rfl
  | cons text rest ih => exact ih _

theorem mem_of_mem_filterMatches {regExps : List ι} {texts : List JsString}
    {indices : LastIndex ι} {text : JsString}
    (h : text ∈ (filterMatches object regExps texts indices).1) :
    text ∈ texts := by
  induction texts generalizing indices with
  | nil => exact h
  | cons first rest ih =>
      rw [filterMatches] at h
      simp only at h
      split at h
      · rcases List.mem_cons.mp h with rfl | hrest
        · exact List.mem_cons_self
        · exact List.mem_cons_of_mem first (ih hrest)
      · exact List.mem_cons_of_mem first (ih h)

/--
Among texts that are tested once each, exactly those are taken that match from
their start when no test is affected by those before it.
-/
theorem filterMatches_exact_iff {regExps : List ι} {texts : List JsString}
    (hnodup : texts.Nodup) (indices : LastIndex ι) :
    (forall text, text ∈ texts ->
      (text ∈ (filterMatches object regExps texts indices).1 <->
        anyFromStart object regExps text = true)) <->
      Unaffected object regExps texts indices := by
  induction texts generalizing indices with
  | nil => exact iff_of_true (fun _ h => absurd h List.not_mem_nil) rfl
  | cons first rest ih =>
      rcases List.nodup_cons.mp hnodup with ⟨hfirst, hrest⟩
      let z := someMatches object regExps first indices
      have hhead : first ∈ (filterMatches object regExps (first :: rest)
          indices).1 <-> z.1 = true := by
        have hlater : first ∉ (filterMatches object regExps rest z.2).1 :=
          fun h => hfirst (mem_of_mem_filterMatches h)
        rw [filterMatches]
        show first ∈ (if z.1 = true then
          first :: (filterMatches object regExps rest z.2).1 else
            (filterMatches object regExps rest z.2).1) <-> z.1 = true
        split
        · rename_i hz
          exact iff_of_true List.mem_cons_self hz
        · rename_i hz
          exact iff_of_false hlater hz
      have htail : forall text, text ∈ rest ->
          (text ∈ (filterMatches object regExps (first :: rest) indices).1 <->
            text ∈ (filterMatches object regExps rest z.2).1) := by
        intro text htext
        have hne : text ≠ first := by
          intro heq
          exact hfirst (heq ▸ htext)
        rw [filterMatches]
        show text ∈ (if z.1 = true then
          first :: (filterMatches object regExps rest z.2).1 else
            (filterMatches object regExps rest z.2).1) <-> _
        split
        · rw [List.mem_cons]
          exact or_iff_right hne
        · exact Iff.rfl
      have hunaffected : Unaffected object regExps (first :: rest) indices <->
          (z.1 = true <-> anyFromStart object regExps first = true) ∧
            Unaffected object regExps rest z.2 := by
        unfold Unaffected
        rw [answers, List.map_cons, List.cons.injEq, Bool.eq_iff_iff]
      rw [hunaffected, ← ih hrest z.2, List.forall_mem_cons, hhead]
      constructor
      · intro h
        apply And.intro h.left
        intro text htext
        rw [← htail text htext]
        exact h.right text htext
      · intro h
        apply And.intro h.left
        intro text htext
        rw [htail text htext]
        exact h.right text htext

/-!
## Where the tests begin
-/

theorem someMatches_other {id : ι} {regExps : List ι} (h : id ∉ regExps)
    (text : JsString) (indices : LastIndex ι) :
    (someMatches object regExps text indices).2 id = indices id := by
  induction regExps generalizing indices with
  | nil => rfl
  | cons first rest ih =>
      rw [List.mem_cons, not_or] at h
      have hfirst : (testObject object first text indices).2 id = indices id :=
        Function.update_of_ne h.left _ _
      rw [someMatches]
      split
      · exact hfirst
      · rw [ih h.right, hfirst]

theorem someMatches_iff (regExps : List ι) (text : JsString)
    (indices : LastIndex ι) :
    (someMatches object regExps text indices).1 = true <->
      Found object regExps text indices := by
  induction regExps generalizing indices with
  | nil => simp [someMatches, Found]
  | cons first rest ih =>
      have htest : (testObject object first text indices).1 =
          (object first).finds text (indices first) :=
        RegExp.test_fst _ _ _
      rw [someMatches]
      simp only [htest]
      split
      · rename_i hfound
        exact iff_of_true rfl ⟨first, List.mem_cons_self, Or.inl hfound⟩
      · rename_i hfailed
        have hfails := Bool.eq_false_iff.mpr hfailed
        have hagain : (object first).finds text
            ((testObject object first text indices).2 first) =
              (object first).matchesFromStart text := by
          show (object first).finds text (Function.update indices first _ first) = _
          rw [Function.update_self]
          exact RegExp.finds_after_failure hfails text
        have hsame : forall other, other ≠ first ->
            (testObject object first text indices).2 other = indices other :=
          fun other hother => Function.update_of_ne hother _ _
        rw [ih]
        constructor
        · intro h
          rcases h with ⟨id, hid, hfinds | ⟨htwice, hstart⟩⟩
          · by_cases heq : id = first
            · rw [heq] at hid hfinds
              rw [hagain] at hfinds
              exact ⟨first, List.mem_cons_self,
                Or.inr ⟨List.Mem.duplicate_cons_self hid, hfinds⟩⟩
            · rw [hsame id heq] at hfinds
              exact ⟨id, List.mem_cons_of_mem first hid, Or.inl hfinds⟩
          · exact ⟨id, List.mem_cons_of_mem first hid,
              Or.inr ⟨htwice.duplicate_cons first, hstart⟩⟩
        · intro h
          rcases h with ⟨id, hid, hfinds | ⟨htwice, hstart⟩⟩
          · have hne : id ≠ first := by
              intro heq
              rw [heq] at hfinds
              exact hfailed hfinds
            refine ⟨id, (List.mem_cons.mp hid).resolve_left hne, Or.inl ?_⟩
            rw [hsame id hne]
            exact hfinds
          · rcases List.duplicate_cons_iff.mp htwice with ⟨rfl, hrest⟩ | hrest
            · refine ⟨first, hrest, Or.inl ?_⟩
              rw [hagain]
              exact hstart
            · exact ⟨id, hrest.mem, Or.inr ⟨hrest, hstart⟩⟩

theorem someMatches_left {done rest : List ι} {text : JsString}
    {start indices : LastIndex ι}
    (hdone : forall other, other ∈ done -> (object other).stateful = false ->
      (object other).matchesFromStart text = false)
    (h : forall id, (object id).Left (Reaches object (done ++ rest) id)
      (start id) (indices id)) (id : ι) :
    (object id).Left (Reaches object (done ++ rest) id) (start id)
      ((someMatches object rest text indices).2 id) := by
  induction rest generalizing done indices with
  | nil => exact h id
  | cons first rest ih =>
      have hreaches : Reaches object (done ++ first :: rest) first text := by
        intro other hother
        apply hdone other
        rw [List.takeWhile_append] at hother
        split at hother
        · rw [List.takeWhile_cons_of_neg (by simp), List.append_nil] at hother
          exact hother
        · exact (List.takeWhile_prefix _).subset hother
      have hnext : forall id, (object id).Left
          (Reaches object (done ++ first :: rest) id) (start id)
            ((testObject object first text indices).2 id) := by
        intro id
        by_cases heq : id = first
        · rw [heq]
          show (object first).Left _ _ (Function.update indices first _ first)
          rw [Function.update_self]
          exact RegExp.Left.test (h first) hreaches
        · show (object id).Left _ _ (Function.update indices first _ id)
          rw [Function.update_of_ne heq]
          exact h id
      rw [someMatches]
      split
      · exact hnext id
      · rename_i hfailed
        have hsplit : done ++ first :: rest = (done ++ [first]) ++ rest := by
          rw [List.append_assoc, List.singleton_append]
        have hfails : forall other, other ∈ done ++ [first] ->
            (object other).stateful = false ->
              (object other).matchesFromStart text = false := by
          intro other hother hstateless
          rcases List.mem_append.mp hother with hbefore | hlast
          · exact hdone other hbefore hstateless
          · rw [List.mem_singleton.mp hlast] at hstateless ⊢
            rw [← RegExp.finds_stateless hstateless text (indices first),
              ← RegExp.test_fst]
            exact Bool.eq_false_iff.mpr hfailed
        rw [hsplit] at hnext ⊢
        exact ih hfails hnext

/-- Where no beginning makes a difference, no test is affected. -/
theorem unaffected_of_beginsAlike {regExps : List ι} {start : LastIndex ι}
    (h : BeginsAlike object regExps start) (texts : List JsString) :
    Unaffected object regExps texts start := by
  have hfrom : forall indices : LastIndex ι,
      (forall id, (object id).Left (Reaches object regExps id) (start id)
        (indices id)) -> Unaffected object regExps texts indices := by
    induction texts with
    | nil => exact fun _ _ => rfl
    | cons text rest ih =>
        intro indices hindices
        have hfirst := (someMatches_iff regExps text indices).trans
          (h indices (fun id _ => hindices id) text)
        have hnext := @someMatches_left ι _ object [] regExps text start indices
          (fun _ hmem => absurd hmem List.not_mem_nil) hindices
        have hrest := ih (someMatches object regExps text indices).2 hnext
        unfold Unaffected at hrest ⊢
        rw [answers, List.map_cons, ← Bool.eq_iff_iff.mpr hfirst]
        exact congrArg _ hrest
  exact hfrom start (fun _ => RegExp.Left.start)

theorem beginsAlike_covered {regExps : List ι}
    (hsearch : forall id, id ∈ regExps -> (object id).sticky = false)
    (hcovered : forall id, id ∈ regExps -> forall text,
      (object id).matchesFromStart text = true ->
        exists other, other ∈ regExps ∧ (object other).stateful = false ∧
          (object other).matchesFromStart text = true)
    (indices : LastIndex ι) : BeginsAlike object regExps indices := by
  intro carried _ text
  unfold anyFromStart
  rw [List.any_eq_true]
  constructor
  · rintro ⟨id, hid, hfinds | ⟨_, hstart⟩⟩
    · exact ⟨id, hid, RegExp.matchesFromStart_of_finds (hsearch id hid) hfinds⟩
    · exact ⟨id, hid, hstart⟩
  · rintro ⟨id, hid, hstart⟩
    rcases hcovered id hid text hstart with ⟨other, hother, hplain, hmatch⟩
    refine ⟨other, hother, Or.inl ?_⟩
    rw [RegExp.finds_stateless hplain]
    exact hmatch

/-!
## One expression with a flag
-/

theorem someMatches_alone {regExps : List ι} {id : ι}
    (h : Alone object regExps id) {text : JsString}
    (hreaches : Reaches object regExps id text) (indices : LastIndex ι) :
    (someMatches object regExps text indices).2 id =
      ((object id).test text (indices id)).2 := by
  induction regExps with
  | nil => exact absurd h.mem List.not_mem_nil
  | cons first rest ih =>
      rw [someMatches]
      by_cases heq : first = id
      · have hrest : id ∉ rest := by
          intro hmem
          rw [heq] at h
          exact h.once (List.Mem.duplicate_cons_self hmem)
        have hfirst : (testObject object first text indices).2 id =
            ((object id).test text (indices id)).2 := by
          rw [heq]
          exact Function.update_self _ _ _
        split
        · exact hfirst
        · rw [someMatches_other hrest]
          exact hfirst
      · have hbefore : first ∈ (first :: rest).takeWhile
            (fun other => other ≠ id) := by
          rw [List.takeWhile_cons_of_pos (by simpa using heq)]
          exact List.mem_cons_self
        have hstateless := h.others first List.mem_cons_self heq
        have htest : testObject object first text indices =
            ((object first).matchesFromStart text, indices) := by
          unfold testObject
          rw [RegExp.test_stateless hstateless]
          simp only [Function.update_eq_self]
        rw [htest, hreaches first hbefore hstateless]
        simp only [Bool.false_eq_true, if_false]
        refine ih ⟨(List.mem_cons.mp h.mem).resolve_left (Ne.symm heq),
          h.stateful, fun htwice => h.once (htwice.duplicate_cons first),
          fun other hother => h.others other (List.mem_cons_of_mem first hother)⟩ ?_
        intro other hother
        apply hreaches other
        rw [List.takeWhile_cons_of_pos (by simpa using heq)]
        exact List.mem_cons_of_mem first hother

/-- No sequence of tests from here on is answered differently from the start. -/
def NeverAffected (object : ι -> RegExp) (regExps : List ι)
    (indices : LastIndex ι) : Prop :=
  forall texts, Unaffected object regExps texts indices

theorem NeverAffected.next {regExps : List ι} {indices : LastIndex ι}
    (h : NeverAffected object regExps indices) (text : JsString) :
    ((someMatches object regExps text indices).1 = true <->
      anyFromStart object regExps text = true) ∧
    NeverAffected object regExps (someMatches object regExps text indices).2 := by
  have hcons : forall rest,
      (someMatches object regExps text indices).1 =
        anyFromStart object regExps text ∧
      Unaffected object regExps rest
        (someMatches object regExps text indices).2 := by
    intro rest
    have htexts := h (text :: rest)
    unfold Unaffected at htexts ⊢
    rw [answers, List.map_cons] at htexts
    exact List.cons.inj htexts
  exact ⟨Bool.eq_iff_iff.mp (hcons []).left, fun rest => (hcons rest).right⟩

/-- Tests lead to every beginning that the expression can be left at. -/
theorem NeverAffected.reach {regExps : List ι} {id : ι}
    (halone : Alone object regExps id) {indices : LastIndex ι}
    (h : NeverAffected object regExps indices) {lastIndex : Nat}
    (hleft : (object id).Left (Reaches object regExps id) (indices id) lastIndex) :
    exists reached : LastIndex ι,
      reached id = lastIndex ∧ NeverAffected object regExps reached := by
  induction hleft with
  | start => exact ⟨indices, rfl, h⟩
  | @test before text _ htext ih =>
      rcases ih with ⟨reached, rfl, hreached⟩
      exact ⟨(someMatches object regExps text reached).2,
        someMatches_alone halone htext reached, (hreached.next text).right⟩

theorem found_congr {regExps : List ι} {id : ι} (h : Alone object regExps id)
    {indices carried : LastIndex ι} (hsame : indices id = carried id)
    (text : JsString) :
    Found object regExps text indices <-> Found object regExps text carried := by
  have hfinds : forall other, other ∈ regExps ->
      (object other).finds text (indices other) =
        (object other).finds text (carried other) := by
    intro other hother
    by_cases heq : other = id
    · rw [heq, hsame]
    · have hstateless := h.others other hother heq
      rw [RegExp.finds_stateless hstateless, RegExp.finds_stateless hstateless]
  constructor
  · rintro ⟨other, hother, hor⟩
    rw [hfinds other hother] at hor
    exact ⟨other, hother, hor⟩
  · rintro ⟨other, hother, hor⟩
    rw [← hfinds other hother] at hor
    exact ⟨other, hother, hor⟩

theorem beginsAlike_of_neverAffected {regExps : List ι} {id : ι}
    (halone : Alone object regExps id) {start indices : LastIndex ι}
    (hsame : indices id = start id)
    (h : NeverAffected object regExps indices) :
    BeginsAlike object regExps start := by
  intro carried hcarried text
  have hleft := hcarried id halone.mem
  rw [← hsame] at hleft
  rcases h.reach halone hleft with ⟨reached, hreached, hnever⟩
  rw [← found_congr halone hreached, ← someMatches_iff]
  exact (hnever.next text).left

theorem NeverAffected.back {regExps : List ι} {id : ι}
    (halone : Alone object regExps id) {indices : LastIndex ι}
    (h : NeverAffected object regExps indices)
    (hreaches : Reaches object regExps id []) :
    exists reached : LastIndex ι,
      reached id = 0 ∧ NeverAffected object regExps reached := by
  cases hindex : indices id with
  | zero => exact ⟨indices, hindex, h⟩
  | succ n =>
      refine ⟨(someMatches object regExps [] indices).2, ?_, (h.next []).right⟩
      have hfails : (object id).find [] (indices id) = none := by
        have hnone := @RegExp.finds_behind_end (object id) halone.stateful []
          (indices id) (by rw [hindex]; exact Nat.succ_pos n)
        unfold RegExp.finds at hnone
        rw [halone.stateful, if_pos rfl] at hnone
        exact Option.isNone_iff_eq_none.mp (by simpa using hnone)
      rw [someMatches_alone halone hreaches]
      unfold RegExp.test
      rw [halone.stateful, if_pos rfl, hfails]
      rfl

end Tests

end Foundation
end RestCache
