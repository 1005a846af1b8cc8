import Mathlib.Data.List.AList
import Mathlib.Data.Set.Finite.Basic
import RestCache.Foundation.DepthFirst
import RestCache.Strategy.Config

/-!
# Freezing the resolved strategy

The resolved strategy is frozen with everything that can be reached from it
before user code sees it.  The freezing follows every own property that holds an
object, keeps no record of where it has been, and leaves functions alone.
-/

namespace RestCache
namespace Strategy

open Foundation
open DepthFirst

abbrev Ref := Nat

/-- What a property holds; `typeof` tells functions from objects. -/
inductive HeapValue (Primitive : Type _) where
  | primitive (value : Primitive)
  | function (ref : Ref)
  | object (ref : Ref)
deriving DecidableEq

/-- An object, or a function: its own properties, and what it inherits from. -/
structure HeapObject (Primitive : Type _) where
  props : AList (fun _ : JsString => HeapValue Primitive)
  prototype : Option Ref
  frozen : Bool

abbrev Heap (Primitive : Type _) := Ref -> HeapObject Primitive

section DeepFreeze

variable {Primitive : Type _}

def getOwnPropertyNames (heap : Heap Primitive) (object : Ref) : List JsString :=
  (heap object).props.keys

def freeze (object : Ref) (heap : Heap Primitive) : Heap Primitive :=
  Function.update heap object { heap object with frozen := true }

def objectAt (heap : Heap Primitive) (object : Ref) (name : JsString) :
    Option Ref :=
  match (heap object).props.lookup name with
  | some (HeapValue.object value) => some value
  | _ => none

def freezeProperty (deepFreeze : Ref -> Heap Primitive -> Option (Heap Primitive))
    (object : Ref) (heap : Heap Primitive) (name : JsString) :
    Option (Heap Primitive) :=
  match objectAt heap object name with
  | some value => deepFreeze value heap
  | none => some heap

/-- The first argument is the depth of the calls that the stack has room for. -/
def deepFreeze : Nat -> Ref -> Heap Primitive -> Option (Heap Primitive)
  | 0, _, _ => none
  | depth + 1, object, heap =>
      ((getOwnPropertyNames heap object).foldlM
        (freezeProperty (deepFreeze depth) object) heap).map (freeze object)

/-!
## The visits of a freezing
-/

def objectsBelow (heap : Heap Primitive) (object : Ref) : List Ref :=
  (getOwnPropertyNames heap object).filterMap (objectAt heap object)

def freezeAll (heap : Heap Primitive) (objects : List Ref) : Heap Primitive :=
  objects.foldl (fun heap object => freeze object heap) heap

def SameProps (heap other : Heap Primitive) : Prop :=
  forall ref, (other ref).props = (heap ref).props

variable {heap after other : Heap Primitive} {object ref : Ref} {depth : Nat}

theorem freezeAll_append (objects more : List Ref) :
    freezeAll heap (objects ++ more) = freezeAll (freezeAll heap objects) more :=
  List.foldl_append

theorem freeze_apply (object ref : Ref) :
    freeze object heap ref =
      { heap ref with frozen := (heap ref).frozen || ref = object } := by
  rw [freeze, Function.update_apply]
  split
  · rename_i h
    rw [h, decide_eq_true rfl, Bool.or_true]
  · rename_i h
    rw [decide_eq_false h, Bool.or_false]

theorem freezeAll_apply (objects : List Ref) (ref : Ref) :
    freezeAll heap objects ref =
      { heap ref with frozen := (heap ref).frozen || ref ∈ objects } := by
  induction objects generalizing heap with
  | nil => simp [freezeAll]
  | cons object rest ih =>
      show freezeAll (freeze object heap) rest ref = _
      rw [ih, freeze_apply]
      simp [Bool.or_assoc]

theorem sameProps_freezeAll (objects : List Ref) :
    SameProps heap (freezeAll heap objects) := by
  intro ref
  rw [freezeAll_apply]

theorem objectAt_of_sameProps (h : SameProps heap other) :
    objectAt other = objectAt heap := by
  funext object name
  rw [objectAt, objectAt, h object]

theorem objectsBelow_of_sameProps (h : SameProps heap other) :
    objectsBelow other = objectsBelow heap := by
  funext object
  rw [objectsBelow, objectsBelow, getOwnPropertyNames, getOwnPropertyNames,
    h object, objectAt_of_sameProps h]

/-- The freezing of an object freezes what a visit of it visits. -/
theorem deepFreeze_eq (depth : Nat) (object : Ref) (heap : Heap Primitive) :
    deepFreeze depth object heap =
      (postorder (objectsBelow heap) depth object).map (freezeAll heap) := by
  induction depth generalizing object heap with
  | zero => rfl
  | succ depth ih =>
      -- the properties are read while objects below the others get frozen
      have hloop : forall (names : List JsString) (now : Heap Primitive),
          SameProps heap now ->
          names.foldlM (freezeProperty (deepFreeze depth) object) now =
          ((names.filterMap (objectAt heap object)).mapM
            (postorder (objectsBelow heap) depth)).map
              (fun parts => freezeAll now parts.flatten) := by
        intro names
        induction names with
        | nil =>
            intro now _
            rfl
        | cons name rest ihrest =>
            intro now hnow
            rw [List.foldlM_cons, freezeProperty, objectAt_of_sameProps hnow]
            cases hname : objectAt heap object name with
            | none =>
                rw [List.filterMap_cons_none hname]
                exact ihrest now hnow
            | some value =>
                rw [List.filterMap_cons_some hname, List.mapM_cons]
                show (deepFreeze depth value now).bind _ = _
                rw [ih value now, objectsBelow_of_sameProps hnow]
                cases postorder (objectsBelow heap) depth value with
                | none => rfl
                | some part =>
                    have hpart : SameProps heap (freezeAll now part) :=
                      fun ref => (sameProps_freezeAll part ref).trans (hnow ref)
                    refine (ihrest _ hpart).trans ?_
                    cases (rest.filterMap (objectAt heap object)).mapM
                        (postorder (objectsBelow heap) depth) with
                    | none => rfl
                    | some parts =>
                        show some _ = some (freezeAll now (part ++ parts.flatten))
                        rw [freezeAll_append]
      rw [deepFreeze, hloop _ heap (fun _ => rfl), postorder, Option.map_map,
        Option.map_map]
      show _ = Option.map _ ((objectsBelow heap object).mapM _)
      congr 1
      funext parts
      show _ = freezeAll heap (parts.flatten ++ [object])
      rw [freezeAll_append]
      rfl

/-!
## What is frozen
-/

theorem deepFreeze_apply (h : deepFreeze depth object heap = some after)
    (ref : Ref) :
    (Reaches (objectsBelow heap) object ref ->
      after ref = { heap ref with frozen := true }) ∧
      (¬ Reaches (objectsBelow heap) object ref -> after ref = heap ref) := by
  rw [deepFreeze_eq] at h
  rcases Option.map_eq_some_iff.mp h with ⟨visited, hvisited, rfl⟩
  rw [freezeAll_apply, ← mem_postorder hvisited]
  constructor
  · intro hmem
    rw [decide_eq_true hmem, Bool.or_true]
  · intro hmem
    rw [decide_eq_false hmem, Bool.or_false]

/-- The freezing fails exactly where an object that it reaches contains itself. -/
theorem deepFreeze_returns
    (hfinite : {ref | Reaches (objectsBelow heap) object ref}.Finite) :
    (exists depth after, deepFreeze depth object heap = some after) <->
      forall ref, Reaches (objectsBelow heap) object ref ->
        ¬ Descends (objectsBelow heap) ref ref := by
  rw [← ends_iff_acyclic hfinite, ← exists_postorder_iff_ends]
  constructor
  · intro h
    rcases h with ⟨depth, after, h⟩
    rw [deepFreeze_eq] at h
    rcases Option.map_eq_some_iff.mp h with ⟨visited, hvisited, _⟩
    exact ⟨depth, visited, hvisited⟩
  · intro h
    rcases h with ⟨depth, visited, h⟩
    exact ⟨depth, _, by rw [deepFreeze_eq, h, Option.map_some]⟩

/-!
## What user code can do afterwards
-/

/-- User code sets, adds, deletes or redefines properties of one object. -/
structure Attempt (Primitive : Type _) where
  target : Ref
  becomes : HeapObject Primitive

/-- A frozen object stays as it is. -/
def attempt (heap : Heap Primitive) (tried : Attempt Primitive) :
    Heap Primitive :=
  if (heap tried.target).frozen then heap
  else Function.update heap tried.target tried.becomes

def HeapValue.ref? : HeapValue Primitive -> Option Ref
  | HeapValue.primitive _ => none
  | HeapValue.function ref => some ref
  | HeapValue.object ref => some ref

/-- `object[name]`; the first argument is how many prototypes are asked. -/
def getProperty (heap : Heap Primitive) :
    Nat -> Ref -> JsString -> Option (HeapValue Primitive)
  | 0, ref, name => (heap ref).props.lookup name
  | depth + 1, ref, name =>
      ((heap ref).props.lookup name).or
        ((heap ref).prototype.bind fun prototype =>
          getProperty heap depth prototype name)

def readPath (heap : Heap Primitive) (depth : Nat) :
    List JsString -> HeapValue Primitive -> Option (HeapValue Primitive)
  | [], value => some value
  | name :: path, value =>
      value.ref?.bind fun ref =>
        (getProperty heap depth ref name).bind (readPath heap depth path)

/-- A chain of reads of own properties, each of them a property of an object. -/
def readOwnPath (heap : Heap Primitive) :
    List JsString -> HeapValue Primitive -> Option (HeapValue Primitive)
  | [], value => some value
  | name :: path, HeapValue.object object =>
      ((heap object).props.lookup name).bind (readOwnPath heap path)
  | _ :: _, _ => none

theorem getProperty_own {name : JsString} {value : HeapValue Primitive}
    (h : (heap ref).props.lookup name = some value) (depth : Nat) :
    getProperty heap depth ref name = some value := by
  cases depth with
  | zero => exact h
  | succ depth => rw [getProperty, h, Option.some_or]

theorem readPath_of_readOwnPath {path : List JsString}
    {value found : HeapValue Primitive}
    (h : readOwnPath heap path value = some found) (depth : Nat) :
    readPath heap depth path value = some found := by
  induction path generalizing value with
  | nil => exact h
  | cons name path ih =>
      cases value with
      | primitive value => cases h
      | function ref => cases h
      | object ref =>
          rcases Option.bind_eq_some_iff.mp h with ⟨next, hnext, hrest⟩
          show (getProperty heap depth ref name).bind _ = some found
          rw [getProperty_own hnext]
          exact ih hrest

theorem attempt_frozen (h : (heap ref).frozen = true)
    (tried : Attempt Primitive) : attempt heap tried ref = heap ref := by
  rw [attempt]
  split
  · rfl
  · rename_i htarget
    rw [Function.update_of_ne]
    intro heq
    rw [heq] at h
    exact htarget h

theorem attempts_frozen (h : (heap ref).frozen = true)
    (attempts : List (Attempt Primitive)) :
    attempts.foldl attempt heap ref = heap ref := by
  induction attempts generalizing heap with
  | nil => rfl
  | cons tried rest ih =>
      have hstep := attempt_frozen h tried
      rw [List.foldl_cons, ih (by rw [hstep, h]), hstep]

theorem mem_objectsBelow {name : JsString} {value : Ref}
    (h : (heap object).props.lookup name = some (HeapValue.object value)) :
    value ∈ objectsBelow heap object := by
  apply List.mem_filterMap.mpr
  refine ⟨name, ?_, ?_⟩
  · apply AList.mem_keys.mpr
    apply AList.lookup_isSome.mp
    rw [h]
    rfl
  · rw [objectAt, h]

theorem readOwnPath_of_reached {path : List JsString} {value : HeapValue Primitive}
    (hsame : forall ref, Reaches (objectsBelow heap) object ref ->
      (other ref).props = (heap ref).props)
    (hvalue : forall ref, value = HeapValue.object ref ->
      Reaches (objectsBelow heap) object ref) :
    readOwnPath other path value = readOwnPath heap path value := by
  induction path generalizing value with
  | nil => rfl
  | cons name path ih =>
      cases value with
      | primitive value => rfl
      | function ref => rfl
      | object ref =>
          have href := hvalue ref rfl
          rw [readOwnPath, readOwnPath, hsame ref href]
          cases hlookup : (heap ref).props.lookup name with
          | none => rfl
          | some next =>
              apply ih
              intro below hbelow
              rw [hbelow] at hlookup
              exact Relation.ReflTransGen.tail href (mem_objectsBelow hlookup)

/--
Whatever user code tries, no property is added to an object of the strategy, and
a path of own properties leads to what it led to before the freezing.  What a
function holds or an object inherits is not promised: neither is frozen.
-/
theorem deepFreeze_keeps (h : deepFreeze depth object heap = some after)
    (attempts : List (Attempt Primitive)) :
    (forall path, readOwnPath (attempts.foldl attempt after) path
        (HeapValue.object object) =
      readOwnPath heap path (HeapValue.object object)) ∧
      (forall path found prototypes,
        readOwnPath heap path (HeapValue.object object) = some found ->
          readPath (attempts.foldl attempt after) prototypes path
            (HeapValue.object object) = some found) ∧
        forall ref, ¬ Reaches (objectsBelow heap) object ref ->
          after ref = heap ref := by
  have hown : forall path, readOwnPath (attempts.foldl attempt after) path
      (HeapValue.object object) =
        readOwnPath heap path (HeapValue.object object) := by
    intro path
    apply readOwnPath_of_reached
    · intro ref href
      have hafter := (deepFreeze_apply h ref).left href
      rw [attempts_frozen (by rw [hafter]), hafter]
    · intro ref href
      cases href
      exact Relation.ReflTransGen.refl
  refine ⟨hown, ?_, fun ref => (deepFreeze_apply h ref).right⟩
  intro path found prototypes hfound
  exact readPath_of_readOwnPath ((hown path).trans hfound) prototypes

end DeepFreeze

/-!
A strategy with one content type and a `hitpass` that is a function, and provider
options that hold themselves.
-/

def plainObject (props : List (JsString × HeapValue Nat)) : HeapObject Nat where
  props := (props.map (fun prop => Sigma.mk prop.1 prop.2)).toAList
  prototype := none
  frozen := false

def smallHeap : Heap Nat
  | 0 => plainObject [("contentTypes".toList, HeapValue.object 1),
      ("hitpass".toList, HeapValue.function 3)]
  | 1 => plainObject [("0".toList, HeapValue.object 2),
      ("length".toList, HeapValue.primitive 1)]
  | 2 => plainObject [("maxAge".toList, HeapValue.primitive 3600000)]
  | _ => plainObject []

def smallAttempts : List (Attempt Nat) :=
  [{ target := 2
     becomes := plainObject [("maxAge".toList, HeapValue.primitive 0)] },
    { target := 0, becomes := plainObject [] }]

theorem deepFreeze_keeps_smallHeap :
    exists after, deepFreeze 3 0 smallHeap = some after ∧
      readPath (smallAttempts.foldl attempt after) 1
          ["contentTypes".toList, "0".toList, "maxAge".toList]
          (HeapValue.object 0) =
        some (HeapValue.primitive 3600000) := by
  rcases Option.isSome_iff_exists.mp
    (show (deepFreeze 3 0 smallHeap).isSome = true by decide) with ⟨after, h⟩
  exact ⟨after, h, (deepFreeze_keeps h smallAttempts).right.left _ _ 1 (by decide)⟩

/-- The function of `hitpass` can still be given a property. -/
example :
    (deepFreeze 3 0 smallHeap).bind (fun after =>
      readPath (attempt after
          { target := 3
            becomes := plainObject [("calls".toList, HeapValue.primitive 1)] }) 1
        ["hitpass".toList, "calls".toList] (HeapValue.object 0)) =
      some (HeapValue.primitive 1) := by
  decide

def selfHeap : Heap Nat
  | 0 => plainObject [("options".toList, HeapValue.object 1)]
  | _ => plainObject [("self".toList, HeapValue.object 1)]

theorem deepFreeze_returns_selfHeap :
    ¬ exists depth after, deepFreeze depth 0 selfHeap = some after := by
  have hbelow : forall ref, objectsBelow selfHeap ref = [1] := by
    intro ref
    cases ref <;> rfl
  have hreached : {ref | Reaches (objectsBelow selfHeap) 0 ref} ⊆ {0, 1} := by
    intro ref href
    rcases Relation.ReflTransGen.cases_tail href with heq | ⟨last, _, hmem⟩
    · exact Or.inl heq
    · rw [hbelow] at hmem
      exact Or.inr (List.mem_singleton.mp hmem)
  have hself : Descends (objectsBelow selfHeap) 1 1 :=
    Relation.TransGen.single (by rw [hbelow]; exact List.mem_singleton.mpr rfl)
  rw [deepFreeze_returns (((Set.finite_singleton 1).insert 0).subset hreached)]
  intro h
  apply h 1 _ hself
  exact Relation.ReflTransGen.single
    (by rw [hbelow]; exact List.mem_singleton.mpr rfl)

end Strategy
end RestCache
