import RestCache.Foundation.RegExpCase
import RestCache.Router.RoutePath

/-!
# Route paths with constraints

What path-to-regexp makes of a route path whose parameters have constraints:
one expression, matched against the path as it was requested with letter case
ignored.  A constraint is part of that expression, so it sees what stands around
its value.  Request paths hold Latin-1 characters.
-/

namespace RestCache
namespace Router

open Foundation
open CaseMapping
open Config
open RegExpSource

/-!
## Constraints
-/

def closesPattern : Nat -> JsString -> Bool
  | count, [] => count = 0
  | _, ['\\'] => false
  | count, '\\' :: _ :: rest => closesPattern count rest
  | 0, ')' :: _ => false
  | count + 1, ')' :: rest => closesPattern count rest
  | count, '(' :: rest =>
      rest.head? = some '?' && closesPattern (count + 1) rest
  | count, _ :: rest => closesPattern count rest

def isPattern (source : JsString) : Bool :=
  source ≠ [] && source.head? ≠ some '?' && closesPattern 0 source

/-- A pattern of Latin-1 characters that is an expression by itself. -/
def isConstraint (source : JsString) : Bool :=
  source.all (fun c => c.toNat < 256) && isPattern source &&
    (compileIgnoringCase latin1Variants source).isOk

def Segment.isValid : Segment -> Bool
  | Segment.param before name (some source) modifier =>
      (Segment.param before name (some source) modifier).wellFormed &&
        isConstraint source
  | segment => segment.wellFormed

/-!
## The route's expression
-/

def constraintMatches (source : JsString) : Meaning :=
  match compileIgnoringCase latin1Variants source with
  | Except.ok p => Pattern.Matches p
  | Except.error _ => fun _ _ _ => False

/-- A value with its modifier, where `slash` is the prefix of the parameter. -/
def modifiedMatches (value : Meaning) (slash sep : JsString) :
    Modifier -> Meaning
  | Modifier.none => Meaning.seq (Meaning.text slash) value
  | Modifier.question =>
      Meaning.optional (Meaning.seq (Meaning.text slash) value)
  | Modifier.plus =>
      Meaning.seq (Meaning.text slash) (Meaning.separated value sep)
  | Modifier.star =>
      Meaning.optional
        (Meaning.seq (Meaning.text slash) (Meaning.separated value sep))

def textMatches (text : JsString) : Meaning :=
  Meaning.ofSet (fun mid => latin1.toLowerCase mid = latin1.toLowerCase text)

def Segment.Matches : Segment -> Meaning
  | Segment.param [] _ (some source) modifier =>
      modifiedMatches (constraintMatches source) ['/'] ['/'] modifier
  | Segment.param before _ (some source) modifier =>
      Meaning.seq (textMatches ('/' :: before))
        (modifiedMatches (constraintMatches source) [] [] modifier)
  | segment =>
      Meaning.ofSet (fun mid => segment.Accepts latin1 (latin1.toLowerCase mid))

def RouteMatches : RoutePath -> Meaning
  | [] => Meaning.empty
  | segment :: rest => Meaning.seq segment.Matches (RouteMatches rest)

/-- The route takes `text` for its segments; a slash may be left over. -/
def Takes (route : RoutePath) (path text : JsString) : Prop :=
  exists after, path = text ++ after ∧ (after = [] ∨ after = ['/']) ∧
    RouteMatches route [] text after

/-- The router hands a request for the path to the route. -/
def Serves (route : RoutePath) (path : JsString) : Prop :=
  exists text, Takes route path text

/-!
## Values that do not look around
-/

theorem values_of_words {A : JsString -> Prop} {words : List JsString}
    (h : forall x, x ∈ words -> exists v, x = '/' :: v ∧ A v) :
    exists more : List JsString,
      words.flatten = more.flatMap (['/'] ++ ·) ∧
        forall v, v ∈ more -> A v := by
  induction words with
  | nil => exact ⟨[], rfl, by simp⟩
  | cons x words ih =>
      rcases h x (by simp) with ⟨v, hx, hv⟩
      rcases ih (fun y hy => h y (List.mem_cons_of_mem x hy)) with
        ⟨more, hmore, hall⟩
      refine ⟨v :: more, ?_, ?_⟩
      · rw [List.flatten_cons, hx, hmore]
        rfl
      · intro w hw
        rcases List.mem_cons.mp hw with hhead | htail
        · exact hhead ▸ hv
        · exact hall w htail

theorem seq_text_ofSet {A : JsString -> Prop}
    {slash before mid after : JsString} :
    Meaning.seq (Meaning.text slash) (Meaning.ofSet A) before mid after <->
      exists v, mid = slash ++ v ∧ A v := by
  constructor
  · intro hgiven
    rcases hgiven with ⟨x, v, hmid, hx, hv⟩
    exact ⟨v, by rw [hmid, show x = slash from hx], hv⟩
  · intro hgiven
    rcases hgiven with ⟨v, hmid, hv⟩
    exact ⟨slash, v, hmid, rfl, hv⟩

theorem separated_ofSet {A : JsString -> Prop}
    {before mid after : JsString} :
    Meaning.separated (Meaning.ofSet A) ['/'] before mid after <->
      Repeated A [] ['/'] mid := by
  have hword : forall before mid after,
      Meaning.seq (Meaning.text ['/']) (Meaning.ofSet A) before mid after <->
        Meaning.ofSet (fun x => exists v, x = '/' :: v ∧ A v)
          before mid after :=
    fun _ _ _ => seq_text_ofSet
  have hne : forall x, (exists v, x = '/' :: v ∧ A v) -> x ≠ [] := by
    intro x hgiven
    rcases hgiven with ⟨v, hx, _⟩
    rw [hx]
    exact List.cons_ne_nil '/' v
  constructor
  · intro hgiven
    rcases hgiven with ⟨first, y, hmid, hfirst, hy⟩
    rcases (star_ofSet hne).mp ((star_congr hword _ _ _).mp hy) with
      ⟨words, hwords, hall⟩
    rcases values_of_words hall with ⟨more, hmore, hvalues⟩
    refine ⟨first, more, ?_, hfirst, hvalues⟩
    rw [hmid, hwords, hmore]
    rfl
  · intro hgiven
    rcases hgiven with ⟨first, more, hmid, hfirst, hvalues⟩
    refine ⟨first, more.flatMap (['/'] ++ ·), hmid, hfirst, ?_⟩
    refine (star_congr hword _ _ _).mpr
      ((star_ofSet hne).mpr ⟨more.map (['/'] ++ ·), ?_, ?_⟩)
    · rw [List.flatMap_def]
    · intro word hword
      rcases List.mem_map.mp hword with ⟨v, hv, rfl⟩
      exact ⟨v, rfl, hvalues v hv⟩

theorem repeated_iff {A : JsString -> Prop} {slash mid : JsString} :
    Repeated A slash ['/'] mid <->
      exists v, mid = slash ++ v ∧ Repeated A [] ['/'] v := by
  constructor
  · intro h
    rcases h with ⟨first, more, hmid, hfirst, hmore⟩
    exact ⟨first ++ more.flatMap (['/'] ++ ·), by simp [hmid],
      first, more, rfl, hfirst, hmore⟩
  · intro h
    rcases h with ⟨v, hmid, first, more, hv, hfirst, hmore⟩
    exact ⟨first, more, by simp [hmid, hv], hfirst, hmore⟩

theorem modifiedMatches_ofSet {A : JsString -> Prop} {slash : JsString}
    {modifier : Modifier} (before mid after : JsString) :
    modifiedMatches (Meaning.ofSet A) slash ['/'] modifier before mid after <->
      Meaning.ofSet (Modified A slash ['/'] modifier) before mid after := by
  have hrepeated : Meaning.seq (Meaning.text slash)
      (Meaning.separated (Meaning.ofSet A) ['/']) before mid after <->
        Repeated A slash ['/'] mid := by
    rw [repeated_iff, ← @seq_text_ofSet (Repeated A [] ['/']) _ before mid after]
    exact seq_congr (fun _ _ _ => Iff.rfl) (fun _ _ _ => separated_ofSet)
  cases modifier with
  | none => exact seq_text_ofSet
  | plus => exact hrepeated
  | question => exact (or_congr seq_text_ofSet Iff.rfl).trans or_comm
  | star => exact (or_congr hrepeated Iff.rfl).trans or_comm

/-!
## Segments that take something
-/

def Segment.takesText : Segment -> Bool
  | Segment.param [] _ _ Modifier.question => false
  | Segment.param [] _ _ Modifier.star => false
  | _ => true

theorem seq_text_ne_nil {M : Meaning} {slash before mid after : JsString}
    (hslash : slash ≠ [])
    (h : Meaning.seq (Meaning.text slash) M before mid after) : mid ≠ [] := by
  rcases h with ⟨x, y, hmid, hx, _⟩
  rw [hmid, show x = slash from hx]
  exact List.append_ne_nil_of_left_ne_nil hslash y

theorem textMatches_ne_nil {M : Meaning} {text before mid after : JsString}
    (htext : text ≠ []) (h : Meaning.seq (textMatches text) M before mid after) :
    mid ≠ [] := by
  rcases h with ⟨x, y, hmid, hx, _⟩
  have hne : x ≠ [] := by
    intro hnil
    rw [hnil] at hx
    exact htext (List.map_eq_nil_iff.mp hx.symm)
  rw [hmid]
  exact List.append_ne_nil_of_left_ne_nil hne y

theorem accepts_ne_nil {lower : CaseMapping} {segment : Segment} {s : JsString}
    (htakes : segment.takesText = true) (h : segment.Accepts lower s) :
    s ≠ [] := by
  cases segment with
  | text static =>
      rw [show s = '/' :: lower.toLowerCase static from h]
      exact List.cons_ne_nil _ _
  | params named after =>
      rcases h with ⟨t, hs, _⟩
      rw [hs]
      exact List.cons_ne_nil _ _
  | param before name constraint modifier =>
      cases before with
      | cons c before =>
          rcases h with ⟨t, hs, _⟩
          rw [hs]
          exact List.cons_ne_nil _ _
      | nil =>
          cases modifier with
          | none =>
              rcases h with ⟨v, hs, _⟩
              rw [hs]
              exact List.cons_ne_nil _ _
          | plus =>
              rcases h with ⟨first, more, hs, _⟩
              rw [hs]
              exact List.cons_ne_nil _ _
          | question => exact absurd htakes Bool.false_ne_true
          | star => exact absurd htakes Bool.false_ne_true

theorem matches_ne_nil {segment : Segment} {before mid after : JsString}
    (htakes : segment.takesText = true)
    (h : segment.Matches before mid after) : mid ≠ [] := by
  have haccepts : segment.Accepts latin1 (latin1.toLowerCase mid) ->
      mid ≠ [] := by
    intro hgiven hnil
    exact accepts_ne_nil htakes hgiven (by rw [hnil, toLowerCase_nil])
  cases segment with
  | text static => exact haccepts h
  | params named after => exact haccepts h
  | param front name constraint modifier =>
      cases constraint with
      | none => cases front <;> exact haccepts h
      | some source =>
          cases front with
          | cons c front => exact textMatches_ne_nil (List.cons_ne_nil _ _) h
          | nil =>
              have hslash : ['/'] ≠ [] := List.cons_ne_nil '/' []
              cases modifier with
              | none => exact seq_text_ne_nil hslash h
              | plus => exact seq_text_ne_nil hslash h
              | question => exact absurd htakes Bool.false_ne_true
              | star => exact absurd htakes Bool.false_ne_true

theorem routeMatches_ne_nil {route : RoutePath} {before mid after : JsString}
    (htakes : route.any Segment.takesText = true)
    (h : RouteMatches route before mid after) : mid ≠ [] := by
  induction route generalizing before mid with
  | nil => exact absurd htakes Bool.false_ne_true
  | cons segment rest ih =>
      rcases h with ⟨x, y, hmid, hx, hy⟩
      rw [List.any_cons, Bool.or_eq_true] at htakes
      rw [hmid]
      rcases htakes with hsegment | hrest
      · exact List.append_ne_nil_of_left_ne_nil (matches_ne_nil hsegment hx) y
      · exact List.append_ne_nil_of_right_ne_nil x (ih hrest hy)

/-!
## Routes without constraints

Such a route takes what it accepts in lower case.
-/

def unconstrained : Segment -> Bool
  | Segment.param _ _ (some _) _ => false
  | _ => true

theorem matches_iff_accepts {segment : Segment} {before mid after : JsString}
    (h : unconstrained segment = true) :
    segment.Matches before mid after <->
      segment.Accepts latin1 (latin1.toLowerCase mid) := by
  cases segment with
  | text static => exact Iff.rfl
  | params named more => exact Iff.rfl
  | param front name constraint modifier =>
      cases constraint with
      | none => cases front <;> exact Iff.rfl
      | some source => exact absurd h Bool.false_ne_true

theorem routeMatches_iff_spells {route : RoutePath}
    {before mid after : JsString}
    (h : forall segment, segment ∈ route -> unconstrained segment = true) :
    RouteMatches route before mid after <->
      Spells latin1 route (latin1.toLowerCase mid) := by
  induction route generalizing before mid with
  | nil => exact List.map_eq_nil_iff.symm
  | cons segment rest ih =>
      have hsegment := h segment List.mem_cons_self
      have hrest := fun before mid => @ih before mid
        (fun other hother => h other (List.mem_cons_of_mem segment hother))
      constructor
      · intro hgiven
        rcases hgiven with ⟨x, y, hmid, hx, hy⟩
        refine ⟨latin1.toLowerCase x, latin1.toLowerCase y, ?_,
          (matches_iff_accepts hsegment).mp hx, (hrest _ _).mp hy⟩
        rw [hmid]
        exact List.map_append
      · intro hgiven
        rcases hgiven with ⟨x, y, hmid, hx, hy⟩
        rcases List.map_eq_append_iff.mp hmid with ⟨s, t, hst, hs, ht⟩
        refine ⟨s, t, hst, (matches_iff_accepts hsegment).mpr ?_,
          (hrest _ _).mpr ?_⟩
        · rw [← hs] at hx
          exact hx
        · rw [← ht] at hy
          exact hy

theorem serves_iff_accepts {route : RoutePath} {path : JsString}
    (h : forall segment, segment ∈ route -> unconstrained segment = true) :
    Serves route path <-> Accepts latin1 route path := by
  constructor
  · intro hgiven
    rcases hgiven with ⟨text, after, hpath, hafter, hroute⟩
    have hspells := (routeMatches_iff_spells h).mp hroute
    rcases hafter with rfl | rfl
    · rw [List.append_nil] at hpath
      exact Or.inl (hpath ▸ hspells)
    · refine Or.inr ⟨latin1.toLowerCase text, ?_, hspells⟩
      rw [hpath]
      exact List.map_append
  · intro hgiven
    rcases hgiven with hspells | ⟨text, hpath, hspells⟩
    · exact ⟨path, [], (List.append_nil path).symm, Or.inl rfl,
        (routeMatches_iff_spells h).mpr hspells⟩
    · rcases List.map_eq_append_iff.mp hpath with ⟨s, t, hst, hs, ht⟩
      rcases List.map_eq_singleton_iff.mp ht with ⟨c, rfl, hc⟩
      rw [latin1Char_eq hc (by decide) (by decide)] at hst
      rw [← hs] at hspells
      exact ⟨s, ['/'], hst, Or.inr rfl,
        (routeMatches_iff_spells h).mpr hspells⟩

/-!
## Parameters that repeat
-/

theorem routeMatches_append {route more : RoutePath}
    (before mid after : JsString) :
    RouteMatches (route ++ more) before mid after <->
      Meaning.seq (RouteMatches route) (RouteMatches more) before mid after := by
  induction route generalizing before mid after with
  | nil => exact empty_seq.symm
  | cons segment rest ih =>
      exact (seq_congr (fun _ _ _ => Iff.rfl) ih).trans seq_assoc.symm

theorem modifiedMatches_plus {value : Meaning} {slash sep before mid after : JsString}
    (h : modifiedMatches value slash sep Modifier.none before mid after) :
    modifiedMatches value slash sep Modifier.plus before mid after := by
  rcases h with ⟨x, y, hmid, hx, hy⟩
  refine ⟨x, y, hmid, hx, y, [], (List.append_nil y).symm, hy, ?_⟩
  exact Pattern.Iterated.done _ _

theorem modified_plus {value : JsString -> Prop} {slash sep s : JsString}
    (h : Modified value slash sep Modifier.none s) :
    Modified value slash sep Modifier.plus s := by
  rcases h with ⟨v, hs, hv⟩
  exact ⟨v, [], by rw [hs]; simp, hv, by simp⟩

theorem matches_plus {front name : JsString} {constraint : Option JsString}
    {before mid after : JsString}
    (h : (Segment.param front name constraint Modifier.none).Matches
      before mid after) :
    (Segment.param front name constraint Modifier.plus).Matches
      before mid after := by
  cases constraint with
  | none =>
      cases front with
      | nil => exact modified_plus h
      | cons c front =>
          rcases h with ⟨t, hs, ht⟩
          exact ⟨t, hs, modified_plus ht⟩
  | some source =>
      cases front with
      | nil => exact modifiedMatches_plus h
      | cons c front =>
          rcases h with ⟨x, y, hmid, hx, hy⟩
          exact ⟨x, y, hmid, hx, modifiedMatches_plus hy⟩

theorem serves_plus {route : RoutePath} {front name : JsString}
    {constraint : Option JsString} {path : JsString}
    (h : Serves (route ++ [Segment.param front name constraint Modifier.none])
      path) :
    Serves (route ++ [Segment.param front name constraint Modifier.plus])
      path := by
  rcases h with ⟨text, after, hpath, hafter, hroute⟩
  refine ⟨text, after, hpath, hafter, (routeMatches_append _ _ _).mpr ?_⟩
  rcases (routeMatches_append _ _ _).mp hroute with
    ⟨x, y, htext, hx, z, rest, hy, hz, hrest⟩
  exact ⟨x, y, htext, hx, z, rest, hy, matches_plus hz, hrest⟩

end Router
end RestCache
