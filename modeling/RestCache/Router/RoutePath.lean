import RestCache.Config.RouteRegExp
import RestCache.Foundation.RegExpCase

/-!
# Route paths

The paths that path-to-regexp accepts for a route path.  Behind each slash of a
route path stands text, one parameter that may have a constraint and a modifier,
or several plain parameters with text around them.  The router ignores letter
case, so a path and the route path are compared in lower case.
-/

namespace RestCache
namespace Router

open Foundation
open Config

/-- What stands behind one slash of a route path. -/
inductive Segment where
  | text (static : JsString)
  | param (before name : JsString) (constraint : Option JsString)
      (modifier : Modifier)
  | params (named : List (JsString × JsString)) (after : JsString)
deriving DecidableEq

abbrev RoutePath := List Segment

/-!
## Spelling
-/

def constraintText : Option JsString -> JsString
  | none => []
  | some source => '(' :: source ++ [')']

def modifierText : Modifier -> JsString
  | Modifier.none => []
  | Modifier.question => ['?']
  | Modifier.plus => ['+']
  | Modifier.star => ['*']

def namedText (named : List (JsString × JsString)) : JsString :=
  named.flatMap fun z => z.1 ++ ':' :: z.2

def Segment.render : Segment -> JsString
  | Segment.text static => '/' :: static
  | Segment.param before name constraint modifier =>
      '/' :: before ++ ':' :: name ++ constraintText constraint ++
        modifierText modifier
  | Segment.params named after => '/' :: namedText named ++ after

def render (route : RoutePath) : JsString :=
  route.flatMap Segment.render

def isStatic (c : Char) : Bool :=
  c.isAlphanum || c = '-' || c = '_' || c = '~'

def endsName (text : JsString) : Bool :=
  text.all isStatic && text.head?.all (fun c => !Pattern.isWordChar c)

def isName (name : JsString) : Bool :=
  name ≠ [] && name.all Pattern.isWordChar

namespace Segment

def wellFormed : Segment -> Bool
  | text static => static.all isStatic
  | param before name _ _ => before.all isStatic && isName name
  | params [] _ => false
  | params ((before, name) :: more) after =>
      before.all isStatic && isName name &&
        more.all (fun z => endsName z.1 && isName z.2) && endsName after &&
        (more ≠ [] || after ≠ [])

def isWhole : Segment -> Bool
  | text static => static ≠ []
  | param before _ _ _ => before = []
  | params _ _ => false

end Segment

/-!
## Acceptance
-/

/-- With letter case ignored, a constraint's expression matches all of the value. -/
def constraintAccepts (source value : JsString) : Prop :=
  match RegExpSource.compileIgnoringCase CaseMapping.latin1Variants source with
  | Except.ok p => Pattern.Matches p [] value []
  | Except.error _ => False

def valueAccepts (constraint : Option JsString) (value : JsString) : Prop :=
  match constraint with
  | none => value ≠ [] ∧ forall c, c ∈ value -> isRest c = true
  | some source => constraintAccepts source value

/-- One value or more, the first after `slash` and each other after `sep`. -/
def Repeated (value : JsString -> Prop) (slash sep text : JsString) : Prop :=
  exists (first : JsString) (more : List JsString), text =
    slash ++ first ++ more.flatMap (sep ++ ·) ∧
    value first ∧ forall other, other ∈ more -> value other

def Modified (value : JsString -> Prop) (slash sep : JsString)
    (modifier : Modifier) (text : JsString) : Prop :=
  match modifier with
  | Modifier.none => exists v, text = slash ++ v ∧ value v
  | Modifier.question => text = [] ∨ exists v, text = slash ++ v ∧ value v
  | Modifier.plus => Repeated value slash sep text
  | Modifier.star => text = [] ∨ Repeated value slash sep text

section Acceptance

variable (lower : CaseMapping)

def namedAccepts : List (JsString × JsString) -> JsString -> JsString -> Prop
  | [], after, text => text = lower.toLowerCase after
  | (before, _) :: more, after, text =>
      exists v rest, text = lower.toLowerCase before ++ v ++ rest ∧
        valueAccepts none v ∧ namedAccepts more after rest

/--
The texts a segment stands for.  A parameter right behind the slash takes the
slash with it, so its modifier repeats or drops both.
-/
def Segment.Accepts : Segment -> JsString -> Prop
  | Segment.text static, s => s = '/' :: lower.toLowerCase static
  | Segment.param [] _ constraint modifier, s =>
      Modified (valueAccepts constraint) ['/'] ['/'] modifier s
  | Segment.param before _ constraint modifier, s =>
      exists t, s = '/' :: lower.toLowerCase before ++ t ∧
        Modified (valueAccepts constraint) [] [] modifier t
  | Segment.params named after, s =>
      exists t, s = '/' :: t ∧ namedAccepts lower named after t

def Spells : RoutePath -> JsString -> Prop
  | [], s => s = []
  | segment :: rest, s =>
      exists x y, s = x ++ y ∧ segment.Accepts lower x ∧ Spells rest y

/-- The route accepts the path; a slash at the end does not count. -/
def Accepts (route : RoutePath) (path : JsString) : Prop :=
  Spells lower route (lower.toLowerCase path) ∨
    exists text, lower.toLowerCase path = text ++ ['/'] ∧
      Spells lower route text

end Acceptance

/-!
## Paths in normal form
-/

variable {lower : CaseMapping}

theorem spells_of_accepts {route : RoutePath} {path : JsString}
    (h : Accepts lower route path)
    (hlast : (lower.toLowerCase path).getLast? ≠ some '/') :
    Spells lower route (lower.toLowerCase path) := by
  rcases h with h | ⟨text, htext, _⟩
  · exact h
  · rw [htext] at hlast
    exact absurd List.getLast?_concat hlast

end Router
end RestCache
