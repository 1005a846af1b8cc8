import RestCache.Foundation.PosixPath
import RestCache.Router.RoutePath

/-!
# Segments that mix parameters and text

Between two slashes of a route path any number of parameters and texts may stand
side by side.  A path is made from such a route path by putting a value in the
place of each parameter.
-/

namespace RestCache
namespace Router

open Foundation
open Config

inductive Piece where
  | text (static : JsString)
  | param (name : JsString) (constraint : Option JsString) (modifier : Modifier)
deriving DecidableEq

abbrev MixedPath := List (List Piece)

def Piece.render : Piece -> JsString
  | Piece.text static => static
  | Piece.param name constraint modifier =>
      ':' :: name ++ constraintText constraint ++ modifierText modifier

def renderPieces (segment : List Piece) : JsString :=
  segment.flatMap Piece.render

/-- A printable character that a route path reads as it is. -/
def isPathText (c : Char) : Bool :=
  isPrintable c && c ∉ "/#?:(\x7b\x7d*+\\".toList

/-- The text cannot be taken for more of a name or for a constraint. -/
def endsBareName (text : JsString) : Bool :=
  text.head?.all (fun c => !Pattern.isWordChar c)

def wellFormedPieces : List Piece -> Bool
  | [] => true
  | Piece.text static :: rest =>
      static ≠ [] && static.all isPathText && wellFormedPieces rest
  | Piece.param name constraint modifier :: rest =>
      isName name &&
        (constraint ≠ none || modifier ≠ Modifier.none ||
          endsBareName (renderPieces rest)) &&
        wellFormedPieces rest

/-- A constraint stands in one segment, before any mark of a query. -/
def Piece.isUncut : Piece -> Bool
  | Piece.text _ => true
  | Piece.param _ constraint _ => constraint.all (fun source => source.all isRest)

def wellFormedMixed (segment : List Piece) : Bool :=
  wellFormedPieces segment && renderPieces segment ≠ [] &&
    renderPieces segment ≠ ['.'] && renderPieces segment ≠ ['.', '.']

/-!
## Substitution
-/

section Substitution

variable (params : RouteParams)

def Piece.substitute : Piece -> JsString
  | Piece.text static => static
  | Piece.param name _ _ => (params.lookup name).getD []

def substitutePieces (segment : List Piece) : JsString :=
  segment.flatMap (Piece.substitute params)

def substituteMixed (route : MixedPath) : JsString :=
  PosixPath.joinPath (route.map (substitutePieces params))

def GivesAlphanum (segment : List Piece) : Prop :=
  forall name constraint modifier,
    Piece.param name constraint modifier ∈ segment ->
      exists value, params.lookup name = some value ∧ value ≠ [] ∧
        value.all Char.isAlphanum = true

end Substitution

end Router
end RestCache
