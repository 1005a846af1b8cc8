import RestCache.Config.ChunkKeys

/-!
# The parameters of a request

A request is routed by its raw path, and its parameters are decoded: each has
the value of a segment that it takes.
-/

namespace RestCache
namespace Config

open Foundation
open RegExpSource
open UriComponent
open Router
open Keys

/-!
## Routing a URL
-/

def isUrlChar (c : Char) : Bool :=
  isPrintable c && isRest c

structure UrlSegment (seg : JsString) : Prop where
  normal : PosixPath.Normal seg
  characters : seg.all isUrlChar = true
  encoded : (decodeURIComponent seg).isSome = true

section Serving

variable (lower : CaseMapping) (params : RouteParams)

/-- A route and the segments of a URL that it serves with these parameters. -/
structure Served (route : Route) (segs : List JsString) : Prop where
  plain : forall part, part ∈ route -> isPlainPart part = true
  segment : forall seg, seg ∈ segs -> UrlSegment seg
  texts : List.Forall₂ (fun part seg => forall static, part = Part.text static ->
    lower.toLowerCase seg = lower.toLowerCase static) route segs
  values : forall name, Part.param name ∈ route ->
    exists seg, seg ∈ segs ∧ params.lookup name = decodeURIComponent seg

end Serving

variable {lower : CaseMapping} {params : RouteParams} {route : Route}
  {segs : List JsString}

theorem isUrlChar_facts {c : Char} (h : isUrlChar c = true) :
    c.toNat < 128 ∧ isRest c = true := by
  rw [isUrlChar, Bool.and_eq_true] at h
  exact ⟨(isPrintable_ascii h.left).left, h.right⟩

theorem UrlSegment.ascii {seg : JsString} (h : UrlSegment seg) :
    forall c, c ∈ seg -> c.toNat < 128 :=
  fun c hc => (isUrlChar_facts (List.all_eq_true.mp h.characters c hc)).left

theorem Served.value (h : Served lower params route segs) {name : JsString}
    (hname : Part.param name ∈ route) :
    exists seg, seg ∈ segs ∧ params.lookup name = some (valueFor params name) ∧
      decodeURIComponent seg = some (valueFor params name) := by
  rcases h.values name hname with ⟨seg, hseg, hlookup⟩
  rcases Option.isSome_iff_exists.mp (h.segment seg hseg).encoded with
    ⟨value, hdecode⟩
  rw [hdecode] at hlookup
  have hvalue : valueFor params name = value := by
    rw [valueFor, hlookup]
    rfl
  rw [hvalue]
  exact ⟨seg, hseg, hlookup, hdecode⟩

end Config
end RestCache
