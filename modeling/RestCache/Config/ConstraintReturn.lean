import RestCache.Config.ConstraintPattern

/-!
# The requests that a pattern with constraints reaches

A pattern whose constraints accept no more in lower case than the router's do
with letter case ignored matches the keys of those requests only that the route
takes, if each segment is a text or one parameter.
-/

namespace RestCache
namespace Config

open Foundation
open CaseMapping
open RegExpSource
open Router
open Keys

def returnsMeaning (source : JsString) : Bool :=
  match compileIgnoringCase latin1Variants source,
    compile (lowerCasePattern latin1 source) with
  | Except.ok p, Except.ok q => mapsFrom latin1Char latin1Chars p q
  | _, _ => false

/-- A whole segment of which the pattern accepts no more than the router. -/
def returns : Segment -> Bool
  | Segment.param before _ (some source) _ =>
      before = [] && returnsMeaning source
  | segment => segment.isWhole

/-!
## From a key back to its path
-/

section Returning

variable {value value' : Meaning}

theorem carriesBack_slash :
    CarriesBack latin1Char latin1Chars (Meaning.text ['/'])
      (Meaning.text ['/']) := by
  apply carriesBack_ofSet
  intro mid _ hmid
  rcases List.map_eq_singleton_iff.mp hmid with ⟨c, rfl, hc⟩
  rw [latin1Char_eq hc (by decide) (by decide)]

theorem carriesBack_separated
    (h : CarriesBack latin1Char latin1Chars value value') :
    CarriesBack latin1Char latin1Chars (Meaning.separated value ['/'])
      (Meaning.separated value' ['/']) :=
  carriesBack_seq isWordChar_latin1 h
    (carriesBack_star isWordChar_latin1
      (carriesBack_seq isWordChar_latin1 carriesBack_slash h))

theorem carriesBack_modified (modifier : Modifier)
    (h : CarriesBack latin1Char latin1Chars value value') :
    CarriesBack latin1Char latin1Chars
      (modifiedMatches value ['/'] ['/'] modifier)
      (modifiedMatches value' ['/'] ['/'] modifier) := by
  have hone := carriesBack_seq isWordChar_latin1 carriesBack_slash h
  have hmany := carriesBack_seq isWordChar_latin1 carriesBack_slash
    (carriesBack_separated h)
  cases modifier with
  | none => exact hone
  | plus => exact hmany
  | question => exact carriesBack_optional hone
  | star => exact carriesBack_optional hmany

end Returning

theorem carriesBack_kept {source : JsString} {p q : Pattern}
    (h : Kept source p q) (hreturns : returnsMeaning source = true) :
    CarriesBack latin1Char latin1Chars (constraintMatches source)
      (loweredMatches source) := by
  rw [returnsMeaning, h.matched, h.lowered] at hreturns
  rw [constraintMatches, loweredMatches, h.matched, h.lowered]
  exact carriesBack_of_mapsFrom isWordChar_latin1 hreturns

theorem carriesBack_segment {segment : Segment} (h : SegmentKept segment)
    (hreturns : returns segment = true) :
    CarriesBack latin1Char latin1Chars segment.Matches
      (wildcardMatches segment) := by
  cases h with
  | unconstrained hwell hfree =>
      have hwhole : segment.isWhole = true := by
        cases segment with
        | text static => exact hreturns
        | params named after => exact hreturns
        | param before name constraint modifier =>
            cases constraint with
            | none => exact hreturns
            | some source => exact absurd hfree Bool.false_ne_true
      rw [wildcardMatches_unconstrained hfree]
      intro before mid after after' _ _ _ hmid
      exact (matches_iff_accepts hfree).mpr (accepts_of_covers hfree hwhole hmid)
  | @constrained before name source modifier p q hwell hkept _ =>
      rw [returns, Bool.and_eq_true, decide_eq_true_eq] at hreturns
      rcases hreturns with ⟨rfl, hmeaning⟩
      exact carriesBack_modified modifier (carriesBack_kept hkept hmeaning)

theorem carriesBack_route {route : RoutePath}
    (hkept : forall segment, segment ∈ route -> SegmentKept segment)
    (hreturns : forall segment, segment ∈ route -> returns segment = true) :
    CarriesBack latin1Char latin1Chars (RouteMatches route)
      (wildcardsMatch route) := by
  induction route with
  | nil =>
      intro before mid after after' _ _ _ hmid
      exact List.map_eq_nil_iff.mp hmid
  | cons segment rest ih =>
      exact carriesBack_seq isWordChar_latin1
        (carriesBack_segment (hkept segment List.mem_cons_self)
          (hreturns segment List.mem_cons_self))
        (ih (fun other hother => hkept other (List.mem_cons_of_mem segment hother))
          (fun other hother =>
            hreturns other (List.mem_cons_of_mem segment hother)))

theorem no_empty_of_returns {route : RoutePath}
    (h : forall segment, segment ∈ route -> returns segment = true) :
    Segment.text [] ∉ route :=
  fun hmem => absurd (h _ hmem) (by decide)

variable {config : CacheRouteConfig} {route : RoutePath}

theorem serves_of_test_key (h : Configured config route)
    (hsurvive : allSurvive route = true)
    (hreturns : forall segment, segment ∈ route -> returns segment = true)
    (params : Option RouteParams) {ctx : Context}
    (hlatin : forall c, c ∈ ctx.path -> c.toNat < 256)
    (hnormal : NormalPath ctx.path) {pattern : Pattern}
    (hget : getRouteRegExp latin1 config params true = Except.ok [pattern])
    (htest : pattern.test (generateCacheKey latin1 ctx pathOnly) = true) :
    Serves route ctx.path := by
  rcases getRouteRegExp_constrained h hsurvive params with
    ⟨found, kept, hfound, hsame, hmatched⟩
  rw [hget, Except.ok.injEq] at hfound
  rw [(List.cons.inj hfound).left] at htest
  rcases (hmatched _).mp htest with ⟨mid, after, hkey, hmeaning⟩
  have hsuffix : '?' ∉ "&&".toList := by
    decide
  have hplain : generateCacheKey latin1 ctx pathOnly =
      requestPath latin1 ctx.path ++ '?' :: "&&".toList :=
    generateCacheKey_eq_parts ctx pathOnly
  rw [hplain] at hkey
  have hmid := split_question (requestPath_not_question ctx.path_noQuery)
    hsuffix hkey
  rw [hsame (no_empty_of_returns hreturns), hmid,
    (@lower_normalPath latin1 _ hnormal).right] at hmeaning
  refine ⟨ctx.path, [], (List.append_nil _).symm, Or.inl rfl, ?_⟩
  exact carriesBack_route
    (fun segment hmem => segmentKept_of_mem h.valid hsurvive hmem) hreturns
    [] ctx.path [] ('?' :: after) (fun c hc => mem_latin1Chars (hlatin c hc))
    rfl (List.cons_ne_nil _ _) hmeaning

end Config
end RestCache
