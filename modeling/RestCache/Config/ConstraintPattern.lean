import RestCache.Config.ConstraintSource
import RestCache.Config.WildcardCoverage

/-!
# The wildcard pattern of a route with constraints

The pattern reads the lower-cased constraints where they stand.  If they
survive, it matches the key of every request whose path the route takes.
-/

namespace RestCache
namespace Config

open Foundation
open CaseMapping
open RegExpSource
open Router
open Keys

/-!
## What the pattern matches
-/

def loweredMatches (source : JsString) : Meaning :=
  match compile (lowerCasePattern latin1 source) with
  | Except.ok q => Pattern.Matches q
  | Except.error _ => fun _ _ _ => False

def wildcardMatches : Segment -> Meaning
  | Segment.param before _ (some source) modifier =>
      if before = [] then
        modifiedMatches (loweredMatches source) ['/'] ['/'] modifier
      else
        Meaning.seq (Meaning.text ('/' :: latin1.toLowerCase before))
          (modifiedMatches (loweredMatches source) [] ['/'] modifier)
  | segment => Meaning.ofSet (SegmentCovers latin1 segment)

def wildcardsMatch : RoutePath -> Meaning
  | [] => Meaning.empty
  | segment :: rest => Meaning.seq (wildcardMatches segment) (wildcardsMatch rest)

/-- A constraint that is found and keeps its meaning. -/
structure Kept (source : JsString) (p q : Pattern) : Prop where
  escapes : escapesEnd source = true
  rest : source.all isRest = true
  line : source.all (fun c => !isLineTerminator c) = true
  matched : compileIgnoringCase latin1Variants source = Except.ok p
  lowered : compile (lowerCasePattern latin1 source) = Except.ok q
  mapped : mapsTo latin1Char latin1Chars p q = true

theorem kept_of_survives {source : JsString}
    (hpattern : isPattern source = true) (hfound : isFound source = true)
    (hkeeps : keepsMeaning source = true) : exists p q, Kept source p q := by
  rw [isPattern, Bool.and_eq_true] at hpattern
  rw [isFound, Bool.and_eq_true] at hfound
  cases hp : compileIgnoringCase latin1Variants source with
  | error e =>
      simp only [keepsMeaning, hp] at hkeeps
      exact absurd hkeeps Bool.false_ne_true
  | ok p =>
      cases hq : compile (lowerCasePattern latin1 source) with
      | error e =>
          simp only [keepsMeaning, hp, hq] at hkeeps
          exact absurd hkeeps Bool.false_ne_true
      | ok q =>
          simp only [keepsMeaning, hp, hq] at hkeeps
          exact ⟨p, q, {
            escapes := escapesEnd_of_closesPattern hpattern.right
            rest := hfound.left
            line := hfound.right
            matched := hp
            lowered := hq
            mapped := hkeeps }⟩

/-!
## Reading the source
-/

theorem caseLowers_group {source : JsString} {p q : Pattern}
    (h : Kept source p q) :
    CaseLowers (groupSource source)
      (groupSource (lowerCasePattern latin1 source)) := by
  have hopen : Lowers "(?:".toList "(?:".toList :=
    Lowers.fixed rfl rfl rfl
  have hclose : Lowers [')'] [')'] :=
    Lowers.fixed rfl rfl rfl
  exact (hopen.caseLowers.append ⟨h.escapes, rfl⟩).append hclose.caseLowers

theorem reads_kept {source : JsString} {p q : Pattern}
    (h : Kept source p q) :
    Reads (groupSource (lowerCasePattern latin1 source))
      (loweredMatches source) := by
  have hcloses : Closes (lowerCasePattern latin1 source)
      (loweredMatches source) := by
    rw [loweredMatches, h.lowered]
    exact closes_of_compile h.lowered
  simpa [groupSource] using (readsAtom_group hcloses).reads

theorem caseLowers_around {slash value value' : JsString}
    (modifier : Modifier) (hslash : slash = [] ∨ slash = ['/'])
    (h : CaseLowers value value') :
    CaseLowers (wildcardAround slash value modifier)
      (wildcardAround slash value' modifier) := by
  apply around_rel (fun _ _ _ _ => CaseLowers.append) _ modifier hslash h
  exact fun s hs => (lowers_aroundText hs).caseLowers

theorem reads_constrained {before name source : JsString} {p q : Pattern}
    (modifier : Modifier) (hbefore : before.all isStatic = true)
    (h : Kept source p q) :
    exists lowered,
      CaseLowers (sourceOf wildcardFor
        (Segment.param before name (some source) modifier)) lowered ∧
      Reads lowered
        (wildcardMatches (Segment.param before name (some source) modifier)) := by
  have hvalue := caseLowers_group h
  have hopens : Opens (groupSource (lowerCasePattern latin1 source)) :=
    ⟨'(', _, rfl, by decide⟩
  have hwildcard := fun slash =>
    @wildcardFor_eq
      { slash, name, rest := constraintText (some source) ++ repeatText modifier
        optional := modifier = Modifier.question } (some source) modifier
      (constraintOf_param modifier (fun text htext => by
        rw [← Option.some.inj htext]
        exact h.line))
      (modifierOf_param (some source) modifier)
  have haround := fun slash hslash =>
    @reads_modified slash _ _ modifier hslash hopens (reads_kept h)
  rw [sourceOf, behind, wildcardMatches]
  split
  · refine ⟨_, ?_, haround ['/'] (Or.inr rfl)⟩
    rw [hwildcard]
    exact caseLowers_around modifier (Or.inr rfl) hvalue
  · refine ⟨'/' :: latin1.toLowerCase before ++ _, ?_,
      reads_append (reads_static hbefore) (haround [] (Or.inl rfl))⟩
    rw [hwildcard]
    exact (lowers_static hbefore).caseLowers.append
      (caseLowers_around modifier (Or.inl rfl) hvalue)

inductive SegmentKept : Segment -> Prop where
  | unconstrained {segment : Segment} (well : segment.wellFormed = true)
      (free : unconstrained segment = true) : SegmentKept segment
  | constrained {before name source : JsString} {modifier : Modifier}
      {p q : Pattern}
      (well : (Segment.param before name (some source) modifier).wellFormed =
        true)
      (kept : Kept source p q)
      (slash : before = [] ∨ modifier = Modifier.none ∨
        modifier = Modifier.question) :
      SegmentKept (Segment.param before name (some source) modifier)

theorem segmentKept_of_survives {segment : Segment}
    (hvalid : segment.isValid = true) (h : survives segment = true) :
    SegmentKept segment := by
  cases segment with
  | text static => exact SegmentKept.unconstrained hvalid rfl
  | params named after => exact SegmentKept.unconstrained hvalid rfl
  | param before name constraint modifier =>
      cases constraint with
      | none => exact SegmentKept.unconstrained hvalid rfl
      | some source =>
          simp only [Segment.isValid, isConstraint, Bool.and_eq_true] at hvalid
          simp only [survives, Bool.and_eq_true, Bool.or_eq_true,
            decide_eq_true_eq, or_assoc] at h
          rcases kept_of_survives hvalid.right.left.right h.left.left
            h.left.right with ⟨p, q, hkept⟩
          exact SegmentKept.constrained hvalid.left hkept h.right

theorem wildcardMatches_unconstrained {segment : Segment}
    (h : unconstrained segment = true) :
    wildcardMatches segment = Meaning.ofSet (SegmentCovers latin1 segment) := by
  cases segment with
  | text static => rfl
  | params named after => rfl
  | param before name constraint modifier =>
      cases constraint with
      | none => rfl
      | some source => exact absurd h Bool.false_ne_true

theorem reads_segmentKept {segment : Segment} (h : SegmentKept segment) :
    exists lowered, CaseLowers (sourceOf wildcardFor segment) lowered ∧
      Reads lowered (wildcardMatches segment) := by
  cases h with
  | unconstrained hwell hfree =>
      rcases reads_segment hwell hfree with
        ⟨lowered, hlowers, hreads⟩
      refine ⟨lowered, hlowers.caseLowers, ?_⟩
      rw [wildcardMatches_unconstrained hfree]
      exact hreads
  | constrained hwell hkept _ =>
      rw [Segment.wellFormed, Bool.and_eq_true] at hwell
      exact reads_constrained _ hwell.left hkept

theorem reads_routeKept {route : RoutePath}
    (h : forall segment, segment ∈ route -> SegmentKept segment) :
    exists lowered, CaseLowers (route.flatMap (sourceOf wildcardFor)) lowered ∧
      Reads lowered (wildcardsMatch route) := by
  induction route with
  | nil =>
      exact ⟨[], (Lowers.fixed rfl rfl rfl).caseLowers, reads_nil⟩
  | cons segment rest ih =>
      rcases reads_segmentKept (h segment List.mem_cons_self) with
        ⟨first, hfirst, hreads⟩
      rcases ih (fun other hother =>
        h other (List.mem_cons_of_mem segment hother)) with
        ⟨more, hmore, hrest⟩
      exact ⟨first ++ more, hfirst.append hmore, reads_append hreads hrest⟩

theorem tidy_segmentKept {segment : Segment} (h : SegmentKept segment)
    (hne : segment ≠ Segment.text []) :
    Tidy (sourceOf wildcardFor segment) := by
  cases h with
  | unconstrained hwell hfree =>
      exact tidy_segment hwell hfree hne
  | @constrained before name source modifier p q hwell hkept _ =>
      rw [Segment.wellFormed, Bool.and_eq_true] at hwell
      exact tidy_behind hwell.left
        (constraintOf_param modifier (fun text htext => by
          rw [← Option.some.inj htext]
          exact hkept.line))
        (modifierOf_param (some source) modifier)
        (fun text htext => by
          rw [← Option.some.inj htext]
          exact hkept.rest)

/-!
## Carrying a request path over to its key
-/

theorem isWordChar_latin1 (c : Char) :
    Pattern.isWordChar (latin1Char c) = Pattern.isWordChar c :=
  latin1Char_congr (by decide) c

theorem carries_kept {source : JsString} {p q : Pattern}
    (h : Kept source p q) :
    Carries latin1Char latin1Chars (asksEnd source = true)
      (constraintMatches source) (loweredMatches source) := by
  rw [constraintMatches, loweredMatches, asksEnd, h.matched, h.lowered]
  exact carries_of_mapsTo isWordChar_latin1 h.mapped

section Carrying

variable {more : Prop} {value value' : Meaning}

theorem carries_text {text : JsString}
    (h : text.map latin1Char = text) :
    Carries latin1Char latin1Chars more (Meaning.text text)
      (Meaning.text text) := by
  apply carries_ofSet
  intro mid _ hmid
  rw [show mid = text from hmid, h]

theorem carries_separated
    (h : Carries latin1Char latin1Chars more value value') :
    Carries latin1Char latin1Chars more (Meaning.separated value ['/'])
      (Meaning.separated value' ['/']) := by
  have hslash := @carries_text more ['/'] (by decide)
  exact carries_seq isWordChar_latin1 h
    (carries_star isWordChar_latin1
      (carries_seq isWordChar_latin1 hslash h Or.inl))
    Or.inl

theorem carries_modified (modifier : Modifier)
    (h : Carries latin1Char latin1Chars more value value') :
    Carries latin1Char latin1Chars more
      (modifiedMatches value ['/'] ['/'] modifier)
      (modifiedMatches value' ['/'] ['/'] modifier) := by
  have hslash := @carries_text more ['/'] (by decide)
  have hone := carries_seq isWordChar_latin1 hslash h Or.inl
  have hmany := carries_seq isWordChar_latin1 hslash (carries_separated h) Or.inl
  cases modifier with
  | none => exact hone
  | plus => exact hmany
  | question => exact carries_optional hone
  | star => exact carries_optional hmany

theorem carries_once {modifier : Modifier} {sep sep' : JsString}
    (hmodifier : modifier = Modifier.none ∨ modifier = Modifier.question)
    (h : Carries latin1Char latin1Chars more value value') :
    Carries latin1Char latin1Chars more
      (modifiedMatches value [] sep modifier)
      (modifiedMatches value' [] sep' modifier) := by
  have hone := carries_seq isWordChar_latin1
    (@carries_text more [] rfl) h Or.inl
  rcases hmodifier with rfl | rfl
  · exact hone
  · exact carries_optional hone

end Carrying

/-- The segment's constraint asks for the end of the path. -/
def segmentAsksEnd : Segment -> Bool
  | Segment.param _ _ (some source) _ => asksEnd source
  | _ => false

theorem carries_segmentKept {segment : Segment} (h : SegmentKept segment) :
    Carries latin1Char latin1Chars (segmentAsksEnd segment = true)
      segment.Matches (wildcardMatches segment) := by
  cases h with
  | unconstrained hwell hfree =>
      rw [wildcardMatches_unconstrained hfree]
      intro before mid after after' _ _ _ hmid
      exact segmentCovers_of_accepts hwell
        hfree
        ((matches_iff_accepts hfree).mp hmid)
  | @constrained before name source modifier p q hwell hkept hslash =>
      have hvalue := carries_kept hkept
      cases before with
      | nil => exact carries_modified modifier hvalue
      | cons c before =>
          have hmodifier := hslash.resolve_left (List.cons_ne_nil c before)
          have hbefore : Carries latin1Char latin1Chars (asksEnd source = true)
              (textMatches ('/' :: c :: before))
              (Meaning.text ('/' :: latin1.toLowerCase (c :: before))) := by
            apply carries_ofSet
            intro mid _ hmid
            exact hmid
          exact carries_seq isWordChar_latin1 hbefore
            (carries_once hmodifier hvalue) Or.inl

theorem carries_routeKept {route : RoutePath}
    (hvalid : forall segment, segment ∈ route -> segment.isValid = true)
    (h : allSurvive route = true) :
    Carries latin1Char latin1Chars False (RouteMatches route)
      (wildcardsMatch route) := by
  induction route with
  | nil =>
      intro before mid after after' _ _ _ hmid
      rw [show mid = [] from hmid]
      rfl
  | cons segment rest ih =>
      rw [allSurvive, Bool.and_eq_true, Bool.and_eq_true] at h
      have hrest := ih
        (fun other hother => hvalid other (List.mem_cons_of_mem segment hother))
        h.right
      have hsegment := carries_segmentKept
        (segmentKept_of_survives (hvalid segment List.mem_cons_self)
          h.left.left)
      apply carries_seq isWordChar_latin1 hsegment hrest
      intro hasks
      refine Or.inr (fun before mid after => routeMatches_ne_nil ?_)
      cases segment with
      | param before name constraint modifier =>
          cases constraint with
          | none => exact absurd hasks Bool.false_ne_true
          | some source =>
              have hfits := h.left.right
              rw [endFits, show asksEnd source = true from hasks] at hfits
              exact hfits
      | _ => exact absurd hasks Bool.false_ne_true

/-!
## Paths in normal form
-/

theorem isTail_of_lower {s : JsString} (h : IsTail (latin1.toLowerCase s)) :
    IsTail s := by
  cases s with
  | nil => exact Or.inl rfl
  | cons c s =>
      rcases h with hnil | hhead
      · exact absurd hnil (by simp [latin1])
      · have hc := latin1Char_eq (Option.some.inj hhead) (by decide) (by decide)
        exact Or.inr (by rw [hc]; rfl)

theorem modifiedMatches_head {value : Meaning} {modifier : Modifier}
    {before mid after : JsString}
    (h : modifiedMatches value ['/'] ['/'] modifier before mid after) :
    IsTail mid := by
  have hseq : forall M : Meaning,
      Meaning.seq (Meaning.text ['/']) M before mid after -> IsTail mid := by
    intro M hgiven
    rcases hgiven with ⟨x, y, hmid, hx, _⟩
    rw [hmid, show x = ['/'] from hx]
    exact Or.inr rfl
  cases modifier with
  | none => exact hseq _ h
  | plus => exact hseq _ h
  | question => exact h.elim (hseq _) Or.inl
  | star => exact h.elim (hseq _) Or.inl

theorem matches_head {segment : Segment} {before mid after : JsString}
    (h : segment.Matches before mid after) : IsTail mid := by
  by_cases hfree : unconstrained segment = true
  · exact isTail_of_lower (accepts_head ((matches_iff_accepts hfree).mp h))
  · cases segment with
    | text static => exact absurd rfl hfree
    | params named more => exact absurd rfl hfree
    | param front name constraint modifier =>
        cases constraint with
        | none => exact absurd rfl hfree
        | some source =>
            cases front with
            | nil => exact modifiedMatches_head h
            | cons c front =>
                rcases h with ⟨x, y, hmid, hx, _⟩
                have hne : x ≠ [] := by
                  intro hnil
                  rw [hnil] at hx
                  exact absurd hx.symm (List.cons_ne_nil _ _)
                have hhead : IsTail x := by
                  apply isTail_of_lower
                  rw [show latin1.toLowerCase x = _ from hx]
                  exact Or.inr rfl
                rw [hmid, IsTail, List.head?_append_of_ne_nil x hne]
                exact Or.inr (hhead.resolve_left hne)

theorem routeMatches_head {route : RoutePath} {before mid after : JsString}
    (h : RouteMatches route before mid after) : IsTail mid := by
  induction route generalizing before mid with
  | nil => exact Or.inl h
  | cons segment rest ih =>
      rcases h with ⟨x, y, hmid, hx, hy⟩
      rw [hmid]
      exact isTail_append (matches_head hx) (ih hy)

theorem routeMatches_no_empty {route : RoutePath}
    {before mid after : JsString} (hmid : Tidy mid)
    (h : RouteMatches route before mid after) : Segment.text [] ∉ route := by
  have hsplit : Segment.text [] ∈ route ->
      exists x z, mid = x ++ '/' :: z ∧ IsTail z := by
    clear hmid
    induction route generalizing before mid with
    | nil => exact fun hmem => absurd hmem List.not_mem_nil
    | cons segment rest ih =>
        rcases h with ⟨x, y, hmid, hx, hy⟩
        intro hmem
        rcases List.mem_cons.mp hmem with hsegment | hrest
        · subst hsegment
          rcases List.map_eq_singleton_iff.mp hx with ⟨c, rfl, hc⟩
          refine ⟨[], y, ?_, routeMatches_head hy⟩
          rw [hmid, latin1Char_eq hc (by decide) (by decide)]
          rfl
        · rcases ih hy hrest with ⟨s, z, hs, hz⟩
          exact ⟨x ++ s, z, by rw [hmid, hs, List.append_assoc], hz⟩
  intro hmem
  rcases hsplit hmem with ⟨x, z, heq, hz⟩
  rw [heq] at hmid
  exact not_tidy_slash hz hmid

theorem tidy_normalPath {path : JsString} (h : NormalPath path) : Tidy path := by
  rcases h with ⟨segs, _, hnormal, rfl⟩
  exact tidy_joinPath (fun seg hseg =>
    ⟨(hnormal seg hseg).nonempty, (hnormal seg hseg).oneSegment⟩)

theorem requestPath_taken {text after : JsString} (h : NormalPath text)
    (hafter : after = [] ∨ after = ['/']) :
    requestPath latin1 (text ++ after) = latin1.toLowerCase text := by
  rcases h with ⟨segs, hne, hnormal, rfl⟩
  rw [PosixPath.toLowerCase_joinPath]
  rcases hafter with rfl | rfl
  · have hpath := requestPath_joinPath latin1 hne hnormal (Or.inl rfl)
    rw [PosixPath.joinPath_append] at hpath
    exact hpath
  · have hpath := requestPath_joinPath latin1 hne hnormal (Or.inr rfl)
    rw [PosixPath.joinPath_append] at hpath
    exact hpath

/-!
## The pattern of a route
-/

/-- A configured route with these segments, as path-to-regexp accepts it. -/
structure Configured (config : CacheRouteConfig) (route : RoutePath) :
    Prop where
  path : config.path = render route
  paramNames : ':' ∈ config.path -> config.paramNames ≠ []
  valid : forall segment, segment ∈ route -> segment.isValid = true

structure Constrained (config : CacheRouteConfig) (route : RoutePath) :
    Prop where
  path : config.path = render route
  paramNames : config.paramNames ≠ []
  valid : forall segment, segment ∈ route -> segment.isValid = true

theorem Constrained.configured {config : CacheRouteConfig} {route : RoutePath}
    (h : Constrained config route) : Configured config route :=
  ⟨h.path, fun _ => h.paramNames, h.valid⟩

variable {config : CacheRouteConfig} {route : RoutePath}

theorem segmentKept_of_mem
    (hvalid : forall segment, segment ∈ route -> segment.isValid = true)
    (h : allSurvive route = true) {segment : Segment}
    (hmem : segment ∈ route) : SegmentKept segment := by
  induction route with
  | nil => exact absurd hmem List.not_mem_nil
  | cons first rest ih =>
      rw [allSurvive, Bool.and_eq_true, Bool.and_eq_true] at h
      rcases List.mem_cons.mp hmem with hfirst | hrest
      · subst hfirst
        exact segmentKept_of_survives (hvalid _ List.mem_cons_self) h.left.left
      · exact ih (fun other hother =>
          hvalid other (List.mem_cons_of_mem first hother)) h.right hrest

theorem constraintFits_of_kept {segment : Segment}
    (h : SegmentKept segment) : constraintFits segment = true := by
  cases h with
  | unconstrained hwell hfree =>
      exact constraintFits_of_unconstrained hfree
  | constrained hwell hkept _ => exact hkept.rest

theorem wellFormed_of_kept {segment : Segment}
    (h : SegmentKept segment) : segment.wellFormed = true := by
  cases h with
  | unconstrained hwell _ => exact hwell
  | constrained hwell _ _ => exact hwell

/-- The one pattern that a wildcard purge builds for the route. -/
theorem getRouteRegExp_constrained (h : Configured config route)
    (hsurvive : allSurvive route = true) (params : Option RouteParams) :
    exists (pattern : Pattern) (kept : RoutePath),
      getRouteRegExp latin1 config params true = Except.ok [pattern] ∧
        (Segment.text [] ∉ route -> kept = route) ∧
        forall text, pattern.test text = true <->
          exists mid after, text = mid ++ '?' :: after ∧
            wildcardsMatch kept [] mid ('?' :: after) := by
  have hkept := fun segment hmem =>
    @segmentKept_of_mem route h.valid hsurvive segment hmem
  rcases @wildcard_source latin1 config route h.path h.paramNames
    (fun segment hmem => ⟨wellFormed_of_kept (hkept segment hmem),
      constraintFits_of_kept (hkept segment hmem)⟩)
    (fun segment hmem => tidy_segmentKept (hkept segment hmem)) params with
    ⟨kept, hsources, hsubset, hsame⟩
  rcases reads_routeKept (fun segment hmem =>
      hkept segment (hsubset segment hmem)) with
    ⟨lowered, hlowers, hreads⟩
  rcases compile_anchored hreads with ⟨pattern, hcompile, htest⟩
  refine ⟨pattern, kept, ?_, hsame, htest⟩
  rw [getRouteRegExp, hsources, anchored, hlowers.letters, List.mapM_cons,
    hcompile]
  rfl

theorem sameHead_question {after suffix : JsString}
    (h : after = [] ∨ after = ['/']) : SameHead after ('?' :: suffix) := by
  rcases h with rfl | rfl <;> rfl

theorem test_key_of_taken (h : Configured config route)
    (hsurvive : allSurvive route = true) (params : Option RouteParams) :
    exists pattern,
      getRouteRegExp latin1 config params true = Except.ok [pattern] ∧
        forall ctx keys text, (forall c, c ∈ ctx.path -> c.toNat < 256) ->
          Takes route ctx.path text -> NormalPath text ->
          pattern.test (generateCacheKey latin1 ctx keys) = true := by
  rcases getRouteRegExp_constrained h hsurvive params with
    ⟨pattern, kept, hget, hsame, htest⟩
  refine ⟨pattern, hget, ?_⟩
  intro ctx keys text hlatin htakes hnormal
  rcases htakes with ⟨after, hpath, hafter, hroute⟩
  have hkept := hsame (routeMatches_no_empty (tidy_normalPath hnormal) hroute)
  have hchars : forall c, c ∈ text -> c ∈ latin1Chars := by
    intro c hc
    apply mem_latin1Chars
    apply hlatin
    rw [hpath]
    exact List.mem_append_left after hc
  rw [htest, generateCacheKey_eq_parts, hpath, requestPath_taken hnormal hafter,
    hkept]
  exact ⟨_, _, rfl, carries_routeKept h.valid hsurvive [] text after _ hchars
    (sameHead_question hafter) (fun hfalse => hfalse.elim) hroute⟩

end Config
end RestCache
