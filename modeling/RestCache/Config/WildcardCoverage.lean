import RestCache.Config.WildcardPattern
import RestCache.Keys.CacheKey

/-!
# What a wildcard purge covers

The expression that a wildcard purge builds for a route covers every path the
route accepts, and for a route of whole segments it covers no other path.
-/

namespace RestCache
namespace Config

open Foundation
open RegExpSource
open Router

variable {lower : CaseMapping}

/-!
## The expression of a route
-/

theorem tidy_parameter {segment : Segment}
    (parameter : Parameter lower segment) :
    Tidy (sourceOf wildcardFor segment) := by
  rw [parameter.source]
  exact tidy_behind parameter.static parameter.constraintOf_eq
    parameter.modifierOf_eq (fun source hsource => absurd hsource (by simp))

theorem tidy_segment {segment : Segment} (hwell : segment.wellFormed = true)
    (hfree : unconstrained segment = true) (hne : segment ≠ Segment.text []) :
    Tidy (sourceOf wildcardFor segment) := by
  rcases @text_or_parameter CaseMapping.latin1 segment hwell hfree with
    ⟨static, rfl, hstatic⟩ | ⟨⟨parameter⟩⟩
  · apply tidy_text hstatic
    intro h
    subst h
    exact hne rfl
  · exact tidy_parameter parameter

theorem constraintFits_of_unconstrained {segment : Segment}
    (h : unconstrained segment = true) : constraintFits segment = true := by
  cases segment with
  | param before name constraint modifier =>
      cases constraint with
      | none => rfl
      | some source => exact absurd h Bool.false_ne_true
  | _ => rfl

theorem sources_of_no_param {replace : ParamToken -> JsString}
    {route : RoutePath} (h : ':' ∉ render route)
    (hwell : forall segment, segment ∈ route -> segment.wellFormed = true) :
    route.flatMap (sourceOf replace) = render route := by
  induction route with
  | nil => rfl
  | cons segment rest ih =>
      have hrender : render (segment :: rest) =
          segment.render ++ render rest := rfl
      rw [hrender, List.mem_append, not_or] at h
      have hrest := ih h.right
        (fun other hother => hwell other (List.mem_cons_of_mem segment hother))
      have hsegment : sourceOf replace segment = segment.render := by
        cases segment with
        | text static => rfl
        | param before name constraint modifier =>
            exact absurd (by simp [Segment.render]) h.left
        | params named after =>
            cases named with
            | nil =>
                have hfalse := hwell _ List.mem_cons_self
                exact absurd hfalse Bool.false_ne_true
            | cons z more =>
                exact absurd (by simp [Segment.render, namedText]) h.left
      rw [List.flatMap_cons, hrest, hsegment, hrender]

/-- A configured route whose path has these segments, none with a constraint. -/
structure Spelled (config : CacheRouteConfig) (route : RoutePath) : Prop where
  path : config.path = render route
  paramNames : ':' ∈ config.path -> config.paramNames ≠ []
  readable : Readable route

theorem wildcard_source {config : CacheRouteConfig} {route : RoutePath}
    (hpath : config.path = render route)
    (hparams : ':' ∈ config.path -> config.paramNames ≠ [])
    (hfits : forall segment, segment ∈ route ->
      segment.wellFormed = true ∧ constraintFits segment = true)
    (htidy : forall segment, segment ∈ route -> segment ≠ Segment.text [] ->
      Tidy (sourceOf wildcardFor segment)) (params : Option RouteParams) :
    exists kept : RoutePath,
      routeSources lower config params true =
          [anchored lower (kept.flatMap (sourceOf wildcardFor))] ∧
        (forall segment, segment ∈ kept -> segment ∈ route) ∧
        (Segment.text [] ∉ route -> kept = route) := by
  by_cases hnames : config.paramNames = []
  · have hcolon : ':' ∉ render route := by
      intro hmem
      rw [← hpath] at hmem
      exact hparams hmem hnames
    refine ⟨route, ?_, fun _ hmem => hmem, fun _ => rfl⟩
    unfold routeSources
    rw [if_pos hnames, hpath, sources_of_no_param hcolon
      (fun segment hsegment => (hfits segment hsegment).left)]
  · have hreplace : replaceParams wildcardFor config.path =
        route.flatMap (sourceOf wildcardFor) := by
      rw [hpath]
      exact replaceParams_render hfits
    rcases collapseSlashes_sources config.paramNames.length htidy with
      ⟨kept, hkept, hsubset, hsame⟩
    refine ⟨kept, ?_, hsubset, hsame⟩
    unfold routeSources
    rw [if_neg hnames, if_pos rfl, hreplace, hkept]

/--
The one expression that a wildcard purge builds for a route: it matches the
covered paths, up to the question mark behind them.
-/
theorem getRouteRegExp_wildcard {config : CacheRouteConfig}
    {route : RoutePath} (h : Spelled config route)
    (params : Option RouteParams) :
    exists (p : Pattern) (kept : RoutePath),
      getRouteRegExp lower config params true = Except.ok [p] ∧
        (Segment.text [] ∉ route -> kept = route) ∧
        forall text, p.test text = true <->
          exists mid after, text = mid ++ '?' :: after ∧
            Covers lower kept mid := by
  rcases @wildcard_source lower config route h.path h.paramNames
    (fun segment hsegment => ⟨(h.readable segment hsegment).left,
      constraintFits_of_unconstrained (h.readable segment hsegment).right⟩)
    (fun segment hsegment => tidy_segment (h.readable segment hsegment).left
      (h.readable segment hsegment).right) params with
    ⟨kept, hsource, hsubset, hsame⟩
  rcases reads_route (fun segment hsegment =>
    h.readable segment (hsubset segment hsegment)) with
    ⟨source, hlowers, hreads⟩
  rcases compile_anchored hreads with ⟨p, hcompile, htest⟩
  refine ⟨p, kept, ?_, hsame, htest⟩
  rw [getRouteRegExp, hsource, anchored, hlowers.eq lower]
  rw [List.mapM_cons, hcompile]
  rfl

/-!
## Accepted paths are covered
-/

theorem repeated_value {s : JsString}
    (h : Repeated (valueAccepts none) [] [] s) :
    valueAccepts none s := by
  rcases h with ⟨first, more, hs, hfirst, hmore⟩
  constructor
  · rw [hs]
    simp [hfirst.left]
  · intro c hc
    rw [hs, List.nil_append, List.mem_append, List.mem_flatMap] at hc
    rcases hc with hc | ⟨other, hother, hc⟩
    · exact hfirst.right c hc
    · exact (hmore other hother).right c hc

theorem repeated_of_value {value : JsString -> Prop}
    {slash sep s : JsString} (h : value s) :
    Repeated value slash sep (slash ++ s) :=
  ⟨s, [], by simp, h, fun _ hnil => absurd hnil List.not_mem_nil⟩

theorem modified_of_accepts {modifier : Modifier} {s : JsString}
    (h : Modified (valueAccepts none) [] [] modifier s) :
    Modified (valueAccepts none) [] ['/'] modifier s := by
  cases modifier with
  | none => exact h
  | question => exact h
  | plus => exact @repeated_of_value _ [] ['/'] s (repeated_value h)
  | star =>
      exact h.imp id
        (fun hs => @repeated_of_value _ [] ['/'] s (repeated_value hs))

theorem isRest_lower {static : JsString} (h : static.all isStatic = true)
    {c : Char} (hc : c ∈ lower.toLowerCase static) : isRest c = true := by
  rw [lower.ascii static (fun d hd => ((isAsciiLine_static h) d hd).left)] at hc
  rcases List.mem_map.mp hc with ⟨d, hd, rfl⟩
  exact isRest_of_kind (isStatic_toLower (List.all_eq_true.mp h d hd))
    (by decide) (by decide) (by decide)

theorem isRest_of_namedAccepts {named : List (JsString × JsString)}
    {after s : JsString}
    (hnamed : named.all (fun z => endsName z.1 && isName z.2) = true)
    (hafter : endsName after = true) (h : namedAccepts lower named after s) :
    forall c, c ∈ s -> isRest c = true := by
  induction named generalizing s with
  | nil =>
      intro c hc
      rw [show s = lower.toLowerCase after from h] at hc
      exact isRest_lower (endsName_static hafter).left hc
  | cons z named ih =>
      rw [List.all_cons, Bool.and_eq_true, Bool.and_eq_true] at hnamed
      rcases h with ⟨v, rest, hs, hv, hrest⟩
      intro c hc
      rw [hs, List.mem_append, List.mem_append] at hc
      rcases hc with (hc | hc) | hc
      · exact isRest_lower (endsName_static hnamed.left.left).left hc
      · exact hv.right c hc
      · exact ih hnamed.right hrest c hc

theorem segmentCovers_of_accepts {segment : Segment} {s : JsString}
    (hwell : segment.wellFormed = true)
    (hfree : unconstrained segment = true)
    (h : segment.Accepts lower s) : SegmentCovers lower segment s := by
  cases segment with
  | text static => exact h
  | param before name constraint modifier =>
      cases constraint with
      | some source => exact absurd hfree Bool.false_ne_true
      | none =>
          cases before with
          | nil => exact h
          | cons c before =>
              rcases h with ⟨t, hs, ht⟩
              exact ⟨t, hs, modified_of_accepts ht⟩
  | params named after =>
      cases named with
      | nil => exact absurd hwell Bool.false_ne_true
      | cons z more =>
          simp only [Segment.wellFormed, Bool.and_eq_true] at hwell
          rcases hwell with ⟨⟨⟨⟨hbefore, _⟩, hmore⟩, hafter⟩, _⟩
          rcases h with ⟨t, hs, v, rest, ht, hv, hrest⟩
          have hvalue : valueAccepts none (v ++ rest) := by
            refine ⟨by simp [hv.left], ?_⟩
            intro c hc
            rcases List.mem_append.mp hc with hc | hc
            · exact hv.right c hc
            · exact isRest_of_namedAccepts (by simpa using hmore) hafter
                hrest c hc
          show BehindCovers lower z.1 Modifier.none s
          rw [BehindCovers]
          split
          · rename_i hnil
            rw [hnil, lower.toLowerCase_nil] at ht
            exact ⟨v ++ rest, by simp [hs, ht], hvalue⟩
          · exact ⟨v ++ rest, by simp [hs, ht], v ++ rest, rfl, hvalue⟩

theorem covers_of_spells {route : RoutePath} {s : JsString}
    (hreadable : Readable route) (h : Spells lower route s) :
    Covers lower route s := by
  induction route generalizing s with
  | nil => exact h
  | cons segment rest ih =>
      rcases h with ⟨x, y, hs, hx, hy⟩
      have hsegment := hreadable segment List.mem_cons_self
      exact ⟨x, y, hs,
        segmentCovers_of_accepts hsegment.left hsegment.right hx,
        ih (fun other hother => hreadable other (List.mem_cons_of_mem segment hother)) hy⟩

theorem accepts_of_covers {segment : Segment} {s : JsString}
    (hfree : unconstrained segment = true) (hwhole : segment.isWhole = true)
    (h : SegmentCovers lower segment s) : segment.Accepts lower s := by
  cases segment with
  | text static => exact h
  | param before name constraint modifier =>
      have hnil : before = [] := by
        simpa [Segment.isWhole] using hwhole
      subst hnil
      cases constraint with
      | none => exact h
      | some source => exact absurd hfree Bool.false_ne_true
  | params named after => exact absurd hwhole Bool.false_ne_true

theorem spells_of_covers {route : RoutePath} {s : JsString}
    (hreadable : Readable route)
    (hwhole : forall segment, segment ∈ route -> segment.isWhole = true)
    (h : Covers lower route s) : Spells lower route s := by
  induction route generalizing s with
  | nil => exact h
  | cons segment rest ih =>
      rcases h with ⟨x, y, hs, hx, hy⟩
      exact ⟨x, y, hs,
        accepts_of_covers (hreadable segment List.mem_cons_self).right
          (hwhole segment List.mem_cons_self) hx,
        ih (fun other hother => hreadable other (List.mem_cons_of_mem segment hother))
          (fun other hother => hwhole other (List.mem_cons_of_mem segment hother)) hy⟩

/-!
## Normal paths
-/

theorem modified_head {value : JsString -> Prop} {modifier : Modifier}
    {s : JsString} (h : Modified value ['/'] ['/'] modifier s) : IsTail s := by
  have hrepeated : Repeated value ['/'] ['/'] s -> IsTail s := by
    intro hgiven
    rcases hgiven with ⟨first, more, hs, _⟩
    rw [hs]
    exact Or.inr rfl
  cases modifier with
  | none =>
      rcases h with ⟨v, hs, _⟩
      rw [hs]
      exact Or.inr rfl
  | question =>
      rcases h with hnil | ⟨v, hs, _⟩
      · exact Or.inl hnil
      · rw [hs]
        exact Or.inr rfl
  | plus => exact hrepeated h
  | star => exact h.elim Or.inl hrepeated

theorem isTail_append {s t : JsString} (hs : IsTail s) (ht : IsTail t) :
    IsTail (s ++ t) := by
  rcases hs with hnil | hslash
  · rw [hnil]
    exact ht
  · cases s with
    | nil => exact ht
    | cons c s => exact Or.inr hslash

theorem accepts_head {segment : Segment} {s : JsString}
    (h : segment.Accepts lower s) : IsTail s := by
  cases segment with
  | text static =>
      rw [show s = '/' :: lower.toLowerCase static from h]
      exact Or.inr rfl
  | param before name constraint modifier =>
      cases before with
      | nil => exact modified_head h
      | cons c before =>
          rcases h with ⟨t, hs, _⟩
          rw [hs]
          exact Or.inr rfl
  | params named after =>
      rcases h with ⟨t, hs, _⟩
      rw [hs]
      exact Or.inr rfl

theorem not_tidy_slash {s t : JsString} (ht : IsTail t) :
    ¬ Tidy (s ++ '/' :: t) := by
  intro h
  rcases ht with hnil | hhead
  · apply h.last
    rw [hnil, List.getLast?_concat]
  · cases t with
    | nil => exact absurd hhead (by simp)
    | cons c t =>
        have hsingle := h.single
        rw [show c = '/' from Option.some.inj hhead] at hsingle
        exact not_noDoubleSlash s t hsingle

theorem tidy_joinPath {segs : List JsString}
    (h : forall seg, seg ∈ segs -> seg ≠ [] ∧ '/' ∉ seg) :
    Tidy (PosixPath.joinPath segs) := by
  induction segs with
  | nil => exact ⟨rfl, by decide⟩
  | cons seg rest ih =>
      rcases h seg List.mem_cons_self with ⟨hne, hslash⟩
      have hhead : seg.head? ≠ some '/' :=
        fun hhead => hslash (List.mem_of_mem_head? hhead)
      have hrest := ih (fun other hother => h other (List.mem_cons_of_mem seg hother))
      rw [PosixPath.joinPath_cons, ← List.cons_append]
      exact ((tidy_of_not_slash hslash).slash hne hhead).append hrest

/-!
## The keys of a route
-/

section Keys

open Keys

/-- The path of a request has at least one segment, and each is a plain one. -/
def NormalPath (path : JsString) : Prop :=
  exists segs, segs ≠ [] ∧ (forall seg, seg ∈ segs -> PosixPath.Normal seg) ∧
    path = PosixPath.joinPath segs

theorem lower_normalPath {path : JsString} (h : NormalPath path) :
    Tidy (lower.toLowerCase path) ∧
      requestPath lower path = lower.toLowerCase path := by
  rcases h with ⟨segs, hne, hnormal, rfl⟩
  have hlower := PosixPath.toLowerCase_joinPath lower segs
  constructor
  · rw [hlower]
    apply tidy_joinPath
    intro seg hseg
    rcases List.mem_map.mp hseg with ⟨raw, hraw, rfl⟩
    exact ⟨fun hnil =>
        (hnormal raw hraw).nonempty (lower.toLowerCase_eq_nil hnil),
      not_slash_toLowerCase lower (hnormal raw hraw).oneSegment⟩
  · have hpath := requestPath_joinPath lower hne hnormal (Or.inl rfl)
    rw [List.append_nil] at hpath
    rw [hpath, hlower]

def pathOnly : CacheKeysConfig where
  useHeaders := []
  useQueryParams := UseQueryParams.bool false
  useAuth := false

theorem split_question {mid after path suffix : JsString}
    (hpath : '?' ∉ path) (hsuffix : '?' ∉ suffix)
    (h : path ++ '?' :: suffix = mid ++ '?' :: after) : mid = path := by
  rcases List.append_eq_append_iff.mp h with
    ⟨more, hmid, hrest⟩ | ⟨more, hmid, hrest⟩
  · cases more with
    | nil => simpa using hmid
    | cons c more =>
        have hmem : '?' ∈ suffix := by
          rw [(List.cons.inj hrest).right]
          simp
        exact absurd hmem hsuffix
  · cases more with
    | nil => simpa using hmid.symm
    | cons c more =>
        have hmem : '?' ∈ path := by
          rw [hmid, ← show '?' = c from (List.cons.inj hrest).left]
          simp
        exact absurd hmem hpath

end Keys

end Config
end RestCache
