import RestCache.Config.WildcardCoverage

/-!
# The keys of a wildcard pattern

For a route path of texts and parameters that stand alone, the wildcard pattern
matches the keys of the accepted paths and no others, whatever is appended to a
key behind its question mark.
-/

namespace RestCache
namespace Config

open Foundation
open RegExpSource
open Router

variable {lower : CaseMapping}

def isSimple : Segment -> Bool
  | Segment.text static => static.all isStatic && static ≠ []
  | Segment.param before name constraint _ =>
      before = [] && isName name && constraint = none
  | Segment.params _ _ => false

structure KeyPath (lower : CaseMapping) (path : JsString) : Prop where
  lowerCase : lower.toLowerCase path = path
  no_question : '?' ∉ path
  no_hash : '#' ∉ path
  segments : exists segs : List JsString,
    (forall seg, seg ∈ segs -> seg ≠ [] ∧ '/' ∉ seg) ∧
      path = PosixPath.joinPath segs

theorem simple_cases {segment : Segment} (h : isSimple segment = true) :
    (exists static, segment = Segment.text static ∧
      static.all isStatic = true ∧ static ≠ []) ∨
    (exists name modifier, isName name = true ∧
      segment = Segment.param [] name none modifier) := by
  cases segment with
  | text static =>
      rw [isSimple, Bool.and_eq_true, decide_eq_true_eq] at h
      exact Or.inl ⟨static, rfl, h⟩
  | param before name constraint modifier =>
      simp only [isSimple, Bool.and_eq_true, decide_eq_true_eq] at h
      rcases h with ⟨⟨hbefore, hname⟩, hconstraint⟩
      subst hbefore hconstraint
      exact Or.inr ⟨name, modifier, hname, rfl⟩
  | params named after => exact absurd h Bool.false_ne_true

theorem simple_readable {segment : Segment} (h : isSimple segment = true) :
    segment.wellFormed = true ∧ unconstrained segment = true := by
  rcases simple_cases h with ⟨static, hseg, hstatic, _⟩ | ⟨name, modifier, hname, hseg⟩
  · rw [hseg]
    exact ⟨hstatic, rfl⟩
  · rw [hseg]
    exact ⟨hname, rfl⟩

theorem simple_whole {segment : Segment} (h : isSimple segment = true) :
    segment.isWhole = true := by
  rcases simple_cases h with ⟨static, hseg, _, hne⟩ | ⟨name, modifier, _, hseg⟩
  · rw [hseg]
    exact decide_eq_true hne
  · rw [hseg]
    rfl

theorem simple_nonempty {route : RoutePath}
    (h : forall segment, segment ∈ route -> isSimple segment = true) :
    Segment.text [] ∉ route := by
  intro hmem
  exact absurd (h _ hmem) Bool.false_ne_true

/-!
## Accepted paths end before a question mark
-/

theorem modified_all {value : JsString -> Prop} {p : Char -> Prop}
    {modifier : Modifier} {s : JsString} (hslash : p '/')
    (hvalue : forall v, value v -> forall c, c ∈ v -> p c)
    (h : Modified value ['/'] ['/'] modifier s) : forall c, c ∈ s -> p c := by
  have hone : (exists v, s = ['/'] ++ v ∧ value v) ->
      forall c, c ∈ s -> p c := by
    intro hgiven c hc
    rcases hgiven with ⟨v, hs, hv⟩
    rw [hs] at hc
    rcases List.mem_cons.mp hc with hhead | htail
    · exact hhead ▸ hslash
    · exact hvalue v hv c htail
  have hmany : Repeated value ['/'] ['/'] s -> forall c, c ∈ s -> p c := by
    intro hgiven c hc
    rcases hgiven with ⟨first, more, hs, hfirst, hmore⟩
    rw [hs, List.mem_append, List.mem_flatMap] at hc
    rcases hc with hc | ⟨v, hv, hc⟩
    · rcases List.mem_cons.mp hc with hhead | htail
      · exact hhead ▸ hslash
      · exact hvalue first hfirst c htail
    · rcases List.mem_cons.mp hc with hhead | htail
      · exact hhead ▸ hslash
      · exact hvalue v (hmore v hv) c htail
  cases modifier with
  | none => exact hone h
  | plus => exact hmany h
  | question =>
      rcases h with hnil | hvalue
      · simp [hnil]
      · exact hone hvalue
  | star =>
      rcases h with hnil | hvalue
      · simp [hnil]
      · exact hmany hvalue

theorem accepts_no_question {segment : Segment} {s : JsString}
    (hsimple : isSimple segment = true) (h : segment.Accepts lower s) :
    '?' ∉ s := by
  have hall : forall c, c ∈ s -> c ≠ '?' := by
    rcases simple_cases hsimple with
      ⟨static, hseg, hstatic, _⟩ | ⟨name, modifier, _, hseg⟩
    · subst hseg
      intro c hc
      rw [show s = '/' :: lower.toLowerCase static from h] at hc
      rcases List.mem_cons.mp hc with hhead | htail
      · rw [hhead]
        decide
      · exact ne_of_kind (isRest_lower hstatic htail) (by decide)
    · subst hseg
      have hvalue : forall v, valueAccepts none v ->
          forall c, c ∈ v -> c ≠ '?' :=
        fun v hv c hc => ne_of_kind (hv.right c hc) (by decide)
      exact @modified_all _ (fun c => c ≠ '?') modifier s (by decide) hvalue h
  exact fun hmem => hall '?' hmem rfl

theorem spells_no_question {route : RoutePath} {s : JsString}
    (hsimple : forall segment, segment ∈ route -> isSimple segment = true)
    (h : Spells lower route s) : '?' ∉ s := by
  induction route generalizing s with
  | nil =>
      rw [show s = [] from h]
      exact List.not_mem_nil
  | cons segment rest ih =>
      rcases h with ⟨x, y, hs, hx, hy⟩
      rw [hs, List.mem_append, not_or]
      constructor
      · exact accepts_no_question (hsimple segment List.mem_cons_self) hx
      · exact ih (fun other hother =>
          hsimple other (List.mem_cons_of_mem segment hother)) hy

theorem question_unique {path mid suffix after : JsString}
    (hpath : '?' ∉ path) (hmid : '?' ∉ mid)
    (h : path ++ '?' :: suffix = mid ++ '?' :: after) : mid = path := by
  induction path generalizing mid with
  | nil =>
      cases mid with
      | nil => rfl
      | cons c mid =>
          rw [← show '?' = c from (List.cons.inj h).left] at hmid
          exact absurd List.mem_cons_self hmid
  | cons d path ih =>
      cases mid with
      | nil =>
          rw [show d = '?' from (List.cons.inj h).left] at hpath
          exact absurd List.mem_cons_self hpath
      | cons c mid =>
          have hcons := List.cons.inj h
          rw [List.mem_cons, not_or] at hpath hmid
          rw [hcons.left, ih hpath.right hmid.right hcons.right]

theorem tidy_keyPath {path : JsString} (h : KeyPath lower path) :
    Tidy path := by
  rcases h.segments with ⟨segs, hsegs, hpath⟩
  rw [hpath]
  exact tidy_joinPath hsegs

/--
The wildcard pattern of a route path with parameters: one expression, which
matches a key exactly when the route accepts the key's path.
-/
theorem getRouteRegExp_iff_accepts {config : CacheRouteConfig}
    {route : RoutePath} (hpath : config.path = render route)
    (hnames : config.paramNames ≠ [])
    (hsimple : forall segment, segment ∈ route -> isSimple segment = true)
    (params : Option RouteParams) :
    exists pattern,
      getRouteRegExp lower config params true = Except.ok [pattern] ∧
        forall path suffix, KeyPath lower path ->
          (pattern.test (path ++ '?' :: suffix) = true <->
            Accepts lower route path) := by
  have hspelled : Spelled config route :=
    { path := hpath
      paramNames := fun _ => hnames
      readable := fun segment hsegment =>
        simple_readable (hsimple segment hsegment) }
  have hwhole : forall segment, segment ∈ route -> segment.isWhole = true :=
    fun segment hsegment => simple_whole (hsimple segment hsegment)
  rcases getRouteRegExp_wildcard hspelled params with
    ⟨pattern, kept, hget, hsame, htest⟩
  rw [hsame (simple_nonempty hsimple)] at htest
  refine ⟨pattern, hget, ?_⟩
  intro path suffix hkey
  rw [htest]
  constructor
  · intro hgiven
    rcases hgiven with ⟨mid, after, htext, hcovers⟩
    have hspells := spells_of_covers hspelled.readable hwhole hcovers
    have hmid := question_unique hkey.no_question
      (spells_no_question hsimple hspells) htext
    apply Or.inl
    rw [hkey.lowerCase, ← hmid]
    exact hspells
  · intro haccepts
    have hlast : (lower.toLowerCase path).getLast? ≠ some '/' := by
      rw [hkey.lowerCase]
      exact (tidy_keyPath hkey).last
    have hspells := spells_of_accepts haccepts hlast
    rw [hkey.lowerCase] at hspells
    exact ⟨path, suffix, rfl, covers_of_spells hspelled.readable hspells⟩

/-!
## An example
-/

def docsRoute : RoutePath :=
  [Segment.text "docs".toList,
    Segment.param [] "section".toList none Modifier.question,
    Segment.param [] "page".toList none Modifier.star]

def docsConfigured : CacheRouteConfig where
  path := "/docs/:section?/:page*".toList
  method := "GET".toList
  paramNames := ["section?".toList, "page*".toList]

theorem docs_getRouteRegExp :
    exists pattern,
      getRouteRegExp CaseMapping.latin1 docsConfigured none true =
          Except.ok [pattern] ∧
        forall path suffix, KeyPath CaseMapping.latin1 path ->
          (pattern.test (path ++ '?' :: suffix) = true <->
            Accepts CaseMapping.latin1 docsRoute path) :=
  @getRouteRegExp_iff_accepts _ docsConfigured docsRoute rfl (by decide)
    (by decide) none

end Config
end RestCache
