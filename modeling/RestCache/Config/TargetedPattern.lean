import RestCache.Config.ParamEncoding
import RestCache.Config.WildcardKeys

/-!
# The keys of a targeted pattern

A targeted purge puts its values in the place of a route path's parameters.  For
a route path of texts and plain parameters the expression matches the keys whose
path holds an encoding of every value, and no others.
-/

namespace RestCache
namespace Config

open Foundation
open RegExpSource
open Router

variable {lower : CaseMapping}

/-- Some text, or one parameter without a constraint or a modifier. -/
def isPlain : Segment -> Bool
  | Segment.text static => static.all isStatic && static ≠ []
  | Segment.param before name constraint modifier =>
      before = [] && isName name && constraint = none &&
        modifier = Modifier.none
  | Segment.params _ _ => false

/-- The values of a route path's parameters are given, each of one segment. -/
def GivesValues (params : RouteParams) (route : RoutePath) : Prop :=
  forall name, Segment.param [] name none Modifier.none ∈ route ->
    exists value, params.lookup name = some value ∧ value ≠ [] ∧ '/' ∉ value

section Substitution

variable (lower : CaseMapping) (literal : Char -> Bool) (params : RouteParams)

def SegmentSubstituted : Segment -> JsString -> Prop
  | Segment.text static, s => s = '/' :: lower.toLowerCase static
  | Segment.param _ name _ _, s =>
      exists value text, params.lookup name = some value ∧
        Encodes literal value text ∧ s = '/' :: lower.toLowerCase text
  | Segment.params _ _, _ => False

/-- The path of the route with its values. -/
def Substituted : RoutePath -> JsString -> Prop
  | [], s => s = []
  | segment :: rest, s =>
      exists x y, s = x ++ y ∧ SegmentSubstituted lower literal params segment x ∧
        Substituted rest y

end Substitution

def valueOf (params : RouteParams) (token : ParamToken) : JsString :=
  (paramValue params token).getD []

theorem plain_cases {segment : Segment} (h : isPlain segment = true) :
    (exists static, segment = Segment.text static ∧
      static.all isStatic = true ∧ static ≠ []) ∨
    (exists name, isName name = true ∧
      segment = Segment.param [] name none Modifier.none) := by
  cases segment with
  | text static =>
      rw [isPlain, Bool.and_eq_true, decide_eq_true_eq] at h
      exact Or.inl ⟨static, rfl, h⟩
  | param before name constraint modifier =>
      simp only [isPlain, Bool.and_eq_true, decide_eq_true_eq] at h
      rcases h with ⟨⟨⟨hbefore, hname⟩, hconstraint⟩, hmodifier⟩
      subst hbefore hconstraint hmodifier
      exact Or.inr ⟨name, hname, rfl⟩
  | params named after => exact absurd h Bool.false_ne_true

theorem plain_simple {segment : Segment} (h : isPlain segment = true) :
    isSimple segment = true := by
  rcases plain_cases h with ⟨static, hseg, hstatic, hne⟩ | ⟨name, hname, hseg⟩
  · rw [hseg, isSimple, hstatic]
    exact decide_eq_true hne
  · rw [hseg, isSimple, hname]
    rfl

/-!
## The source of a segment
-/

variable {params : RouteParams}

def plainToken (name : JsString) : ParamToken where
  slash := ['/']
  name := name
  rest := []
  optional := false

theorem valueOf_plainToken {name value : JsString}
    (h : params.lookup name = some value) :
    valueOf params (plainToken name) = '/' :: paramToPattern value := by
  have hvalue : paramValue params (plainToken name) =
      some ('/' :: paramToPattern value) := by
    rw [paramValue, show (plainToken name).name = name from rfl, h,
      Option.map_some]
    simp [plainToken, modifierOf]
  rw [valueOf, hvalue]
  rfl

theorem encodes_ascii {value text : JsString}
    (h : Encodes isPathLiteral value text) :
    forall c, c ∈ text -> c.toNat < 128 := by
  have hall := @encodes_all (fun c => c.toNat < 128) isPathLiteral value text
    (fun d hd => decide_eq_true (escapeChar_facts hd).left)
    (fun c hc _ _ => decide_eq_true (isPrintable_ascii hc).left)
    (fun c hc => decide_eq_true (isPathLiteral_ascii hc)) h
  exact fun c hc => of_decide_eq_true (List.all_eq_true.mp hall c hc)

theorem encodes_no_question {value text : JsString}
    (h : Encodes isPathLiteral value text) : '?' ∉ text := by
  have hall := @encodes_all (fun c => c ≠ '?') isPathLiteral value text
    (fun d hd => decide_eq_true (ne_of_kind hd (by decide)))
    (fun c _ _ hc => decide_eq_true hc)
    (fun c hc => decide_eq_true (ne_of_kind hc (by decide +kernel))) h
  intro hmem
  exact of_decide_eq_true (List.all_eq_true.mp hall '?' hmem) rfl

theorem isPathLiteral_eq {c : Char} (h : c ≠ '/') :
    isPathLiteral c = isPathChar c := by
  by_cases hascii : c.toNat < 128
  · exact @CaseMapping.of_ascii
      (fun c => c ≠ '/' -> isPathLiteral c = isPathChar c)
      (by decide +kernel) c hascii h
  · have hliteral : isPathLiteral c = false := by
      rw [Bool.eq_false_iff]
      exact fun hc => hascii (isPathLiteral_ascii hc)
    have hchar : isPathChar c = false := by
      rw [Bool.eq_false_iff]
      exact fun hc => hascii (isPathChar_ascii hc)
    rw [hliteral, hchar]

theorem encodes_literal_iff {value text : JsString} (h : '/' ∉ value) :
    Encodes isPathLiteral value text <-> Encodes isPathChar value text := by
  apply encodes_congr
  intro c hc
  apply isPathLiteral_eq
  intro hslash
  rw [hslash] at hc
  exact h hc

theorem stands_slash : Stands ['/'] (fun s => s = ['/']) :=
  ⟨['/'], Lowers.fixed rfl rfl rfl, reads_slash⟩

theorem stands_value {value : JsString} (h : '/' ∉ value) :
    Stands ('/' :: paramToPattern value) (fun s =>
      exists text, Encodes isPathChar value text ∧
        s = '/' :: lower.toLowerCase text) := by
  apply stands_slash.append (stands_paramToPattern value)
  intro mid
  constructor
  · intro hgiven
    rcases hgiven with ⟨text, htext, hmid⟩
    have hliteral := (encodes_literal_iff h).mpr htext
    refine ⟨['/'], text.map Char.toLower, ?_, rfl, text, hliteral, rfl⟩
    rw [hmid, lower.ascii text (encodes_ascii hliteral)]
    rfl
  · intro hgiven
    rcases hgiven with ⟨x, y, hmid, hx, text, htext, hy⟩
    refine ⟨text, (encodes_literal_iff h).mp htext, ?_⟩
    rw [hmid, hx, hy, lower.ascii text (encodes_ascii htext)]
    rfl

theorem stands_plain {segment : Segment} (hplain : isPlain segment = true)
    (hvalue : forall name, segment = Segment.param [] name none Modifier.none ->
      exists value, params.lookup name = some value ∧ value ≠ [] ∧
        '/' ∉ value) :
    Stands (sourceOf (valueOf params) segment)
        (SegmentSubstituted lower isPathChar params segment) ∧
      Tidy (sourceOf (valueOf params) segment) := by
  rcases plain_cases hplain with
    ⟨static, hseg, hstatic, hne⟩ | ⟨name, hname, hseg⟩
  · subst hseg
    exact ⟨⟨'/' :: lower.toLowerCase static, lowers_static hstatic,
      reads_static hstatic⟩, tidy_text hstatic hne⟩
  · subst hseg
    rcases hvalue name rfl with ⟨value, hlookup, hne, hslash⟩
    have hsource : sourceOf (valueOf params)
        (Segment.param [] name none Modifier.none) =
          '/' :: paramToPattern value :=
      valueOf_plainToken hlookup
    rw [hsource]
    constructor
    · apply (@stands_value lower value hslash).congr
      intro s
      constructor
      · intro h
        rcases h with ⟨text, htext, hs⟩
        exact ⟨value, text, hlookup, htext, hs⟩
      · intro h
        rcases h with ⟨other, text, hother, htext, hs⟩
        rw [hlookup, Option.some.injEq] at hother
        subst hother
        exact ⟨text, htext, hs⟩
    · have hall := @paramToPattern_all (fun c => c ≠ '/') value
        (fun d hd => decide_eq_true (escapeChar_facts hd).right.right.right.left)
        (by decide)
        (List.all_eq_true.mpr (fun c hc =>
          decide_eq_true (fun heq => hslash (heq ▸ hc))))
      have hpattern : '/' ∉ paramToPattern value :=
        fun hmem => of_decide_eq_true (List.all_eq_true.mp hall '/' hmem) rfl
      apply (tidy_of_not_slash hpattern).slash (paramToPattern_ne_nil hne)
      exact fun hhead => hpattern (List.mem_of_mem_head? hhead)

theorem stands_route {route : RoutePath}
    (hplain : forall segment, segment ∈ route -> isPlain segment = true)
    (hvalues : GivesValues params route) :
    Stands (route.flatMap (sourceOf (valueOf params)))
      (Substituted lower isPathChar params route) := by
  induction route with
  | nil => exact stands_nil
  | cons segment rest ih =>
      have hsegment := @stands_plain lower params segment
        (hplain segment List.mem_cons_self)
        (fun name heq => hvalues name (heq ▸ List.mem_cons_self))
      have hrest := ih
        (fun other hother => hplain other (List.mem_cons_of_mem segment hother))
        (fun name hname => hvalues name (List.mem_cons_of_mem segment hname))
      exact hsegment.left.append hrest (fun _ => Iff.rfl)

/-!
## The expression of a route
-/

/-- Leave a mark where a value is missing. -/
def marked (params : RouteParams) (token : ParamToken) : JsString :=
  if (paramValue params token).isSome then token.slash else ['#']

theorem resolved_of_unmarked {path : JsString}
    (h : '#' ∉ replaceParams (marked params) path) :
    resolved params path = true := by
  rw [resolved, List.all_eq_true]
  intro part hpart
  cases part with
  | inl c => rfl
  | inr token =>
      show (paramValue params token).isSome = true
      by_contra hnone
      apply h
      apply List.mem_flatMap.mpr
      refine ⟨Sum.inr token, hpart, ?_⟩
      rw [Sum.elim_inr, marked, if_neg hnone]
      exact List.mem_cons_self

theorem marked_given {token : ParamToken} {value : JsString}
    (h : params.lookup token.name = some value) :
    marked params token = token.slash := by
  have hsome : (paramValue params token).isSome = true := by
    rw [paramValue, h]
    rfl
  rw [marked, if_pos hsome]

theorem resolved_render {route : RoutePath}
    (hplain : forall segment, segment ∈ route -> isPlain segment = true)
    (hvalues : GivesValues params route) :
    resolved params (render route) = true := by
  apply resolved_of_unmarked
  rw [replaceParams_render (fun segment hsegment => by
    have hsimple := plain_simple (hplain segment hsegment)
    have hread := @simple_readable segment hsimple
    exact ⟨hread.left, constraintFits_of_unconstrained hread.right⟩)]
  intro hmem
  rcases List.mem_flatMap.mp hmem with ⟨segment, hsegment, hmark⟩
  rcases plain_cases (hplain segment hsegment) with
    ⟨static, hseg, hstatic, _⟩ | ⟨name, _, hseg⟩
  · subst hseg
    rcases List.mem_cons.mp hmark with hslash | hmark
    · exact absurd hslash (by decide)
    · exact absurd (List.all_eq_true.mp hstatic '#' hmark) (by decide)
  · subst hseg
    rcases hvalues name hsegment with ⟨value, hlookup, _⟩
    have hsource : sourceOf (marked params)
        (Segment.param [] name none Modifier.none) =
          marked params (plainToken name) :=
      rfl
    rw [hsource, @marked_given params (plainToken name) value hlookup] at hmark
    exact absurd hmark (show '#' ∉ ['/'] by decide)

/-- The source of a route with the values in the place of its parameters. -/
theorem targeted_source {config : CacheRouteConfig} {route : RoutePath}
    (hpath : config.path = render route)
    (hnames : ':' ∈ config.path -> config.paramNames ≠ [])
    (hplain : forall segment, segment ∈ route -> isPlain segment = true)
    (hvalues : GivesValues params route) :
    routeSources lower config (some params) false =
      [anchored lower (route.flatMap (sourceOf (valueOf params)))] := by
  have hsimple : forall segment, segment ∈ route -> isSimple segment = true :=
    fun segment hsegment => plain_simple (hplain segment hsegment)
  have hread := fun segment hsegment =>
    @simple_readable segment (hsimple segment hsegment)
  have hwell : forall segment, segment ∈ route -> segment.wellFormed = true :=
    fun segment hsegment => (hread segment hsegment).left
  by_cases hnone : config.paramNames = []
  · have hcolon : ':' ∉ render route := by
      intro hmem
      rw [← hpath] at hmem
      exact hnames hmem hnone
    unfold routeSources
    rw [if_pos hnone, hpath, sources_of_no_param hcolon hwell]
  · have hreplace : replaceParams (fun token => (paramValue params token).getD [])
        config.path = route.flatMap (sourceOf (valueOf params)) := by
      rw [hpath]
      exact replaceParams_render (fun segment hsegment =>
        ⟨hwell segment hsegment,
          constraintFits_of_unconstrained (hread segment hsegment).right⟩)
    have htidy : forall segment, segment ∈ route ->
        segment ≠ Segment.text [] -> Tidy (sourceOf (valueOf params) segment) :=
      fun segment hsegment _ => (@stands_plain CaseMapping.latin1 params segment
        (hplain segment hsegment)
        (fun name heq => hvalues name (heq ▸ hsegment))).right
    rcases collapseSlashes_sources params.keys.length htidy with
      ⟨kept, hkept, _, hsame⟩
    unfold routeSources
    rw [if_neg hnone, if_neg Bool.false_ne_true]
    show (if resolved params config.path then _ else _) = _
    rw [if_pos (hpath ▸ resolved_render hplain hvalues), hreplace, hkept,
      hsame (simple_nonempty hsimple)]

theorem compile_stands {source : JsString} {A : JsString -> Prop}
    (h : Stands source A) :
    exists p, compile (anchored lower source) = Except.ok p ∧
      forall text, p.test text = true <->
        exists mid after, text = mid ++ '?' :: after ∧ A mid := by
  rcases h with ⟨lowered, hlowers, hreads⟩
  rcases compile_anchored hreads with ⟨p, hcompile, htest⟩
  refine ⟨p, ?_, htest⟩
  rw [anchored, hlowers.eq lower]
  exact hcompile

theorem substituted_no_question {route : RoutePath} {s : JsString}
    (hplain : forall segment, segment ∈ route -> isPlain segment = true)
    (hvalues : GivesValues params route)
    (h : Substituted lower isPathChar params route s) : '?' ∉ s := by
  induction route generalizing s with
  | nil =>
      rw [show s = [] from h]
      exact List.not_mem_nil
  | cons segment rest ih =>
      rcases h with ⟨x, y, hs, hx, hy⟩
      have hrest := ih
        (fun other hother => hplain other (List.mem_cons_of_mem segment hother))
        (fun name hname => hvalues name (List.mem_cons_of_mem segment hname)) hy
      rw [hs, List.mem_append, not_or]
      refine ⟨?_, hrest⟩
      have hsegment := hplain segment List.mem_cons_self
      rcases plain_cases hsegment with
        ⟨static, hseg, _⟩ | ⟨name, _, hseg⟩
      · subst hseg
        exact accepts_no_question (plain_simple hsegment) hx
      · subst hseg
        rcases hvalues name List.mem_cons_self with ⟨value, hlookup, _, hslash⟩
        rcases hx with ⟨other, text, hother, htext, hx⟩
        rw [hlookup, Option.some.injEq] at hother
        subst hother
        have hquestion := encodes_no_question ((encodes_literal_iff hslash).mpr htext)
        rw [hx, List.mem_cons, not_or]
        exact ⟨by decide, CaseMapping.not_mem_toLowerCase lower hquestion
          (by decide) (by decide)⟩

/--
The expression of a targeted purge: it matches a key exactly when the key's path
is the route path with an encoding of every value in it.
-/
theorem getRouteRegExp_iff_substituted {config : CacheRouteConfig}
    {route : RoutePath} (hpath : config.path = render route)
    (hnames : ':' ∈ config.path -> config.paramNames ≠ [])
    (hplain : forall segment, segment ∈ route -> isPlain segment = true)
    (hvalues : GivesValues params route) :
    exists pattern,
      getRouteRegExp lower config (some params) false = Except.ok [pattern] ∧
        forall path suffix, '?' ∉ path ->
          (pattern.test (path ++ '?' :: suffix) = true <->
            Substituted lower isPathChar params route path) := by
  rcases @compile_stands lower _ _ (@stands_route lower params route hplain hvalues)
    with ⟨pattern, hcompile, htest⟩
  refine ⟨pattern, ?_, ?_⟩
  · rw [getRouteRegExp, targeted_source hpath hnames hplain hvalues,
      List.mapM_cons, hcompile]
    rfl
  · intro path suffix hquestion
    rw [htest]
    constructor
    · intro hgiven
      rcases hgiven with ⟨mid, after, htext, hmid⟩
      have heq := question_unique hquestion
        (substituted_no_question hplain hvalues hmid) htext
      rw [← heq]
      exact hmid
    · intro h
      exact ⟨path, suffix, rfl, h⟩

/-!
## An example
-/

def tagRoute : RoutePath :=
  [Segment.text "tags".toList,
    Segment.param [] "name".toList none Modifier.none]

def tagConfigured : CacheRouteConfig where
  path := "/tags/:name".toList
  method := "GET".toList
  paramNames := ["name".toList]

def tagParams (value : JsString) : RouteParams :=
  AList.singleton "name".toList value

theorem tagParams_givesValues {value : JsString} (hne : value ≠ [])
    (hslash : '/' ∉ value) : GivesValues (tagParams value) tagRoute := by
  intro name hname
  have hname : name = "name".toList := by
    simpa [tagRoute] using hname
  subst hname
  exact ⟨value, AList.lookup_insert ∅, hne, hslash⟩

theorem tag_getRouteRegExp :
    exists pattern,
      getRouteRegExp CaseMapping.latin1 tagConfigured
          (some (tagParams "c++ $& 50%".toList)) false = Except.ok [pattern] ∧
        forall path suffix, '?' ∉ path ->
          (pattern.test (path ++ '?' :: suffix) = true <->
            Substituted CaseMapping.latin1 isPathChar
              (tagParams "c++ $& 50%".toList) tagRoute path) :=
  @getRouteRegExp_iff_substituted CaseMapping.latin1 _ tagConfigured tagRoute rfl
    (fun _ => by decide) (by decide)
    (tagParams_givesValues (by decide) (by decide))

def colonPath : JsString :=
  "/tags/a%3ab".toList

/-- The value `a:b` is not looked for where its colon is percent-encoded. -/
theorem colon_not_encoded :
    ¬ exists pattern,
      getRouteRegExp CaseMapping.latin1 tagConfigured
          (some (tagParams "a:b".toList)) false = Except.ok [pattern] ∧
        forall path suffix, '?' ∉ path ->
          (pattern.test (path ++ '?' :: suffix) = true <->
            Substituted CaseMapping.latin1 isUnreservedOrSubDelim
              (tagParams "a:b".toList) tagRoute path) := by
  intro hgiven
  rcases hgiven with ⟨pattern, hget, htest⟩
  have hmissed : (getRouteRegExp CaseMapping.latin1 tagConfigured
      (some (tagParams "a:b".toList)) false).map
        (fun patterns => patterns.map (fun p => p.test (colonPath ++ "?&&".toList))) =
          Except.ok [false] := by
    rfl
  have hencodes : Encodes isUnreservedOrSubDelim "a:b".toList "a%3Ab".toList := by
    refine ⟨['a'], "%3Ab".toList, rfl, rfl, "%3A".toList, ['b'], rfl, ?_,
      ['b'], [], rfl, rfl, rfl⟩
    exact Or.inr rfl
  have hsubstituted : Substituted CaseMapping.latin1 isUnreservedOrSubDelim
      (tagParams "a:b".toList) tagRoute colonPath := by
    refine ⟨"/tags".toList, "/a%3ab".toList, rfl, rfl, "/a%3ab".toList, [], rfl,
      ⟨"a:b".toList, "a%3Ab".toList, AList.lookup_insert ∅, hencodes, rfl⟩, rfl⟩
  have hmatched := (htest colonPath "&&".toList (by decide)).mpr hsubstituted
  rw [hget] at hmissed
  have hfalse := (List.cons.inj (Except.ok.inj hmissed)).left
  exact absurd (hmatched.symm.trans hfalse) (by decide)

end Config
end RestCache
