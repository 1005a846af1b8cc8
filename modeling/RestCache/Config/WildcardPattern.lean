import RestCache.Config.PatternText
import RestCache.Router.CasedPath

/-!
# Wildcard patterns

The paths that a wildcard purge covers: for each form of a segment, the texts
that the expression built for it matches.
-/

namespace RestCache
namespace Config

open Foundation
open RegExpSource
open Router

/-- What a parameter covers behind the text its segment starts with. -/
def BehindCovers (lower : CaseMapping) (before : JsString)
    (modifier : Modifier) (s : JsString) : Prop :=
  if before = [] then
    Modified (valueAccepts none) ['/'] ['/'] modifier s
  else
    exists t, s = '/' :: lower.toLowerCase before ++ t ∧
      Modified (valueAccepts none) [] ['/'] modifier t

/-- The texts that a wildcard purge covers for a segment without a constraint. -/
def SegmentCovers (lower : CaseMapping) : Segment -> JsString -> Prop
  | Segment.text static, s => s = '/' :: lower.toLowerCase static
  | Segment.param before _ _ modifier, s => BehindCovers lower before modifier s
  | Segment.params [] _, _ => False
  | Segment.params ((before, _) :: _) _, s =>
      BehindCovers lower before Modifier.none s

def Covers (lower : CaseMapping) : RoutePath -> JsString -> Prop
  | [], s => s = []
  | segment :: rest, s =>
      exists x y, s = x ++ y ∧ SegmentCovers lower segment x ∧
        Covers lower rest y

/-!
## Values
-/

theorem readsAtom_notDelimiter :
    ReadsAtom "[^\\/#\\?]".toList (Meaning.char isRest) := by
  have hclass : Scans ['[', '^', '\\', '/', '#', '\\', '?', ']']
      [Token.atom (fun c =>
        (((false || literal '/' c) || literal '#' c) || literal '?' c) !=
          true)] :=
    rfl
  have hrest : (fun c =>
      (((false || literal '/' c) || literal '#' c) || literal '?' c) !=
        true) = isRest := by
    funext c
    by_cases hslash : c = '/' <;> by_cases hhash : c = '#' <;>
      by_cases hquestion : c = '?' <;>
      simp [literal, isRest, hslash, hhash, hquestion]
  rw [hrest] at hclass
  exact readsAtom_of_scan hclass

theorem reads_SEGMENT :
    Reads SEGMENT (Meaning.ofSet (fun v =>
      v ≠ [] ∧ forall c, c ∈ v -> isRest c = true)) := by
  apply (reads_plus readsAtom_notDelimiter).congr
  intro before mid after
  exact plus_char

def valueSource : Option JsString -> JsString
  | none => SEGMENT
  | some source => groupSource source

/-!
## Repetition
-/

theorem reads_slash : Reads ['/'] (Meaning.text ['/']) := by
  apply reads_text
  intro c hc
  rw [List.mem_singleton.mp hc]
  rfl

theorem reads_escapedSlash : Reads ['\\', '/'] (Meaning.text ['/']) := by
  have hscan : Scans ['\\', '/'] [Token.atom (literal '/')] := rfl
  apply (readsAtom_of_scan hscan).reads.congr
  intro before mid after
  simp [Meaning.char, Meaning.text, Meaning.ofSet, literal]

theorem reads_separated {source : JsString} {M : Meaning}
    (h : Reads source M) :
    Reads (repeatedSource source) (Meaning.separated M ['/']) := by
  have hnext := reads_append reads_escapedSlash h
  have hstar := reads_star (readsAtom_group (closes_of_reads hnext))
  have hsource : repeatedSource source =
      source ++ ("(?:".toList ++ (['\\', '/'] ++ source ++ [')']) ++
        ['*']) := by
    simp [repeatedSource]
  rw [hsource]
  exact reads_append h hstar

/-!
## One parameter
-/

def wildcardAround (slash value : JsString) : Modifier -> JsString
  | Modifier.plus => slash ++ '(' :: repeatedSource value ++ [')']
  | Modifier.question =>
      if slash ≠ [] then "(?:\\/(".toList ++ value ++ "))?".toList
      else '(' :: value ++ ")?".toList
  | Modifier.star =>
      if slash ≠ [] then
        "(?:\\/(".toList ++ repeatedSource value ++ "))?".toList
      else
        '(' :: repeatedSource value ++ ")?".toList
  | Modifier.none => slash ++ '(' :: value ++ [')']

theorem wildcardFor_eq {token : ParamToken} {constraint : Option JsString}
    {modifier : Modifier} (hconstraint : constraintOf token.rest = constraint)
    (hmodifier : modifierOf token.rest token.optional = modifier) :
    wildcardFor token =
      wildcardAround token.slash (valueSource constraint) modifier := by
  subst hconstraint hmodifier
  unfold wildcardFor wildcardAround valueSource
  cases constraintOf token.rest <;>
    cases modifierOf token.rest token.optional <;> rfl

def aroundTexts : List JsString :=
  [[], "/".toList, "(".toList, ")".toList, ")?".toList, "(?:\\/(".toList,
    "))?".toList, "(?:\\/".toList, ")*".toList]

theorem around_rel {R : JsString -> JsString -> Prop}
    (happend : forall s s' t t', R s s' -> R t t' -> R (s ++ t) (s' ++ t'))
    (hself : forall s, s ∈ aroundTexts -> R s s)
    {slash value value' : JsString} (modifier : Modifier)
    (hslash : slash = [] ∨ slash = ['/']) (h : R value value') :
    R (wildcardAround slash value modifier)
      (wildcardAround slash value' modifier) := by
  have hwrap : forall opened closed t t', opened ∈ aroundTexts ->
      closed ∈ aroundTexts -> R t t' ->
      R (opened ++ t ++ closed) (opened ++ t' ++ closed) := by
    intro opened closed t t' hopened hclosed ht
    exact happend _ _ _ _ (happend _ _ _ _ (hself opened hopened) ht)
      (hself closed hclosed)
  have hslash' : slash ∈ aroundTexts := by
    rcases hslash with rfl | rfl <;> decide
  have hrepeated : R (repeatedSource value) (repeatedSource value') := by
    have hmore := hwrap "(?:\\/".toList ")*".toList _ _ (by decide) (by decide) h
    simpa [repeatedSource] using happend _ _ _ _ h hmore
  have hgroup : forall t t', R t t' ->
      R (slash ++ '(' :: t ++ [')']) (slash ++ '(' :: t' ++ [')']) := by
    intro t t' ht
    have hparens := hwrap ['('] [')'] _ _ (by decide) (by decide) ht
    simpa using happend _ _ _ _ (hself slash hslash') hparens
  have hoptional : forall t t', R t t' ->
      R (if slash ≠ [] then "(?:\\/(".toList ++ t ++ "))?".toList
          else '(' :: t ++ ")?".toList)
        (if slash ≠ [] then "(?:\\/(".toList ++ t' ++ "))?".toList
          else '(' :: t' ++ ")?".toList) := by
    intro t t' ht
    split
    · exact hwrap _ _ _ _ (by decide) (by decide) ht
    · exact hwrap ['('] ")?".toList _ _ (by decide) (by decide) ht
  cases modifier with
  | none => exact hgroup _ _ h
  | plus => exact hgroup _ _ hrepeated
  | question => exact hoptional _ _ h
  | star => exact hoptional _ _ hrepeated

theorem lowers_aroundText {s : JsString} (h : s ∈ aroundTexts) :
    Lowers s s := by
  have hall : aroundTexts.all (fun s =>
      s.all (fun c => c.toNat < 128 && !isLineTerminator c) &&
        escapesEnd s && lowerLetters s = s) = true := by
    decide
  have hkind := List.all_eq_true.mp hall s h
  rw [Bool.and_eq_true, Bool.and_eq_true, decide_eq_true_eq] at hkind
  exact Lowers.fixed hkind.left.left hkind.left.right hkind.right

theorem lowers_around {slash value value' : JsString} (modifier : Modifier)
    (hslash : slash = [] ∨ slash = ['/']) (h : Lowers value value') :
    Lowers (wildcardAround slash value modifier)
      (wildcardAround slash value' modifier) :=
  around_rel (fun _ _ _ _ => Lowers.append) (fun _ => lowers_aroundText)
    modifier hslash h

/-- A source that can stand right behind an opening parenthesis. -/
def Opens (source : JsString) : Prop :=
  exists c rest, source = c :: rest ∧ c ≠ '?'

theorem opens_repeated {value : JsString} (h : Opens value) :
    Opens (repeatedSource value) := by
  rcases h with ⟨c, rest, hvalue, hc⟩
  exact ⟨c, rest ++ ("(?:\\/".toList ++ value ++ ")*".toList),
    by simp [repeatedSource, hvalue], hc⟩

theorem readsAtom_captured {source : JsString} {M : Meaning}
    (hopens : Opens source) (h : Reads source M) :
    ReadsAtom ('(' :: source ++ [')']) M := by
  rcases hopens with ⟨c, rest, hsource, hc⟩
  have hhead : source.head? ≠ some '?' := by
    rw [hsource]
    simpa using hc
  exact readsAtom_capture (closes_of_reads h) hhead

theorem reads_behindSlash {source slash : JsString} {M : Meaning}
    (hslash : slash = [] ∨ slash = ['/']) (h : Reads source M) :
    Reads (slash ++ source) (Meaning.seq (Meaning.text slash) M) := by
  have hself : Reads slash (Meaning.text slash) := by
    rcases hslash with rfl | rfl
    · exact reads_nil
    · exact reads_slash
  exact reads_append hself h

theorem reads_optionalSlash {source slash : JsString} {M : Meaning}
    (hslash : slash = [] ∨ slash = ['/']) (hopens : Opens source)
    (h : Reads source M) :
    Reads (if slash ≠ [] then "(?:\\/(".toList ++ source ++ "))?".toList
        else '(' :: source ++ ")?".toList)
      (Meaning.optional (Meaning.seq (Meaning.text slash) M)) := by
  have hcaptured := readsAtom_captured hopens h
  rcases hslash with rfl | rfl
  · rw [if_neg (by simp)]
    have hsource : '(' :: source ++ ")?".toList =
        ('(' :: source ++ [')']) ++ ['?'] := by
      simp
    rw [hsource]
    apply (reads_optional hcaptured).congr
    intro before mid after
    exact or_congr empty_seq.symm Iff.rfl
  · rw [if_pos (by simp)]
    have hinner := reads_append reads_escapedSlash hcaptured.reads
    have hsource : "(?:\\/(".toList ++ source ++ "))?".toList =
        ("(?:".toList ++ ((['\\', '/'] ++ ('(' :: source ++ [')'])) ++
          [')'])) ++ ['?'] := by
      simp
    rw [hsource]
    exact reads_optional (readsAtom_group (closes_of_reads hinner))

theorem reads_modified {slash value : JsString} {M : Meaning}
    (modifier : Modifier) (hslash : slash = [] ∨ slash = ['/'])
    (hopens : Opens value) (h : Reads value M) :
    Reads (wildcardAround slash value modifier)
      (modifiedMatches M slash ['/'] modifier) := by
  have hrepeated := reads_separated h
  cases modifier with
  | none =>
      have hsource : wildcardAround slash value Modifier.none =
          slash ++ ('(' :: value ++ [')']) := by
        simp [wildcardAround]
      rw [hsource]
      exact reads_behindSlash hslash (readsAtom_captured hopens h).reads
  | question => exact reads_optionalSlash hslash hopens h
  | plus =>
      have hsource : wildcardAround slash value Modifier.plus =
          slash ++ ('(' :: repeatedSource value ++ [')']) := by
        simp [wildcardAround]
      rw [hsource]
      exact reads_behindSlash hslash
        (readsAtom_captured (opens_repeated hopens) hrepeated).reads
  | star => exact reads_optionalSlash hslash (opens_repeated hopens) hrepeated

theorem reads_around {slash value : JsString} {A : JsString -> Prop}
    (modifier : Modifier) (hslash : slash = [] ∨ slash = ['/'])
    (hopens : Opens value) (h : Reads value (Meaning.ofSet A)) :
    Reads (wildcardAround slash value modifier)
      (Meaning.ofSet (Modified A slash ['/'] modifier)) :=
  (reads_modified modifier hslash hopens h).congr modifiedMatches_ofSet

/-!
## Text
-/

theorem isStatic_toNat {c : Char} (h : isStatic c = true) : c.toNat < 128 := by
  have hbound : forall high : UInt32, high.toNat < 128 -> c.val ≤ high ->
      c.toNat < 128 :=
    fun high hhigh hc => Nat.lt_of_le_of_lt (UInt32.le_iff_toNat_le.mp hc) hhigh
  have hrange : forall low high : UInt32, high.toNat < 128 ->
      (decide (low ≤ c.val) && decide (c.val ≤ high)) = true ->
      c.toNat < 128 := by
    intro low high hhigh hc
    rw [Bool.and_eq_true, decide_eq_true_eq, decide_eq_true_eq] at hc
    exact hbound high hhigh hc.right
  simp only [isStatic, Bool.or_eq_true, decide_eq_true_eq] at h
  rcases h with ((h | h) | h) | h
  · rcases (Bool.or_eq_true _ _).mp h with hletter | hdigit
    · rcases (Bool.or_eq_true _ _).mp hletter with hupper | hlower
      · exact hbound 90 (by decide) (of_decide_eq_true hupper).right
      · exact hrange 97 122 (by decide) hlower
    · exact hrange 48 57 (by decide) hdigit
  all_goals
    rw [h]
    decide

theorem isStatic_toLower {c : Char} (h : isStatic c = true) :
    isStatic c.toLower = true := by
  have hall : forall n, n < 128 -> isStatic (Char.ofNat n) = true ->
      isStatic (Char.ofNat n).toLower = true := by
    decide
  have hc := hall c.toNat (isStatic_toNat h)
  rw [Char.ofNat_toNat] at hc
  exact hc h

theorem textChar_static {c : Char} (h : isStatic c = true) :
    textChar c = ([ofChar c], Mode.text) := by
  unfold textChar
  split
  all_goals first
    | rfl
    | exact absurd h (by decide)

theorem isAsciiLine_static {static : JsString}
    (h : static.all isStatic = true) : IsAsciiLine static := by
  intro c hc
  have hstatic := List.all_eq_true.mp h c hc
  have hall : forall n, n < 128 -> isStatic (Char.ofNat n) = true ->
      isLineTerminator (Char.ofNat n) = false := by
    decide
  have hline := hall c.toNat (isStatic_toNat hstatic)
  rw [Char.ofNat_toNat] at hline
  exact ⟨isStatic_toNat hstatic, hline hstatic⟩

theorem lowers_static {lower : CaseMapping} {static : JsString}
    (h : static.all isStatic = true) :
    Lowers ('/' :: static) ('/' :: lower.toLowerCase static) := by
  have hascii := lower.ascii static
    (fun c hc => ((isAsciiLine_static h) c hc).left)
  have hletters : escapesEnd static = true ∧
      lowerLetters static = static.map Char.toLower := by
    clear hascii
    induction static with
    | nil => exact ⟨rfl, rfl⟩
    | cons c static ih =>
        rw [List.all_cons, Bool.and_eq_true] at h
        have hbackslash : c ≠ '\\' := ne_of_kind h.left (by decide)
        rcases ih h.right with ⟨hescapes, hletters⟩
        exact ⟨by rw [escapesEnd_cons _ hbackslash, hescapes],
          by rw [lowerLetters_cons _ hbackslash, hletters]; rfl⟩
  have hslash : '/' ≠ '\\' := by
    decide
  constructor
  · exact isAsciiLine_cons.mpr ⟨by decide, isAsciiLine_static h⟩
  · rw [escapesEnd_cons _ hslash]
    exact hletters.left
  · rw [lowerLetters_cons _ hslash, hletters.right, hascii]
    rfl

theorem reads_static {lower : CaseMapping} {static : JsString}
    (h : static.all isStatic = true) :
    Reads ('/' :: lower.toLowerCase static)
      (Meaning.ofSet (fun s => s = '/' :: lower.toLowerCase static)) := by
  apply reads_text
  intro c hc
  rcases List.mem_cons.mp hc with hslash | hc
  · rw [hslash]
    rfl
  · rw [lower.ascii static
      (fun c hc => ((isAsciiLine_static h) c hc).left)] at hc
    rcases List.mem_map.mp hc with ⟨d, hd, rfl⟩
    exact textChar_static (isStatic_toLower (List.all_eq_true.mp h d hd))

/-!
## Segments
-/

theorem constraintText_last (constraint : Option JsString) :
    (constraintText constraint).getLast? ≠ some '+' ∧
      (constraintText constraint).getLast? ≠ some '*' := by
  cases constraint with
  | none => exact ⟨by decide, by decide⟩
  | some source =>
      rw [constraintText, List.getLast?_concat]
      exact ⟨by decide, by decide⟩

theorem withoutRepeat_param (constraint : Option JsString)
    (modifier : Modifier) :
    withoutRepeat (constraintText constraint ++ repeatText modifier) =
      constraintText constraint := by
  have hlast := constraintText_last constraint
  cases modifier <;> simp [withoutRepeat, repeatText, hlast]

theorem constraintOf_param {constraint : Option JsString}
    (modifier : Modifier)
    (h : forall source, constraint = some source ->
      source.all (fun c => !isLineTerminator c) = true) :
    constraintOf (constraintText constraint ++ repeatText modifier) =
      constraint := by
  rw [constraintOf, withoutRepeat_param]
  cases constraint with
  | none => rfl
  | some source =>
      show parenthesised ('(' :: (source ++ [')'])) = some source
      rw [parenthesised, List.dropLast_concat,
        if_pos ⟨List.getLast?_concat, h source rfl⟩]

theorem modifierOf_param (constraint : Option JsString)
    (modifier : Modifier) :
    modifierOf (constraintText constraint ++ repeatText modifier)
      (modifier = Modifier.question) = modifier := by
  have hlast := constraintText_last constraint
  cases modifier <;> simp [modifierOf, repeatText, hlast]

theorem constraintOf_params {rest : JsString} (h : '(' ∉ rest) :
    constraintOf rest = none := by
  have hparens : '(' ∉ withoutRepeat rest := by
    rw [withoutRepeat]
    split
    · exact fun hmem => h (List.dropLast_subset rest hmem)
    · exact h
  unfold constraintOf parenthesised
  split
  · rename_i inner heq
    rw [heq] at hparens
    exact absurd List.mem_cons_self hparens
  · rfl

theorem modifierOf_params {rest : JsString} (hplus : '+' ∉ rest)
    (hstar : '*' ∉ rest) : modifierOf rest false = Modifier.none := by
  have hlast : forall c, c ∉ rest -> rest.getLast? ≠ some c :=
    fun c hc hlast => hc (List.mem_of_getLast? hlast)
  simp [modifierOf, hlast '+' hplus, hlast '*' hstar]

theorem params_rest {named : List (JsString × JsString)} {after : JsString}
    {c : Char} (hstatic : isStatic c = false)
    (hword : Pattern.isWordChar c = false) (hcolon : c ≠ ':')
    (hnamed : named.all (fun z => endsName z.1 && isName z.2) = true)
    (hafter : endsName after = true) : c ∉ namedText named ++ after := by
  have hall := @namedText_all (fun d => d ≠ c)
    (fun d hd => by simpa using ne_of_kind hd hstatic)
    (fun d hd => by simpa using ne_of_kind hd hword)
    (by simpa using Ne.symm hcolon) named hnamed
  intro hmem
  rcases List.mem_append.mp hmem with hmem | hmem
  · have hne := List.all_eq_true.mp hall c hmem
    exact absurd hne (by simp)
  · have hkind := List.all_eq_true.mp (endsName_static hafter).left c hmem
    rw [hstatic] at hkind
    exact absurd hkind Bool.false_ne_true

theorem reads_behind {lower : CaseMapping} {before : JsString}
    {token : ParamToken} {modifier : Modifier}
    (hbefore : before.all isStatic = true)
    (hconstraint : constraintOf token.rest = none)
    (hmodifier : modifierOf token.rest token.optional = modifier) :
    exists source, Lowers (behind wildcardFor before token) source ∧
      Reads source (Meaning.ofSet (BehindCovers lower before modifier)) := by
  have hvalue : Lowers SEGMENT SEGMENT := Lowers.fixed rfl rfl rfl
  have hopens : Opens SEGMENT := ⟨'[', _, rfl, by decide⟩
  have hwildcard : forall slash, wildcardFor { token with slash } =
      wildcardAround slash SEGMENT modifier :=
    fun slash => @wildcardFor_eq { token with slash } _ _ hconstraint hmodifier
  have haround := fun slash hslash =>
    @reads_around slash _ _ modifier hslash hopens reads_SEGMENT
  by_cases hnil : before = []
  · refine ⟨wildcardAround ['/'] SEGMENT modifier, ?_, ?_⟩
    · rw [behind, if_pos hnil, hwildcard]
      exact lowers_around modifier (Or.inr rfl) hvalue
    · have hset : BehindCovers lower before modifier =
          Modified (valueAccepts none) ['/'] ['/'] modifier := by
        funext s
        rw [BehindCovers, if_pos hnil]
      rw [hset]
      exact haround ['/'] (Or.inr rfl)
  · refine ⟨'/' :: lower.toLowerCase before ++
      wildcardAround [] SEGMENT modifier, ?_, ?_⟩
    · rw [behind, if_neg hnil, hwildcard]
      exact (lowers_static hbefore).append
        (lowers_around modifier (Or.inl rfl) hvalue)
    · apply reads_seq (reads_static hbefore) (haround [] (Or.inl rfl))
      intro s
      rw [BehindCovers, if_neg hnil]
      constructor
      · intro h
        rcases h with ⟨t, hs, ht⟩
        exact ⟨_, t, hs, rfl, ht⟩
      · intro h
        rcases h with ⟨x, t, hs, hx, ht⟩
        exact ⟨t, by rw [hs, hx], ht⟩

structure Parameter (lower : CaseMapping) (segment : Segment) where
  before : JsString
  token : ParamToken
  modifier : Modifier
  static : before.all isStatic = true
  source : sourceOf wildcardFor segment = behind wildcardFor before token
  constraintOf_eq : constraintOf token.rest = none
  modifierOf_eq : modifierOf token.rest token.optional = modifier
  covers : SegmentCovers lower segment = BehindCovers lower before modifier

theorem text_or_parameter {lower : CaseMapping} {segment : Segment}
    (hwell : segment.wellFormed = true) (hfree : unconstrained segment = true) :
    (exists static, segment = Segment.text static ∧
      static.all isStatic = true) ∨ Nonempty (Parameter lower segment) := by
  cases segment with
  | text static => exact Or.inl ⟨static, rfl, hwell⟩
  | param before name constraint modifier =>
      rw [Segment.wellFormed, Bool.and_eq_true] at hwell
      cases constraint with
      | some source => exact absurd hfree Bool.false_ne_true
      | none =>
          exact Or.inr ⟨{
            before, modifier
            token := _
            static := hwell.left
            source := rfl
            constraintOf_eq := constraintOf_param modifier
              (fun source hsource => absurd hsource (by simp))
            modifierOf_eq := modifierOf_param none modifier
            covers := rfl }⟩
  | params named after =>
      cases named with
      | nil => exact absurd hwell Bool.false_ne_true
      | cons z more =>
          simp only [Segment.wellFormed, Bool.and_eq_true] at hwell
          rcases hwell with ⟨⟨⟨⟨hbefore, _⟩, hmore⟩, hafter⟩, _⟩
          have hrest : forall c, isStatic c = false ->
              Pattern.isWordChar c = false -> c ≠ ':' ->
              c ∉ namedText more ++ after :=
            fun c hstatic hword hcolon =>
              params_rest hstatic hword hcolon (by simpa using hmore) hafter
          exact Or.inr ⟨{
            before := z.1
            token := _
            modifier := Modifier.none
            static := hbefore
            source := rfl
            constraintOf_eq := constraintOf_params
              (hrest '(' (by decide) (by decide) (by decide))
            modifierOf_eq := modifierOf_params
              (hrest '+' (by decide) (by decide) (by decide))
              (hrest '*' (by decide) (by decide) (by decide))
            covers := rfl }⟩

theorem reads_segment {lower : CaseMapping} {segment : Segment}
    (hwell : segment.wellFormed = true) (hfree : unconstrained segment = true) :
    exists source, Lowers (sourceOf wildcardFor segment) source ∧
      Reads source (Meaning.ofSet (SegmentCovers lower segment)) := by
  rcases text_or_parameter hwell hfree with
    ⟨static, rfl, hstatic⟩ | ⟨⟨parameter⟩⟩
  · exact ⟨'/' :: lower.toLowerCase static, lowers_static hstatic,
      reads_static hstatic⟩
  · rw [parameter.source, parameter.covers]
    exact reads_behind parameter.static parameter.constraintOf_eq
      parameter.modifierOf_eq

def Readable (route : RoutePath) : Prop :=
  forall segment, segment ∈ route ->
    segment.wellFormed = true ∧ unconstrained segment = true

theorem reads_route {lower : CaseMapping} {route : RoutePath}
    (h : Readable route) :
    exists source, Lowers (route.flatMap (sourceOf wildcardFor)) source ∧
      Reads source (Meaning.ofSet (Covers lower route)) := by
  induction route with
  | nil => exact ⟨[], Lowers.fixed rfl rfl rfl, reads_nil⟩
  | cons segment rest ih =>
      have hsegment := h segment (by simp)
      rcases reads_segment hsegment.left hsegment.right with
        ⟨first, hfirst, hreads⟩
      rcases ih (fun other hother => h other (List.mem_cons_of_mem segment hother)) with
        ⟨more, hmore, hrest⟩
      exact ⟨first ++ more, hfirst.append hmore,
        reads_seq hreads hrest (fun _ => Iff.rfl)⟩

/-!
## Double slashes
-/

theorem tidy_value {constraint : Option JsString}
    (h : forall source, constraint = some source ->
      source.all isRest = true) :
    Tidy (valueSource constraint) ∧ Opens (valueSource constraint) ∧
      (valueSource constraint).head? ≠ some '/' := by
  cases constraint with
  | none => exact ⟨⟨rfl, by decide⟩, ⟨'[', _, rfl, by decide⟩, by decide⟩
  | some source =>
      have hrest := h source rfl
      have hslash : '/' ∉ groupSource source := by
        intro hmem
        rcases List.mem_append.mp hmem with hmem | hclose
        · rcases List.mem_append.mp hmem with hopen | hsource
          · exact absurd hopen (by decide)
          · exact absurd (List.all_eq_true.mp hrest '/' hsource) (by decide)
        · exact absurd hclose (by decide)
      exact ⟨tidy_of_not_slash hslash, ⟨'(', _, rfl, by decide⟩,
        by
          show some '(' ≠ some '/'
          decide⟩

theorem tidy_repeated {value : JsString} (h : Tidy value)
    (hopens : Opens value) (hhead : value.head? ≠ some '/') :
    Tidy (repeatedSource value) := by
  have hne : value ≠ [] := by
    rcases hopens with ⟨c, rest, hvalue, _⟩
    rw [hvalue]
    exact List.cons_ne_nil c rest
  have hopen : Tidy "(?:\\".toList := ⟨rfl, by decide⟩
  have hclose : Tidy ")*".toList := ⟨rfl, by decide⟩
  have hall := ((h.append hopen).append (h.slash hne hhead)).append hclose
  simpa [repeatedSource] using hall

theorem tidy_around {slash value : JsString} (modifier : Modifier)
    (hslash : slash = [] ∨ slash = ['/']) (h : Tidy value)
    (hopens : Opens value) (hhead : value.head? ≠ some '/') :
    Tidy (wildcardAround slash value modifier) := by
  have hopen : Tidy ['('] := ⟨rfl, by decide⟩
  have hclose : Tidy [')'] := ⟨rfl, by decide⟩
  have hopenSlash : Tidy "(?:\\/(".toList := ⟨rfl, by decide⟩
  have hcloseBoth : Tidy "))?".toList := ⟨rfl, by decide⟩
  have hcloseOne : Tidy ")?".toList := ⟨rfl, by decide⟩
  have hrepeated := tidy_repeated h hopens hhead
  have hgroup : forall source, Tidy source ->
      Tidy (slash ++ ('(' :: source ++ [')'])) := by
    intro source hsource
    have hall := (hopen.append hsource).append hclose
    rcases hslash with rfl | rfl
    · simpa using hall
    · exact Tidy.slash hall (by simp) (by simp)
  cases modifier with
  | none => simpa [wildcardAround] using hgroup value h
  | plus => simpa [wildcardAround] using hgroup _ hrepeated
  | question =>
      by_cases hnil : slash = []
      · simpa [wildcardAround, hnil] using (hopen.append h).append hcloseOne
      · simpa [wildcardAround, hnil] using
          (hopenSlash.append h).append hcloseBoth
  | star =>
      by_cases hnil : slash = []
      · simpa [wildcardAround, hnil] using
          (hopen.append hrepeated).append hcloseOne
      · simpa [wildcardAround, hnil] using
          (hopenSlash.append hrepeated).append hcloseBoth

theorem not_slash_static {static : JsString}
    (h : static.all isStatic = true) : '/' ∉ static := by
  intro hmem
  exact absurd (List.all_eq_true.mp h '/' hmem) (by decide)

theorem tidy_text {static : JsString} (h : static.all isStatic = true)
    (hne : static ≠ []) : Tidy ('/' :: static) := by
  have hslash := not_slash_static h
  apply (tidy_of_not_slash hslash).slash hne
  intro hhead
  exact hslash (List.mem_of_mem_head? hhead)

theorem tidy_behind {before : JsString} {token : ParamToken}
    {constraint : Option JsString} {modifier : Modifier}
    (hbefore : before.all isStatic = true)
    (hconstraint : constraintOf token.rest = constraint)
    (hmodifier : modifierOf token.rest token.optional = modifier)
    (hrest : forall source, constraint = some source ->
      source.all isRest = true) :
    Tidy (behind wildcardFor before token) := by
  rcases tidy_value hrest with ⟨hvalue, hopens, hhead⟩
  have hwildcard : forall slash, wildcardFor { token with slash } =
      wildcardAround slash (valueSource constraint) modifier :=
    fun slash => @wildcardFor_eq { token with slash } _ _ hconstraint hmodifier
  rw [behind]
  split
  · rw [hwildcard]
    exact tidy_around _ (Or.inr rfl) hvalue hopens hhead
  · rename_i hnil
    rw [hwildcard]
    exact (tidy_text hbefore hnil).append
      (tidy_around _ (Or.inl rfl) hvalue hopens hhead)

end Config
end RestCache
