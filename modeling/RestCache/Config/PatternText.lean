import RestCache.Router.RoutePath

/-!
# The source a route path is turned into

Reading a route path segment by segment: what is put in the place of its
parameters, what lower-casing does to the source, and what becomes of double
slashes.
-/

namespace RestCache
namespace Config

open Foundation
open RegExpSource
open Router

/-!
## Lower case
-/

def IsAsciiLine (text : JsString) : Prop :=
  forall c, c ∈ text -> c.toNat < 128 ∧ isLineTerminator c = false

theorem isAsciiLine_append {s t : JsString} :
    IsAsciiLine (s ++ t) <-> IsAsciiLine s ∧ IsAsciiLine t := by
  simp only [IsAsciiLine, List.mem_append]
  constructor
  · intro h
    exact ⟨fun c hc => h c (Or.inl hc), fun c hc => h c (Or.inr hc)⟩
  · intro hgiven c hcase
    rcases hgiven with ⟨hs, ht⟩
    rcases hcase with hc | hc
    · exact hs c hc
    · exact ht c hc

theorem isAsciiLine_cons {c : Char} {s : JsString} :
    IsAsciiLine (c :: s) <->
      (c.toNat < 128 ∧ isLineTerminator c = false) ∧ IsAsciiLine s := by
  simp [IsAsciiLine]

/-- No backslash is left over at the end. -/
def escapesEnd : JsString -> Bool
  | [] => true
  | ['\\'] => false
  | '\\' :: _ :: rest => escapesEnd rest
  | _ :: rest => escapesEnd rest

theorem not_backslash {c : Char} {rest : JsString}
    (hnil : c = '\\' -> rest = [] -> False)
    (hcons : forall d more, c = '\\' -> rest = d :: more -> False) :
    c ≠ '\\' := by
  intro hc
  cases rest with
  | nil => exact hnil hc rfl
  | cons d more => exact hcons d more hc rfl

def lowerLetters : JsString -> JsString
  | [] => []
  | '\\' :: c :: rest => '\\' :: c :: lowerLetters rest
  | c :: rest => c.toLower :: lowerLetters rest

theorem lowerLetters_cons {c : Char} (s : JsString) (hc : c ≠ '\\') :
    lowerLetters (c :: s) = c.toLower :: lowerLetters s := by
  rw [lowerLetters]
  intro d rest hbackslash
  exact absurd hbackslash hc

theorem lowerParts_eq (lower : CaseMapping) {part s : JsString}
    (hpart : IsAsciiLine part) (hs : IsAsciiLine s) :
    lowerParts lower part s = part.map Char.toLower ++ lowerLetters s := by
  have hascii : forall part, IsAsciiLine part ->
      lower.toLowerCase part = part.map Char.toLower :=
    fun part hpart => lower.ascii part (fun c hc => (hpart c hc).left)
  fun_induction lowerParts lower part s with
  | case1 part => simp [hascii part hpart, lowerLetters]
  | case2 part =>
      rw [hascii part hpart]
      rfl
  | case3 part d rest hline _ =>
      have hd := ((isAsciiLine_cons.mp hs).right d (by simp)).right
      rw [hd] at hline
      exact absurd hline (by simp)
  | case4 part c rest _ ih =>
      have hrest := (isAsciiLine_cons.mp (isAsciiLine_cons.mp hs).right).right
      rw [hascii part hpart,
        ih (fun _ hnil => absurd hnil List.not_mem_nil) hrest]
      rfl
  | case5 part c rest hnot hnot' ih =>
      rcases isAsciiLine_cons.mp hs with ⟨hc, hrest⟩
      have hmore : IsAsciiLine (part ++ [c]) :=
        isAsciiLine_append.mpr ⟨hpart, isAsciiLine_cons.mpr
          ⟨hc, fun _ hnil => absurd hnil List.not_mem_nil⟩⟩
      have hbackslash := not_backslash hnot hnot'
      rw [ih hmore hrest, lowerLetters_cons rest hbackslash]
      simp

theorem lowerCasePattern_eq (lower : CaseMapping) {s : JsString}
    (hs : IsAsciiLine s) : lowerCasePattern lower s = lowerLetters s :=
  lowerParts_eq lower (fun _ hnil => absurd hnil List.not_mem_nil) hs

theorem lowerLetters_append {s : JsString} (t : JsString)
    (hs : escapesEnd s = true) :
    lowerLetters (s ++ t) = lowerLetters s ++ lowerLetters t := by
  fun_induction escapesEnd s with
  | case1 => rfl
  | case2 => exact absurd hs Bool.false_ne_true
  | case3 c rest ih =>
      show '\\' :: c :: lowerLetters (rest ++ t) = _
      rw [ih hs]
      rfl
  | case4 c rest hnot hnot' ih =>
      have hbackslash := not_backslash hnot hnot'
      rw [List.cons_append, lowerLetters_cons _ hbackslash,
        lowerLetters_cons _ hbackslash, ih hs]
      rfl

theorem escapesEnd_cons {c : Char} (s : JsString) (hc : c ≠ '\\') :
    escapesEnd (c :: s) = escapesEnd s := by
  rw [escapesEnd]
  · intro hbackslash
    exact absurd hbackslash hc
  · intro d rest hbackslash
    exact absurd hbackslash hc

/-- A part of a source and what lower-casing makes of it. -/
structure Lowers (s t : JsString) : Prop where
  line : IsAsciiLine s
  escapes : escapesEnd s = true
  letters : lowerLetters s = t

theorem escapesEnd_append {s t : JsString} (hs : escapesEnd s = true)
    (ht : escapesEnd t = true) : escapesEnd (s ++ t) = true := by
  fun_induction escapesEnd s with
  | case1 => exact ht
  | case2 => exact absurd hs Bool.false_ne_true
  | case3 c rest ih => exact ih hs
  | case4 c rest hnot hnot' ih =>
      have hbackslash := not_backslash hnot hnot'
      rw [List.cons_append, escapesEnd_cons _ hbackslash]
      exact ih hs

theorem Lowers.append {s t s' t' : JsString} (hs : Lowers s s')
    (ht : Lowers t t') : Lowers (s ++ t) (s' ++ t') := by
  constructor
  · exact isAsciiLine_append.mpr ⟨hs.line, ht.line⟩
  · exact escapesEnd_append hs.escapes ht.escapes
  · rw [lowerLetters_append t hs.escapes, hs.letters, ht.letters]

theorem Lowers.fixed {s : JsString}
    (hline : s.all
      (fun c => c.toNat < 128 && !isLineTerminator c) = true)
    (hescapes : escapesEnd s = true) (hletters : lowerLetters s = s) :
    Lowers s s := by
  refine ⟨?_, hescapes, hletters⟩
  intro c hc
  have hkind := List.all_eq_true.mp hline c hc
  simpa using hkind

theorem Lowers.eq (lower : CaseMapping) {s t : JsString} (h : Lowers s t) :
    lowerCasePattern lower s = t := by
  rw [lowerCasePattern_eq lower h.line, h.letters]

/-!
## Parameters
-/

theorem paramAfter_length {slash path rest : JsString} {token : ParamToken}
    (h : paramAfter slash path = some (token, rest)) :
    rest.length < path.length := by
  cases path with
  | nil => simp [paramAfter] at h
  | cons c path =>
      by_cases hc : c = ':'
      · subst hc
        have hname :=
          (List.dropWhile_suffix Pattern.isWordChar (l := path)).length_le
        have hrest := (List.dropWhile_suffix isRest
          (l := path.dropWhile Pattern.isWordChar)).length_le
        simp only [paramAfter] at h
        split at h
        · exact absurd h (by simp)
        · split at h
          · rename_i tail hquestion
            rw [hquestion, List.length_cons] at hrest
            rw [← (Prod.mk.inj (Option.some.inj h)).right, List.length_cons]
            omega
          · rw [← (Prod.mk.inj (Option.some.inj h)).right, List.length_cons]
            omega
      · simp [paramAfter, hc] at h

theorem paramToken?_length {path rest : JsString} {token : ParamToken}
    (h : paramToken? path = some (token, rest)) :
    rest.length < path.length := by
  unfold paramToken? at h
  split at h
  · exact (paramAfter_length h).trans (by simp)
  · exact paramAfter_length h

theorem splitParams_fuel {path : JsString} {fuel fuel' : Nat}
    (h : path.length ≤ fuel) (h' : path.length ≤ fuel') :
    splitParams fuel path = splitParams fuel' path := by
  induction fuel generalizing path fuel' with
  | zero =>
      have hnil : path = [] := List.eq_nil_of_length_eq_zero (by omega)
      subst hnil
      cases fuel' <;> rfl
  | succ fuel ih =>
      cases path with
      | nil => cases fuel' <;> rfl
      | cons c path =>
          rw [List.length_cons] at h h'
          cases fuel' with
          | zero => exact absurd h' (by omega)
          | succ fuel' =>
              rw [splitParams, splitParams]
              cases htoken : paramToken? (c :: path) with
              | none =>
                  have htail := @ih path fuel' (by omega) (by omega)
                  simp only [htail]
              | some z =>
                  have hlen : z.2.length < path.length + 1 :=
                    paramToken?_length htoken
                  have htail := @ih z.2 fuel' (by omega) (by omega)
                  simp only [htail]

theorem replaceParams_char {replace : ParamToken -> JsString} {c : Char}
    {path : JsString} (h : paramToken? (c :: path) = none) :
    replaceParams replace (c :: path) = c :: replaceParams replace path := by
  have hparts : pathParts (c :: path) = Sum.inl c :: pathParts path := by
    rw [pathParts, List.length_cons, splitParams, h]
    rfl
  rw [replaceParams, hparts]
  rfl

theorem replaceParams_token {replace : ParamToken -> JsString}
    {path rest : JsString} {token : ParamToken}
    (h : paramToken? path = some (token, rest)) :
    replaceParams replace path =
      replace token ++ replaceParams replace rest := by
  have hlen := paramToken?_length h
  have hparts : pathParts path = Sum.inr token :: pathParts rest := by
    cases path with
    | nil => exact absurd hlen (by simp)
    | cons c path =>
        rw [List.length_cons] at hlen
        have hfuel : splitParams path.length rest = pathParts rest :=
          splitParams_fuel (by omega) (by omega)
        rw [pathParts, List.length_cons, splitParams, h, ← hfuel]
  rw [replaceParams, hparts]
  rfl

def Stops (p : Char -> Bool) (text : JsString) : Prop :=
  forall c, text.head? = some c -> p c = false

theorem stops_append {p : Char -> Bool} {s t : JsString} (hs : Stops p s)
    (ht : Stops p t) : Stops p (s ++ t) := by
  cases s with
  | nil => exact ht
  | cons c s => exact hs

theorem takeWhile_append_all {p : Char -> Bool} {s t : JsString}
    (hs : s.all p = true) (ht : Stops p t) : (s ++ t).takeWhile p = s := by
  have hnone : t.takeWhile p = [] := by
    cases t with
    | nil => rfl
    | cons c t => rw [List.takeWhile_cons, ht c rfl, if_neg Bool.false_ne_true]
  rw [List.takeWhile_append_of_pos (fun c hc => List.all_eq_true.mp hs c hc),
    hnone, List.append_nil]

theorem dropWhile_append_all {p : Char -> Bool} {s t : JsString}
    (hs : s.all p = true) (ht : Stops p t) : (s ++ t).dropWhile p = t := by
  rw [List.dropWhile_append_of_pos (fun c hc => List.all_eq_true.mp hs c hc)]
  cases t with
  | nil => rfl
  | cons c t => rw [List.dropWhile_cons, ht c rfl, if_neg Bool.false_ne_true]

/-- The rest of the path behind a segment. -/
def IsTail (tail : JsString) : Prop :=
  tail = [] ∨ tail.head? = some '/'

def questionText (optional : Bool) : JsString :=
  if optional then ['?'] else []

theorem isTail_stops {p : Char -> Bool} {tail : JsString} (h : IsTail tail)
    (hslash : p '/' = false) : Stops p tail := by
  intro c hc
  rcases h with hnil | hhead
  · rw [hnil] at hc
    exact absurd hc (by simp)
  · rw [hhead, Option.some.injEq] at hc
    rw [← hc]
    exact hslash

theorem questionText_tail_stops {p : Char -> Bool} {optional : Bool}
    {tail : JsString} (hquestion : p '?' = false)
    (htail : optional = false -> Stops p tail) :
    Stops p (questionText optional ++ tail) := by
  cases optional with
  | true =>
      intro c hc
      rw [← show '?' = c from Option.some.inj hc]
      exact hquestion
  | false => exact htail rfl

theorem paramAfter_eq {slash name rest tail : JsString} {optional : Bool}
    (hname : isName name = true) (hrest : rest.all isRest = true)
    (hhead : Stops Pattern.isWordChar
      (rest ++ (questionText optional ++ tail)))
    (htail : optional = false -> IsTail tail) :
    paramAfter slash
        (':' :: (name ++ (rest ++ (questionText optional ++ tail)))) =
      some (ParamToken.mk slash name rest optional, tail) := by
  rw [isName, Bool.and_eq_true, decide_eq_true_eq] at hname
  have hend : Stops isRest (questionText optional ++ tail) :=
    questionText_tail_stops (by decide)
      (fun hnone => isTail_stops (htail hnone) (by decide))
  simp only [paramAfter, takeWhile_append_all hname.right hhead,
    dropWhile_append_all hname.right hhead, if_neg hname.left,
    takeWhile_append_all hrest hend, dropWhile_append_all hrest hend]
  cases optional with
  | true => rfl
  | false =>
      rcases htail rfl with hnil | hslash
      · rw [hnil]
        rfl
      · cases tail with
        | nil => rfl
        | cons c tail =>
            rw [show c = '/' from Option.some.inj hslash]
            rfl

/-!
## Segments
-/

def repeatText : Modifier -> JsString
  | Modifier.plus => ['+']
  | Modifier.star => ['*']
  | _ => []

/-- The match of `PARAM_TOKEN` behind the text a segment starts with. -/
def behind (replace : ParamToken -> JsString) (before : JsString)
    (token : ParamToken) : JsString :=
  if before = [] then replace { token with slash := ['/'] }
  else '/' :: before ++ replace { token with slash := [] }

def sourceOf (replace : ParamToken -> JsString) : Segment -> JsString
  | Segment.text static => '/' :: static
  | Segment.param before name constraint modifier =>
      behind replace before
        { slash := [], name,
          rest := constraintText constraint ++ repeatText modifier,
          optional := modifier = Modifier.question }
  | Segment.params [] after => '/' :: after
  | Segment.params ((before, name) :: more) after =>
      behind replace before
        { slash := [], name, rest := namedText more ++ after,
          optional := false }

def constraintFits : Segment -> Bool
  | Segment.param _ _ (some source) _ => source.all isRest
  | _ => true

theorem modifierText_eq (modifier : Modifier) :
    modifierText modifier = repeatText modifier ++
      questionText (modifier = Modifier.question) := by
  cases modifier <;> rfl

theorem not_colon_of_isStatic {c : Char} (h : isStatic c = true) :
    c ≠ '/' ∧ c ≠ ':' := by
  constructor
  · intro hgiven
    subst hgiven
    exact absurd h (by decide)
  · intro hgiven
    subst hgiven
    exact absurd h (by decide)

theorem paramAfter_none {slash path : JsString}
    (h : path.head? ≠ some ':') : paramAfter slash path = none := by
  unfold paramAfter
  split
  · exact absurd rfl h
  · rfl

theorem paramToken?_none {c : Char} {path : JsString} (hslash : c ≠ '/')
    (hcolon : c ≠ ':') : paramToken? (c :: path) = none := by
  unfold paramToken?
  split
  · rename_i heq
    exact absurd (List.cons.inj heq).left hslash
  · exact paramAfter_none (by simpa using hcolon)

theorem replaceParams_copied {replace : ParamToken -> JsString}
    {text : JsString} (path : JsString)
    (h : forall c, c ∈ text -> c ≠ '/' ∧ c ≠ ':') :
    replaceParams replace (text ++ path) =
      text ++ replaceParams replace path := by
  induction text with
  | nil => rfl
  | cons c text ih =>
      have hc := h c List.mem_cons_self
      rw [List.cons_append,
        replaceParams_char (paramToken?_none hc.left hc.right),
        ih (fun d hd => h d (List.mem_cons_of_mem c hd))]
      rfl

theorem replaceParams_static {replace : ParamToken -> JsString}
    {static : JsString} (path : JsString)
    (h : static.all isStatic = true) :
    replaceParams replace (static ++ path) =
      static ++ replaceParams replace path :=
  replaceParams_copied path
    (fun c hc => not_colon_of_isStatic (List.all_eq_true.mp h c hc))

theorem head?_static {static path : JsString}
    (h : static.all isStatic = true) (hpath : path.head? ≠ some ':') :
    (static ++ path).head? ≠ some ':' := by
  cases static with
  | nil => exact hpath
  | cons c static =>
      rw [List.all_cons, Bool.and_eq_true] at h
      simpa using (not_colon_of_isStatic h.left).right

theorem isTail_not_colon {tail : JsString} (h : IsTail tail) :
    tail.head? ≠ some ':' := by
  rcases h with hnil | hhead
  · rw [hnil]
    decide
  · rw [hhead]
    decide

theorem replaceParams_text {replace : ParamToken -> JsString}
    {static tail : JsString} (h : static.all isStatic = true)
    (htail : IsTail tail) :
    replaceParams replace ('/' :: static ++ tail) =
      '/' :: static ++ replaceParams replace tail := by
  have hslash : paramToken? ('/' :: (static ++ tail)) = none :=
    paramAfter_none (head?_static h (isTail_not_colon htail))
  rw [List.cons_append, replaceParams_char hslash, replaceParams_static tail h]
  rfl

theorem replaceParams_behind {replace : ParamToken -> JsString}
    {before name rest tail : JsString} {optional : Bool}
    (hbefore : before.all isStatic = true) (hname : isName name = true)
    (hrest : rest.all isRest = true)
    (hhead : Stops Pattern.isWordChar rest) (htail : IsTail tail) :
    replaceParams replace
        ('/' :: before ++
          ':' :: (name ++ (rest ++ (questionText optional ++ tail)))) =
      behind replace before { slash := [], name, rest, optional } ++
        replaceParams replace tail := by
  have hend : Stops Pattern.isWordChar
      (rest ++ (questionText optional ++ tail)) :=
    stops_append hhead (questionText_tail_stops (by decide)
      (fun _ => isTail_stops htail (by decide)))
  have htoken := fun slash =>
    @paramAfter_eq slash name rest tail optional hname hrest hend
      (fun _ => htail)
  cases before with
  | nil => exact replaceParams_token (htoken ['/'])
  | cons c before =>
      have hc := hbefore
      rw [List.all_cons, Bool.and_eq_true] at hc
      have hslash : paramToken? ('/' :: (c :: before ++
          ':' :: (name ++ (rest ++ (questionText optional ++ tail))))) =
          none :=
        paramAfter_none (by simpa using (not_colon_of_isStatic hc.left).right)
      have hcolon : paramToken?
          (':' :: (name ++ (rest ++ (questionText optional ++ tail)))) =
          some (ParamToken.mk [] name rest optional, tail) :=
        htoken []
      rw [List.cons_append, replaceParams_char hslash,
        replaceParams_static _ hbefore, replaceParams_token hcolon]
      simp [behind]

theorem ne_of_kind {p : Char -> Bool} {c d : Char} (hc : p c = true)
    (hd : p d = false) : c ≠ d := by
  intro h
  subst h
  rw [hc] at hd
  exact absurd hd (by decide)

theorem isRest_of_kind {p : Char -> Bool} {c : Char} (hc : p c = true)
    (hslash : p '/' = false) (hhash : p '#' = false)
    (hquestion : p '?' = false) : isRest c = true := by
  simp [isRest, ne_of_kind hc hslash, ne_of_kind hc hhash,
    ne_of_kind hc hquestion]

theorem endsName_static {text : JsString} (h : endsName text = true) :
    text.all isStatic = true ∧ Stops Pattern.isWordChar text := by
  rw [endsName, Bool.and_eq_true] at h
  refine ⟨h.left, ?_⟩
  intro c hc
  have hhead := h.right
  rw [hc, Option.all_some, Bool.not_eq_true'] at hhead
  exact hhead

theorem namedText_all {p : Char -> Bool}
    (hstatic : forall c, isStatic c = true -> p c = true)
    (hword : forall c, Pattern.isWordChar c = true -> p c = true)
    (hcolon : p ':' = true) {named : List (JsString × JsString)}
    (h : named.all (fun z => endsName z.1 && isName z.2) = true) :
    (namedText named).all p = true := by
  have hall : forall {q : Char -> Bool} {text : JsString},
      (forall c, q c = true -> p c = true) -> text.all q = true ->
      text.all p = true := by
    intro q text himp htext
    rw [List.all_eq_true] at htext ⊢
    exact fun c hc => himp c (htext c hc)
  induction named with
  | nil => rfl
  | cons z named ih =>
      rw [List.all_cons, Bool.and_eq_true, Bool.and_eq_true] at h
      rcases h with ⟨⟨htext, hname⟩, hmore⟩
      rw [isName, Bool.and_eq_true] at hname
      show (z.1 ++ ':' :: z.2 ++ namedText named).all p = true
      rw [List.all_append, List.all_append, List.all_cons,
        hall hstatic (endsName_static htext).left, hcolon,
        hall hword hname.right, ih hmore]
      rfl

theorem namedText_isRest {named : List (JsString × JsString)}
    (h : named.all (fun z => endsName z.1 && isName z.2) = true) :
    (namedText named).all isRest = true :=
  namedText_all
    (fun _ hc => isRest_of_kind hc (by decide) (by decide) (by decide))
    (fun _ hc => isRest_of_kind hc (by decide) (by decide) (by decide))
    (by decide) h

theorem endsName_isRest {text : JsString} (h : endsName text = true) :
    text.all isRest = true := by
  have hstatic := (endsName_static h).left
  rw [List.all_eq_true] at hstatic ⊢
  exact fun c hc =>
    isRest_of_kind (hstatic c hc) (by decide) (by decide) (by decide)

theorem namedText_stops {named : List (JsString × JsString)}
    {after : JsString}
    (h : named.all (fun z => endsName z.1 && isName z.2) = true)
    (hafter : endsName after = true) :
    Stops Pattern.isWordChar (namedText named ++ after) := by
  cases named with
  | nil => exact (endsName_static hafter).right
  | cons z named =>
      rw [List.all_cons, Bool.and_eq_true, Bool.and_eq_true] at h
      have hname : Stops Pattern.isWordChar
          (':' :: z.2 ++ namedText named ++ after) := by
        intro c hc
        rw [← show ':' = c from Option.some.inj hc]
        decide
      have htext := stops_append (endsName_static h.left.left).right hname
      simpa [namedText] using htext

theorem constraintText_isRest {constraint : Option JsString}
    (h : forall source, constraint = some source ->
      source.all isRest = true) :
    (constraintText constraint).all isRest = true := by
  cases constraint with
  | none => rfl
  | some source =>
      have hopen : isRest '(' = true := by
        decide
      have hclose : isRest ')' = true := by
        decide
      show ('(' :: source ++ [')']).all isRest = true
      rw [List.cons_append, List.all_cons, List.all_append, h source rfl,
        hopen, List.all_cons, hclose]
      rfl

theorem repeatText_isRest (modifier : Modifier) :
    (repeatText modifier).all isRest = true := by
  cases modifier <;> decide

theorem constraintText_stops (constraint : Option JsString)
    (modifier : Modifier) :
    Stops Pattern.isWordChar
      (constraintText constraint ++ repeatText modifier) := by
  have hmodifier : Stops Pattern.isWordChar (repeatText modifier) := by
    intro c hc
    cases modifier with
    | plus =>
        rw [← show '+' = c from Option.some.inj hc]
        decide
    | star =>
        rw [← show '*' = c from Option.some.inj hc]
        decide
    | _ => exact absurd hc (by simp [repeatText])
  refine stops_append ?_ hmodifier
  intro c hc
  cases constraint with
  | none => exact absurd hc (by simp [constraintText])
  | some source =>
      rw [← show '(' = c from Option.some.inj hc]
      decide

theorem replaceParams_segment {replace : ParamToken -> JsString}
    {segment : Segment} {tail : JsString}
    (hwell : segment.wellFormed = true)
    (hfits : constraintFits segment = true) (htail : IsTail tail) :
    replaceParams replace (segment.render ++ tail) =
      sourceOf replace segment ++ replaceParams replace tail := by
  cases segment with
  | text static => exact replaceParams_text hwell htail
  | param before name constraint modifier =>
      rw [Segment.wellFormed, Bool.and_eq_true] at hwell
      have hconstraint : forall source, constraint = some source ->
          source.all isRest = true := by
        intro source h
        subst h
        exact hfits
      have hrest : (constraintText constraint ++ repeatText modifier).all
          isRest = true := by
        rw [List.all_append, constraintText_isRest hconstraint,
          repeatText_isRest]
        rfl
      have hreplace := @replaceParams_behind replace before name _ tail
        (modifier = Modifier.question) hwell.left hwell.right hrest
        (constraintText_stops constraint modifier) htail
      simpa [Segment.render, modifierText_eq, sourceOf] using hreplace
  | params named after =>
      cases named with
      | nil => exact absurd hwell Bool.false_ne_true
      | cons z more =>
          simp only [Segment.wellFormed, Bool.and_eq_true] at hwell
          rcases hwell with ⟨⟨⟨⟨hbefore, hname⟩, hmore⟩, hafter⟩, _⟩
          have hrest : (namedText more ++ after).all isRest = true := by
            rw [List.all_append, namedText_isRest (by simpa using hmore),
              endsName_isRest hafter]
            rfl
          have hreplace := @replaceParams_behind replace z.1 z.2 _ tail false
            hbefore hname hrest
            (namedText_stops (by simpa using hmore) hafter) htail
          simpa [Segment.render, namedText, questionText, sourceOf]
            using hreplace

theorem render_isTail (route : RoutePath) : IsTail (render route) := by
  cases route with
  | nil => exact Or.inl rfl
  | cons segment rest => cases segment <;> exact Or.inr rfl

/-- The replacements in a route path are made segment by segment. -/
theorem replaceParams_render {replace : ParamToken -> JsString}
    {route : RoutePath}
    (h : forall segment, segment ∈ route ->
      segment.wellFormed = true ∧ constraintFits segment = true) :
    replaceParams replace (render route) =
      route.flatMap (sourceOf replace) := by
  induction route with
  | nil => rfl
  | cons segment rest ih =>
      have hsegment := h segment (by simp)
      have hrest := ih (fun other hother => h other (List.mem_cons_of_mem segment hother))
      show replaceParams replace (segment.render ++ render rest) = _
      rw [replaceParams_segment hsegment.left hsegment.right
        (render_isTail rest), hrest]
      rfl

/-!
## Double slashes
-/

def noDoubleSlash : JsString -> Bool
  | [] => true
  | '/' :: '/' :: _ => false
  | _ :: rest => noDoubleSlash rest

theorem noDoubleSlash_cons {c : Char} {s : JsString}
    (hc : c ≠ '/' ∨ s.head? ≠ some '/') :
    noDoubleSlash (c :: s) = noDoubleSlash s := by
  rw [noDoubleSlash]
  intro rest h hgiven
  subst h
  subst hgiven
  rcases hc with hc | hs
  · exact hc rfl
  · exact hs rfl

theorem collapseFirst_cons {c : Char} {s : JsString}
    (hc : c ≠ '/' ∨ s.head? ≠ some '/') :
    collapseFirst (c :: s) = c :: collapseFirst s := by
  rw [collapseFirst]
  intro rest h hgiven
  subst h
  subst hgiven
  rcases hc with hc | hs
  · exact hc rfl
  · exact hs rfl

theorem noDoubleSlash_split {c : Char} {s : JsString}
    (h : noDoubleSlash (c :: s) = true) :
    (c ≠ '/' ∨ s.head? ≠ some '/') ∧ noDoubleSlash s = true := by
  by_cases hc : c ≠ '/' ∨ s.head? ≠ some '/'
  · rw [noDoubleSlash_cons hc] at h
    exact ⟨hc, h⟩
  · rw [not_or, not_not, not_not] at hc
    cases s with
    | nil => exact absurd hc.right (by simp)
    | cons d s =>
        rw [hc.left, show d = '/' from Option.some.inj hc.right] at h
        exact absurd h Bool.false_ne_true

theorem not_noDoubleSlash (s t : JsString) :
    noDoubleSlash (s ++ '/' :: '/' :: t) ≠ true := by
  induction s with
  | nil => exact Bool.false_ne_true
  | cons c s ih => exact fun h => ih (noDoubleSlash_split h).right

/-- A text that adds no double slash to what stands before or behind it. -/
structure Tidy (text : JsString) : Prop where
  single : noDoubleSlash text = true
  last : text.getLast? ≠ some '/'

theorem collapseFirst_append {s t : JsString} (hs : Tidy s) :
    collapseFirst (s ++ t) = s ++ collapseFirst t := by
  induction s with
  | nil => rfl
  | cons c s ih =>
      have hsplit := noDoubleSlash_split hs.single
      cases s with
      | nil =>
          have hc : c ≠ '/' := by
            intro h
            subst h
            exact hs.last rfl
          rw [List.singleton_append, collapseFirst_cons (Or.inl hc)]
          rfl
      | cons d s =>
          have hc : c ≠ '/' ∨ (d :: s ++ t).head? ≠ some '/' := hsplit.left
          rw [List.cons_append, collapseFirst_cons hc,
            ih ⟨hsplit.right, by simpa using hs.last⟩]
          rfl

theorem Tidy.append {s t : JsString} (hs : Tidy s) (ht : Tidy t) :
    Tidy (s ++ t) := by
  constructor
  · induction s with
    | nil => exact ht.single
    | cons c s ih =>
        have hsplit := noDoubleSlash_split hs.single
        cases s with
        | nil =>
            have hc : c ≠ '/' := by
              intro h
              subst h
              exact hs.last rfl
            rw [List.singleton_append, noDoubleSlash_cons (Or.inl hc)]
            exact ht.single
        | cons d s =>
            have hc : c ≠ '/' ∨ (d :: s ++ t).head? ≠ some '/' := hsplit.left
            rw [List.cons_append, noDoubleSlash_cons hc]
            exact ih ⟨hsplit.right, by simpa using hs.last⟩
  · rw [List.getLast?_append]
    cases hlast : t.getLast? with
    | none => exact hs.last
    | some c =>
        have ht := ht.last
        rw [hlast] at ht
        exact ht

theorem Tidy.slash {s : JsString} (hs : Tidy s) (hne : s ≠ [])
    (hhead : s.head? ≠ some '/') : Tidy ('/' :: s) := by
  constructor
  · rw [noDoubleSlash_cons (Or.inr hhead)]
    exact hs.single
  · rw [List.getLast?_cons_of_ne_nil hne]
    exact hs.last

theorem tidy_of_not_slash {s : JsString} (hs : '/' ∉ s) : Tidy s := by
  constructor
  · induction s with
    | nil => rfl
    | cons c s ih =>
        rw [List.mem_cons, not_or] at hs
        rw [noDoubleSlash_cons (Or.inl (Ne.symm hs.left))]
        exact ih hs.right
  · intro hlast
    exact hs (List.mem_of_getLast? hlast)

def collapseRoute (replace : ParamToken -> JsString) : RoutePath -> RoutePath
  | [] => []
  | segment :: rest =>
      if segment = Segment.text [] ∧
          (rest.flatMap (sourceOf replace)).head? = some '/' then
        rest
      else
        segment :: collapseRoute replace rest

theorem collapseFirst_sources {replace : ParamToken -> JsString}
    {route : RoutePath}
    (h : forall segment, segment ∈ route -> segment ≠ Segment.text [] ->
      Tidy (sourceOf replace segment)) :
    collapseFirst (route.flatMap (sourceOf replace)) =
      (collapseRoute replace route).flatMap (sourceOf replace) := by
  induction route with
  | nil => rfl
  | cons segment rest ih =>
      have hrest := ih (fun other hother => h other (List.mem_cons_of_mem segment hother))
      rw [collapseRoute, List.flatMap_cons]
      by_cases hempty : segment = Segment.text []
      · subst hempty
        by_cases hhead : (rest.flatMap (sourceOf replace)).head? = some '/'
        · rw [if_pos ⟨rfl, hhead⟩]
          cases hsource : rest.flatMap (sourceOf replace) with
          | nil => exact absurd hhead (by rw [hsource]; simp)
          | cons c more =>
              rw [hsource] at hhead
              rw [show c = '/' from Option.some.inj hhead]
              rfl
        · rw [if_neg (fun hboth => hhead hboth.right), List.flatMap_cons,
            ← hrest]
          exact collapseFirst_cons (Or.inr hhead)
      · rw [if_neg (fun hboth => hempty hboth.left), List.flatMap_cons,
          ← hrest]
        exact collapseFirst_append (h segment (by simp) hempty)

theorem mem_of_mem_collapseRoute {replace : ParamToken -> JsString}
    {route : RoutePath} {segment : Segment}
    (h : segment ∈ collapseRoute replace route) : segment ∈ route := by
  induction route with
  | nil => exact h
  | cons first rest ih =>
      rw [collapseRoute] at h
      split at h
      · exact List.mem_cons_of_mem first h
      · rcases List.mem_cons.mp h with hfirst | hrest
        · exact List.mem_cons.mpr (Or.inl hfirst)
        · exact List.mem_cons_of_mem first (ih hrest)

theorem collapseRoute_eq {replace : ParamToken -> JsString}
    {route : RoutePath} (h : Segment.text [] ∉ route) :
    collapseRoute replace route = route := by
  induction route with
  | nil => rfl
  | cons segment rest ih =>
      rw [List.mem_cons, not_or] at h
      rw [collapseRoute, if_neg (fun hboth => h.left hboth.left.symm),
        ih h.right]

theorem collapseSlashes_sources {replace : ParamToken -> JsString}
    {route : RoutePath} (times : Nat)
    (h : forall segment, segment ∈ route -> segment ≠ Segment.text [] ->
      Tidy (sourceOf replace segment)) :
    exists kept : RoutePath,
      collapseSlashes (route.flatMap (sourceOf replace)) times =
          kept.flatMap (sourceOf replace) ∧
        (forall segment, segment ∈ kept -> segment ∈ route) ∧
        (Segment.text [] ∉ route -> kept = route) := by
  induction times generalizing route with
  | zero => exact ⟨route, rfl, fun _ hsegment => hsegment, fun _ => rfl⟩
  | succ times ih =>
      have hsubset := fun segment =>
        @mem_of_mem_collapseRoute replace route segment
      rcases @ih (collapseRoute replace route)
          (fun segment hsegment => h segment (hsubset segment hsegment)) with
        ⟨kept, hkept, hmem, hsame⟩
      refine ⟨kept, ?_, fun segment hsegment =>
        hsubset segment (hmem segment hsegment), ?_⟩
      · rw [collapseSlashes, collapseFirst_sources h]
        exact hkept
      · intro hempty
        rw [collapseRoute_eq hempty] at hsame
        exact hsame hempty

end Config
end RestCache
