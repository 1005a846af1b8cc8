import RestCache.Config.TargetedPattern
import RestCache.Router.MixedPath
import RestCache.Config.PurgeReach
import RestCache.Config.StaticSource
import RestCache.Foundation.UriDecoding

/-!
# Targeted patterns for segments that mix parameters and text

`PARAM_TOKEN` takes all of a segment behind a name, up to a question mark, as
the parameter's own.  What stands there is left out of the expression, and the
expression then matches no key of its own route.
-/

namespace RestCache
namespace Config

open Foundation
open RegExpSource
open Router
open Keys

/-!
## Listed routes
-/

/-- The matches of `routeParamNameRegex` without their colon; `name` is open. -/
def paramNamesFrom : Option JsString -> JsString -> List JsString
  | none, [] => []
  | none, c :: rest => paramNamesFrom (if c = ':' then some [] else none) rest
  | some name, [] => if name = [] then [] else [name]
  | some name, c :: rest =>
      if c = '/' then
        (if name = [] then [] else [name]) ++ paramNamesFrom none rest
      else
        paramNamesFrom (some (name ++ [c])) rest

def routeParamNames (path : JsString) : List JsString :=
  paramNamesFrom none path

/-- The configuration of a route that is listed by its path. -/
def listedRoute (path : JsString) : CacheRouteConfig where
  path
  method := "GET".toList
  paramNames := routeParamNames path

/-!
## What the token reader keeps
-/

/-- Pieces of which the token reader takes each parameter to its end. -/
def readablePieces (pieces : List Piece) : Bool :=
  wellFormedPieces pieces && pieces.all Piece.isUncut

theorem isPathText_facts {c : Char} (h : isPathText c = true) :
    c.toNat < 128 ∧ isLineTerminator c = false ∧ isRest c = true ∧
      c ≠ ':' ∧ c ≠ '/' ∧ c ≠ '\\' := by
  have hascii : c.toNat < 128 := by
    rw [isPathText, Bool.and_eq_true] at h
    exact (isPrintable_ascii h.left).left
  exact ⟨hascii, @CaseMapping.of_ascii
    (fun c => isPathText c = true -> isLineTerminator c = false ∧
      isRest c = true ∧ c ≠ ':' ∧ c ≠ '/' ∧ c ≠ '\\')
    (by decide +kernel) c hascii h⟩

theorem readable_text {static : JsString} {rest : List Piece}
    (h : readablePieces (Piece.text static :: rest) = true) :
    static ≠ [] ∧ static.all isPathText = true ∧
      readablePieces rest = true := by
  simp only [readablePieces, wellFormedPieces, List.all_cons, Bool.and_eq_true,
    decide_eq_true_eq] at h ⊢
  rcases h with ⟨⟨⟨hne, htext⟩, hrest⟩, _, hcuts⟩
  exact ⟨hne, htext, hrest, hcuts⟩

section Replaced

variable {replace : ParamToken -> JsString} {fill : JsString -> JsString}

def pieceText (fill : JsString -> JsString) : Piece -> JsString
  | Piece.text static => static
  | Piece.param name _ _ => fill name

def Fills (replace : ParamToken -> JsString) (fill : JsString -> JsString)
    (pieces : List Piece) : Prop :=
  forall name constraint modifier,
    Piece.param name constraint modifier ∈ pieces ->
      forall token : ParamToken, token.name = name ->
        replace token = token.slash ++ fill name

theorem Fills.suffix {pieces more : List Piece}
    (h : Fills replace fill pieces) (hmore : more <:+ pieces) :
    Fills replace fill more :=
  fun name constraint modifier hmem =>
    h name constraint modifier (hmore.subset hmem)

end Replaced

/-!
## The source of a route
-/

section Source

variable {lower : CaseMapping} {params : RouteParams}

/-- The value that a name stands for. -/
def valueFor (params : RouteParams) (name : JsString) : JsString :=
  (params.lookup name).getD []

theorem wellFormed_static {pieces : List Piece} {static : JsString}
    (h : wellFormedPieces pieces = true) (hmem : Piece.text static ∈ pieces) :
    static ≠ [] ∧ static.all isPathText = true := by
  induction pieces with
  | nil => exact absurd hmem List.not_mem_nil
  | cons piece rest ih =>
      cases piece with
      | text other =>
          simp only [wellFormedPieces, Bool.and_eq_true, decide_eq_true_eq] at h
          rcases List.mem_cons.mp hmem with heq | hrest
          · rw [Piece.text.inj heq]
            exact h.left
          · exact ih h.right hrest
      | param name constraint modifier =>
          rw [wellFormedPieces, Bool.and_eq_true] at h
          rcases List.mem_cons.mp hmem with heq | hrest
          · exact absurd heq (by simp)
          · exact ih h.right hrest

def TextsHold (p : Char -> Bool) (pieces : List Piece) : Prop :=
  forall static, Piece.text static ∈ pieces -> static.all p = true

theorem pieceText_all {fill : JsString -> JsString} {pieces some : List Piece}
    {p : Char -> Bool} (htext : TextsHold p pieces) (hsome : some ⊆ pieces)
    (hfill : forall name constraint modifier,
      Piece.param name constraint modifier ∈ pieces ->
        (fill name).all p = true) :
    (some.flatMap (pieceText fill)).all p = true := by
  rw [List.all_eq_true]
  intro c hc
  rcases List.mem_flatMap.mp hc with ⟨piece, hpiece, hc⟩
  cases piece with
  | text static => exact List.all_eq_true.mp (htext static (hsome hpiece)) c hc
  | param name constraint modifier =>
      have hvalue := hfill name constraint modifier (hsome hpiece)
      exact List.all_eq_true.mp hvalue c hc

theorem pathTexts {pieces : List Piece} (h : wellFormedPieces pieces = true) :
    TextsHold isPathText pieces :=
  fun _ hmem => (wellFormed_static h hmem).right

theorem isPathText_of_alphanum {c : Char} (h : c.isAlphanum = true) :
    isPathText c = true := by
  have hascii : c.toNat < 128 := by
    apply isStatic_toNat
    simp [isStatic, h]
  exact @CaseMapping.of_ascii
    (fun c => c.isAlphanum = true -> isPathText c = true)
    (by decide +kernel) c hascii h

theorem valueFor_given {segment : List Piece} (h : GivesAlphanum params segment)
    {name : JsString} {constraint : Option JsString} {modifier : Modifier}
    (hmem : Piece.param name constraint modifier ∈ segment) :
    valueFor params name ≠ [] ∧
      (valueFor params name).all Char.isAlphanum = true := by
  rcases h name constraint modifier hmem with ⟨value, hlookup, hne, halnum⟩
  rw [valueFor, hlookup]
  exact ⟨hne, halnum⟩

theorem pieceText_given {segment some : List Piece} {p : Char -> Bool}
    (hvalues : GivesAlphanum params segment) (hsome : some ⊆ segment)
    (htext : TextsHold p segment)
    (halnum : forall c, c.isAlphanum = true -> p c = true) :
    (some.flatMap (pieceText (valueFor params))).all p = true := by
  apply pieceText_all htext hsome
  intro name constraint modifier hmem
  rw [List.all_eq_true]
  exact fun c hc => halnum c
    (List.all_eq_true.mp (valueFor_given hvalues hmem).right c hc)

structure MixedGiven (params : RouteParams) (route : MixedPath) : Prop where
  nonempty : route ≠ []
  wellFormed : forall segment, segment ∈ route -> wellFormedMixed segment = true
  values : forall segment, segment ∈ route -> GivesAlphanum params segment

structure UncutGiven (params : RouteParams) (route : MixedPath) : Prop
    extends MixedGiven params route where
  uncut : forall segment, segment ∈ route -> segment.all Piece.isUncut = true

theorem wellFormedMixed_iff {segment : List Piece}
    (h : wellFormedMixed segment = true) :
    wellFormedPieces segment = true ∧ renderPieces segment ≠ [] ∧
      renderPieces segment ≠ ['.'] ∧ renderPieces segment ≠ ['.', '.'] := by
  simp only [wellFormedMixed, Bool.and_eq_true, decide_eq_true_eq] at h
  exact ⟨h.left.left.left, h.left.left.right, h.left.right, h.right⟩

theorem UncutGiven.pieces {route : MixedPath} (h : UncutGiven params route)
    {segment : List Piece} (hmem : segment ∈ route) :
    readablePieces segment = true ∧ segment ≠ [] := by
  have hwell := wellFormedMixed_iff (h.wellFormed segment hmem)
  constructor
  · rw [readablePieces, hwell.left, h.uncut segment hmem]
    rfl
  · intro hnil
    rw [hnil] at hwell
    exact hwell.right.left rfl

end Source

/-!
## The meaning of unescaped text
-/

def Unanchored (text : JsString) : Prop :=
  '$' ∉ text ∧ '^' ∉ text

section Lengths

variable {params : RouteParams}

theorem substitute_eq (piece : Piece) :
    piece.substitute params = pieceText (valueFor params) piece := by
  cases piece with
  | text static => rfl
  | param name constraint modifier => rfl

theorem substitutePieces_eq (segment : List Piece) :
    substitutePieces params segment =
      segment.flatMap (pieceText (valueFor params)) := by
  rw [substitutePieces, funext substitute_eq]

end Lengths

/-!
## The expression and the keys of its route
-/

section Match

variable {lower : CaseMapping} {params : RouteParams} {route : MixedPath}

theorem joinPath_all {segs : List JsString} {p : Char -> Bool}
    (hslash : p '/' = true) (h : forall seg, seg ∈ segs -> seg.all p = true) :
    (PosixPath.joinPath segs).all p = true := by
  rw [List.all_eq_true]
  intro c hc
  rcases List.mem_flatMap.mp hc with ⟨seg, hseg, hc⟩
  rcases List.mem_cons.mp hc with heq | hc
  · rw [heq]
    exact hslash
  · exact List.all_eq_true.mp (h seg hseg) c hc

theorem substitutePieces_all {segment : List Piece} {p : Char -> Bool}
    (hvalues : GivesAlphanum params segment) (htext : TextsHold p segment)
    (halnum : forall c, c.isAlphanum = true -> p c = true) :
    (substitutePieces params segment).all p = true := by
  rw [substitutePieces_eq]
  exact pieceText_given hvalues (List.Subset.refl segment) htext halnum

theorem substituteMixed_all (h : MixedGiven params route) {p : Char -> Bool}
    (htext : forall segment, segment ∈ route -> TextsHold p segment)
    (hslash : p '/' = true) (halnum : forall c, c.isAlphanum = true -> p c = true) :
    (substituteMixed params route).all p = true := by
  apply joinPath_all hslash
  intro seg hseg
  rcases List.mem_map.mp hseg with ⟨segment, hsegment, rfl⟩
  exact substitutePieces_all (h.values segment hsegment) (htext segment hsegment)
    halnum

theorem TextsHold.imp {p q : Char -> Bool} {pieces : List Piece}
    (h : TextsHold p pieces) (hpq : forall c, p c = true -> q c = true) :
    TextsHold q pieces := by
  intro static hmem
  have hall := h static hmem
  rw [List.all_eq_true] at hall ⊢
  exact fun c hc => hpq c (hall c hc)

theorem isLiteral_of_pathText {c : Char} (h : isPathText c = true) :
    isLiteral c = true ∧ c.toLower ≠ '?' :=
  @CaseMapping.of_ascii
    (fun c => isPathText c = true -> isLiteral c = true ∧ c.toLower ≠ '?')
    (by decide +kernel) c (isPathText_facts h).left h

theorem MixedGiven.pathTexts (h : MixedGiven params route) {segment : List Piece}
    (hmem : segment ∈ route) : TextsHold isPathText segment :=
  Config.pathTexts (wellFormedMixed_iff (h.wellFormed segment hmem)).left

theorem MixedGiven.literal (h : MixedGiven params route) :
    (substituteMixed params route).all isLiteral = true ∧
      '?' ∉ (substituteMixed params route).map Char.toLower := by
  constructor
  · exact substituteMixed_all h
      (fun segment hmem => (h.pathTexts hmem).imp
        (fun c hc => (isLiteral_of_pathText hc).left)) (by decide)
      (fun c hc => (isLiteral_of_pathText (isPathText_of_alphanum hc)).left)
  · have hall := substituteMixed_all h (p := fun c => c.toLower ≠ '?')
      (fun segment hmem => (h.pathTexts hmem).imp
        (fun c hc => decide_eq_true (isLiteral_of_pathText hc).right)) (by decide)
      (fun c hc => decide_eq_true
        (isLiteral_of_pathText (isPathText_of_alphanum hc)).right)
    intro hmem
    rcases List.mem_map.mp hmem with ⟨c, hc, heq⟩
    exact of_decide_eq_true (List.all_eq_true.mp hall c hc) heq

end Match

/-!
## The parameter names of a listed route
-/

end Config
end RestCache
