import RestCache.Config.WildcardPattern

/-!
# Constraints in the source of a pattern

A constraint is put into the pattern as it stands and lower-cased with it.  It
survives where its text reaches the pattern in one piece and still accepts, in
lower case, what the router's expression accepts with letter case ignored.
-/

namespace RestCache
namespace Config

open Foundation
open CaseMapping
open RegExpSource
open Router

/-!
## What survives
-/

/-- Piece by piece, the lower-cased text accepts what the constraint accepts. -/
def keepsMeaning (source : JsString) : Bool :=
  match compileIgnoringCase latin1Variants source,
    compile (lowerCasePattern latin1 source) with
  | Except.ok p, Except.ok q => mapsTo latin1Char latin1Chars p q
  | _, _ => false

def isFound (source : JsString) : Bool :=
  source.all isRest && source.all (fun c => !isLineTerminator c)

/-- The constraint asks for the end of the path. -/
def asksEnd (source : JsString) : Bool :=
  match compileIgnoringCase latin1Variants source with
  | Except.ok p => hasStop p
  | Except.error _ => false

/--
The constraint of a segment survives.  The pattern wants repeated values to
stand behind a slash each, as they do where the segment is the parameter alone.
-/
def survives : Segment -> Bool
  | Segment.param before _ (some source) modifier =>
      isFound source && keepsMeaning source &&
        (before = [] || modifier = Modifier.none ||
          modifier = Modifier.question)
  | _ => true

/-- A constraint that asks for the end of the path never stands at its end. -/
def endFits (rest : RoutePath) : Segment -> Bool
  | Segment.param _ _ (some source) _ =>
      !asksEnd source || rest.any Segment.takesText
  | _ => true

def allSurvive : RoutePath -> Bool
  | [] => true
  | segment :: rest =>
      survives segment && endFits rest segment && allSurvive rest

/-!
## Lower case
-/

theorem lowerParts_cons {part : JsString} {c : Char} (s : JsString)
    (hc : c ≠ '\\') :
    lowerParts latin1 part (c :: s) = lowerParts latin1 (part ++ [c]) s := by
  rw [lowerParts]
  · intro hbackslash
    exact absurd hbackslash hc
  · intro d rest hbackslash
    exact absurd hbackslash hc

theorem lowerParts_append_part (x part s : JsString) :
    lowerParts latin1 (x ++ part) s =
      x.map latin1Char ++ lowerParts latin1 part s := by
  have hsplit : forall part : JsString, latin1.toLowerCase (x ++ part) =
      x.map latin1Char ++ latin1.toLowerCase part :=
    fun _ => List.map_append
  fun_induction lowerParts latin1 part s with
  | case1 part => exact hsplit part
  | case2 part => simp [lowerParts, hsplit]
  | case3 part c rest hline ih => simp [lowerParts, hsplit, hline]
  | case4 part c rest hline ih => simp [lowerParts, hsplit, hline]
  | case5 part c rest hnot hnot' ih =>
      rw [lowerParts_cons rest (not_backslash hnot hnot'), List.append_assoc]
      exact ih

theorem lowerCasePattern_append {s : JsString} (t : JsString)
    (hs : escapesEnd s = true) :
    lowerCasePattern latin1 (s ++ t) =
      lowerCasePattern latin1 s ++ lowerCasePattern latin1 t := by
  have hparts : forall part, lowerParts latin1 part (s ++ t) =
      lowerParts latin1 part s ++ lowerParts latin1 [] t := by
    intro part
    fun_induction lowerParts latin1 part s with
    | case1 part =>
        have hpart := lowerParts_append_part part [] t
        rw [List.append_nil] at hpart
        exact hpart
    | case2 part => exact absurd hs Bool.false_ne_true
    | case3 part c rest hline ih =>
        have hbackslash : c ≠ '\\' := by
          intro h
          rw [h] at hline
          exact absurd hline (by decide)
        rw [escapesEnd_cons _ hbackslash] at ih
        simpa [lowerParts, hline] using ih hs
    | case4 part c rest hline ih => simp [lowerParts, hline, ih hs]
    | case5 part c rest hnot hnot' ih =>
        have hbackslash := not_backslash hnot hnot'
        rw [escapesEnd_cons _ hbackslash] at hs
        rw [List.cons_append, lowerParts_cons _ hbackslash]
        exact ih hs
  exact hparts []

structure CaseLowers (s t : JsString) : Prop where
  escapes : escapesEnd s = true
  letters : lowerCasePattern latin1 s = t

theorem CaseLowers.append {s t s' t' : JsString} (hs : CaseLowers s s')
    (ht : CaseLowers t t') : CaseLowers (s ++ t) (s' ++ t') := by
  constructor
  · exact escapesEnd_append hs.escapes ht.escapes
  · rw [lowerCasePattern_append t hs.escapes, hs.letters, ht.letters]

theorem Lowers.caseLowers {s t : JsString} (h : Lowers s t) :
    CaseLowers s t :=
  ⟨h.escapes, h.eq latin1⟩

theorem escapesEnd_of_closesPattern {count : Nat} {source : JsString}
    (h : closesPattern count source = true) : escapesEnd source = true := by
  fun_induction closesPattern count source with
  | case1 count => rfl
  | case2 count => exact absurd h Bool.false_ne_true
  | case3 count c rest ih => exact ih h
  | case4 rest => exact absurd h Bool.false_ne_true
  | case5 count rest ih =>
      rw [escapesEnd_cons _ (by decide)]
      exact ih h
  | case6 count rest ih =>
      rw [Bool.and_eq_true] at h
      rw [escapesEnd_cons _ (by decide)]
      exact ih h.right
  | case7 count c rest hnot hnot' _ _ _ ih =>
      rw [escapesEnd_cons _ (not_backslash hnot hnot')]
      exact ih h

end Config
end RestCache
