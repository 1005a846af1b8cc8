import RestCache.Foundation.RegExpRules

/-!
# Regular expressions and letter case

An expression that ignores letter case compares characters up to their
variants.  Where every character of a text is mapped to another one, a second
expression of the same form matches the mapped text if each of its character
sets holds the images of the first one's.
-/

namespace RestCache
namespace Foundation

namespace RegExpSource

/-!
## Ignoring case
-/

section IgnoringCase

variable (variants : Char -> List Char)

def anyVariant (accepts : Char -> Bool) (c : Char) : Bool :=
  (variants c).any accepts

def ClassState.ignoringCase (k : ClassState) : ClassState :=
  { k with accepts := anyVariant variants k.accepts }

def Token.ignoringCase : Token -> Token
  | Token.atom accepts => Token.atom (anyVariant variants accepts)
  | token => token

/-- A class is widened before it is negated. -/
def scanCharIgnoringCase (mode : Mode) (c : Char) :
    Except Unreadable Scanned :=
  match mode with
  | Mode.inClass k =>
      if c = ']' then
        Except.ok ([(k.ignoringCase variants).token], Mode.text)
      else
        scanChar (Mode.inClass k) c
  | mode =>
      (scanChar mode c).map fun z =>
        (z.1.map (Token.ignoringCase variants), z.2)

def scanIgnoringCase : Mode -> JsString -> Except Unreadable Scanned
  | mode, [] => Except.ok ([], mode)
  | mode, c :: rest =>
      (scanCharIgnoringCase variants mode c).bind fun z =>
        (scanIgnoringCase z.2 rest).map fun y => (z.1 ++ y.1, y.2)

def tokensIgnoringCase (source : JsString) : Except Unreadable (List Token) :=
  (scanIgnoringCase variants Mode.text source).bind fun z =>
    (endOf z.2).map fun rest => z.1 ++ rest

def compileIgnoringCase (source : JsString) : Except Unreadable Pattern :=
  (tokensIgnoringCase variants source).bind fun ts =>
    (assembleAll Reader.init ts).bind fun r =>
      match r.enclosing with
      | [] => Except.ok r.level.body
      | _ :: _ => Except.error Unreadable.syntaxError

end IgnoringCase

/-!
## Mapped texts
-/

def hasStop : Pattern -> Bool
  | Pattern.stop => true
  | Pattern.look _ p => hasStop p
  | Pattern.seq p q => hasStop p || hasStop q
  | Pattern.alt p q => hasStop p || hasStop q
  | Pattern.star p => hasStop p
  | _ => false

section Mapped

variable (f : Char -> Char) (alphabet : List Char)

/-- The two have one form, and images of accepted characters are accepted. -/
def mapsTo : Pattern -> Pattern -> Bool
  | Pattern.empty, Pattern.empty => true
  | Pattern.char accepts, Pattern.char accepts' =>
      alphabet.all fun c => !accepts c || accepts' (f c)
  | Pattern.start, Pattern.start => true
  | Pattern.stop, Pattern.stop => true
  | Pattern.boundary negated, Pattern.boundary negated' => negated = negated'
  | Pattern.seq p q, Pattern.seq p' q' => mapsTo p p' && mapsTo q q'
  | Pattern.alt p q, Pattern.alt p' q' => mapsTo p p' && mapsTo q q'
  | Pattern.star p, Pattern.star p' => mapsTo p p'
  | _, _ => false

/-- The two have one form, and what has an accepted image is accepted. -/
def mapsFrom : Pattern -> Pattern -> Bool
  | Pattern.empty, Pattern.empty => true
  | Pattern.char accepts, Pattern.char accepts' =>
      alphabet.all fun c => !accepts' (f c) || accepts c
  | Pattern.start, Pattern.start => true
  | Pattern.stop, Pattern.stop => true
  | Pattern.boundary negated, Pattern.boundary negated' => negated = negated'
  | Pattern.seq p q, Pattern.seq p' q' => mapsFrom p p' && mapsFrom q q'
  | Pattern.alt p q, Pattern.alt p' q' => mapsFrom p p' && mapsFrom q q'
  | Pattern.star p, Pattern.star p' => mapsFrom p p'
  | _, _ => false

def SameHead (after after' : JsString) : Prop :=
  after'.head?.any Pattern.isWordChar = after.head?.any Pattern.isWordChar

/--
What the first meaning matches, the second one matches in the mapped text.  With
`more` this is only asked where something follows.
-/
def Carries (more : Prop) (M N : Meaning) : Prop :=
  forall before mid after after', (forall c, c ∈ mid -> c ∈ alphabet) ->
    SameHead after after' -> (more -> after ≠ []) -> M before mid after ->
    N (before.map f) (mid.map f) after'

/--
What the second meaning matches in the mapped text, in front of more of it, the
first one matches.
-/
def CarriesBack (M N : Meaning) : Prop :=
  forall before mid after after', (forall c, c ∈ mid -> c ∈ alphabet) ->
    SameHead after after' -> after' ≠ [] ->
    N (before.map f) (mid.map f) after' -> M before mid after

variable {f : Char -> Char} {alphabet : List Char} {more : Prop}

theorem sameHead_append
    (hword : forall c, Pattern.isWordChar (f c) = Pattern.isWordChar c)
    {after after' : JsString} (h : SameHead after after') (y : JsString) :
    SameHead (y ++ after) (y.map f ++ after') := by
  cases y with
  | nil => exact h
  | cons c y => exact hword c

theorem atWordBoundary_map
    (hword : forall c, Pattern.isWordChar (f c) = Pattern.isWordChar c)
    {after after' : JsString} (h : SameHead after after')
    (before : JsString) :
    Pattern.atWordBoundary (before.map f) after' =
      Pattern.atWordBoundary before after := by
  have hlast : (before.map f).getLast?.any Pattern.isWordChar =
      before.getLast?.any Pattern.isWordChar := by
    rw [List.getLast?_map]
    cases before.getLast? with
    | none => rfl
    | some c => exact hword c
  rw [Pattern.atWordBoundary, Pattern.atWordBoundary, hlast,
    show after'.head?.any _ = _ from h]

theorem Carries.weaken {more' : Prop} {M N : Meaning}
    (h : Carries f alphabet more M N) (hmore : more -> more') :
    Carries f alphabet more' M N := by
  intro before mid after after' hmid hhead hafter hM
  exact h before mid after after' hmid hhead (fun hgiven =>
    hafter (hmore hgiven)) hM

theorem carries_ofSet {A B : JsString -> Prop}
    (h : forall mid, (forall c, c ∈ mid -> c ∈ alphabet) -> A mid ->
      B (mid.map f)) :
    Carries f alphabet more (Meaning.ofSet A) (Meaning.ofSet B) := by
  intro before mid after after' hmid _ _ hA
  exact h mid hmid hA

theorem carries_optional {M N : Meaning} (h : Carries f alphabet more M N) :
    Carries f alphabet more (Meaning.optional M) (Meaning.optional N) := by
  intro before mid after after' hmid hhead hafter hM
  rcases hM with hM | hnil
  · exact Or.inl (h before mid after after' hmid hhead hafter hM)
  · exact Or.inr (by rw [hnil, List.map_nil])

theorem carries_seq {more' : Prop} {L M L' M' : Meaning}
    (hword : forall c, Pattern.isWordChar (f c) = Pattern.isWordChar c)
    (hL : Carries f alphabet more' L L') (hM : Carries f alphabet more M M')
    (hmore : more' -> more ∨
      forall before mid after, M before mid after -> mid ≠ []) :
    Carries f alphabet more (Meaning.seq L M) (Meaning.seq L' M') := by
  intro before mid after after' hmid hhead hafter hgiven
  rcases hgiven with ⟨x, y, rfl, hx, hy⟩
  refine ⟨x.map f, y.map f, List.map_append, ?_, ?_⟩
  · apply hL before x (y ++ after)
    · exact fun c hc => hmid c (List.mem_append_left y hc)
    · exact sameHead_append hword hhead y
    · intro hneeds
      rcases hmore hneeds with hgiven | hnonempty
      · exact List.append_ne_nil_of_right_ne_nil y (hafter hgiven)
      · exact List.append_ne_nil_of_left_ne_nil (hnonempty _ _ _ hy) after
    · exact hx
  · rw [← List.map_append]
    exact hM (before ++ x) y after after'
      (fun c hc => hmid c (List.mem_append_right x hc)) hhead hafter hy

theorem carries_star {M N : Meaning}
    (hword : forall c, Pattern.isWordChar (f c) = Pattern.isWordChar c)
    (h : Carries f alphabet more M N) :
    Carries f alphabet more (Meaning.star M) (Meaning.star N) := by
  intro before mid after after' hmid hhead hafter hM
  induction hM with
  | done before after => exact Pattern.Iterated.done (before.map f) after'
  | @more before x y after hne hx _ ih =>
      have hrest := ih (fun c hc => hmid c (List.mem_append_right x hc)) hhead
        hafter
      rw [List.map_append] at hrest ⊢
      refine Pattern.Iterated.more (by simpa using hne) ?_ hrest
      apply h before x (y ++ after) (y.map f ++ after')
        (fun c hc => hmid c (List.mem_append_left y hc))
        (sameHead_append hword hhead y) ?_ hx
      exact fun hneeds => List.append_ne_nil_of_right_ne_nil y (hafter hneeds)

/-- A pattern carries what it matches to the pattern it is mapped to. -/
theorem carries_of_mapsTo
    (hword : forall c, Pattern.isWordChar (f c) = Pattern.isWordChar c)
    {p q : Pattern} (h : mapsTo f alphabet p q = true) :
    Carries f alphabet (hasStop p = true) (Pattern.Matches p)
      (Pattern.Matches q) := by
  induction p generalizing q with
  | empty =>
      cases q with
      | empty =>
          intro before mid after after' _ _ _ hmatch
          rw [show mid = [] from hmatch]
          rfl
      | _ => exact absurd h Bool.false_ne_true
  | char accepts =>
      cases q with
      | char accepts' =>
          intro before mid after after' hmid _ _ hmatch
          rcases hmatch with ⟨c, rfl, hc⟩
          have himage := List.all_eq_true.mp h c (hmid c List.mem_cons_self)
          rw [hc] at himage
          exact ⟨f c, rfl, himage⟩
      | _ => exact absurd h Bool.false_ne_true
  | start =>
      cases q with
      | start =>
          intro before mid after after' _ _ _ hmatch
          rcases hmatch with ⟨rfl, rfl⟩
          exact ⟨rfl, rfl⟩
      | _ => exact absurd h Bool.false_ne_true
  | stop =>
      cases q with
      | stop =>
          intro before mid after after' _ _ hafter hmatch
          exact absurd hmatch.right (hafter rfl)
      | _ => exact absurd h Bool.false_ne_true
  | boundary negated =>
      cases q with
      | boundary negated' =>
          intro before mid after after' _ hhead _ hmatch
          rcases hmatch with ⟨rfl, hboundary⟩
          rw [← of_decide_eq_true h]
          exact ⟨rfl, by rw [atWordBoundary_map hword hhead, hboundary]⟩
      | _ => exact absurd h Bool.false_ne_true
  | look negated p _ => exact absurd h (by cases q <;> exact Bool.false_ne_true)
  | seq p p' ihp ihp' =>
      cases q with
      | seq q q' =>
          rw [mapsTo, Bool.and_eq_true] at h
          exact carries_seq hword
            ((ihp h.left).weaken fun hstop => by rw [hasStop, hstop]; rfl)
            ((ihp' h.right).weaken fun hstop => by
              rw [hasStop, hstop, Bool.or_true])
            Or.inl
      | _ => exact absurd h Bool.false_ne_true
  | alt p p' ihp ihp' =>
      cases q with
      | alt q q' =>
          rw [mapsTo, Bool.and_eq_true] at h
          intro before mid after after' hmid hhead hafter hmatch
          rcases hmatch with hmatch | hmatch
          · apply Or.inl
            apply ihp h.left before mid after after' hmid hhead _ hmatch
            exact fun hstop => hafter (by rw [hasStop, hstop]; rfl)
          · apply Or.inr
            apply ihp' h.right before mid after after' hmid hhead _ hmatch
            exact fun hstop => hafter (by rw [hasStop, hstop, Bool.or_true])
      | _ => exact absurd h Bool.false_ne_true
  | star p ih =>
      cases q with
      | star q => exact carries_star hword (ih h)
      | _ => exact absurd h Bool.false_ne_true

/-!
## Back from a mapped text
-/

theorem carriesBack_ofSet {A B : JsString -> Prop}
    (h : forall mid, (forall c, c ∈ mid -> c ∈ alphabet) -> B (mid.map f) ->
      A mid) :
    CarriesBack f alphabet (Meaning.ofSet A) (Meaning.ofSet B) := by
  intro before mid after after' hmid _ _ hB
  exact h mid hmid hB

theorem carriesBack_optional {M N : Meaning} (h : CarriesBack f alphabet M N) :
    CarriesBack f alphabet (Meaning.optional M) (Meaning.optional N) := by
  intro before mid after after' hmid hhead hafter hN
  rcases hN with hN | hnil
  · exact Or.inl (h before mid after after' hmid hhead hafter hN)
  · exact Or.inr (List.map_eq_nil_iff.mp hnil)

theorem carriesBack_seq {L M L' M' : Meaning}
    (hword : forall c, Pattern.isWordChar (f c) = Pattern.isWordChar c)
    (hL : CarriesBack f alphabet L L') (hM : CarriesBack f alphabet M M') :
    CarriesBack f alphabet (Meaning.seq L M) (Meaning.seq L' M') := by
  intro before mid after after' hmid hhead hafter hgiven
  rcases hgiven with ⟨x', y', hsplit, hx, hy⟩
  rcases List.map_eq_append_iff.mp hsplit with ⟨x, y, rfl, rfl, rfl⟩
  refine ⟨x, y, rfl, ?_, ?_⟩
  · exact hL before x (y ++ after) (y.map f ++ after')
      (fun c hc => hmid c (List.mem_append_left y hc))
      (sameHead_append hword hhead y)
      (List.append_ne_nil_of_right_ne_nil _ hafter) hx
  · rw [← List.map_append] at hy
    exact hM (before ++ x) y after after'
      (fun c hc => hmid c (List.mem_append_right x hc)) hhead hafter hy

theorem carriesBack_star {M N : Meaning}
    (hword : forall c, Pattern.isWordChar (f c) = Pattern.isWordChar c)
    (h : CarriesBack f alphabet M N) :
    CarriesBack f alphabet (Meaning.star M) (Meaning.star N) := by
  intro before mid after after' hmid hhead hafter hN
  generalize hbefore : before.map f = before' at hN
  generalize hmapped : mid.map f = mid' at hN
  induction hN generalizing before mid with
  | done before' after' =>
      rw [List.map_eq_nil_iff.mp hmapped]
      exact Pattern.Iterated.done before after
  | @more before' x' y' after' hne hx _ ih =>
      rcases List.map_eq_append_iff.mp hmapped with ⟨x, y, rfl, rfl, rfl⟩
      refine Pattern.Iterated.more (fun hnil => hne (by rw [hnil]; rfl)) ?_ ?_
      · rw [← hbefore] at hx
        exact h before x (y ++ after) (y.map f ++ after')
          (fun c hc => hmid c (List.mem_append_left y hc))
          (sameHead_append hword hhead y)
          (List.append_ne_nil_of_right_ne_nil _ hafter) hx
      · exact ih (before ++ x) y
          (fun c hc => hmid c (List.mem_append_right x hc)) hhead hafter
          (by rw [List.map_append, hbefore]) rfl

/-- In front of more text, a pattern matches what the one it is mapped to does. -/
theorem carriesBack_of_mapsFrom
    (hword : forall c, Pattern.isWordChar (f c) = Pattern.isWordChar c)
    {p q : Pattern} (h : mapsFrom f alphabet p q = true) :
    CarriesBack f alphabet (Pattern.Matches p) (Pattern.Matches q) := by
  induction p generalizing q with
  | empty =>
      cases q with
      | empty =>
          intro before mid after after' _ _ _ hmatch
          exact List.map_eq_nil_iff.mp hmatch
      | _ => exact absurd h Bool.false_ne_true
  | char accepts =>
      cases q with
      | char accepts' =>
          intro before mid after after' hmid _ _ hmatch
          rcases hmatch with ⟨d, hsingle, hd⟩
          rcases List.map_eq_singleton_iff.mp hsingle with ⟨c, rfl, rfl⟩
          have haccepted := List.all_eq_true.mp h c (hmid c List.mem_cons_self)
          rw [hd] at haccepted
          exact ⟨c, rfl, haccepted⟩
      | _ => exact absurd h Bool.false_ne_true
  | start =>
      cases q with
      | start =>
          intro before mid after after' _ _ _ hmatch
          exact ⟨List.map_eq_nil_iff.mp hmatch.left,
            List.map_eq_nil_iff.mp hmatch.right⟩
      | _ => exact absurd h Bool.false_ne_true
  | stop =>
      cases q with
      | stop =>
          intro before mid after after' _ _ hafter hmatch
          exact absurd hmatch.right hafter
      | _ => exact absurd h Bool.false_ne_true
  | boundary negated =>
      cases q with
      | boundary negated' =>
          intro before mid after after' _ hhead _ hmatch
          refine ⟨List.map_eq_nil_iff.mp hmatch.left, ?_⟩
          rw [← atWordBoundary_map hword hhead, hmatch.right]
          exact (of_decide_eq_true h).symm ▸ rfl
      | _ => exact absurd h Bool.false_ne_true
  | look negated p _ => exact absurd h (by cases q <;> exact Bool.false_ne_true)
  | seq p p' ihp ihp' =>
      cases q with
      | seq q q' =>
          rw [mapsFrom, Bool.and_eq_true] at h
          exact carriesBack_seq hword (ihp h.left) (ihp' h.right)
      | _ => exact absurd h Bool.false_ne_true
  | alt p p' ihp ihp' =>
      cases q with
      | alt q q' =>
          rw [mapsFrom, Bool.and_eq_true] at h
          intro before mid after after' hmid hhead hafter hmatch
          exact hmatch.imp
            (ihp h.left before mid after after' hmid hhead hafter)
            (ihp' h.right before mid after after' hmid hhead hafter)
      | _ => exact absurd h Bool.false_ne_true
  | star p ih =>
      cases q with
      | star q => exact carriesBack_star hword (ih h)
      | _ => exact absurd h Bool.false_ne_true

end Mapped

end RegExpSource

end Foundation
end RestCache
