import RestCache.Foundation.RegExpRules
import RestCache.Foundation.UniqueDecoding

/-!
# Sources without groups and quantifiers

Such a source is a row of pieces: character sets, the two anchors and bars.  Its
expression matches what the pieces between two bars match one after the other,
so a match is a run along the row that starts at its beginning or behind a bar.
-/

namespace RestCache
namespace Foundation

namespace RegExpSource

/-- A piece of such a source; a closing parenthesis closes nothing here. -/
inductive RowPiece where
  | set (accepts : Char -> Bool)
  | start
  | stop
  | bar
  | closing

namespace RowPiece

def token : RowPiece -> Token
  | set accepts => Token.atom accepts
  | start => Token.assertion Pattern.start
  | stop => Token.assertion Pattern.stop
  | bar => Token.bar
  | closing => Token.closing

/-- The pieces up to the next bar match `mid` between the two contexts. -/
def Spans : List RowPiece -> Meaning
  | [], _, mid, _ => mid = []
  | bar :: _, _, mid, _ => mid = []
  | closing :: _, _, _, _ => False
  | set accepts :: rest, before, mid, after =>
      exists c more, mid = c :: more ∧ accepts c = true ∧
        Spans rest (before ++ [c]) more after
  | start :: rest, before, mid, after =>
      before = [] ∧ Spans rest before mid after
  | stop :: rest, before, mid, after =>
      mid = [] ∧ after = [] ∧ Spans rest before mid after

def AfterBar (pieces rest : List RowPiece) : Prop :=
  exists left, pieces = left ++ bar :: rest

/-- A place in the row where a run may start. -/
def Starts (pieces rest : List RowPiece) : Prop :=
  rest = pieces ∨ AfterBar pieces rest

/-!
## Places to start at
-/

theorem afterBar_cons_iff {p : RowPiece} {pieces rest : List RowPiece}
    (hp : p ≠ bar) : AfterBar (p :: pieces) rest <-> AfterBar pieces rest := by
  constructor
  · intro hgiven
    rcases hgiven with ⟨left, hleft⟩
    cases left with
    | nil => exact absurd (List.cons.inj hleft).left hp
    | cons q left => exact ⟨left, (List.cons.inj hleft).right⟩
  · intro hgiven
    rcases hgiven with ⟨left, hleft⟩
    exact ⟨p :: left, by rw [hleft, List.cons_append]⟩

theorem afterBar_bar_iff {pieces rest : List RowPiece} :
    AfterBar (bar :: pieces) rest <-> rest = pieces ∨ AfterBar pieces rest := by
  constructor
  · intro hgiven
    rcases hgiven with ⟨left, hleft⟩
    cases left with
    | nil => exact Or.inl (List.cons.inj hleft).right.symm
    | cons q left => exact Or.inr ⟨left, (List.cons.inj hleft).right⟩
  · intro hcase
    rcases hcase with heq | ⟨left, hleft⟩
    · exact ⟨[], by rw [heq, List.nil_append]⟩
    · exact ⟨bar :: left, by rw [hleft, List.cons_append]⟩

theorem starts_suffix {left tail rest : List RowPiece}
    (h : Starts (left ++ tail) rest) (htail : bar ∉ tail) :
    exists more, rest = more ++ tail := by
  induction left with
  | nil =>
      rcases h with heq | ⟨front, hfront⟩
      · exact ⟨[], heq⟩
      · rw [List.nil_append] at hfront
        rw [hfront] at htail
        exact absurd (by simp) htail
  | cons p left ih =>
      rcases h with heq | hafter
      · exact ⟨p :: left, heq⟩
      · by_cases hp : p = bar
        · rw [hp, List.cons_append] at hafter
          exact ih (afterBar_bar_iff.mp hafter)
        · exact ih (Or.inr ((afterBar_cons_iff hp).mp hafter))

/-- Behind the last bar only one place is left. -/
theorem starts_lastBar {left tail rest : List RowPiece}
    (h : Starts (left ++ bar :: tail) rest) (htail : bar ∉ tail)
    (hrest : bar ∉ rest) : rest = tail := by
  rcases h with heq | ⟨front, hfront⟩
  · rw [heq] at hrest
    exact absurd (by simp) hrest
  · have hsame : forall {xs ys : List RowPiece}, bar ∉ tail -> bar ∉ rest ->
        xs ++ bar :: tail = ys ++ bar :: rest -> rest = tail := by
      intro xs ys htail hrest heq
      have hrev := congrArg List.reverse heq
      simp only [List.reverse_append, List.reverse_cons, List.append_assoc,
        List.singleton_append] at hrev
      have hparts := UniqueDecoding.split_first
        (by rwa [List.mem_reverse]) (by rwa [List.mem_reverse]) hrev
      exact (List.reverse_injective hparts.left).symm
    exact hsame htail hrest hfront

theorem starts_sublist {pieces rest : List RowPiece} (h : Starts pieces rest) :
    rest <:+ pieces := by
  rcases h with heq | ⟨left, hleft⟩
  · exact ⟨[], by rw [heq, List.nil_append]⟩
  · exact ⟨left ++ [bar], by rw [hleft]; simp⟩

theorem starts_snoc {pieces rest : List RowPiece} {p : RowPiece} (hp : p ≠ bar)
    (h : Starts (pieces ++ [p]) rest) :
    exists more, rest = more ++ [p] ∧ Starts pieces more := by
  rcases h with heq | ⟨left, hleft⟩
  · exact ⟨pieces, heq, Or.inl rfl⟩
  · have hlast : (left ++ bar :: rest).getLast? = some p := by
      rw [← hleft, List.getLast?_concat]
    rcases List.eq_nil_or_concat' rest with hnil | ⟨more, last, hmore⟩
    · rw [hnil, List.getLast?_concat, Option.some.injEq] at hlast
      exact absurd hlast.symm hp
    · subst hmore
      rw [show left ++ bar :: (more ++ [last]) =
        (left ++ bar :: more) ++ [last] by simp] at hlast hleft
      rw [List.getLast?_concat, Option.some.injEq] at hlast
      rw [hlast] at hleft ⊢
      exact ⟨more, rfl, Or.inr ⟨left, List.append_cancel_right hleft⟩⟩

/-!
## Runs
-/

theorem spans_length {pieces : List RowPiece} {before mid after : JsString}
    (h : Spans pieces before mid after) : mid.length ≤ pieces.length := by
  induction pieces generalizing before mid with
  | nil => rw [show mid = [] from h]; exact Nat.le_refl 0
  | cons p rest ih =>
      cases p with
      | set accepts =>
          rcases h with ⟨c, more, hmid, _, hrest⟩
          rw [hmid]
          exact Nat.succ_le_succ (ih hrest)
      | start => exact Nat.le_succ_of_le (ih h.right)
      | stop => exact Nat.le_succ_of_le (ih h.right.right)
      | bar =>
          rw [show mid = [] from h]
          exact Nat.zero_le _
      | closing => exact absurd h id

/-- Away from its beginning, where in a text the run starts does not matter. -/
theorem spans_moved {pieces : List RowPiece} {before before' mid after : JsString}
    (hbefore : before ≠ []) (hbefore' : before' ≠ [])
    (h : Spans pieces before mid after) : Spans pieces before' mid after := by
  induction pieces generalizing before before' mid with
  | nil => exact h
  | cons p rest ih =>
      cases p with
      | set accepts =>
          rcases h with ⟨c, more, hmid, hc, hrest⟩
          exact ⟨c, more, hmid, hc, ih (by simp) (by simp) hrest⟩
      | start => exact absurd h.left hbefore
      | stop => exact ⟨h.left, h.right.left, ih hbefore hbefore' h.right.right⟩
      | bar => exact h
      | closing => exact h

theorem spans_followed {pieces : List RowPiece}
    {before mid after : JsString} (hafter : after ≠ []) (after' : JsString)
    (h : Spans pieces before mid after) : Spans pieces before mid after' := by
  induction pieces generalizing before mid with
  | nil => exact h
  | cons p rest ih =>
      cases p with
      | set accepts =>
          rcases h with ⟨c, more, hmid, hc, hrest⟩
          exact ⟨c, more, hmid, hc, ih hrest⟩
      | start => exact ⟨h.left, ih h.right⟩
      | stop => exact absurd h.right.left hafter
      | bar => exact h
      | closing => exact h

theorem spans_split {pieces : List RowPiece} {before x y after : JsString}
    {c : Char} (h : Spans pieces before (x ++ c :: y) after) :
    exists left accepts right, pieces = left ++ set accepts :: right ∧
      bar ∉ left ∧ accepts c = true ∧
      Spans left before x (c :: y ++ after) ∧
      Spans right (before ++ x ++ [c]) y after := by
  induction pieces generalizing before x with
  | nil => exact absurd h (by simp [Spans])
  | cons p rest ih =>
      cases p with
      | set accepts =>
          rcases h with ⟨d, more, hmid, hd, hrest⟩
          cases x with
          | nil =>
              rcases List.cons.inj hmid with ⟨hc, hy⟩
              subst hc hy
              exact ⟨[], accepts, rest, rfl, List.not_mem_nil, hd, rfl, by
                simpa using hrest⟩
          | cons e x =>
              rcases List.cons.inj hmid with ⟨he, hx⟩
              subst he hx
              rcases ih hrest with
                ⟨left, found, right, hpieces, hbar, hfound, hleft, hright⟩
              refine ⟨set accepts :: left, found, right, ?_, ?_, hfound, ?_, ?_⟩
              · rw [hpieces, List.cons_append]
              · simpa using hbar
              · exact ⟨e, x, rfl, hd, hleft⟩
              · simpa using hright
      | start =>
          rcases ih h.right with
            ⟨left, found, right, hpieces, hbar, hfound, hleft, hright⟩
          refine ⟨start :: left, found, right, ?_, ?_, hfound, ?_, hright⟩
          · rw [hpieces, List.cons_append]
          · simpa using hbar
          · exact ⟨h.left, hleft⟩
      | stop => exact absurd h.left (by simp)
      | bar => exact absurd (show x ++ c :: y = [] from h) (by simp)
      | closing => exact absurd h id

theorem spans_append {left right : List RowPiece} {before x y after : JsString}
    (hbar : bar ∉ left) (hleft : Spans left before x (y ++ after))
    (hright : Spans right (before ++ x) y after) :
    Spans (left ++ right) before (x ++ y) after := by
  induction left generalizing before x with
  | nil =>
      rw [show x = [] from hleft, List.append_nil] at hright
      rw [show x = [] from hleft]
      exact hright
  | cons p rest ih =>
      have hrest : bar ∉ rest := fun hmem => hbar (List.mem_cons_of_mem p hmem)
      cases p with
      | set accepts =>
          rcases hleft with ⟨c, more, hx, hc, hmore⟩
          rw [hx] at hright ⊢
          exact ⟨c, more ++ y, rfl, hc, ih hrest hmore (by simpa using hright)⟩
      | start => exact ⟨hleft.left, ih hrest hleft.right hright⟩
      | stop =>
          rcases hleft with ⟨hx, hend, hmore⟩
          rcases List.append_eq_nil_iff.mp hend with ⟨hy, hafter⟩
          exact ⟨by simp [hx, hy], hafter, ih hrest hmore hright⟩
      | bar => exact absurd List.mem_cons_self hbar
      | closing => exact absurd hleft id

theorem spans_append_split {left right : List RowPiece}
    {before mid after : JsString} (hbar : bar ∉ left)
    (h : Spans (left ++ right) before mid after) :
    exists x y, mid = x ++ y ∧ Spans left before x (y ++ after) ∧
      Spans right (before ++ x) y after := by
  induction left generalizing before mid with
  | nil => exact ⟨[], mid, rfl, rfl, by simpa using h⟩
  | cons p rest ih =>
      have hrest : bar ∉ rest := fun hmem => hbar (List.mem_cons_of_mem p hmem)
      cases p with
      | set accepts =>
          rcases h with ⟨c, more, hmid, hc, hmore⟩
          rcases ih hrest hmore with ⟨x, y, hxy, hx, hy⟩
          refine ⟨c :: x, y, ?_, ⟨c, x, rfl, hc, hx⟩, by simpa using hy⟩
          rw [hmid, hxy, List.cons_append]
      | start =>
          rcases ih hrest h.right with ⟨x, y, hxy, hx, hy⟩
          exact ⟨x, y, hxy, ⟨h.left, hx⟩, hy⟩
      | stop =>
          rcases h with ⟨hmid, hafter, hmore⟩
          rcases ih hrest hmore with ⟨x, y, hxy, hx, hy⟩
          rw [hmid] at hxy
          rcases List.append_eq_nil_iff.mp hxy.symm with ⟨hxnil, hynil⟩
          subst hxnil hynil
          exact ⟨[], [], hmid, ⟨rfl, hafter, hx⟩, hy⟩
      | bar => exact absurd List.mem_cons_self hbar
      | closing => exact absurd h id

def literals (text : JsString) : List RowPiece :=
  text.map (fun c => set (literal c))

theorem spans_literals {text before mid after : JsString} :
    Spans (literals text) before mid after <-> mid = text := by
  induction text generalizing before mid with
  | nil => exact Iff.rfl
  | cons c text ih =>
      constructor
      · intro hgiven
        rcases hgiven with ⟨d, more, hmid, hd, hmore⟩
        rw [hmid, ih.mp hmore, show d = c by simpa [literal] using hd]
      · intro hmid
        exact ⟨c, text, hmid, by simp [literal], ih.mpr rfl⟩

theorem bar_not_mem_literals (text : JsString) : bar ∉ literals text := by
  simp [literals]

/-!
## The expression of a row
-/

def term : RowPiece -> Option Last
  | set accepts => some (Last.atom (Pattern.char accepts))
  | start => some (Last.fixed Pattern.start)
  | stop => some (Last.fixed Pattern.stop)
  | bar => none
  | closing => none

theorem assemble_term {r : Reader} {p : RowPiece} {last : Last}
    (h : p.term = some last) :
    assemble r p.token = Except.ok { r with level := r.level.push last } := by
  cases p with
  | set accepts => rw [← Option.some.inj h]; rfl
  | start => rw [← Option.some.inj h]; rfl
  | stop => rw [← Option.some.inj h]; rfl
  | bar => exact absurd h (by simp [term])
  | closing => exact absurd h (by simp [term])

theorem spans_term {p : RowPiece} {last : Last} {rest : List RowPiece}
    (h : p.term = some last) {before mid after : JsString} :
    Spans (p :: rest) before mid after <->
      Meaning.seq (Pattern.Matches last.pattern) (Spans rest)
        before mid after := by
  cases p with
  | set accepts =>
      rw [← Option.some.inj h]
      constructor
      · intro hgiven
        rcases hgiven with ⟨c, more, hmid, hc, hmore⟩
        exact ⟨[c], more, hmid, ⟨c, rfl, hc⟩, hmore⟩
      · intro hgiven
        rcases hgiven with ⟨x, y, hmid, ⟨c, hx, hc⟩, hy⟩
        rw [hx] at hmid hy
        exact ⟨c, y, hmid, hc, hy⟩
  | start =>
      rw [← Option.some.inj h]
      constructor
      · intro hgiven
        exact ⟨[], mid, rfl, ⟨rfl, hgiven.left⟩, by simpa using hgiven.right⟩
      · intro hgiven
        rcases hgiven with ⟨x, y, hmid, ⟨hx, hbefore⟩, hy⟩
        rw [hx] at hmid hy
        rw [hmid]
        exact ⟨hbefore, by simpa using hy⟩
  | stop =>
      rw [← Option.some.inj h]
      constructor
      · intro hgiven
        rcases hgiven with ⟨hmid, hafter, hrest⟩
        refine ⟨[], mid, rfl, ⟨rfl, ?_⟩, by simpa using hrest⟩
        rw [hmid, hafter]
        rfl
      · intro hgiven
        rcases hgiven with ⟨x, y, hmid, ⟨hx, hend⟩, hy⟩
        rcases List.append_eq_nil_iff.mp hend with ⟨hynil, hafter⟩
        rw [hx, hynil] at hmid hy
        rw [hmid]
        exact ⟨rfl, hafter, by simpa using hy⟩
  | bar => exact absurd h (by simp [term])
  | closing => exact absurd h (by simp [term])

/-- What a reader that goes on with the pieces ends up matching. -/
def Completed (level : Level) (pieces : List RowPiece) : Meaning :=
  fun before mid after =>
    (exists p, level.alternatives = some p ∧
      Pattern.Matches p before mid after) ∨
    Meaning.seq (Pattern.Matches level.terms) (Spans pieces)
      before mid after ∨
    exists rest, AfterBar pieces rest ∧ Spans rest before mid after

theorem matches_body {level : Level} {before mid after : JsString} :
    Pattern.Matches level.body before mid after <->
      (exists p, level.alternatives = some p ∧
        Pattern.Matches p before mid after) ∨
      Pattern.Matches level.terms before mid after := by
  cases halternatives : level.alternatives with
  | none => simp [Level.body, halternatives]
  | some p => simp [Level.body, halternatives, Pattern.Matches]

theorem completed_push {level : Level} {p : RowPiece} {last : Last}
    {rest : List RowPiece} (h : p.term = some last)
    {before mid after : JsString} :
    Completed (level.push last) rest before mid after <->
      Completed level (p :: rest) before mid after := by
  have hbar : p ≠ bar := by
    intro hp
    rw [hp] at h
    exact absurd h (by simp [term])
  have hterms : Meaning.seq (Pattern.Matches (level.push last).terms)
        (Spans rest) before mid after <->
      Meaning.seq (Pattern.Matches level.terms) (Spans (p :: rest))
        before mid after := by
    calc Meaning.seq (Pattern.Matches (level.push last).terms) (Spans rest)
          before mid after
        <-> Meaning.seq (Meaning.seq (Pattern.Matches level.terms)
              (Pattern.Matches last.pattern)) (Spans rest) before mid after :=
          seq_congr (matches_push (fun _ _ _ => Iff.rfl)) (fun _ _ _ => Iff.rfl)
      _ <-> Meaning.seq (Pattern.Matches level.terms)
              (Meaning.seq (Pattern.Matches last.pattern) (Spans rest))
              before mid after := seq_assoc
      _ <-> Meaning.seq (Pattern.Matches level.terms) (Spans (p :: rest))
              before mid after :=
          seq_congr (fun _ _ _ => Iff.rfl) (fun _ _ _ => (spans_term h).symm)
  unfold Completed
  rw [hterms]
  simp only [afterBar_cons_iff hbar]
  exact Iff.rfl

theorem completed_bar {level : Level} {rest : List RowPiece}
    {before mid after : JsString} :
    Completed { Level.init level.group with alternatives := some level.body }
        rest before mid after <->
      Completed level (bar :: rest) before mid after := by
  have hempty : forall b m a, Pattern.Matches
      { Level.init level.group with alternatives := some level.body }.terms
        b m a <-> Meaning.empty b m a := by
    intro b m a
    constructor
    · intro hgiven
      rcases hgiven with ⟨x, y, hm, hx, hy⟩
      rw [hm, show x = [] from hx, show y = [] from hy]
      rfl
    · intro hm
      exact ⟨[], [], hm, rfl, rfl⟩
  have hfresh : Meaning.seq (Pattern.Matches
        { Level.init level.group with alternatives := some level.body }.terms)
        (Spans rest) before mid after <-> Spans rest before mid after :=
    (seq_congr hempty (fun _ _ _ => Iff.rfl)).trans empty_seq
  have hended : Meaning.seq (Pattern.Matches level.terms) (Spans (bar :: rest))
      before mid after <-> Pattern.Matches level.terms before mid after :=
    seq_empty
  unfold Completed
  rw [hfresh, hended]
  simp only [Option.some.injEq, exists_eq_left', matches_body,
    afterBar_bar_iff, or_and_right, exists_or, exists_eq_left]
  rw [or_assoc]

theorem assembleAll_pieces {r r' : Reader} {pieces : List RowPiece}
    (henclosing : r.enclosing = [])
    (h : assembleAll r (pieces.map token) = Except.ok r') :
    closing ∉ pieces ∧ r'.enclosing = [] ∧
      forall before mid after,
        Pattern.Matches r'.level.body before mid after <->
          Completed r.level pieces before mid after := by
  induction pieces generalizing r with
  | nil =>
      rw [← Except.ok.inj h]
      refine ⟨List.not_mem_nil, henclosing, ?_⟩
      intro before mid after
      have hnone : ¬ exists rest, AfterBar [] rest ∧
          Spans rest before mid after := by
        intro hgiven
        rcases hgiven with ⟨rest, ⟨left, hleft⟩, _⟩
        exact absurd hleft (by simp)
      rw [matches_body, Completed, or_iff_left hnone]
      exact or_congr Iff.rfl seq_empty.symm
  | cons p rest ih =>
      rw [List.map_cons, assembleAll] at h
      cases hterm : p.term with
      | some last =>
          rw [assemble_term hterm] at h
          rcases @ih { r with level := r.level.push last } henclosing h with
            ⟨hclosing, hend, hmatches⟩
          refine ⟨?_, hend, ?_⟩
          · rw [List.mem_cons, not_or]
            refine ⟨?_, hclosing⟩
            intro hp
            rw [← hp] at hterm
            exact absurd hterm (by simp [term])
          · intro before mid after
            rw [hmatches]
            exact completed_push hterm
      | none =>
          cases p with
          | bar =>
              let level := { Level.init r.level.group with
                alternatives := some r.level.body }
              rcases @ih { r with level } henclosing h with
                ⟨hclosing, hend, hmatches⟩
              refine ⟨by simpa using hclosing, hend, ?_⟩
              intro before mid after
              rw [hmatches]
              exact completed_bar
          | closing =>
              simp [token, assemble, henclosing, Except.bind] at h
          | set accepts => exact absurd hterm (by simp [term])
          | start => exact absurd hterm (by simp [term])
          | stop => exact absurd hterm (by simp [term])

/-- The expression of a row finds the runs that start where one may start. -/
theorem compile_pieces {source : JsString} {pieces : List RowPiece} {p : Pattern}
    (htokens : tokens source = Except.ok (pieces.map token))
    (h : compile source = Except.ok p) :
    closing ∉ pieces ∧ forall text, p.test text = true <->
      exists before mid after rest, text = before ++ (mid ++ after) ∧
        Starts pieces rest ∧ Spans rest before mid after := by
  unfold compile at h
  simp only [htokens, Except.bind] at h
  cases hall : assembleAll Reader.init (pieces.map token) with
  | error e => simp [hall] at h
  | ok r =>
      rcases assembleAll_pieces rfl hall with ⟨hclosing, hend, hmatches⟩
      simp only [hall, hend, Except.ok.injEq] at h
      refine ⟨hclosing, ?_⟩
      have hrow : forall before mid after,
          Pattern.Matches p before mid after <->
            exists rest, Starts pieces rest ∧ Spans rest before mid after := by
        intro before mid after
        have hterms : forall b m a,
            Pattern.Matches Reader.init.level.terms b m a <->
              Meaning.empty b m a := by
          intro b m a
          constructor
          · intro hgiven
            rcases hgiven with ⟨x, y, hm, hx, hy⟩
            rw [hm, show x = [] from hx, show y = [] from hy]
            rfl
          · intro hm
            exact ⟨[], [], hm, rfl, rfl⟩
        have hfresh : Meaning.seq (Pattern.Matches Reader.init.level.terms)
              (Spans pieces) before mid after <->
            Spans pieces before mid after :=
          (seq_congr hterms (fun _ _ _ => Iff.rfl)).trans empty_seq
        rw [← h, hmatches, Completed, hfresh]
        simp [Reader.init, Level.init, Starts, or_and_right, exists_or]
      intro text
      rw [Pattern.test_iff]
      simp only [Pattern.Occurs, hrow]
      constructor
      · intro hgiven
        rcases hgiven with ⟨before, mid, after, htext, rest, hstarts, hspans⟩
        exact ⟨before, mid, after, rest, htext, hstarts, hspans⟩
      · intro hgiven
        rcases hgiven with ⟨before, mid, after, rest, htext, hstarts, hspans⟩
        exact ⟨before, mid, after, htext, rest, hstarts, hspans⟩

end RowPiece

end RegExpSource

end Foundation
end RestCache
