import RestCache.Config.PatternText
import RestCache.Foundation.FlatPattern
import RestCache.Keys.RootedPath

/-!
# The path of a route without parameters as a source

The path is put into the source as it stands, so the characters that mean
something in an expression are read as pieces of one: anchors, bars, any
character, and what stands between brackets as one set.
-/

namespace RestCache
namespace Config

open Foundation
open RegExpSource
open RowPiece

def routeSpecials : JsString :=
  "*+?\\\x7b\x7d:(".toList

def isLiteral (c : Char) : Bool :=
  0x20 ≤ c.toNat && c.toNat ≤ 0x7e && c ∉ routeSpecials

/-- The literal characters that an expression has a meaning for. -/
def sourceSpecials : JsString :=
  ".$^|[)".toList

theorem isLiteral_ascii {c : Char} (h : isLiteral c = true) : c.toNat < 128 := by
  simp only [isLiteral, Bool.and_eq_true, decide_eq_true_eq] at h
  omega

theorem isLiteral_toLower {c : Char} (h : isLiteral c = true) :
    isLiteral c.toLower = true :=
  @CaseMapping.of_ascii
    (fun c => isLiteral c = true -> isLiteral c.toLower = true)
    (by decide) c (isLiteral_ascii h) h

theorem lowerCasePattern_literal (lower : CaseMapping) {path : JsString}
    (h : path.all isLiteral = true) :
    lowerCasePattern lower path = path.map Char.toLower := by
  have hline : IsAsciiLine path := by
    intro c hc
    have hliteral := List.all_eq_true.mp h c hc
    have hkind := @CaseMapping.of_ascii
      (fun c => isLiteral c = true -> isLineTerminator c = false)
      (by decide) c (isLiteral_ascii hliteral) hliteral
    exact ⟨isLiteral_ascii hliteral, hkind⟩
  rw [lowerCasePattern_eq lower hline]
  clear hline
  induction path with
  | nil => rfl
  | cons c rest ih =>
      rw [List.all_cons, Bool.and_eq_true] at h
      have hc : c ≠ '\\' := by
        intro heq
        rw [heq] at h
        exact absurd h.left (by decide)
      rw [lowerLetters_cons rest hc, ih h.right, List.map_cons]

/-!
## Sets between brackets
-/

def InBrackets (n : Nat) : Prop :=
  0x20 ≤ n ∧ n ≤ 0x7e ∧ n ≠ '?'.toNat ∧ n ≠ ']'.toNat ∧ n ≠ '\\'.toNat

theorem inBrackets_of_isLiteral {c : Char} (h : isLiteral c = true)
    (hclose : c ≠ ']') : InBrackets c.toNat := by
  have hkind := @CaseMapping.of_ascii
    (fun c => isLiteral c = true -> c ≠ ']' -> 0x20 ≤ c.toNat ∧
      c.toNat ≤ 0x7e ∧ c.toNat ≠ '?'.toNat ∧ c.toNat ≠ ']'.toNat ∧
      c.toNat ≠ '\\'.toNat)
    (by decide) c (isLiteral_ascii h)
  exact hkind h hclose

def DEL : Char :=
  Char.ofNat 0x7f

/--
A set takes some other character with a question mark, and a backslash with a
closing bracket.
-/
structure TakesMore (accepts : Char -> Bool) : Prop where
  question : accepts '?' = true ->
    accepts '@' = true ∨ accepts DEL = true
  bracket : accepts ']' = true -> accepts '\\' = true

/-- What has been read of a set; negation is not applied yet. -/
structure Bracketed (k : ClassState) : Prop where
  question : k.accepts '?' = true -> k.accepts '@' = true
  unprinted : k.accepts DEL = false
  bracket : k.accepts ']' = k.accepts '\\'
  last : match k.last with
    | ClassLast.nothing => True
    | ClassLast.char c => InBrackets c.toNat
    | ClassLast.range low => InBrackets low.toNat
    | ClassLast.set => False
    | ClassLast.setDash => False

theorem bracketed_init (negated : Bool) :
    Bracketed (ClassState.init negated) :=
  ⟨fun h => absurd h Bool.false_ne_true, rfl, rfl, trivial⟩

theorem char_le_iff {c d : Char} : c ≤ d <-> c.toNat ≤ d.toNat :=
  UInt32.le_iff_toNat_le

theorem Bracketed.char {k k' : ClassState} {c : Char} (h : Bracketed k)
    (hc : InBrackets c.toNat) (hk : k.char c = Except.ok k') :
    Bracketed k' := by
  have hsymbols : '?'.toNat = 0x3f ∧ '@'.toNat = 0x40 ∧ ']'.toNat = 0x5d ∧
      '\\'.toNat = 0x5c ∧ DEL.toNat = 0x7f := by
    decide
  rcases hsymbols with ⟨hquestion, hat, hclose, hback, hdel⟩
  have hlast := h.last
  unfold ClassState.char at hk
  split at hk
  · rename_i low hrange
    rw [hrange] at hlast
    simp only at hlast
    unfold InBrackets at hlast hc
    split at hk
    · rw [← Except.ok.inj hk]
      refine ⟨?_, ?_, ?_, trivial⟩
      · intro hboth
        simp only [ClassState.add, Bool.or_eq_true, Bool.and_eq_true,
          decide_eq_true_eq, char_le_iff] at hboth ⊢
        exact hboth.imp h.question (fun hin => by omega)
      · simp only [ClassState.add, h.unprinted, Bool.false_or,
          Bool.and_eq_false_iff, decide_eq_false_iff_not, char_le_iff]
        omega
      · simp only [ClassState.add, h.bracket]
        congr 1
        rw [Bool.eq_iff_iff]
        simp only [Bool.and_eq_true, decide_eq_true_eq, char_le_iff]
        omega
    · exact absurd hk (by simp)
  · rename_i hdash
    rw [hdash] at hlast
    exact absurd hlast id
  · rw [← Except.ok.inj hk]
    have hne : forall d : Char, d.toNat ≠ c.toNat -> literal c d = false := by
      intro d hd
      simp only [literal, decide_eq_false_iff_not]
      exact fun heq => hd (by rw [heq])
    unfold InBrackets at hc
    refine ⟨?_, ?_, ?_, hc⟩
    · intro hboth
      simp only [ClassState.add, hne '?' (by omega), Bool.or_false] at hboth
      simp only [ClassState.add, h.question hboth, Bool.true_or]
    · simp only [ClassState.add, h.unprinted, hne DEL (by omega),
        Bool.or_false]
    · simp only [ClassState.add, hne ']' (by omega), hne '\\' (by omega),
        h.bracket]

theorem Bracketed.dash {k k' : ClassState} (h : Bracketed k)
    (hk : k.dash = Except.ok k') : Bracketed k' := by
  have hlast := h.last
  unfold ClassState.dash at hk
  split at hk
  · rename_i low hchar
    rw [hchar] at hlast
    rw [← Except.ok.inj hk]
    exact ⟨h.question, h.unprinted, h.bracket, hlast⟩
  · rename_i hset
    rw [hset] at hlast
    exact absurd hlast id
  · exact h.char (by unfold InBrackets; decide) hk

theorem Bracketed.token {k : ClassState} (h : Bracketed k) :
    exists accepts, k.token = (set accepts).token ∧ TakesMore accepts := by
  have hdash : literal '-' '?' = false ∧ literal '-' '@' = false ∧
      literal '-' DEL = false ∧ literal '-' ']' = false ∧
      literal '-' '\\' = false := by
    decide
  have hclosed : forall accepts : Char -> Bool,
      accepts '?' = k.accepts '?' -> accepts '@' = k.accepts '@' ->
      accepts DEL = k.accepts DEL ->
      accepts ']' = k.accepts ']' -> accepts '\\' = k.accepts '\\' ->
      TakesMore (fun c => accepts c != k.negated) := by
    intro accepts hquestion hat hdel hclose hback
    constructor
    · rw [hquestion, hat, hdel, h.unprinted]
      cases hnegated : k.negated with
      | false =>
          simp only [Bool.bne_false]
          exact fun hq => Or.inl (h.question hq)
      | true => simp
    · rw [hclose, hback, h.bracket]
      exact id
  unfold ClassState.token
  split
  · refine ⟨_, rfl, hclosed _ ?_ ?_ ?_ ?_ ?_⟩ <;> simp [hdash]
  · refine ⟨_, rfl, hclosed _ ?_ ?_ ?_ ?_ ?_⟩ <;> simp [hdash]
  · exact ⟨_, rfl, hclosed _ rfl rfl rfl rfl rfl⟩

/-!
## The pieces of a path
-/

inductive Mark : Char -> RowPiece -> Prop where
  | any : Mark '.' (set (fun c => !isLineTerminator c))
  | stop : Mark '$' stop
  | start : Mark '^' start
  | bar : Mark '|' bar
  | closing : Mark ')' closing

theorem Mark.special {c : Char} {p : RowPiece} (h : Mark c p) :
    c ∈ sourceSpecials := by
  cases h <;> decide

inductive Cut : JsString -> List RowPiece -> Prop where
  | nil : Cut [] []
  | char {c : Char} {rest : JsString} {pieces : List RowPiece} :
      isLiteral c = true -> c ∉ sourceSpecials -> Cut rest pieces ->
      Cut (c :: rest) (set (literal c) :: pieces)
  | mark {c : Char} {p : RowPiece} {rest : JsString} {pieces : List RowPiece} :
      Mark c p -> Cut rest pieces -> Cut (c :: rest) (p :: pieces)
  | brackets {inner rest : JsString} {accepts : Char -> Bool}
      {pieces : List RowPiece} :
      TakesMore accepts -> Cut rest pieces ->
      Cut ('[' :: inner ++ ']' :: rest) (set accepts :: pieces)

theorem textChar_literal {c : Char} (h : isLiteral c = true) (hset : c ≠ '[') :
    exists p, textChar c = ([p.token], Mode.text) ∧
      (Mark c p ∨ c ∉ sourceSpecials ∧ p = set (literal c)) := by
  by_cases hmark : c ∈ sourceSpecials
  · have hcases : c = '.' ∨ c = '$' ∨ c = '^' ∨ c = '|' ∨ c = '[' ∨ c = ')' := by
      simpa [sourceSpecials] using hmark
    rcases hcases with rfl | rfl | rfl | rfl | rfl | rfl
    · exact ⟨_, rfl, Or.inl Mark.any⟩
    · exact ⟨_, rfl, Or.inl Mark.stop⟩
    · exact ⟨_, rfl, Or.inl Mark.start⟩
    · exact ⟨_, rfl, Or.inl Mark.bar⟩
    · exact absurd rfl hset
    · exact ⟨_, rfl, Or.inl Mark.closing⟩
  · refine ⟨set (literal c), ?_, Or.inr ⟨hmark, rfl⟩⟩
    have hnone : forall d, d ∈ routeSpecials ++ sourceSpecials -> c ≠ d := by
      intro d hd hcd
      subst hcd
      rcases List.mem_append.mp hd with hroute | hsource
      · simp [isLiteral, hroute] at h
      · exact hmark hsource
    unfold textChar
    split <;> first | rfl | exact absurd rfl (hnone _ (by decide))

def Ended (path : JsString) (read : List Token) (mode : Mode) : Prop :=
  exists pieces, Cut path pieces ∧
    read = (pieces ++ [set (literal '?')]).map token ∧ mode = Mode.text

def EndedInSet (path : JsString) (read : List Token) (mode : Mode) : Prop :=
  exists inner rest accepts more, path = inner ++ ']' :: rest ∧
    TakesMore accepts ∧ Ended rest more mode ∧
    read = (set accepts).token :: more

theorem EndedInSet.cons {path : JsString} {read : List Token} {mode : Mode}
    (c : Char) (h : EndedInSet path read mode) :
    EndedInSet (c :: path) read mode := by
  rcases h with ⟨inner, rest, accepts, more, hpath, htakes, hended, hread⟩
  exact ⟨c :: inner, rest, accepts, more, by rw [hpath, List.cons_append],
    htakes, hended, hread⟩

theorem EndedInSet.ended {path : JsString} {read : List Token} {mode : Mode}
    (h : EndedInSet path read mode) : Ended ('[' :: path) read mode := by
  rcases h with
    ⟨inner, rest, accepts, more, hpath, htakes, ⟨pieces, hcut, hmore, hmode⟩, hread⟩
  refine ⟨set accepts :: pieces, ?_, ?_, hmode⟩
  · rw [hpath, ← List.cons_append]
    exact Cut.brackets htakes hcut
  · rw [hread, hmore]
    rfl

theorem scan_cons {mode mode' : Mode} {c : Char} {s : JsString}
    {read : List Token} (h : scan mode (c :: s) = Except.ok (read, mode')) :
    exists z more, scanChar mode c = Except.ok z ∧
      scan z.2 s = Except.ok (more, mode') ∧ read = z.1 ++ more := by
  rw [scan] at h
  cases hc : scanChar mode c with
  | error e => simp [hc, Except.bind] at h
  | ok z =>
      cases hrest : scan z.2 s with
      | error e => simp [hc, hrest, Except.bind, Except.map] at h
      | ok y =>
          simp only [hc, hrest, Except.bind, Except.map, Except.ok.injEq,
            Prod.mk.injEq] at h
          exact ⟨z, y.1, rfl, by rw [hrest, ← h.right], h.left.symm⟩

/-- The modes a literal text can be read in, and what its scan comes to. -/
structure Scanned (path : JsString) : Prop where
  text : forall read mode, scan Mode.text (path ++ "\\?".toList) =
    Except.ok (read, mode) -> endOf mode ≠ Except.error Unreadable.syntaxError ->
    Ended path read mode
  set : forall k, Bracketed k -> forall read mode,
    scan (Mode.inClass k) (path ++ "\\?".toList) = Except.ok (read, mode) ->
    endOf mode ≠ Except.error Unreadable.syntaxError ->
    EndedInSet path read mode
  opened : forall read mode,
    scan Mode.classOpen (path ++ "\\?".toList) = Except.ok (read, mode) ->
    endOf mode ≠ Except.error Unreadable.syntaxError ->
    EndedInSet path read mode

theorem endOf_unclosed {k : ClassState} {read : List Token} {mode : Mode}
    (h : scan (Mode.inClass k) "\\?".toList = Except.ok (read, mode)) :
    endOf mode = Except.error Unreadable.syntaxError := by
  rcases scan_cons h with ⟨z, more, hz, hrest, _⟩
  rw [← Except.ok.inj hz] at hrest
  rcases scan_cons hrest with ⟨y, last, hy, hend, _⟩
  have hchar : (k.char '?').map
      (fun k => (([], Mode.inClass k) : List Token × Mode)) = Except.ok y := hy
  cases hk : k.char '?' with
  | error e => simp [hk, Except.map] at hchar
  | ok k' =>
      rw [hk] at hchar
      rw [← Except.ok.inj hchar] at hend
      rw [← (Prod.mk.inj (Except.ok.inj hend)).right]
      rfl

theorem scanned_nil : Scanned [] := by
  constructor
  · intro read mode h _
    have hread : Except.ok ([ofChar '?'], Mode.text) =
        Except.ok (read, mode) := h
    rw [Except.ok.injEq, Prod.mk.injEq] at hread
    exact ⟨[], Cut.nil, hread.left.symm, hread.right.symm⟩
  · intro k _ read mode h hend
    exact absurd (endOf_unclosed h) hend
  · intro read mode h hend
    exact absurd (@endOf_unclosed (ClassState.init false) read mode h) hend

theorem scanned_literal {path : JsString} (h : path.all isLiteral = true) :
    Scanned path := by
  induction path with
  | nil => exact scanned_nil
  | cons c rest ih =>
      rw [List.all_cons, Bool.and_eq_true] at h
      have hrest := ih h.right
      have hset : forall k, Bracketed k -> forall read mode,
          scan (Mode.inClass k) (c :: rest ++ "\\?".toList) =
            Except.ok (read, mode) ->
          endOf mode ≠ Except.error Unreadable.syntaxError ->
          EndedInSet (c :: rest) read mode := by
        intro k hk read mode hscan hend
        rcases scan_cons hscan with ⟨z, more, hz, hmore, hread⟩
        have hcontinued : forall found : Except Unreadable ClassState,
            found.map (fun k => (([], Mode.inClass k) : List Token × Mode)) =
              Except.ok z ->
            (forall k', found = Except.ok k' -> Bracketed k') ->
            EndedInSet (c :: rest) read mode := by
          intro found hfound hsound
          cases found with
          | error e => exact absurd hfound (by simp [Except.map])
          | ok k' =>
              rw [← Except.ok.inj hfound] at hmore hread
              rw [hread]
              exact (hrest.set k' (hsound k' rfl) more mode hmore hend).cons c
        have hback : c ≠ '\\' := by
          intro heq
          rw [heq] at h
          exact absurd h.left (by decide)
        rw [scanChar, classChar] at hz
        by_cases hclose : c = ']'
        · rw [if_pos hclose, Except.ok.injEq] at hz
          rw [← hz] at hmore hread
          rcases hk.token with ⟨accepts, htoken, htakes⟩
          refine ⟨[], rest, accepts, more, by rw [hclose, List.nil_append],
            htakes, hrest.text more mode hmore hend, ?_⟩
          rw [hread, htoken]
          rfl
        · rw [if_neg hclose, if_neg hback] at hz
          by_cases hdash : c = '-'
          · rw [if_pos hdash] at hz
            exact hcontinued k.dash hz (fun k' => hk.dash)
          · rw [if_neg hdash] at hz
            exact hcontinued (k.char c) hz
              (fun k' => hk.char (inBrackets_of_isLiteral h.left hclose))
      constructor
      · intro read mode hscan hend
        rcases scan_cons hscan with ⟨z, more, hz, hmore, hread⟩
        by_cases hopen : c = '['
        · subst hopen
          rw [← Except.ok.inj hz] at hmore hread
          rw [hread]
          exact (hrest.opened more mode hmore hend).ended
        · rcases textChar_literal h.left hopen with ⟨p, hp, hkind⟩
          have hzp : z = ([p.token], Mode.text) := by
            rw [← hp]
            exact (Except.ok.inj hz).symm
          rw [hzp] at hmore hread
          rcases hrest.text more mode hmore hend with ⟨pieces, hcut, hpieces, hmode⟩
          refine ⟨p :: pieces, ?_, by rw [hread, hpieces]; rfl, hmode⟩
          rcases hkind with hmark | ⟨hplain, hp⟩
          · exact Cut.mark hmark hcut
          · rw [hp]
            exact Cut.char h.left hplain hcut
      · exact hset
      · intro read mode hscan hend
        rcases scan_cons hscan with ⟨z, more, hz, hmore, hread⟩
        by_cases hnegated : c = '^'
        · subst hnegated
          rw [← Except.ok.inj hz] at hmore hread
          rw [hread]
          exact (hrest.set _ (bracketed_init true) more mode hmore hend).cons '^'
        · apply hset _ (bracketed_init false) read mode _ hend
          have hsame : scanChar Mode.classOpen c =
              scanChar (Mode.inClass (ClassState.init false)) c :=
            if_neg hnegated
          rw [List.cons_append, scan, hsame] at hscan
          rw [List.cons_append, scan]
          exact hscan

theorem cut_of_tokens {path : JsString} (h : path.all isLiteral = true)
    {ts : List Token}
    (htokens : tokens ('^' :: path ++ "\\?".toList) = Except.ok ts) :
    exists pieces, Cut path pieces ∧
      ts = (start :: (pieces ++ [set (literal '?')])).map token := by
  unfold tokens at htokens
  cases hscan : scan Mode.text ('^' :: path ++ "\\?".toList) with
  | error e =>
      rw [hscan] at htokens
      exact absurd htokens (by simp [Except.bind])
  | ok y =>
      cases hend : endOf y.2 with
      | error e =>
          rw [hscan] at htokens
          exact absurd htokens (by simp [hend, Except.bind, Except.map])
      | ok ends =>
          simp only [hscan, hend, Except.bind, Except.map,
            Except.ok.injEq] at htokens
          rcases scan_cons (show scan Mode.text ('^' :: (path ++ "\\?".toList)) =
            Except.ok (y.1, y.2) from hscan) with ⟨z, more, hz, hmore, hread⟩
          rw [← Except.ok.inj hz] at hmore hread
          rcases (scanned_literal h).text more y.2 hmore (by simp [hend]) with
            ⟨pieces, hcut, hpieces, hmode⟩
          rw [hmode] at hend
          refine ⟨pieces, hcut, ?_⟩
          rw [← htokens, hread, hpieces, ← Except.ok.inj hend]
          simp [textChar, token]

def row (pieces : List RowPiece) : List RowPiece :=
  start :: (pieces ++ [set (literal '?')])

theorem cut_of_compile {path : JsString} (h : path.all isLiteral = true)
    {pattern : Pattern}
    (hcompile : compile ('^' :: path ++ "\\?".toList) = Except.ok pattern) :
    exists pieces, Cut path pieces ∧ closing ∉ pieces ∧
      forall text, pattern.test text = true <->
        exists before mid after rest, text = before ++ (mid ++ after) ∧
          Starts (row pieces) rest ∧ Spans rest before mid after := by
  cases htokens : tokens ('^' :: path ++ "\\?".toList) with
  | error e =>
      rw [compile, htokens] at hcompile
      exact absurd hcompile (by simp [Except.bind])
  | ok ts =>
      rcases cut_of_tokens h htokens with ⟨pieces, hcut, hts⟩
      rw [hts] at htokens
      rcases compile_pieces htokens hcompile with ⟨hclosing, htest⟩
      exact ⟨pieces, hcut, fun hmem => hclosing (by simp [hmem]), htest⟩

theorem cut_question {path : JsString} {pieces : List RowPiece}
    (h : Cut path pieces) {accepts : Char -> Bool}
    (hmem : set accepts ∈ pieces) (hquestion : accepts '?' = true) :
    accepts '@' = true ∨ accepts DEL = true := by
  induction h with
  | nil => exact absurd hmem List.not_mem_nil
  | @char c rest pieces hliteral _ _ ih =>
      rcases List.mem_cons.mp hmem with hhead | htail
      · rw [set.injEq] at hhead
        rw [hhead] at hquestion
        have hc : '?' = c := by simpa [literal] using hquestion
        rw [← hc] at hliteral
        exact absurd hliteral (by decide)
      · exact ih htail
  | mark hmark _ ih =>
      rcases List.mem_cons.mp hmem with hhead | htail
      · cases hmark with
        | any =>
            rw [set.injEq] at hhead
            rw [hhead]
            exact Or.inl (by decide)
        | stop => exact absurd hhead (by simp)
        | start => exact absurd hhead (by simp)
        | bar => exact absurd hhead (by simp)
        | closing => exact absurd hhead (by simp)
      · exact ih htail
  | brackets htakes _ ih =>
      rcases List.mem_cons.mp hmem with hhead | htail
      · rw [set.injEq] at hhead
        rw [hhead] at hquestion ⊢
        exact htakes.question hquestion
      · exact ih htail

inductive EndsIn : Char -> RowPiece -> Prop where
  | mark {c : Char} {p : RowPiece} : Mark c p -> EndsIn c p
  | brackets {accepts : Char -> Bool} :
      TakesMore accepts -> EndsIn ']' (set accepts)

theorem cut_cases {path : JsString} {pieces : List RowPiece}
    (h : Cut path pieces) :
    (pieces = literals path ∧ forall c, c ∈ path -> c ∉ sourceSpecials) ∨
      exists front c text left p, path = front ++ c :: text ∧
        pieces = left ++ p :: literals text ∧ EndsIn c p ∧
        forall d, d ∈ text -> d ∉ sourceSpecials := by
  have hfirst : forall {text front : JsString} {c : Char} {rest : JsString}
      {p : RowPiece} {more : List RowPiece}, text = front ++ c :: rest ->
      EndsIn c p ->
      ((more = literals rest ∧ forall d, d ∈ rest -> d ∉ sourceSpecials) ∨
        exists front d text left q, rest = front ++ d :: text ∧
          more = left ++ q :: literals text ∧ EndsIn d q ∧
          forall e, e ∈ text -> e ∉ sourceSpecials) ->
      exists front d text' left q, text = front ++ d :: text' ∧
        p :: more = left ++ q :: literals text' ∧ EndsIn d q ∧
        forall e, e ∈ text' -> e ∉ sourceSpecials := by
    intro text front c rest p more htext hp hcase
    rcases hcase with ⟨hmore, hplain⟩ | ⟨front', d, tail, left, q, hrest, hmore, hq, hplain⟩
    · exact ⟨front, c, rest, [], p, htext, by rw [hmore]; rfl, hp, hplain⟩
    · exact ⟨front ++ c :: front', d, tail, p :: left, q,
        by rw [htext, hrest]; simp, by rw [hmore]; rfl, hq, hplain⟩
  induction h with
  | nil => exact Or.inl ⟨rfl, by simp⟩
  | @char c rest pieces _ hplain _ ih =>
      rcases ih with ⟨hpieces, hrest⟩ | ⟨front, d, text, left, p, hrest, hpieces, hp, htext⟩
      · refine Or.inl ⟨by rw [hpieces]; rfl, ?_⟩
        intro d hd
        rcases List.mem_cons.mp hd with heq | hmem
        · rw [heq]
          exact hplain
        · exact hrest d hmem
      · exact Or.inr ⟨c :: front, d, text, set (literal c) :: left, p,
          by rw [hrest]; rfl, by rw [hpieces]; rfl, hp, htext⟩
  | mark hmark _ ih => exact Or.inr (@hfirst _ [] _ _ _ _ rfl (EndsIn.mark hmark) ih)
  | brackets htakes _ ih =>
      exact Or.inr (hfirst rfl (EndsIn.brackets htakes) ih)

end Config
end RestCache
