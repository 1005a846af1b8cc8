import RestCache.Foundation.RegExpSource

/-!
# Rules for reading a source

What the parts of a source mean gives what the whole source means: a rule for
each way of putting parts together, down to single characters.
-/

namespace RestCache
namespace Foundation

namespace RegExpSource

/-- What a part of a source matches between a left and a right context. -/
abbrev Meaning := JsString -> JsString -> JsString -> Prop

namespace Meaning

def empty : Meaning :=
  fun _ mid _ => mid = []

def seq (M N : Meaning) : Meaning :=
  fun before mid after =>
    exists x y, mid = x ++ y ∧ M before x (y ++ after) ∧ N (before ++ x) y after

def ofSet (accepts : JsString -> Prop) : Meaning :=
  fun _ mid _ => accepts mid

def char (accepts : Char -> Bool) : Meaning :=
  fun _ mid _ => exists c, mid = [c] ∧ accepts c = true

def star (M : Meaning) : Meaning :=
  Pattern.Iterated M

def plus (M : Meaning) : Meaning :=
  seq M (star M)

def optional (M : Meaning) : Meaning :=
  fun before mid after => M before mid after ∨ mid = []

def either (M N : Meaning) : Meaning :=
  fun before mid after => M before mid after ∨ N before mid after

def text (s : JsString) : Meaning :=
  ofSet (fun mid => mid = s)

/-- Once or more, with `sep` between one and the next. -/
def separated (M : Meaning) (sep : JsString) : Meaning :=
  seq M (star (seq (text sep) M))

end Meaning

/-- A part that the scanner leaves where it can go on with any other part. -/
def Scans (source : JsString) (ts : List Token) : Prop :=
  scan Mode.text source = Except.ok (ts, Mode.text)

/-- A sequence of terms with this meaning. -/
def Reads (source : JsString) (M : Meaning) : Prop :=
  exists ts, Scans source ts ∧
    forall r : Reader, exists level,
      assembleAll r ts = Except.ok { r with level } ∧
        level.group = r.level.group ∧
        level.alternatives = r.level.alternatives ∧
        forall before mid after,
          Pattern.Matches level.terms before mid after <->
            Meaning.seq (Pattern.Matches r.level.terms) M before mid after

/-- One term with this meaning that a quantifier may follow. -/
def ReadsAtom (source : JsString) (M : Meaning) : Prop :=
  exists ts, Scans source ts ∧
    forall r : Reader, exists p,
      assembleAll r ts =
          Except.ok { r with level := r.level.push (Last.atom p) } ∧
        forall before mid after,
          Pattern.Matches p before mid after <-> M before mid after

/-- What may stand in a group: it ends at the next closing parenthesis. -/
def Closes (source : JsString) (M : Meaning) : Prop :=
  exists ts, Scans (source ++ [')']) (ts ++ [Token.closing]) ∧
    forall enclosing, exists level,
      assembleAll { level := Level.init Group.plain, enclosing } ts =
          Except.ok { level, enclosing } ∧
        level.group = Group.plain ∧
        forall before mid after,
          Pattern.Matches level.body before mid after <->
            M before mid after

/-!
## Putting parts together
-/

theorem scan_append {mode mode' mode'' : Mode} {s t : JsString}
    {ts us : List Token} (hs : scan mode s = Except.ok (ts, mode'))
    (ht : scan mode' t = Except.ok (us, mode'')) :
    scan mode (s ++ t) = Except.ok (ts ++ us, mode'') := by
  induction s generalizing mode ts with
  | nil =>
      simp only [scan, Except.ok.injEq, Prod.mk.injEq] at hs
      rw [← hs.left, hs.right]
      exact ht
  | cons c rest ih =>
      rw [List.cons_append, scan]
      rw [scan] at hs
      cases hc : scanChar mode c with
      | error e => simp [hc, Except.bind] at hs
      | ok z =>
          simp only [hc, Except.bind] at hs ⊢
          cases hrest : scan z.2 rest with
          | error e => simp [hrest, Except.map] at hs
          | ok y =>
              simp only [hrest, Except.map, Except.ok.injEq,
                Prod.mk.injEq] at hs
              rcases hs with ⟨hts, hmode⟩
              have htail : scan z.2 rest = Except.ok (y.1, mode') := by
                rw [hrest, ← hmode]
              rw [ih htail]
              simp [Except.map, ← hts]

theorem scans_append {s t : JsString} {ts us : List Token}
    (hs : Scans s ts) (ht : Scans t us) : Scans (s ++ t) (ts ++ us) :=
  scan_append hs ht

theorem assembleAll_append {r r' : Reader} {ts us : List Token}
    (h : assembleAll r ts = Except.ok r') :
    assembleAll r (ts ++ us) = assembleAll r' us := by
  induction ts generalizing r with
  | nil =>
      simp only [assembleAll, Except.ok.injEq] at h
      rw [h]
      rfl
  | cons token rest ih =>
      rw [List.cons_append, assembleAll]
      rw [assembleAll] at h
      cases htoken : assemble r token with
      | error e => simp [htoken, Except.bind] at h
      | ok u =>
          simp only [htoken, Except.bind] at h ⊢
          exact ih h

theorem seq_assoc {L M N : Meaning} {before mid after : JsString} :
    Meaning.seq (Meaning.seq L M) N before mid after <->
      Meaning.seq L (Meaning.seq M N) before mid after := by
  constructor
  · intro h
    rcases h with ⟨xy, z, hmid, ⟨x, y, hxy, hx, hy⟩, hz⟩
    subst hxy
    exact ⟨x, y ++ z, by simp [hmid], by simpa using hx,
      y, z, rfl, hy, by simpa using hz⟩
  · intro h
    rcases h with ⟨x, yz, hmid, hx, y, z, hyz, hy, hz⟩
    subst hyz
    exact ⟨x ++ y, z, by simp [hmid],
      ⟨x, y, rfl, by simpa using hx, hy⟩, by simpa using hz⟩

theorem seq_congr {M N M' N' : Meaning}
    (hM : forall before mid after, M before mid after <-> M' before mid after)
    (hN : forall before mid after, N before mid after <-> N' before mid after)
    {before mid after : JsString} :
    Meaning.seq M N before mid after <->
      Meaning.seq M' N' before mid after := by
  simp only [Meaning.seq, hM, hN]

theorem seq_empty {M : Meaning} {before mid after : JsString} :
    Meaning.seq M Meaning.empty before mid after <-> M before mid after := by
  constructor
  · intro hgiven
    rcases hgiven with ⟨x, y, hmid, hx, rfl⟩
    rw [hmid, List.append_nil]
    exact hx
  · intro h
    exact ⟨mid, [], by simp, h, rfl⟩

theorem empty_seq {M : Meaning} {before mid after : JsString} :
    Meaning.seq Meaning.empty M before mid after <-> M before mid after := by
  constructor
  · intro hgiven
    rcases hgiven with ⟨x, y, hmid, rfl, hy⟩
    rw [hmid]
    simpa using hy
  · intro h
    exact ⟨[], mid, rfl, rfl, by simpa using h⟩

theorem Reads.congr {source : JsString} {M N : Meaning} (h : Reads source M)
    (heq : forall before mid after, M before mid after <-> N before mid after) :
    Reads source N := by
  rcases h with ⟨ts, hscan, hread⟩
  refine ⟨ts, hscan, ?_⟩
  intro r
  rcases hread r with ⟨level, hassemble, hgroup, halternatives, hmeaning⟩
  refine ⟨level, hassemble, hgroup, halternatives, ?_⟩
  intro before mid after
  rw [hmeaning]
  exact seq_congr (fun _ _ _ => Iff.rfl) heq

theorem reads_nil : Reads [] Meaning.empty := by
  refine ⟨[], rfl, ?_⟩
  intro r
  exact ⟨r.level, rfl, rfl, rfl, fun _ _ _ => seq_empty.symm⟩

theorem reads_append {s t : JsString} {M N : Meaning} (hs : Reads s M)
    (ht : Reads t N) : Reads (s ++ t) (Meaning.seq M N) := by
  rcases hs with ⟨ts, hts, hM⟩
  rcases ht with ⟨us, hus, hN⟩
  refine ⟨ts ++ us, scans_append hts hus, ?_⟩
  intro r
  rcases hM r with ⟨level, hassemble, hgroup, halternatives, hmeaning⟩
  rcases hN { r with level } with
    ⟨level', hassemble', hgroup', halternatives', hmeaning'⟩
  refine ⟨level', ?_, hgroup'.trans hgroup,
    halternatives'.trans halternatives, ?_⟩
  · rw [assembleAll_append hassemble]
    exact hassemble'
  · intro before mid after
    rw [hmeaning', ← seq_assoc]
    exact seq_congr hmeaning (fun _ _ _ => Iff.rfl)

/-!
## Terms
-/

theorem matches_push {level : Level} {last : Last} {M : Meaning}
    (h : forall before mid after,
      Pattern.Matches last.pattern before mid after <-> M before mid after)
    (before mid after : JsString) :
    Pattern.Matches (level.push last).terms before mid after <->
      Meaning.seq (Pattern.Matches level.terms) M before mid after := by
  show Meaning.seq (Pattern.Matches level.terms)
    (Pattern.Matches last.pattern) before mid after <-> _
  exact seq_congr (fun _ _ _ => Iff.rfl) h

theorem ReadsAtom.reads {source : JsString} {M : Meaning}
    (h : ReadsAtom source M) : Reads source M := by
  rcases h with ⟨ts, hscan, hread⟩
  refine ⟨ts, hscan, ?_⟩
  intro r
  rcases hread r with ⟨p, hassemble, hmeaning⟩
  exact ⟨_, hassemble, rfl, rfl, matches_push hmeaning⟩

theorem readsAtom_of_scan {source : JsString} {accepts : Char -> Bool}
    (h : Scans source [Token.atom accepts]) :
    ReadsAtom source (Meaning.char accepts) := by
  refine ⟨[Token.atom accepts], h, ?_⟩
  intro r
  exact ⟨Pattern.char accepts, rfl, fun _ _ _ => Iff.rfl⟩

theorem readsAtom_of_char {c : Char}
    (h : textChar c = ([ofChar c], Mode.text)) :
    ReadsAtom [c] (Meaning.char (literal c)) := by
  apply readsAtom_of_scan
  simp [Scans, scan, scanChar, h, Except.bind, Except.map, ofChar]

theorem iterated_congr {M N : Meaning}
    (h : forall before mid after, M before mid after -> N before mid after)
    {before mid after : JsString} (hM : Pattern.Iterated M before mid after) :
    Pattern.Iterated N before mid after := by
  induction hM with
  | done before after => exact Pattern.Iterated.done before after
  | more hne hx _ ih => exact Pattern.Iterated.more hne (h _ _ _ hx) ih

theorem star_congr {M N : Meaning}
    (h : forall before mid after, M before mid after <-> N before mid after)
    (before mid after : JsString) :
    Meaning.star M before mid after <-> Meaning.star N before mid after := by
  constructor
  · exact iterated_congr (fun _ _ _ => (h _ _ _).mp)
  · exact iterated_congr (fun _ _ _ => (h _ _ _).mpr)

/-- A term, and behind it a quantifier that makes `q p` of its pattern `p`. -/
theorem reads_quantified {source : JsString} {M N : Meaning} {c : Char}
    {token : Token} {q : Pattern -> Pattern} (h : ReadsAtom source M)
    (hc : textChar c = ([token], Mode.text))
    (htoken : forall (r : Reader) (p : Pattern),
      assemble { r with level := r.level.push (Last.atom p) } token =
        Except.ok { r with level := r.level.push (Last.repeated (q p)) })
    (hq : forall p,
      (forall before mid after,
        Pattern.Matches p before mid after <-> M before mid after) ->
      forall before mid after,
        Pattern.Matches (q p) before mid after <-> N before mid after) :
    Reads (source ++ [c]) N := by
  rcases h with ⟨ts, hscan, hread⟩
  have hquantifier : Scans [c] [token] := by
    simp [Scans, scan, scanChar, hc, Except.bind, Except.map]
  refine ⟨ts ++ [token], scans_append hscan hquantifier, ?_⟩
  intro r
  rcases hread r with ⟨p, hassemble, hmeaning⟩
  refine ⟨r.level.push (Last.repeated (q p)), ?_, rfl, rfl,
    matches_push (hq p hmeaning)⟩
  rw [assembleAll_append hassemble, assembleAll, htoken]
  rfl

theorem reads_star {source : JsString} {M : Meaning}
    (h : ReadsAtom source M) : Reads (source ++ ['*']) (Meaning.star M) := by
  refine reads_quantified (q := fun p => repeatPattern p 0 none) h rfl
    (fun _ _ => rfl) ?_
  intro p hp before mid after
  show Meaning.seq Meaning.empty (Meaning.star (Pattern.Matches p))
    before mid after <-> _
  rw [empty_seq]
  exact star_congr hp before mid after

theorem reads_plus {source : JsString} {M : Meaning}
    (h : ReadsAtom source M) : Reads (source ++ ['+']) (Meaning.plus M) := by
  refine reads_quantified (q := fun p => repeatPattern p 1 none) h rfl
    (fun _ _ => rfl) ?_
  intro p hp before mid after
  show Meaning.seq (Meaning.seq (Pattern.Matches p) Meaning.empty)
    (Meaning.star (Pattern.Matches p)) before mid after <-> _
  refine seq_congr ?_ (star_congr hp)
  intro before mid after
  rw [seq_empty]
  exact hp before mid after

theorem reads_optional {source : JsString} {M : Meaning}
    (h : ReadsAtom source M) :
    Reads (source ++ ['?']) (Meaning.optional M) := by
  refine reads_quantified (q := fun p => repeatPattern p 0 (some 1)) h rfl
    (fun _ _ => rfl) ?_
  intro p hp before mid after
  have hrepeat : Pattern.Matches (repeatPattern p 0 (some 1)) before mid after <->
      Meaning.seq Meaning.empty (fun before mid after =>
        Meaning.seq (Pattern.Matches p) Meaning.empty before mid after ∨
          mid = []) before mid after := Iff.rfl
  rw [hrepeat, empty_seq, seq_empty, hp]
  rfl

/-!
## Groups
-/

theorem terms_of_fresh {fresh level : Level} {M : Meaning}
    (h : forall before mid after,
      Pattern.Matches level.terms before mid after <->
        Meaning.seq (Pattern.Matches fresh.terms) M before mid after)
    (hsequence : fresh.sequence = Pattern.empty)
    (hlast : fresh.last = Last.nothing) {before mid after : JsString} :
    Pattern.Matches level.terms before mid after <-> M before mid after := by
  have hfresh : forall before mid after,
      Pattern.Matches fresh.terms before mid after <->
        Meaning.empty before mid after := by
    intro before mid after
    rw [Level.terms, hsequence, hlast]
    exact empty_seq
  rw [h, seq_congr hfresh (fun _ _ _ => Iff.rfl), empty_seq]

theorem closes_of_reads {source : JsString} {M : Meaning}
    (h : Reads source M) : Closes source M := by
  rcases h with ⟨ts, hscan, hread⟩
  refine ⟨ts, scans_append hscan rfl, ?_⟩
  intro enclosing
  rcases hread { level := Level.init Group.plain, enclosing } with
    ⟨level, hassemble, hgroup, halternatives, hmeaning⟩
  refine ⟨level, hassemble, hgroup, ?_⟩
  intro before mid after
  have hbody : level.body = level.terms := by
    rw [Level.body, halternatives]
    rfl
  rw [hbody]
  exact terms_of_fresh hmeaning rfl rfl

theorem closes_either {s t : JsString} {M N : Meaning} (hs : Reads s M)
    (ht : Reads t N) : Closes (s ++ '|' :: t) (Meaning.either M N) := by
  rcases hs with ⟨ts, hts, hM⟩
  rcases ht with ⟨us, hus, hN⟩
  have hbar : Scans ('|' :: t) (Token.bar :: us) :=
    @scan_append Mode.text Mode.text Mode.text ['|'] t [Token.bar] us rfl hus
  refine ⟨ts ++ Token.bar :: us,
    scans_append (scans_append hts hbar) rfl, ?_⟩
  intro enclosing
  rcases hM { level := Level.init Group.plain, enclosing } with
    ⟨first, hfirst, hgroup, halternatives, hmeaning⟩
  have hbody : first.body = first.terms := by
    rw [Level.body, halternatives]
    rfl
  rcases hN
      { level := { Level.init first.group with alternatives := some first.body }
        enclosing } with
    ⟨second, hsecond, hgroup', halternatives', hmeaning'⟩
  refine ⟨second, ?_, hgroup'.trans hgroup, ?_⟩
  · rw [assembleAll_append hfirst]
    exact hsecond
  · intro before mid after
    have halt : second.body = Pattern.alt first.body second.terms := by
      rw [Level.body, halternatives']
    rw [halt, hbody]
    show Pattern.Matches first.terms before mid after ∨
      Pattern.Matches second.terms before mid after <-> _
    rw [terms_of_fresh hmeaning rfl rfl, terms_of_fresh hmeaning' rfl rfl]
    rfl

theorem assembleAll_group {ts : List Token} {level : Level} {r : Reader}
    (h : assembleAll
      { level := Level.init Group.plain, enclosing := r.level :: r.enclosing }
      ts = Except.ok { level, enclosing := r.level :: r.enclosing })
    (hgroup : level.group = Group.plain) :
    assembleAll r (Token.opening Group.plain :: (ts ++ [Token.closing])) =
      Except.ok { r with level := r.level.push (Last.atom level.body) } := by
  rw [assembleAll]
  show assembleAll _ (ts ++ [Token.closing]) = _
  rw [assembleAll_append h, assembleAll]
  simp [assemble, Level.closed, hgroup, assembleAll, Except.bind]

theorem readsAtom_of_group {source opened : JsString} {M : Meaning}
    (h : Closes source M)
    (hopen : forall ts, Scans (source ++ [')']) ts ->
      Scans (opened ++ (source ++ [')'])) (Token.opening Group.plain :: ts)) :
    ReadsAtom (opened ++ (source ++ [')'])) M := by
  rcases h with ⟨ts, hscan, hclose⟩
  refine ⟨Token.opening Group.plain :: (ts ++ [Token.closing]),
    hopen _ hscan, ?_⟩
  intro r
  rcases hclose (r.level :: r.enclosing) with
    ⟨level, hassemble, hgroup, hmeaning⟩
  exact ⟨level.body, assembleAll_group hassemble hgroup, hmeaning⟩

theorem readsAtom_group {source : JsString} {M : Meaning}
    (h : Closes source M) :
    ReadsAtom ("(?:".toList ++ (source ++ [')'])) M := by
  apply readsAtom_of_group h
  intro ts hts
  exact @scan_append Mode.text Mode.text Mode.text "(?:".toList _
    [Token.opening Group.plain] ts rfl hts

theorem readsAtom_capture {source : JsString} {M : Meaning}
    (h : Closes source M) (hsource : source.head? ≠ some '?') :
    ReadsAtom (['('] ++ (source ++ [')'])) M := by
  apply readsAtom_of_group h
  intro ts hts
  have hparen : scan Mode.paren (source ++ [')']) =
      Except.ok (Token.opening Group.plain :: ts, Mode.text) := by
    cases hcons : source ++ [')'] with
    | nil => exact absurd hcons (by simp)
    | cons c rest =>
        have hc : c ≠ '?' := by
          cases source with
          | nil =>
              have hclose := (List.cons.inj hcons).left
              rw [← hclose]
              decide
          | cons d source =>
              have hd := (List.cons.inj hcons).left
              rw [← hd]
              simpa using hsource
        rw [hcons, Scans, scan] at hts
        rw [scan]
        simp only [scanChar, if_neg hc, Except.bind] at hts ⊢
        cases hrest : scan (textChar c).2 rest with
        | error e => simp [hrest, Except.map] at hts
        | ok z =>
            simp only [hrest, Except.map, Except.ok.injEq,
              Prod.mk.injEq] at hts ⊢
            exact ⟨by rw [List.cons_append, hts.left], hts.right⟩
  exact @scan_append Mode.text Mode.paren Mode.text ['('] _ [] _ rfl hparen

/-!
## Parts that do not look around
-/

theorem reads_text {text : JsString}
    (h : forall c, c ∈ text -> textChar c = ([ofChar c], Mode.text)) :
    Reads text (Meaning.ofSet (fun mid => mid = text)) := by
  induction text with
  | nil => exact reads_nil
  | cons c rest ih =>
      have hc := (readsAtom_of_char (h c (by simp))).reads
      have hrest := ih (fun d hd => h d (List.mem_cons_of_mem c hd))
      apply (reads_append hc hrest).congr
      intro before mid after
      constructor
      · intro hgiven
        rcases hgiven with ⟨x, y, hmid, ⟨d, hx, hd⟩, hy⟩
        show mid = c :: rest
        rw [hmid, hx, show y = rest from hy]
        simpa [literal] using hd
      · intro hmid
        exact ⟨[c], rest, hmid, ⟨c, rfl, by simp [literal]⟩, rfl⟩

theorem reads_seq {s t : JsString} {A B C : JsString -> Prop}
    (hs : Reads s (Meaning.ofSet A)) (ht : Reads t (Meaning.ofSet B))
    (h : forall mid, C mid <-> exists x y, mid = x ++ y ∧ A x ∧ B y) :
    Reads (s ++ t) (Meaning.ofSet C) := by
  apply (reads_append hs ht).congr
  intro before mid after
  exact (h mid).symm

theorem star_ofSet {A : JsString -> Prop} (hne : forall x, A x -> x ≠ [])
    {before mid after : JsString} :
    Meaning.star (Meaning.ofSet A) before mid after <->
      exists words : List JsString,
        mid = words.flatten ∧ forall x, x ∈ words -> A x := by
  constructor
  · intro h
    induction h with
    | done before after => exact ⟨[], rfl, by simp⟩
    | @more before x y after _ hx _ ih =>
        rcases ih with ⟨words, hy, hwords⟩
        refine ⟨x :: words, by simp [hy], ?_⟩
        intro word hword
        rcases List.mem_cons.mp hword with hhead | htail
        · exact hhead ▸ hx
        · exact hwords word htail
  · intro hgiven
    rcases hgiven with ⟨words, hmid, hwords⟩
    subst hmid
    induction words generalizing before with
    | nil => exact Pattern.Iterated.done before after
    | cons x words ih =>
        have hx := hwords x (by simp)
        exact Pattern.Iterated.more (hne x hx) hx
          (ih (fun word hword => hwords word (List.mem_cons_of_mem x hword)))

theorem plus_char {accepts : Char -> Bool} {before mid after : JsString} :
    Meaning.plus (Meaning.char accepts) before mid after <->
      mid ≠ [] ∧ forall c, c ∈ mid -> accepts c = true := by
  constructor
  · intro h
    rcases h with ⟨x, y, hmid, ⟨c, hx, hc⟩, hy⟩
    rcases (star_ofSet (fun word hword => by
      rcases hword with ⟨d, hd, _⟩
      rw [hd]
      exact List.cons_ne_nil d [])).mp hy with ⟨words, hwords, hall⟩
    rw [hx, hwords] at hmid
    refine ⟨by rw [hmid]; exact List.cons_ne_nil c _, ?_⟩
    intro d hd
    rw [hmid, List.singleton_append, List.mem_cons, List.mem_flatten] at hd
    rcases hd with hd | ⟨word, hword, hd⟩
    · rw [hd]
      exact hc
    · rcases hall word hword with ⟨e, he, haccepts⟩
      rw [he, List.mem_singleton] at hd
      rw [hd]
      exact haccepts
  · intro h
    rcases h with ⟨hne, hall⟩
    cases mid with
    | nil => exact absurd rfl hne
    | cons c rest =>
        refine ⟨[c], rest, rfl,
          ⟨c, rfl, hall c (List.mem_cons_self)⟩, ?_⟩
        refine (@star_ofSet (fun word => exists d, word = [d] ∧ accepts d = true)
          ?_ _ _ _).mpr ⟨rest.map (fun d => [d]), ?_, ?_⟩
        · intro word h
          rcases h with ⟨d, hd, _⟩
          rw [hd]
          exact List.cons_ne_nil d []
        · simp [← List.flatMap_def]
        · intro word hword
          rcases List.mem_map.mp hword with ⟨d, hd, rfl⟩
          exact ⟨d, rfl, hall d (List.mem_cons_of_mem c hd)⟩

/-!
## Whole sources
-/

theorem assemble_frame {level : Level} {inner outer : List Level} {r : Reader}
    {token : Token}
    (h : assemble { level, enclosing := inner } token = Except.ok r) :
    assemble { level, enclosing := inner ++ outer } token =
      Except.ok { r with enclosing := r.enclosing ++ outer } := by
  cases token with
  | atom accepts =>
      simp only [assemble, Except.ok.injEq] at h
      simp [assemble, ← h]
  | assertion p =>
      simp only [assemble, Except.ok.injEq] at h
      simp [assemble, ← h]
  | opening group =>
      simp only [assemble, Except.ok.injEq] at h
      simp [assemble, ← h]
  | bar =>
      simp only [assemble, Except.ok.injEq] at h
      simp [assemble, ← h]
  | closing =>
      cases inner with
      | nil => simp [assemble] at h
      | cons next rest =>
          simp only [assemble, Except.ok.injEq] at h
          simp [assemble, ← h]
  | quantifier min max =>
      simp only [assemble] at h ⊢
      cases hlevel : quantify level min max with
      | error e => simp [hlevel, Except.map] at h
      | ok level' =>
          simp only [hlevel, Except.map, Except.ok.injEq] at h
          simp [Except.map, ← h]
  | question =>
      simp only [assemble] at h ⊢
      cases hlast : level.last with
      | repeated p =>
          simp only [hlast, Except.ok.injEq] at h
          simp [← h]
      | _ =>
          simp only [hlast] at h ⊢
          cases hlevel : quantify level 0 (some 1) with
          | error e => simp [hlevel, Except.map] at h
          | ok level' =>
              simp only [hlevel, Except.map, Except.ok.injEq] at h
              simp [Except.map, ← h]

/-- A source reads the same inside the groups around it. -/
theorem assembleAll_frame {level : Level} {inner outer : List Level}
    {r : Reader} {ts : List Token}
    (h : assembleAll { level, enclosing := inner } ts = Except.ok r) :
    assembleAll { level, enclosing := inner ++ outer } ts =
      Except.ok { r with enclosing := r.enclosing ++ outer } := by
  induction ts generalizing level inner with
  | nil =>
      simp only [assembleAll, Except.ok.injEq] at h
      simp [assembleAll, ← h]
  | cons token rest ih =>
      rw [assembleAll] at h ⊢
      cases htoken : assemble { level, enclosing := inner } token with
      | error e => simp [htoken, Except.bind] at h
      | ok u =>
          simp only [htoken, Except.bind] at h
          rw [assemble_frame htoken]
          exact ih h

def Reader.groups (r : Reader) : List Group :=
  r.level.group :: r.enclosing.map Level.group

theorem quantify_group {level level' : Level} {min : Nat} {max : Option Nat}
    (h : quantify level min max = Except.ok level') :
    level'.group = level.group := by
  unfold quantify at h
  split at h
  · split at h
    · exact absurd h (by simp)
    · rw [← Except.ok.inj h]
  · exact absurd h (by simp)

theorem assemble_groups {r r' : Reader} {token : Token}
    (h : assemble r token = Except.ok r') :
    r'.groups.getLast? = r.groups.getLast? := by
  cases token with
  | atom accepts => rw [← Except.ok.inj h]; rfl
  | assertion p => rw [← Except.ok.inj h]; rfl
  | bar => rw [← Except.ok.inj h]; rfl
  | opening group =>
      rw [← Except.ok.inj h]
      simp [Reader.groups]
  | closing =>
      simp only [assemble] at h
      cases houter : r.enclosing with
      | nil => simp [houter] at h
      | cons outer rest =>
          simp only [houter, Except.ok.injEq] at h
          rw [← h]
          simp [Reader.groups, houter, Level.push]
  | quantifier min max =>
      simp only [assemble] at h
      cases hlevel : quantify r.level min max with
      | error e => simp [hlevel, Except.map] at h
      | ok level' =>
          simp only [hlevel, Except.map, Except.ok.injEq] at h
          rw [← h, Reader.groups, quantify_group hlevel, Reader.groups]
  | question =>
      simp only [assemble] at h
      cases hlast : r.level.last with
      | repeated p =>
          simp only [hlast, Except.ok.injEq] at h
          rw [← h]
          rfl
      | _ =>
          simp only [hlast] at h
          cases hlevel : quantify r.level 0 (some 1) with
          | error e => simp [hlevel, Except.map] at h
          | ok level' =>
              simp only [hlevel, Except.map, Except.ok.injEq] at h
              rw [← h, Reader.groups, quantify_group hlevel, Reader.groups]

theorem assembleAll_groups {r r' : Reader} {ts : List Token}
    (h : assembleAll r ts = Except.ok r') :
    r'.groups.getLast? = r.groups.getLast? := by
  induction ts generalizing r with
  | nil => rw [Except.ok.inj h]
  | cons token rest ih =>
      rw [assembleAll] at h
      cases htoken : assemble r token with
      | error e => simp [htoken, Except.bind] at h
      | ok u =>
          simp only [htoken, Except.bind] at h
          rw [ih h, assemble_groups htoken]

theorem scan_close {mode : Mode} {rest : List Token}
    (h : endOf mode = Except.ok rest) :
    scan mode [')'] = Except.ok (rest ++ [Token.closing], Mode.text) := by
  cases mode with
  | text =>
      rw [← Except.ok.inj h]
      rfl
  | brace read =>
      have hclose : scan (Mode.brace read) [')'] =
          Except.ok ((plainBrace read ++ [Token.closing]) ++ [], Mode.text) :=
        rfl
      rw [← Except.ok.inj h, hclose, List.append_nil]
  | paren =>
      rw [← Except.ok.inj h]
      rfl
  | _ => exact absurd h (by simp [endOf])

theorem scans_close {source : JsString} {ts : List Token}
    (h : tokens source = Except.ok ts) :
    Scans (source ++ [')']) (ts ++ [Token.closing]) := by
  unfold tokens at h
  cases hscan : scan Mode.text source with
  | error e => simp [hscan, Except.bind] at h
  | ok z =>
      simp only [hscan, Except.bind] at h
      cases hend : endOf z.2 with
      | error e => simp [hend, Except.map] at h
      | ok rest =>
          simp only [hend, Except.map, Except.ok.injEq] at h
          have hz : scan Mode.text source = Except.ok (z.1, z.2) := hscan
          rw [← h, List.append_assoc]
          exact scan_append hz (scan_close hend)

theorem closes_of_compile {source : JsString} {p : Pattern}
    (h : compile source = Except.ok p) :
    Closes source (Pattern.Matches p) := by
  unfold compile at h
  cases hts : tokens source with
  | error e => simp [hts, Except.bind] at h
  | ok ts =>
      simp only [hts, Except.bind] at h
      cases hread : assembleAll Reader.init ts with
      | error e => simp [hread] at h
      | ok r =>
          simp only [hread] at h
          cases henclosing : r.enclosing with
          | cons level rest => simp [henclosing] at h
          | nil =>
              simp only [henclosing, Except.ok.injEq] at h
              have hgroup : r.level.group = Group.plain := by
                have hgroups := assembleAll_groups hread
                simpa [Reader.groups, henclosing, Reader.init, Level.init]
                  using hgroups
              refine ⟨ts, scans_close hts, ?_⟩
              intro enclosing
              have hframe := @assembleAll_frame _ _ enclosing _ _ hread
              rw [henclosing, List.nil_append] at hframe
              refine ⟨r.level, hframe, hgroup, ?_⟩
              intro before mid after
              rw [h]

theorem scans_anchored {source : JsString} {ts : List Token}
    (h : Scans source ts) :
    Scans ('^' :: source ++ "\\?".toList)
      (Token.assertion Pattern.start :: (ts ++ [ofChar '?'])) := by
  have hstart : Scans ['^'] [Token.assertion Pattern.start] := rfl
  have hstop : Scans "\\?".toList [ofChar '?'] := rfl
  exact scans_append hstart (scans_append h hstop)

theorem matches_start {before mid after : JsString} :
    Pattern.Matches
        (Reader.init.level.push (Last.fixed Pattern.start)).terms
        before mid after <->
      mid = [] ∧ before = [] := by
  constructor
  · intro h
    rcases h with ⟨x, y, hmid, ⟨a, b, hx, ha, hb⟩, hy, hbefore⟩
    have hnil : x = [] := by
      rw [hx, show a = [] from ha, show b = [] from hb]
      rfl
    rw [hnil] at hmid hbefore
    exact ⟨by rw [hmid, hy]; rfl, by simpa using hbefore⟩
  · intro h
    rcases h with ⟨rfl, rfl⟩
    exact ⟨[], [], rfl, ⟨[], [], rfl, rfl, rfl⟩, rfl, rfl⟩

theorem matches_anchored {p : Pattern} {M : Meaning}
    (h : forall before mid after,
      Pattern.Matches p before mid after <->
        Meaning.seq (Pattern.Matches
          (Reader.init.level.push (Last.fixed Pattern.start)).terms) M
          before mid after)
    {before mid after : JsString} :
    Pattern.Matches (Pattern.seq p (Pattern.char (literal '?')))
        before mid after <->
      before = [] ∧ exists x, mid = x ++ ['?'] ∧ M [] x ('?' :: after) := by
  constructor
  · intro hgiven
    rcases hgiven with ⟨x, y, hmid, hx, c, hy, hc⟩
    have hquestion : y = ['?'] := by
      rw [hy, show c = '?' by simpa [literal] using hc]
    rw [hquestion] at hmid hx
    rcases (h _ _ _).mp hx with ⟨a, b, hab, ha, hb⟩
    rcases matches_start.mp ha with ⟨hnil, hbefore⟩
    rw [hnil] at hab hb
    rw [hbefore] at hb
    rw [hab] at hmid
    exact ⟨hbefore, b, hmid, hb⟩
  · intro hgiven
    rcases hgiven with ⟨hbefore, x, hmid, hx⟩
    refine ⟨x, ['?'], hmid, (h _ _ _).mpr ?_, '?', rfl, by simp [literal]⟩
    refine ⟨[], x, rfl, matches_start.mpr ⟨rfl, hbefore⟩, ?_⟩
    rw [hbefore]
    exact hx

/-- The expression of a path's source, up to the question mark behind it. -/
theorem compile_anchored {source : JsString} {M : Meaning}
    (h : Reads source M) :
    exists p, compile ('^' :: source ++ "\\?".toList) = Except.ok p ∧
      forall text, p.test text = true <->
        exists mid after, text = mid ++ '?' :: after ∧
          M [] mid ('?' :: after) := by
  rcases h with ⟨ts, hscan, hread⟩
  have htokens : tokens ('^' :: source ++ "\\?".toList) =
      Except.ok (Token.assertion Pattern.start :: (ts ++ [ofChar '?'])) := by
    unfold tokens
    rw [show scan Mode.text _ = _ from scans_anchored hscan]
    simp [Except.bind, endOf, Except.map]
  rcases hread
      { Reader.init with
        level := Reader.init.level.push (Last.fixed Pattern.start) } with
    ⟨level, hassemble, _, halternatives, hmeaning⟩
  have hall : assembleAll Reader.init
      (Token.assertion Pattern.start :: (ts ++ [ofChar '?'])) =
      Except.ok { Reader.init with
        level := level.push (Last.atom (Pattern.char (literal '?'))) } := by
    rw [assembleAll]
    show assembleAll _ (ts ++ [ofChar '?']) = _
    rw [assembleAll_append hassemble]
    rfl
  have hbody : (level.push (Last.atom (Pattern.char (literal '?')))).body =
      Pattern.seq level.terms (Pattern.char (literal '?')) := by
    have hpush : (level.push
        (Last.atom (Pattern.char (literal '?')))).alternatives = none :=
      halternatives
    rw [Level.body, hpush]
    rfl
  refine ⟨Pattern.seq level.terms (Pattern.char (literal '?')), ?_, ?_⟩
  · unfold compile
    simp only [htokens, Except.bind, hall]
    rw [← hbody]
    rfl
  · intro text
    rw [Pattern.test_iff]
    constructor
    · intro hgiven
      rcases hgiven with ⟨before, mid, after, htext, hmatch⟩
      rcases (matches_anchored hmeaning).mp hmatch with
        ⟨hbefore, x, hmid, hx⟩
      refine ⟨x, after, ?_, hx⟩
      rw [htext, hbefore, hmid]
      simp
    · intro hgiven
      rcases hgiven with ⟨x, after, htext, hx⟩
      refine ⟨[], x ++ ['?'], after, ?_,
        (matches_anchored hmeaning).mpr ⟨rfl, x, rfl, hx⟩⟩
      rw [htext]
      simp

end RegExpSource

end Foundation
end RestCache
