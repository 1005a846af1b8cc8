import Mathlib.Data.Bool.AllAny
import RestCache.Foundation.MimeType
import RestCache.Recv.SickCache

/-!
# What a client makes of a replayed Content-Type

The check cuts the type at every `;` and `=`, trims the pieces and drops the
quotes.  The client reads a list of MIME types with quoted strings in them.
They part on a later member of the list, on a no-break space around the
essence, and on a charset whose value the check has read in part only.
-/

namespace RestCache
namespace Recv

open Foundation
open Foundation.MimeType

/-!
## What must not happen
-/

def isAsciiSpace (c : Char) : Bool :=
  isHttpSpace c ∨ c.toNat = 0x0C

/-- A charset is named by a label, in any letter case, with spaces around. -/
def isUtf8 (label : JsString) : Bool :=
  (strip isAsciiSpace label).map Char.toLower = "utf-8".toList

def Allowed (body essence : JsString) : Prop :=
  essence ∈ PASSIVE_TYPES ∨
    (essence = "application/xml".toList ∧ startsLikeMarkup body = true)

/-- The type the client extracts is none that it would run the body as. -/
def NoMoreActive (type body : JsString) : Prop :=
  exists x, extract type = some x ∧ Allowed body x.mime.essence ∧
    forall label, x.charset = some label -> isUtf8 label = true

/-!
## Where the two readings are the same
-/

def nbsp : Char :=
  Char.ofNat 0xA0

/-- `trim` removes nothing around the essence that the client would not. -/
def PlainEssence (type : JsString) : Prop :=
  forall c, c ∈ type.takeWhile notSemicolon -> c ≠ nbsp

/--
The check has read the whole value.  It stops at a `=` and at a `;` in quotes,
removes no-break spaces, and joins what is behind a closing quote to the value.
-/
def PlainValue (p : Parameter) : Prop :=
  if p.quoted then
    (forall c, c ∈ p.value -> c ≠ '=' ∧ c ≠ ';' ∧ c ≠ nbsp) ∧
      forall c, c ∈ p.after.takeWhile (fun d => d ≠ '=') ->
        c = '"' ∨ isSpace c = true
  else
    forall c, c ∈ p.value -> c ≠ '=' ∧ c ≠ '"' ∧ c ≠ nbsp

/-- The charset parameter of the first member. -/
def firstCharset (type : JsString) : Option Parameter :=
  ((listMembers type).head?.bind parse).bind fun mime =>
    mime.parameter "charset".toList

/--
The first member is the one that counts, and the check has read its essence and
its charset as the client does; or another one counts, which the check has not
looked at, and happens to be harmless.
-/
def ReadAlike (type body : JsString) : Prop :=
  match (laterTypes type).getLast? with
  | none =>
      PlainEssence type ∧
        forall p, firstCharset type = some p -> PlainValue p
  | some mime =>
      Allowed body mime.essence ∧
        forall label, (extract type).bind Extracted.charset = some label ->
          isUtf8 label = true

/-!
## What the check has read

Everything is lower-cased first, which changes none of the characters that the
check or the client looks for.
-/

section LowerCasing

open CaseMapping

theorem isSpace_latin1Char (c : Char) : isSpace (latin1Char c) = isSpace c :=
  latin1Char_congr (by decide) c

theorem isTokenChar_latin1Char (c : Char) :
    isTokenChar (latin1Char c) = isTokenChar c :=
  latin1Char_congr (by decide) c

theorem latin1Char_eq_iff {d : Char}
    (hd : forall n, n ∈ List.range' 0x41 26 ++ List.range' 0xC0 31 ->
      decide (Char.ofNat (n + 32) = d) = decide (Char.ofNat n = d))
    (c : Char) : latin1Char c = d <-> c = d :=
  decide_eq_decide.mp (@latin1Char_congr (fun c => decide (c = d)) hd c)

theorem takeWhile_ne_map {d : Char}
    (hd : forall c, latin1Char c = d <-> c = d) (s : JsString) :
    (s.map latin1Char).takeWhile (fun c => c ≠ d) =
      (s.takeWhile (fun c => c ≠ d)).map latin1Char := by
  rw [List.takeWhile_map]
  congr 2
  funext c
  simp [hd c]

theorem trim_eq_strip (s : JsString) : trim s = strip isSpace s :=
  rfl

theorem trim_map (s : JsString) :
    trim (s.map latin1Char) = (trim s).map latin1Char :=
  strip_map isSpace_latin1Char s

theorem latin1Char_semicolon (c : Char) : latin1Char c = ';' <-> c = ';' :=
  latin1Char_eq_iff (by decide) c

theorem latin1Char_equals (c : Char) : latin1Char c = '=' <-> c = '=' :=
  latin1Char_eq_iff (by decide) c

end LowerCasing

theorem splitOn_eq_cons (s : JsString) (d : Char) :
    exists more, s.splitOn d = s.takeWhile (fun c => c ≠ d) :: more := by
  induction s with
  | nil => exact ⟨[], rfl⟩
  | cons c s ih =>
      rw [List.splitOn_cons_eq_if_modifyHead]
      by_cases hc : c = d
      · subst hc
        exact ⟨s.splitOn c, by simp⟩
      · rcases ih with ⟨more, hmore⟩
        exact ⟨more, by simp [hc, hmore]⟩

theorem splitOn_append {a b : JsString} {d : Char} (ha : d ∉ a) :
    (a ++ d :: b).splitOn d = a :: b.splitOn d := by
  induction a with
  | nil =>
      rw [List.nil_append, List.splitOn_cons_eq_if_modifyHead]
      simp
  | cons c a ih =>
      have hc : c ≠ d := fun h => ha (h ▸ List.mem_cons_self)
      rw [List.cons_append, List.splitOn_cons_eq_if_modifyHead,
        ih (fun h => ha (List.mem_cons_of_mem c h))]
      simp [hc]

theorem mem_tail_splitOn (before y : JsString) (d : Char) :
    y.takeWhile (fun c => c ≠ d) ∈ ((before ++ d :: y).splitOn d).tail := by
  induction before with
  | nil =>
      rcases splitOn_eq_cons y d with ⟨more, hmore⟩
      rw [List.nil_append, List.splitOn_cons_eq_if_modifyHead]
      simp [hmore]
  | cons c before ih =>
      rw [List.cons_append, List.splitOn_cons_eq_if_modifyHead]
      split
      · exact List.mem_of_mem_tail ih
      · cases hsplit : (before ++ d :: y).splitOn d with
        | nil => simp [hsplit] at ih
        | cons first more =>
            rw [hsplit] at ih
            simpa using ih

theorem isSpace_of_isHttpSpace {c : Char} (h : isHttpSpace c = true) :
    isSpace c = true := by
  simp only [isHttpSpace, isBlank, decide_eq_true_eq] at h
  rcases h with (h | h) | h | h <;> subst h <;> decide

def readPart (written : JsString) : JsString :=
  (written.takeWhile (fun c => c ≠ ';')).takeWhile (fun c => c ≠ '=')

def Reads (written : JsString) : Prop :=
  (trim ((readPart written).map CaseMapping.latin1Char)).filter
    (fun c => c ≠ '"') = "utf-8".toList

theorem charsetOk_eq {name written : JsString} (hname : '=' ∉ name) :
    charsetOk (name ++ '=' :: written) =
      decide (trim name ≠ "charset".toList ∨
        (trim (written.takeWhile (fun c => c ≠ '='))).filter
          (fun c => c ≠ '"') = "utf-8".toList) := by
  rcases splitOn_eq_cons written '=' with ⟨more, hmore⟩
  unfold charsetOk
  rw [splitOn_append hname, hmore]
  rfl

theorem reads_of_isReplayable {type body before spaces name written : JsString}
    (h : isReplayable CaseMapping.latin1 type body = true)
    (htype : type = before ++ ';' :: (spaces ++ name ++ '=' :: written))
    (hspaces : forall c, c ∈ spaces -> isHttpSpace c = true)
    (hname : forall c, c ∈ name -> isNameChar c = true)
    (hcharset : name.map Char.toLower = "charset".toList) :
    Reads written := by
  have hlower : name.map CaseMapping.latin1Char = "charset".toList :=
    CaseMapping.map_latin1Char_of_toLower hcharset
      (List.all_iff_forall_prop.mp (by decide))
  have hnot : forall c, c ∈ spaces ++ name -> c ≠ ';' ∧ c ≠ '=' := by
    intro c hc
    rcases List.mem_append.mp hc with hc | hc
    · have hspace := hspaces c hc
      constructor <;>
      · intro heq
        subst heq
        revert hspace
        decide
    · simpa [isNameChar] using hname c hc
  have hpart : (spaces ++ name ++ '=' :: written).takeWhile
      (fun c => c ≠ ';') =
        spaces ++ name ++ '=' :: written.takeWhile (fun c => c ≠ ';') := by
    rw [List.takeWhile_append_of_pos]
    · simp
    · intro c hc
      simpa using (hnot c hc).left
  have hmem : ((spaces ++ name).map CaseMapping.latin1Char ++ '=' ::
      (written.takeWhile (fun c => c ≠ ';')).map CaseMapping.latin1Char) ∈
        ((CaseMapping.latin1.toLowerCase type).splitOn ';').tail := by
    have htail := mem_tail_splitOn (before.map CaseMapping.latin1Char)
      ((spaces ++ name ++ '=' :: written).map CaseMapping.latin1Char) ';'
    rw [takeWhile_ne_map latin1Char_semicolon, hpart] at htail
    have htext : CaseMapping.latin1.toLowerCase type =
        before.map CaseMapping.latin1Char ++ ';' ::
          (spaces ++ name ++ '=' :: written).map CaseMapping.latin1Char := by
      rw [htype]
      show List.map CaseMapping.latin1Char _ = _
      rw [List.map_append, List.map_cons]
      rfl
    rw [htext]
    simpa [(latin1Char_equals '=').mpr rfl] using htail
  have hok : charsetOk ((spaces ++ name).map CaseMapping.latin1Char ++ '=' ::
      (written.takeWhile (fun c => c ≠ ';')).map
        CaseMapping.latin1Char) = true := by
    simp only [isReplayable] at h
    split at h
    · cases h
    · rename_i hall
      exact List.all_eq_true.mp (not_not.mp hall) _ hmem
  have htrim : trim ((spaces ++ name).map CaseMapping.latin1Char) =
      "charset".toList := by
    have hstrip : trim (spaces ++ name) = trim name := by
      have h := @strip_append isSpace spaces name [] (by
        intro c hc
        exact isSpace_of_isHttpSpace (hspaces c hc)) (by simp)
      simpa [trim_eq_strip] using h
    rw [trim_map, hstrip, ← trim_map, hlower]
    decide
  have hequals : '=' ∉ (spaces ++ name).map CaseMapping.latin1Char := by
    intro hc
    rcases List.mem_map.mp hc with ⟨c, hmem, heq⟩
    exact (hnot c hmem).right ((latin1Char_equals c).mp heq)
  rw [charsetOk_eq hequals, htrim, takeWhile_ne_map latin1Char_equals] at hok
  simpa [Reads, readPart] using hok

/-!
## One value, read twice
-/

theorem readPart_append {a : JsString} (b : JsString)
    (ha : forall c, c ∈ a -> c ≠ ';' ∧ c ≠ '=') :
    readPart (a ++ b) = a ++ readPart b := by
  unfold readPart
  rw [List.takeWhile_append_of_pos (fun c hc => by simpa using (ha c hc).left),
    List.takeWhile_append_of_pos (fun c hc => by simpa using (ha c hc).right)]

theorem readPart_append_cases (a b : JsString) :
    readPart (a ++ b) = readPart a ∨
      (readPart a = a ∧ readPart (a ++ b) = a ++ readPart b) := by
  by_cases ha : forall c, c ∈ a -> c ≠ ';' ∧ c ≠ '='
  · right
    have hself := readPart_append [] ha
    rw [List.append_nil] at hself
    refine ⟨?_, readPart_append b ha⟩
    rw [hself]
    exact List.append_nil a
  · left
    induction a with
    | nil => simp at ha
    | cons c a ih =>
        by_cases hc : c ≠ ';' ∧ c ≠ '='
        · have hrest : ¬ forall d, d ∈ a -> d ≠ ';' ∧ d ≠ '=' := by
            intro h
            apply ha
            intro d hd
            rcases List.mem_cons.mp hd with hd | hd
            · rw [hd]
              exact hc
            · exact h d hd
          have hcons : forall t, readPart (c :: t) = c :: readPart t := by
            intro t
            simp [readPart, hc.left, hc.right]
          rw [List.cons_append, hcons, hcons, ih hrest]
        · have hstop : forall t, readPart (c :: t) = [] := by
            intro t
            by_cases hsemi : c = ';'
            · simp [readPart, hsemi]
            · have hequals : c = '=' := by
                by_contra hne
                exact hc ⟨hsemi, hne⟩
              simp [readPart, hequals]
          rw [List.cons_append, hstop, hstop]

theorem latin1Char_quote (c : Char) :
    CaseMapping.latin1Char c = '"' <-> c = '"' :=
  latin1Char_eq_iff (by decide) c

theorem mem_readPart {written : JsString} {c : Char} (h : Reads written)
    (hc : c ∈ readPart written) :
    isSpace c = true ∨ c = '"' ∨
      CaseMapping.latin1Char c ∈ "utf-8".toList := by
  by_cases hspace : isSpace c = true
  · exact Or.inl hspace
  · by_cases hquote : c = '"'
    · exact Or.inr (Or.inl hquote)
    · right
      right
      rw [← h, List.mem_filter]
      constructor
      · apply mem_strip
        · exact List.mem_map_of_mem hc
        · rw [isSpace_latin1Char]
          simpa using hspace
      · simpa using fun h => hquote ((latin1Char_quote c).mp h)

theorem comma_not_mem_readPart {written : JsString} (h : Reads written) :
    ',' ∉ readPart written := by
  intro hc
  have hmem := mem_readPart h hc
  revert hmem
  decide

theorem backslash_not_mem_readPart {written : JsString} (h : Reads written) :
    '\\' ∉ readPart written := by
  intro hc
  have hmem := mem_readPart h hc
  revert hmem
  decide

structure Trailing (v rest : JsString) : Prop where
  spaces : forall c, c ∈ v -> isHttpSpace c = true
  comma : rest = [] ∨ exists more, rest = ',' :: more

theorem ne_of_isHttpSpace {c : Char} (h : isHttpSpace c = true) :
    c ≠ ';' ∧ c ≠ '=' := by
  constructor <;>
  · intro heq
    subst heq
    revert h
    decide

theorem readPart_trailing {v rest : JsString} (htrailing : Trailing v rest)
    (hcomma : ',' ∉ readPart (v ++ rest)) : readPart (v ++ rest) = v := by
  have happend := readPart_append rest
    (fun c hc => ne_of_isHttpSpace (htrailing.spaces c hc))
  rcases htrailing.comma with hrest | ⟨more, hrest⟩
  · rw [happend, hrest]
    exact List.append_nil v
  · exfalso
    apply hcomma
    rw [happend, hrest]
    simp [readPart]

def Dropped (s : JsString) : Prop :=
  forall c, c ∈ s -> c = '"' ∨ isSpace c = true

theorem readPart_dropped {a v rest : JsString} (htrailing : Trailing v rest)
    (hcomma : ',' ∉ readPart (a ++ (v ++ rest)))
    (ha : Dropped (readPart a)) : Dropped (readPart (a ++ (v ++ rest))) := by
  rcases readPart_append_cases a (v ++ rest) with h | ⟨hself, h⟩
  · rw [h]
    exact ha
  · rw [h] at hcomma ⊢
    have hspaces := readPart_trailing htrailing
      (fun hc => hcomma (List.mem_append_right a hc))
    rw [hspaces]
    intro c hc
    rcases List.mem_append.mp hc with hc | hc
    · exact ha c (hself.symm ▸ hc)
    · exact Or.inr (isSpace_of_isHttpSpace (htrailing.spaces c hc))

theorem not_isSpace_utf8 :
    forall c, c ∈ "utf-8".toList -> isSpace c = false :=
  List.all_iff_forall_prop.mp (by decide)

theorem isUtf8_chars {label : JsString} {c : Char} (h : isUtf8 label = true)
    (hc : c ∈ label) : isAsciiSpace c = true ∨ c.toLower ∈ "utf-8".toList := by
  by_cases hspace : isAsciiSpace c = true
  · exact Or.inl hspace
  · right
    rw [← of_decide_eq_true h]
    apply List.mem_map_of_mem
    exact mem_strip hc (by simpa using hspace)

theorem isUtf8_ne {label : JsString} (h : isUtf8 label = true) {c : Char}
    (hc : c ∈ label) : c ≠ '=' ∧ c ≠ ';' ∧ c ≠ '"' ∧ c ≠ nbsp := by
  have hmem := isUtf8_chars h hc
  refine ⟨?_, ?_, ?_, ?_⟩ <;>
  · intro heq
    subst heq
    revert hmem
    decide

theorem isSpace_of_isAsciiSpace {c : Char} (h : isAsciiSpace c = true) :
    isSpace c = true := by
  rcases of_decide_eq_true h with h | h
  · exact isSpace_of_isHttpSpace h
  · simp [isSpace, h]

theorem isHttpSpace_of_isSpace {c : Char} (h : isSpace c = true)
    (hheader : headerChar c = true) (hnbsp : c ≠ nbsp) :
    isHttpSpace c = true := by
  have hcode : c.toNat ≠ 0xA0 := by
    intro hcode
    apply hnbsp
    rw [nbsp, ← hcode, Char.ofNat_toNat]
  have hchar : c = '\t' ∨ c.toNat = 0x20 := by
    rcases of_decide_eq_true hheader with htab | ⟨hlow, hhigh, _⟩
    · exact Or.inl htab
    · right
      simp only [isSpace, decide_eq_true_eq, List.mem_cons, List.not_mem_nil,
        or_false, List.mem_range'_1] at h
      omega
  rcases hchar with hchar | hchar
  · subst hchar
    decide
  · rw [← Char.ofNat_toNat c, hchar]
    decide

theorem isUtf8_of_split {label a u b : JsString}
    (hlabel : label = a ++ u ++ b)
    (ha : forall c, c ∈ a -> isSpace c = true)
    (hu : u.map CaseMapping.latin1Char = "utf-8".toList)
    (hb : forall c, c ∈ b -> isSpace c = true)
    (hheader : forall c, c ∈ label -> headerChar c = true)
    (hnbsp : forall c, c ∈ label -> c ≠ nbsp) : isUtf8 label = true := by
  have hascii : forall c, c ∈ label -> isSpace c = true ->
      isAsciiSpace c = true := by
    intro c hc h
    simp [isAsciiSpace, isHttpSpace_of_isSpace h (hheader c hc) (hnbsp c hc)]
  have hinner : forall c, c ∈ u -> isAsciiSpace c = false := by
    intro c hc
    cases hspace : isAsciiSpace c with
    | false => rfl
    | true =>
        have hmapped : CaseMapping.latin1Char c ∈ "utf-8".toList :=
          hu ▸ List.mem_map_of_mem hc
        have hspaceMapped := isSpace_latin1Char c
        rw [isSpace_of_isAsciiSpace hspace] at hspaceMapped
        exact absurd ((not_isSpace_utf8 _ hmapped).symm.trans hspaceMapped)
          Bool.false_ne_true
  have hstrip : strip isAsciiSpace label = u := by
    rw [hlabel, strip_append]
    · apply strip_eq_self
      · intro c hc
        exact hinner c (List.mem_of_head? hc)
      · intro c hc
        exact hinner c (List.mem_of_getLast? hc)
    · intro c hc
      exact hascii c (by simp [hlabel, hc]) (ha c hc)
    · intro c hc
      exact hascii c (by simp [hlabel, hc]) (hb c hc)
  unfold isUtf8
  rw [hstrip, CaseMapping.map_toLower_of_latin1Char hu
    (List.all_iff_forall_prop.mp (by decide))]
  rfl

theorem filter_not_quote_map (s : JsString) :
    (s.map CaseMapping.latin1Char).filter (fun c => c ≠ '"') =
      (s.filter fun c => c ≠ '"').map CaseMapping.latin1Char := by
  rw [List.filter_map]
  congr 2
  funext c
  simp [latin1Char_quote]

theorem readPart_more {more v rest : JsString} (htrailing : Trailing v rest)
    (hmore : AtSemicolon more)
    (hcomma : ',' ∉ readPart (more ++ (v ++ rest))) :
    forall c, c ∈ readPart (more ++ (v ++ rest)) -> isHttpSpace c = true := by
  cases more with
  | nil =>
      rw [List.nil_append] at hcomma ⊢
      rw [readPart_trailing htrailing hcomma]
      exact htrailing.spaces
  | cons d more =>
      have hd : d = ';' := hmore d rfl
      intro c hc
      simp [readPart, hd] at hc

theorem bare_iff {value spaces more v rest : JsString}
    (htrailing : Trailing v rest) (hmore : AtSemicolon more)
    (hspaces : forall c, c ∈ spaces -> isHttpSpace c = true)
    (hsemi : ';' ∉ value)
    (hheader : forall c, c ∈ value -> headerChar c = true)
    (h : Reads (value ++ (spaces ++ (more ++ (v ++ rest))))) :
    isUtf8 value = true <->
      forall c, c ∈ value -> c ≠ '=' ∧ c ≠ '"' ∧ c ≠ nbsp := by
  constructor
  · intro hutf8 c hc
    have hne := isUtf8_ne hutf8 hc
    exact ⟨hne.left, hne.right.right.left, hne.right.right.right⟩
  · intro hplain
    have hvalue : readPart (value ++ (spaces ++ (more ++ (v ++ rest)))) =
        value ++ (spaces ++ readPart (more ++ (v ++ rest))) := by
      rw [readPart_append, readPart_append]
      · intro c hc
        exact ne_of_isHttpSpace (hspaces c hc)
      · intro c hc
        exact ⟨fun heq => hsemi (heq ▸ hc), (hplain c hc).left⟩
    have hcomma := comma_not_mem_readPart h
    rw [hvalue] at hcomma
    have hbehind : forall c,
        c ∈ spaces ++ readPart (more ++ (v ++ rest)) -> isSpace c = true := by
      intro c hc
      apply isSpace_of_isHttpSpace
      rcases List.mem_append.mp hc with hc | hc
      · exact hspaces c hc
      · exact readPart_more htrailing hmore
          (fun hc => hcomma (by simp [hc])) c hc
    have htrim : trim (value ++ (spaces ++ readPart (more ++ (v ++ rest)))) =
        trim value := by
      have hstrip := @strip_append isSpace [] value _ (by simp) hbehind
      simpa [trim_eq_strip] using hstrip
    have hnoquote : (trim value).filter (fun c => c ≠ '"') = trim value := by
      rw [List.filter_eq_self]
      intro c hc
      simpa using (hplain c (mem_of_mem_strip hc)).right.left
    unfold Reads at h
    rw [hvalue, trim_map, htrim, filter_not_quote_map, hnoquote] at h
    rcases strip_split isSpace value with ⟨a, b, hsplit, ha, hb⟩
    exact isUtf8_of_split hsplit ha h hb hheader
      (fun c hc => (hplain c hc).right.right)

/-!
With the quotes dropped, an accepted value that starts with a quote is utf-8
and spaces.
-/

theorem reads_quoted {written content q : JsString} (h : Reads written)
    (hpart : readPart written = '"' :: (content ++ q))
    (hcontent : '"' ∉ content) :
    exists b, (forall c, c ∈ b -> isSpace c = true) ∧
      content.map CaseMapping.latin1Char ++
        (q.filter fun c => c ≠ '"').map CaseMapping.latin1Char =
          "utf-8".toList ++ b := by
  unfold Reads at h
  rw [hpart, trim_map, filter_not_quote_map] at h
  rcases strip_split isSpace ('"' :: (content ++ q)) with
    ⟨a, b, hsplit, ha, hb⟩
  have hnil : a = [] := by
    cases a with
    | nil => rfl
    | cons c a =>
        simp only [List.cons_append, List.cons.injEq] at hsplit
        have hspace := ha c List.mem_cons_self
        rw [← hsplit.left] at hspace
        exact absurd hspace (by decide)
  subst hnil
  have hfilter := congrArg
    (fun s : JsString => (s.filter fun c => c ≠ '"').map
      CaseMapping.latin1Char) hsplit
  have hself : content.filter (fun c => c ≠ '"') = content := by
    rw [List.filter_eq_self]
    intro c hc
    simpa using fun heq : c = '"' => hcontent (heq ▸ hc)
  refine ⟨(b.filter fun c => c ≠ '"').map CaseMapping.latin1Char, ?_, ?_⟩
  · intro c hc
    rcases List.mem_map.mp hc with ⟨d, hd, heq⟩
    rw [← heq, isSpace_latin1Char]
    exact hb d (List.mem_of_mem_filter hd)
  · rw [← h]
    conv_lhs => rw [← hself]
    simpa [trim_eq_strip] using hfilter

theorem readPart_quoted {r v rest : JsString} (htrailing : Trailing v rest)
    (hplain : forall c, c ∈ (quotedString r).1 -> c ≠ ';' ∧ c ≠ '=')
    (h : Reads ('"' :: r ++ (v ++ rest))) :
    '"' ∉ (quotedString r).1 ∧
      exists q, readPart ('"' :: r ++ (v ++ rest)) =
          '"' :: ((quotedString r).1 ++ q) ∧
        (((quotedString r).2 = none ∧
            forall c, c ∈ q -> isHttpSpace c = true) ∨
          exists after, (quotedString r).2 = some after ∧
            q = '"' :: readPart (after ++ (v ++ rest))) := by
  rcases quotedString_split r with ⟨raw, hraw, hunescaped, hsplit⟩
  have hpart : forall t, readPart ('"' :: raw ++ t) =
      '"' :: raw ++ readPart t := by
    intro t
    apply readPart_append
    intro c hc
    rcases List.mem_cons.mp hc with hc | hc
    · rw [hc]
      decide
    · rcases hraw c hc with hc | hc
      · exact hplain c hc
      · rw [hc]
        decide
  have hslash := backslash_not_mem_readPart h
  have hcomma := comma_not_mem_readPart h
  rcases hsplit with ⟨hnone, hr⟩ | ⟨after, hsome, hr⟩
  · rw [hr, hpart] at hslash hcomma
    rcases hunescaped (fun hc => hslash (by simp [hc])) with ⟨hsame, hquote⟩
    have hspaces := readPart_trailing htrailing
      (fun hc => hcomma (List.mem_append_right _ hc))
    refine ⟨hsame ▸ hquote, readPart (v ++ rest), ?_, Or.inl ⟨hnone, ?_⟩⟩
    · rw [hsame, hr, hpart]
      rfl
    · rw [hspaces]
      exact htrailing.spaces
  · have hwhole : '"' :: r ++ (v ++ rest) =
        '"' :: raw ++ ('"' :: (after ++ (v ++ rest))) := by
      rw [hr]
      simp
    have hclosing : readPart ('"' :: (after ++ (v ++ rest))) =
        '"' :: readPart (after ++ (v ++ rest)) := by
      simp [readPart]
    rw [hwhole, hpart, hclosing] at hslash ⊢
    rcases hunescaped (fun hc => hslash (by simp [hc])) with ⟨hsame, hquote⟩
    refine ⟨hsame ▸ hquote, _, ?_, Or.inr ⟨after, hsome, rfl⟩⟩
    rw [hsame]
    rfl

theorem dropped_of_isUtf8 {content q b : JsString}
    (hutf8 : isUtf8 content = true)
    (hb : forall c, c ∈ b -> isSpace c = true)
    (hjoined : content.map CaseMapping.latin1Char ++
      (q.filter fun c => c ≠ '"').map CaseMapping.latin1Char =
        "utf-8".toList ++ b) : Dropped q := by
  rcases strip_split isAsciiSpace content with ⟨a, b', hcontent, ha, _⟩
  have hu : (strip isAsciiSpace content).map CaseMapping.latin1Char =
      "utf-8".toList :=
    CaseMapping.map_latin1Char_of_toLower (of_decide_eq_true hutf8)
      (List.all_iff_forall_prop.mp (by decide))
  have hnil : a = [] := by
    cases a with
    | nil => rfl
    | cons c a =>
        exfalso
        have hspace := isSpace_of_isAsciiSpace (ha c List.mem_cons_self)
        have hhead : CaseMapping.latin1Char c = 'u' := by
          have h := congrArg List.head? hjoined
          rw [hcontent] at h
          simpa using h
        rw [← isSpace_latin1Char, hhead] at hspace
        exact absurd hspace (by decide)
  have hrest : b'.map CaseMapping.latin1Char ++
      (q.filter fun c => c ≠ '"').map CaseMapping.latin1Char = b := by
    rw [hcontent, hnil, List.nil_append, List.map_append, hu,
      List.append_assoc] at hjoined
    exact List.append_cancel_left hjoined
  intro c hc
  by_cases hquote : c = '"'
  · exact Or.inl hquote
  · right
    rw [← isSpace_latin1Char]
    apply hb
    rw [← hrest]
    apply List.mem_append_right
    apply List.mem_map_of_mem
    simp [hc, hquote]

theorem isUtf8_of_dropped {content q b : JsString} (hq : Dropped q)
    (hb : forall c, c ∈ b -> isSpace c = true)
    (hjoined : content.map CaseMapping.latin1Char ++
      (q.filter fun c => c ≠ '"').map CaseMapping.latin1Char =
        "utf-8".toList ++ b)
    (hheader : forall c, c ∈ content -> headerChar c = true)
    (hnbsp : forall c, c ∈ content -> c ≠ nbsp) : isUtf8 content = true := by
  have hspaces : forall c,
      c ∈ (q.filter fun c => c ≠ '"').map CaseMapping.latin1Char ->
      isSpace c = true := by
    intro c hc
    rcases List.mem_map.mp hc with ⟨d, hd, heq⟩
    rw [← heq, isSpace_latin1Char]
    rcases List.mem_filter.mp hd with ⟨hmem, hquote⟩
    rcases hq d hmem with h | h
    · simp [h] at hquote
    · exact h
  have hprefix : exists b', content.map CaseMapping.latin1Char =
      "utf-8".toList ++ b' ∧ forall c, c ∈ b' -> isSpace c = true := by
    rcases List.append_eq_append_iff.mp hjoined with
      ⟨a', hutf8, hrest⟩ | ⟨b', hcontent, hrest⟩
    · have hnil : a' = [] := by
        cases a' with
        | nil => rfl
        | cons c a' =>
            have hspace : isSpace c = true := by
              apply hspaces
              rw [hrest]
              exact List.mem_cons_self
            have hletter : isSpace c = false := by
              apply not_isSpace_utf8
              rw [hutf8]
              exact List.mem_append_right _ List.mem_cons_self
            simp [hspace] at hletter
      rw [hnil, List.append_nil] at hutf8
      exact ⟨[], by rw [List.append_nil, hutf8], by simp⟩
    · refine ⟨b', hcontent, ?_⟩
      intro c hc
      exact hb c (by simp [hrest, hc])
  rcases hprefix with ⟨b', hcontent, hb'⟩
  rcases List.map_eq_append_iff.mp hcontent with ⟨u, w, hsplit, hu, hw⟩
  apply @isUtf8_of_split content [] u w
  · simpa using hsplit
  · simp
  · exact hu
  · intro c hc
    rw [← isSpace_latin1Char]
    exact hb' _ (hw ▸ List.mem_map_of_mem hc)
  · exact hheader
  · exact hnbsp

theorem quoted_iff {r v rest : JsString} (htrailing : Trailing v rest)
    (hheader : forall c, c ∈ (quotedString r).1 -> headerChar c = true)
    (h : Reads ('"' :: r ++ (v ++ rest))) :
    isUtf8 (quotedString r).1 = true <->
      (forall c, c ∈ (quotedString r).1 -> c ≠ '=' ∧ c ≠ ';' ∧ c ≠ nbsp) ∧
        Dropped (readPart ((quotedString r).2.getD [])) := by
  constructor
  · intro hutf8
    have hne := fun c hc => @isUtf8_ne _ hutf8 c hc
    refine ⟨fun c hc => ⟨(hne c hc).left, (hne c hc).right.left,
      (hne c hc).right.right.right⟩, ?_⟩
    rcases readPart_quoted htrailing
      (fun c hc => ⟨(hne c hc).right.left, (hne c hc).left⟩) h with
      ⟨hquote, q, hpart, hq⟩
    rcases hq with ⟨hnone, _⟩ | ⟨after, hsome, hq⟩
    · rw [hnone]
      intro c hc
      simp [readPart] at hc
    · rcases reads_quoted h hpart hquote with ⟨b, hb, hjoined⟩
      have hdropped := dropped_of_isUtf8 hutf8 hb hjoined
      rw [hsome, Option.getD_some]
      intro c hc
      apply hdropped c
      rw [hq]
      apply List.mem_cons_of_mem
      rcases readPart_append_cases after (v ++ rest) with hsame | ⟨hself, hmore⟩
      · rw [hsame]
        exact hc
      · rw [hmore]
        exact List.mem_append_left _ (hself ▸ hc)
  · intro hplain
    rcases readPart_quoted htrailing
      (fun c hc => ⟨(hplain.left c hc).right.left, (hplain.left c hc).left⟩) h
      with ⟨hquote, q, hpart, hq⟩
    have hdropped : Dropped q := by
      rcases hq with ⟨_, hspaces⟩ | ⟨after, hsome, hq⟩
      · intro c hc
        exact Or.inr (isSpace_of_isHttpSpace (hspaces c hc))
      · have hcomma := comma_not_mem_readPart h
        rw [hpart, hq] at hcomma
        have hafter := hplain.right
        rw [hsome, Option.getD_some] at hafter
        rw [hq]
        intro c hc
        rcases List.mem_cons.mp hc with hc | hc
        · exact Or.inl hc
        · exact readPart_dropped htrailing
            (fun hmem => hcomma (by simp [hmem])) hafter c hc
    rcases reads_quoted h hpart hquote with ⟨b, hb, hjoined⟩
    exact isUtf8_of_dropped hdropped hb hjoined hheader
      (fun c hc => (hplain.left c hc).right.right)

theorem headerChar_of_isValueChar {c : Char} (h : isValueChar c = true) :
    headerChar c = true := by
  apply decide_eq_true
  rcases of_decide_eq_true h with htab | hrange
  · exact Or.inl htab
  · right
    omega

/-- The check and the client agree on a charset that has been read whole. -/
theorem isUtf8_iff_plainValue {type body front member v rest : JsString}
    {p : Parameter} (h : isReplayable CaseMapping.latin1 type body = true)
    (htype : type = front ++ member ++ (v ++ rest))
    (htrailing : Trailing v rest)
    (hlocated : Located p member) (hvalid : p.valid = true)
    (hname : p.name = "charset".toList) :
    isUtf8 p.value = true <-> PlainValue p := by
  rcases hlocated with
    ⟨before, spaces, name, written, hmember, hspaces, hchars, hp⟩
  have hheader : forall c, c ∈ p.value -> headerChar c = true := by
    intro c hc
    have hall := (of_decide_eq_true hvalid).right.left
    exact headerChar_of_isValueChar (List.all_eq_true.mp hall c hc)
  have hcharset : name.map Char.toLower = "charset".toList := by
    rw [← hname, hp]
    unfold readValue
    split <;> rfl
  have hreads : Reads (written ++ (v ++ rest)) := by
    apply reads_of_isReplayable h _ hspaces hchars hcharset
    · exact front ++ before
    · rw [htype, hmember]
      simp
  by_cases hquoted : exists r, written = '"' :: r
  · rcases hquoted with ⟨r, hr⟩
    subst hr
    subst hp
    exact quoted_iff htrailing hheader hreads
  · have hbare := readValue_bare name hquoted
    rw [← hp] at hbare
    have hvalue : p.value =
        (written.takeWhile notSemicolon).rdropWhile isHttpSpace := by
      rw [hbare]
    have hplain : PlainValue p <->
        forall c, c ∈ p.value -> c ≠ '=' ∧ c ≠ '"' ∧ c ≠ nbsp := by
      rw [hbare]
      exact Iff.rfl
    have hsplit : written = p.value ++
        ((written.takeWhile notSemicolon).rtakeWhile isHttpSpace ++
          written.dropWhile notSemicolon) := by
      rw [hvalue, ← List.append_assoc, List.rdropWhile_append_rtakeWhile,
        List.takeWhile_append_dropWhile]
    rw [hplain]
    apply @bare_iff p.value
      ((written.takeWhile notSemicolon).rtakeWhile isHttpSpace) _ v rest
      htrailing (atSemicolon_dropWhile written)
    · intro c hc
      exact List.mem_rtakeWhile_imp hc
    · intro hc
      rw [hvalue] at hc
      have hmem := (List.rdropWhile_prefix _ _).subset hc
      exact absurd (List.mem_takeWhile_imp hmem) (by decide)
    · exact hheader
    · rw [hsplit, List.append_assoc, List.append_assoc] at hreads
      exact hreads

/-!
## The essence
-/

theorem isToken_map (s : JsString) :
    isToken (s.map CaseMapping.latin1Char) = isToken s := by
  have hall : (s.map CaseMapping.latin1Char).all isTokenChar =
      s.all isTokenChar := by
    rw [List.all_map]
    congr 1
    funext c
    exact isTokenChar_latin1Char c
  simp [isToken, hall]

theorem listed_types (essence : JsString)
    (h : essence ∈ PASSIVE_TYPES ++ MARKUP_TYPES) :
    essence = essence.takeWhile notSlash ++ '/' ::
        (essence.dropWhile notSlash).tail ∧
      isToken (essence.takeWhile notSlash) = true ∧
      isToken (essence.dropWhile notSlash).tail = true ∧
      forall c, c ∈ essence -> c.toNat < 128 := by
  have hall : forall essence, essence ∈ PASSIVE_TYPES ++ MARKUP_TYPES ->
      essence = essence.takeWhile notSlash ++ '/' ::
          (essence.dropWhile notSlash).tail ∧
        isToken (essence.takeWhile notSlash) = true ∧
        isToken (essence.dropWhile notSlash).tail = true ∧
        essence.all (fun c => c.toNat < 128) = true := by
    decide
  rcases hall essence h with ⟨hsplit, hfirst, hsecond, hascii⟩
  exact ⟨hsplit, hfirst, hsecond, List.all_iff_forall_prop.mp hascii⟩

theorem essence_of_isReplayable {type body : JsString}
    (h : isReplayable CaseMapping.latin1 type body = true) :
    exists a first second b, type.takeWhile notSemicolon =
        (a ++ first) ++ '/' :: (second ++ b) ∧
      (forall c, c ∈ a -> isSpace c = true) ∧
      (forall c, c ∈ b -> isSpace c = true) ∧
      isToken first = true ∧ isToken second = true ∧
      Allowed body ((first ++ '/' :: second).map Char.toLower) := by
  rcases splitOn_eq_cons (CaseMapping.latin1.toLowerCase type) ';' with
    ⟨more, hmore⟩
  have hhead : ((CaseMapping.latin1.toLowerCase type).splitOn ';').headD [] =
      (type.takeWhile notSemicolon).map CaseMapping.latin1Char := by
    rw [hmore]
    exact takeWhile_ne_map latin1Char_semicolon type
  have hmime : (trim (type.takeWhile notSemicolon)).map
        CaseMapping.latin1Char ∈ PASSIVE_TYPES ∨
      ((trim (type.takeWhile notSemicolon)).map
        CaseMapping.latin1Char ∈ MARKUP_TYPES ∧
        startsLikeMarkup body = true) := by
    simp only [isReplayable, hhead, trim_map] at h
    split at h
    · cases h
    · split at h
      · rename_i hpassive
        exact Or.inl hpassive
      · right
        simpa using h
  have hlisted : (trim (type.takeWhile notSemicolon)).map
      CaseMapping.latin1Char ∈ PASSIVE_TYPES ++ MARKUP_TYPES := by
    rw [List.mem_append]
    exact hmime.imp id And.left
  rcases listed_types _ hlisted with ⟨hsplit, hfirst, hsecond, hascii⟩
  rcases List.map_eq_append_iff.mp hsplit with
    ⟨first, slashed, htrim, hfirstMap, hslashed⟩
  rcases List.map_eq_cons_iff.mp hslashed with
    ⟨slash, second, hcons, hslash, hsecondMap⟩
  have hslashChar : slash = '/' :=
    (latin1Char_eq_iff (by decide) slash).mp hslash
  subst hslashChar
  subst hcons
  have hlower : (first ++ '/' :: second).map Char.toLower =
      (trim (type.takeWhile notSemicolon)).map CaseMapping.latin1Char := by
    rw [htrim]
    apply CaseMapping.map_toLower_of_latin1Char rfl
    rw [← htrim]
    exact hascii
  rcases strip_split isSpace (type.takeWhile notSemicolon) with
    ⟨a, b, hessence, ha, hb⟩
  refine ⟨a, first, second, b, ?_, ha, hb, ?_, ?_, ?_⟩
  · rw [hessence, ← trim_eq_strip, htrim]
    simp
  · rw [← isToken_map, hfirstMap]
    exact hfirst
  · rw [← isToken_map, hsecondMap]
    exact hsecond
  · rw [hlower]
    rcases hmime with hpassive | ⟨hmarkup, hbody⟩
    · exact Or.inl hpassive
    · exact Or.inr ⟨List.mem_singleton.mp hmarkup, hbody⟩

/-! Token characters are none of those that separate or surround. -/

theorem isTokenChar_ne {c : Char} (h : isTokenChar c = true) :
    c ≠ ',' ∧ c ≠ '"' ∧ c ≠ '/' ∧ c ≠ ';' ∧ c ≠ nbsp ∧
      isHttpSpace c = false := by
  refine ⟨?_, ?_, ?_, ?_, ?_, ?_⟩
  · intro heq
    subst heq
    exact absurd h (by decide)
  · intro heq
    subst heq
    exact absurd h (by decide)
  · intro heq
    subst heq
    exact absurd h (by decide)
  · intro heq
    subst heq
    exact absurd h (by decide)
  · intro heq
    subst heq
    exact absurd h (by decide)
  · cases hspace : isHttpSpace c with
    | false => rfl
    | true =>
        simp only [isHttpSpace, isBlank, decide_eq_true_eq] at hspace
        rcases hspace with (heq | heq) | heq | heq <;> subst heq <;>
          exact absurd h (by decide)

theorem isToken_chars {s : JsString} (h : isToken s = true) {c : Char}
    (hc : c ∈ s) : isTokenChar c = true :=
  List.all_eq_true.mp (of_decide_eq_true h).right c hc

theorem isSpace_ne {c : Char} (h : isSpace c = true) :
    c ≠ ',' ∧ c ≠ '"' ∧ c ≠ '/' ∧ c ≠ ';' := by
  refine ⟨?_, ?_, ?_, ?_⟩ <;>
  · intro heq
    subst heq
    exact absurd h (by decide)

structure FirstMember (type body a first second b params rest : JsString) :
    Prop where
  type_eq : type = (a ++ first) ++ '/' :: ((second ++ b) ++ params) ++ rest
  atSemicolon : AtSemicolon params
  comma : rest = [] ∨ exists more, rest = ',' :: more
  members : exists more, listMembers type =
    strip isBlank ((a ++ first) ++ '/' :: ((second ++ b) ++ params)) :: more
  essence : type.takeWhile notSemicolon = (a ++ first) ++ '/' :: (second ++ b)
  before : forall c, c ∈ a -> isSpace c = true
  behind : forall c, c ∈ b -> isSpace c = true
  tokens : isToken first = true ∧ isToken second = true
  allowed : Allowed body ((first ++ '/' :: second).map Char.toLower)

theorem firstMember_of_isReplayable {type body : JsString}
    (h : isReplayable CaseMapping.latin1 type body = true) :
    exists a first second b params rest,
      FirstMember type body a first second b params rest := by
  rcases essence_of_isReplayable h with
    ⟨a, first, second, b, hessence, ha, hb, hfirst, hsecond, hallowed⟩
  have hplain : forall c, c ∈ type.takeWhile notSemicolon ->
      c ≠ ',' ∧ c ≠ '"' := by
    intro c hc
    rw [hessence] at hc
    have hspace := fun h => @isSpace_ne c h
    have htoken := fun h => @isTokenChar_ne c h
    simp only [List.mem_append, List.mem_cons] at hc
    rcases hc with (hc | hc) | hc | hc | hc
    · exact ⟨(hspace (ha c hc)).left, (hspace (ha c hc)).right.left⟩
    · have hne := htoken (isToken_chars hfirst hc)
      exact ⟨hne.left, hne.right.left⟩
    · subst hc
      decide
    · have hne := htoken (isToken_chars hsecond hc)
      exact ⟨hne.left, hne.right.left⟩
    · exact ⟨(hspace (hb c hc)).left, (hspace (hb c hc)).right.left⟩
  rcases membersFrom_split Within.nothing (type.dropWhile notSemicolon) with
    ⟨params, more, hmembers, hsplit⟩
  have htype : type = type.takeWhile notSemicolon ++
      type.dropWhile notSemicolon :=
    List.takeWhile_append_dropWhile.symm
  have hlist : listMembers type =
      strip isBlank (type.takeWhile notSemicolon ++ params) ::
        more.map (strip isBlank) := by
    unfold listMembers
    conv_lhs => rw [htype, membersFrom_append hplain hmembers]
    rfl
  have hat := atSemicolon_dropWhile type
  have hrest : exists rest, type.dropWhile notSemicolon = params ++ rest ∧
      (rest = [] ∨ exists more, rest = ',' :: more) ∧ AtSemicolon params := by
    rcases hsplit with ⟨hparams, _⟩ | ⟨others, hparams⟩
    · refine ⟨[], by rw [List.append_nil, hparams], Or.inl rfl, ?_⟩
      rw [← hparams]
      exact hat
    · refine ⟨',' :: others, hparams, Or.inr ⟨others, rfl⟩, ?_⟩
      rw [hparams] at hat
      cases params with
      | nil => exact absurd (hat ',' rfl) (by decide)
      | cons c params => exact hat
  rcases hrest with ⟨rest, hdrop, hcomma, hparams⟩
  refine ⟨a, first, second, b, params, rest, ?_⟩
  constructor
  · conv_lhs => rw [htype, hessence, hdrop]
    simp
  · exact hparams
  · exact hcomma
  · refine ⟨more.map (strip isBlank), ?_⟩
    rw [hlist, hessence]
    simp
  · exact hessence
  · exact ha
  · exact hb
  · exact ⟨hfirst, hsecond⟩
  · exact hallowed

section FirstMember

variable {type body a first second b params rest : JsString}

theorem trailing_of_firstMember
    (hmember : FirstMember type body a first second b params rest) :
    Trailing (params.rtakeWhile isHttpSpace) rest := by
  constructor
  · intro c hc
    exact List.mem_rtakeWhile_imp hc
  · exact hmember.comma

theorem isHttpSpace_of_plain {c : Char}
    (hmember : FirstMember type body a first second b params rest)
    (hheader : headerValue type = true) (hplain : PlainEssence type)
    (hspace : isSpace c = true)
    (hc : c ∈ (a ++ first) ++ '/' :: (second ++ b)) :
    isHttpSpace c = true := by
  rw [← hmember.essence] at hc
  apply isHttpSpace_of_isSpace hspace
  · exact List.all_eq_true.mp hheader c
      ((List.takeWhile_prefix notSemicolon).subset hc)
  · exact hplain c hc

theorem parse_member
    (hmember : FirstMember type body a first second b params rest) :
    parse ((a ++ first) ++ '/' :: ((second ++ b) ++ params)) =
      if isToken ((a ++ first).dropWhile isHttpSpace) &&
          isToken ((second ++ b).rdropWhile isHttpSpace) then
        some
          { essence := ((a ++ first).dropWhile isHttpSpace ++ '/' ::
              (second ++ b).rdropWhile isHttpSpace).map Char.toLower
            parameters := readParameters (params.rdropWhile isHttpSpace) }
      else none := by
  apply parse_pieces
  · intro hc
    rcases List.mem_append.mp hc with hc | hc
    · exact (isSpace_ne (hmember.before _ hc)).right.right.left rfl
    · exact (isTokenChar_ne
        (isToken_chars hmember.tokens.left hc)).right.right.left rfl
  · intro hc
    rcases List.mem_append.mp hc with hc | hc
    · exact (isTokenChar_ne
        (isToken_chars hmember.tokens.right hc)).right.right.right.left rfl
    · exact (isSpace_ne (hmember.behind _ hc)).right.right.right rfl
  · exact hmember.atSemicolon

theorem dropWhile_firstMember
    (hmember : FirstMember type body a first second b params rest)
    (hheader : headerValue type = true) (hplain : PlainEssence type) :
    (a ++ first).dropWhile isHttpSpace = first := by
  rw [List.dropWhile_append_of_pos]
  · rw [List.dropWhile_eq_self_iff]
    intro hne
    have h := (isTokenChar_ne (isToken_chars hmember.tokens.left
      (List.head_mem (List.ne_nil_of_length_pos hne)))).right.right.right.right.right
    simpa [List.head_eq_getElem] using h
  · intro c hc
    exact isHttpSpace_of_plain hmember hheader hplain
      (hmember.before c hc) (by simp [hc])

theorem rdropWhile_firstMember
    (hmember : FirstMember type body a first second b params rest)
    (hheader : headerValue type = true) (hplain : PlainEssence type) :
    (second ++ b).rdropWhile isHttpSpace = second := by
  rw [rdropWhile_append_of_all, List.rdropWhile_eq_self_iff]
  · intro hne
    have h := (isTokenChar_ne (isToken_chars hmember.tokens.right
      (List.getLast_mem hne))).right.right.right.right.right
    simp [h]
  · intro c hc
    exact isHttpSpace_of_plain hmember hheader hplain
      (hmember.behind c hc) (by simp [hc])

theorem parse_of_plainEssence
    (hmember : FirstMember type body a first second b params rest)
    (hheader : headerValue type = true) (hplain : PlainEssence type) :
    parse ((a ++ first) ++ '/' :: ((second ++ b) ++ params)) =
      some
        { essence := (first ++ '/' :: second).map Char.toLower
          parameters := readParameters (params.rdropWhile isHttpSpace) } := by
  rw [parse_member hmember, dropWhile_firstMember hmember hheader hplain,
    rdropWhile_firstMember hmember hheader hplain, hmember.tokens.left,
    hmember.tokens.right]
  rfl

/-- What is not plain about the essence is a no-break space beside it. -/
theorem nbsp_of_not_plainEssence
    (hmember : FirstMember type body a first second b params rest)
    (hnot : ¬ PlainEssence type) : nbsp ∈ a ∨ nbsp ∈ b := by
  by_contra hnone
  rw [not_or] at hnone
  apply hnot
  intro c hc heq
  rw [hmember.essence, heq] at hc
  simp only [List.mem_append, List.mem_cons] at hc
  rcases hc with (hc | hc) | hc | hc | hc
  · exact hnone.left hc
  · exact (isTokenChar_ne
      (isToken_chars hmember.tokens.left hc)).right.right.right.right.left rfl
  · exact absurd hc (by decide)
  · exact (isTokenChar_ne
      (isToken_chars hmember.tokens.right hc)).right.right.right.right.left rfl
  · exact hnone.right hc

theorem parse_of_not_plainEssence
    (hmember : FirstMember type body a first second b params rest)
    (hnot : ¬ PlainEssence type) :
    parse ((a ++ first) ++ '/' :: ((second ++ b) ++ params)) = none := by
  have hbad : forall s : JsString, nbsp ∈ s -> isToken s = false := by
    intro s hs
    cases htoken : isToken s with
    | false => rfl
    | true => exact absurd (isToken_chars htoken hs) (by decide)
  rw [parse_member hmember, if_neg]
  rw [Bool.and_eq_true, not_and_or, Bool.not_eq_true, Bool.not_eq_true]
  rcases nbsp_of_not_plainEssence hmember hnot with hc | hc
  · left
    apply hbad
    apply mem_dropWhile_of_not (List.mem_append_left _ hc)
    decide
  · right
    apply hbad
    apply mem_rdropWhile_of_not (List.mem_append_right _ hc)
    decide

end FirstMember

/-!
## The type as the client extracts it
-/

theorem not_allowed_any (body : JsString) : ¬ Allowed body "*/*".toList := by
  intro h
  rcases h with h | ⟨h, _⟩
  · exact absurd h (by decide)
  · exact absurd h (by decide)

theorem firstCharset_firstMember {type body a first second b params rest : JsString}
    (hmember : FirstMember type body a first second b params rest)
    (hheader : headerValue type = true) (hplain : PlainEssence type) :
    firstCharset type =
      (readParameters (params.rdropWhile isHttpSpace)).find?
        (fun p => p.name = "charset".toList) := by
  rcases hmember.members with ⟨more, hmembers⟩
  unfold firstCharset
  rw [hmembers, List.head?_cons, Option.bind_some, parse_strip,
    parse_of_plainEssence hmember hheader hplain]
  rfl

theorem plainValue_firstMember {type body a first second b params rest : JsString}
    (h : isReplayable CaseMapping.latin1 type body = true)
    (hmember : FirstMember type body a first second b params rest)
    (hheader : headerValue type = true) (hplain : PlainEssence type)
    {p : Parameter} (hp : firstCharset type = some p) :
    isUtf8 p.value = true <-> PlainValue p := by
  rw [firstCharset_firstMember hmember hheader hplain] at hp
  have hfound := List.find?_some hp
  have hname : p.name = "charset".toList := of_decide_eq_true hfound
  rcases located_of_mem (atSemicolon_rdropWhile hmember.atSemicolon)
    (List.mem_of_find?_eq_some hp) with
    ⟨hlocated, hvalid⟩
  apply isUtf8_iff_plainValue h _ (trailing_of_firstMember hmember)
    hlocated hvalid hname
  · exact (a ++ first) ++ '/' :: (second ++ b)
  · rw [← List.append_assoc, List.append_assoc _ (params.rdropWhile _),
      List.rdropWhile_append_rtakeWhile]
    conv_lhs => rw [hmember.type_eq]
    simp only [List.append_assoc, List.cons_append]

/-- No later member counts, so it is the first that must be read alike. -/
theorem noMoreActive_iff_of_laterTypes_nil {type body : JsString}
    (h : isReplayable CaseMapping.latin1 type body = true)
    (hheader : headerValue type = true) (hlater : laterTypes type = []) :
    NoMoreActive type body <->
      PlainEssence type ∧
        forall p, firstCharset type = some p -> PlainValue p := by
  rcases firstMember_of_isReplayable h with
    ⟨a, first, second, b, params, rest, hmember⟩
  rcases hmember.members with ⟨more, hmembers⟩
  have hextract := extract_of_laterTypes_nil hmembers hlater
  by_cases hplain : PlainEssence type
  · have hparse := parse_of_plainEssence hmember hheader hplain
    have husable : usable (strip isBlank
        ((a ++ first) ++ '/' :: ((second ++ b) ++ params))) =
        some
          { essence := (first ++ '/' :: second).map Char.toLower
            parameters := readParameters (params.rdropWhile isHttpSpace) } := by
      unfold usable
      rw [parse_strip, hparse, Option.filter_some, if_pos]
      apply decide_eq_true
      intro heq
      exact not_allowed_any body (heq ▸ hmember.allowed)
    rw [husable] at hextract
    have hcharset : forall label,
        (Extracted.charset
          { mime :=
              { essence := (first ++ '/' :: second).map Char.toLower
                parameters :=
                  readParameters (params.rdropWhile isHttpSpace) }
            inherited := MimeType.charset
              { essence := (first ++ '/' :: second).map Char.toLower
                parameters :=
                  readParameters (params.rdropWhile isHttpSpace) } } =
            some label <->
          exists p, firstCharset type = some p ∧ p.value = label) := by
      intro label
      rw [charset_inherited, MimeType.charset, parameter,
        firstCharset_firstMember hmember hheader hplain, Option.map_eq_some_iff]
    constructor
    · intro hactive
      rcases hactive with ⟨x, hx, _, hutf8⟩
      rw [hextract] at hx
      cases hx
      refine ⟨hplain, ?_⟩
      intro p hp
      apply (plainValue_firstMember h hmember hheader hplain hp).mp
      exact hutf8 p.value ((hcharset p.value).mpr ⟨p, hp, rfl⟩)
    · intro halike
      refine ⟨_, hextract, hmember.allowed, ?_⟩
      intro label hlabel
      rcases (hcharset label).mp hlabel with ⟨p, hp, heq⟩
      rw [← heq]
      exact (plainValue_firstMember h hmember hheader hplain hp).mpr
        (halike.right p hp)
  · have hnone : extract type = none := by
      rw [hextract]
      unfold usable
      rw [parse_strip, parse_of_not_plainEssence hmember hplain]
      rfl
    constructor
    · intro hactive
      rcases hactive with ⟨x, hx, _⟩
      rw [hnone] at hx
      cases hx
    · intro halike
      exact absurd halike.left hplain

theorem noMoreActive_iff {type body : JsString}
    (h : isReplayable CaseMapping.latin1 type body = true)
    (hheader : headerValue type = true) :
    NoMoreActive type body <-> ReadAlike type body := by
  unfold ReadAlike
  cases hlast : (laterTypes type).getLast? with
  | none =>
      exact noMoreActive_iff_of_laterTypes_nil h hheader
        (List.getLast?_eq_none_iff.mp hlast)
  | some mime =>
      rcases extract_of_laterTypes hlast with ⟨x, hx, hmime⟩
      unfold NoMoreActive
      rw [hx, ← hmime]
      simp

theorem replayed_contentType {ctx served : Response} {type body : JsString}
    (hsets : setsType CaseMapping.latin1 (Body.text body) (some type) = true)
    (hserved : replayed CaseMapping.latin1 ctx (Body.text body) (some type) =
      some served) :
    isReplayable CaseMapping.latin1 type body = true ∧
      headerValue type = true ∧ served.contentType = type := by
  have hboth := of_decide_eq_true hsets
  unfold replayed at hserved
  split at hserved
  · cases hserved
  · rename_i hheader
    cases hserved
    refine ⟨hboth.right, ?_, ?_⟩
    · simpa [hsets] using hheader
    · unfold replay
      simp only
      rw [if_pos hboth]
      simp [setBody, hboth.left]

/--
What the client extracts from a replayed type is no more active than Koa's
inference exactly where check and client have read the type alike.
-/
theorem replayed_noMoreActive_iff {ctx served : Response}
    {type body : JsString}
    (hsets : setsType CaseMapping.latin1 (Body.text body) (some type) = true)
    (hserved : replayed CaseMapping.latin1 ctx (Body.text body) (some type) =
      some served) :
    NoMoreActive served.contentType body <-> ReadAlike type body := by
  rcases replayed_contentType hsets hserved with ⟨h, hheader, htype⟩
  rw [htype]
  exact noMoreActive_iff h hheader

def csvType : JsString :=
  "text/csv; header=present; charset=\"utf-8\"".toList

theorem replayed_noMoreActive_iff_csv :
    exists served : Response,
      replayed CaseMapping.latin1 (Response.ok []) (Body.text "a,b".toList)
        (some csvType) = some served ∧
      NoMoreActive served.contentType "a,b".toList := by
  have hsets : setsType CaseMapping.latin1 (Body.text "a,b".toList)
      (some csvType) = true := by
    decide +kernel
  refine ⟨_, rfl, ?_⟩
  apply (replayed_noMoreActive_iff hsets rfl).mpr
  have hlater : (laterTypes csvType).getLast? = none := by
    decide +kernel
  unfold ReadAlike
  rw [hlater]
  constructor
  · unfold PlainEssence
    exact List.all_iff_forall_prop.mp (by decide +kernel)
  · have hcharset : firstCharset csvType =
        some (Parameter.mk "charset".toList "utf-8".toList true []) := by
      decide +kernel
    intro p hp
    rw [hcharset] at hp
    cases hp
    constructor
    · exact List.all_iff_forall_prop.mp (by decide)
    · intro c hc
      cases hc

def listedType : JsString :=
  "text/plain;a=b, text/html".toList

/-- The check reads up to the `;` and the `=`, the client up to the comma. -/
theorem not_noMoreActive_listed :
    ¬ forall (ctx served : Response) (type body : JsString),
      setsType CaseMapping.latin1 (Body.text body) (some type) = true ->
      replayed CaseMapping.latin1 ctx (Body.text body) (some type) =
        some served ->
      NoMoreActive served.contentType body := by
  intro hall
  have hactive := hall (Response.ok []) _ listedType
    "hello".toList (by decide +kernel) rfl
  rcases hactive with ⟨x, hx, hallowed, _⟩
  have hessence : (extract listedType).map
      (fun x => x.mime.essence) = some "text/html".toList := by
    decide +kernel
  have heq : x.mime.essence = "text/html".toList := by
    have htype : extract listedType = some x := hx
    rw [htype] at hessence
    simpa using hessence
  rw [heq] at hallowed
  rcases hallowed with h | ⟨h, _⟩
  · exact absurd h (by decide)
  · exact absurd h (by decide)

/-- A charset that is empty for the client. -/
example :
    isReplayable CaseMapping.latin1 "text/plain;charset=\"\"utf-8".toList
        "hello".toList = true ∧
      (extract "text/plain;charset=\"\"utf-8".toList).bind
        Extracted.charset = some [] := by
  decide +kernel

end Recv
end RestCache
