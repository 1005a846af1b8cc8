import Mathlib.Data.List.DropRight
import RestCache.Foundation.UriComponent

/-!
# How a client reads a Content-Type

The header is a list of MIME types, split on the commas that are not in a
quoted string; the last of them that parses is the type of the response.  A
header value here is a text of Latin-1 characters.
-/

namespace RestCache
namespace Foundation

/-!
## Stripping
-/

def strip (p : Char -> Bool) (s : JsString) : JsString :=
  (s.dropWhile p).rdropWhile p

section Strip

variable {p : Char -> Bool}

theorem strip_split (p : Char -> Bool) (s : JsString) :
    exists a b, s = a ++ strip p s ++ b ∧
      (forall c, c ∈ a -> p c = true) ∧ (forall c, c ∈ b -> p c = true) := by
  refine ⟨s.takeWhile p, (s.dropWhile p).rtakeWhile p, ?_, ?_, ?_⟩
  · unfold strip
    rw [List.append_assoc, List.rdropWhile_append_rtakeWhile,
      List.takeWhile_append_dropWhile]
  · intro c hc
    exact List.mem_takeWhile_imp hc
  · intro c hc
    exact List.mem_rtakeWhile_imp hc

theorem rdropWhile_append_of_all {s b : JsString}
    (hb : forall c, c ∈ b -> p c = true) :
    (s ++ b).rdropWhile p = s.rdropWhile p := by
  induction b using List.reverseRecOn with
  | nil => rw [List.append_nil]
  | append_singleton b c ih =>
      rw [← List.append_assoc, List.rdropWhile_concat_pos p _ c (hb c (by simp))]
      exact ih (fun d hd => hb d (by simp [hd]))

theorem strip_append {a s b : JsString}
    (ha : forall c, c ∈ a -> p c = true)
    (hb : forall c, c ∈ b -> p c = true) :
    strip p (a ++ s ++ b) = strip p s := by
  unfold strip
  rw [List.append_assoc, List.dropWhile_append_of_pos ha]
  by_cases hs : forall c, c ∈ s -> p c = true
  · have hnil : forall t : JsString, (forall c, c ∈ t -> p c = true) ->
        t.dropWhile p = [] := by
      intro t ht
      exact List.dropWhile_eq_nil_iff.mpr ht
    rw [hnil s hs, hnil (s ++ b)]
    intro c hc
    exact (List.mem_append.mp hc).elim (hs c) (hb c)
  · have hne : s.dropWhile p ≠ [] := by
      intro h
      exact hs (List.dropWhile_eq_nil_iff.mp h)
    rw [List.dropWhile_append, if_neg (by simpa using hne),
      rdropWhile_append_of_all hb]

theorem strip_eq_self {s : JsString}
    (hhead : forall c, c ∈ s.head? -> p c = false)
    (hlast : forall c, c ∈ s.getLast? -> p c = false) :
    strip p s = s := by
  unfold strip
  have hdrop : s.dropWhile p = s := by
    cases s with
    | nil => rfl
    | cons c rest => simp [hhead c rfl]
  rw [hdrop, List.rdropWhile_eq_self_iff]
  intro hne
  have h := hlast (s.getLast hne) (List.getLast?_eq_some_getLast hne)
  simp [h]

theorem mem_dropWhile_of_not {s : JsString} {c : Char} (hc : c ∈ s)
    (hp : p c = false) : c ∈ s.dropWhile p := by
  rw [← List.takeWhile_append_dropWhile (p := p) (l := s)] at hc
  rcases List.mem_append.mp hc with hc | hc
  · have htaken := List.mem_takeWhile_imp hc
    simp [hp] at htaken
  · exact hc

theorem mem_rdropWhile_of_not {s : JsString} {c : Char} (hc : c ∈ s)
    (hp : p c = false) : c ∈ s.rdropWhile p := by
  unfold List.rdropWhile
  rw [List.mem_reverse]
  exact mem_dropWhile_of_not (List.mem_reverse.mpr hc) hp

theorem mem_strip {s : JsString} {c : Char} (hc : c ∈ s)
    (hp : p c = false) : c ∈ strip p s :=
  mem_rdropWhile_of_not (mem_dropWhile_of_not hc hp) hp

theorem mem_of_mem_strip {s : JsString} {c : Char} (hc : c ∈ strip p s) :
    c ∈ s := by
  rcases strip_split p s with ⟨a, b, hs, _, _⟩
  rw [hs]
  simp [hc]

theorem strip_map {f : Char -> Char} (hp : forall c, p (f c) = p c)
    (s : JsString) : strip p (s.map f) = (strip p s).map f := by
  have hcomp : p ∘ f = p := funext hp
  unfold strip
  rw [List.dropWhile_map, hcomp]
  unfold List.rdropWhile
  rw [← List.map_reverse, List.dropWhile_map, hcomp, List.map_reverse]

end Strip

namespace MimeType

/-!
## Characters
-/

def isBlank (c : Char) : Bool :=
  c = '\t' ∨ c = ' '

def isHttpSpace (c : Char) : Bool :=
  isBlank c ∨ c = '\n' ∨ c = '\r'

def isTokenChar (c : Char) : Bool :=
  c.isAlphanum ∨ c ∈ "!#$%&'*+-.^_`|~".toList

def isToken (s : JsString) : Bool :=
  s ≠ [] ∧ s.all isTokenChar

def isValueChar (c : Char) : Bool :=
  c = '\t' ∨ (0x20 ≤ c.toNat ∧ c.toNat ≤ 0x7e) ∨
    (0x80 ≤ c.toNat ∧ c.toNat ≤ 0xff)

/-!
## The list
-/

/-- Where the split is: outside or inside a quoted string, or after `\`. -/
inductive Within where
  | nothing
  | quotes
  | escape
deriving DecidableEq

def Within.next (c : Char) : Within -> Within
  | Within.nothing => if c = '"' then Within.quotes else Within.nothing
  | Within.quotes =>
      if c = '"' then Within.nothing
      else if c = '\\' then Within.escape
      else Within.quotes
  | Within.escape => Within.quotes

def push (c : Char) : List JsString -> List JsString
  | [] => [[c]]
  | member :: members => (c :: member) :: members

def membersFrom : Within -> JsString -> List JsString
  | _, [] => [[]]
  | w, c :: rest =>
      if w = Within.nothing ∧ c = ',' then [] :: membersFrom w rest
      else push c (membersFrom (w.next c) rest)

def listMembers (value : JsString) : List JsString :=
  (membersFrom Within.nothing value).map (strip isBlank)

/-!
## One MIME type
-/

/--
What follows an opening quote: the text of the quoted string, its escapes
undone, and what is behind the closing quote, if there is one.
-/
def quotedString : JsString -> JsString × Option JsString
  | [] => ([], none)
  | c :: rest =>
      if c = '"' then ([], some rest)
      else if c = '\\' then
        match rest with
        | [] => (['\\'], none)
        | d :: rest =>
            let r := quotedString rest
            (d :: r.1, r.2)
      else
        let r := quotedString rest
        (c :: r.1, r.2)

/--
A parameter; `after` is the text behind the closing quote of its value, which
the client skips.
-/
structure Parameter where
  name : JsString
  value : JsString
  quoted : Bool
  after : JsString
deriving DecidableEq

def notSemicolon (c : Char) : Bool :=
  c ≠ ';'

/-- The value written behind a `=`, up to the `;` that ends it. -/
def readValue (name written : JsString) : Parameter :=
  match written with
  | '"' :: rest =>
      { name := name.map Char.toLower
        value := (quotedString rest).1
        quoted := true
        after := ((quotedString rest).2.getD []).takeWhile notSemicolon }
  | _ =>
      { name := name.map Char.toLower
        value := (written.takeWhile notSemicolon).rdropWhile isHttpSpace
        quoted := false
        after := [] }

theorem readValue_bare (name : JsString) {written : JsString}
    (h : ¬ exists rest, written = '"' :: rest) :
    readValue name written =
      { name := name.map Char.toLower
        value := (written.takeWhile notSemicolon).rdropWhile isHttpSpace
        quoted := false
        after := [] } := by
  unfold readValue
  split
  · rename_i rest
    exact absurd ⟨rest, rfl⟩ h
  · rfl

def afterValue (written : JsString) : JsString :=
  match written with
  | '"' :: rest => ((quotedString rest).2.getD []).dropWhile notSemicolon
  | _ => written.dropWhile notSemicolon

def Parameter.valid (p : Parameter) : Bool :=
  isToken p.name ∧ p.value.all isValueChar ∧ (p.quoted ∨ p.value ≠ [])

def isNameChar (c : Char) : Bool :=
  c ≠ ';' ∧ c ≠ '='

def parametersFrom : Nat -> JsString -> List Parameter
  | 0, _ => []
  | _ + 1, [] => []
  | fuel + 1, _ :: text =>
      let text := text.dropWhile isHttpSpace
      let name := text.takeWhile isNameChar
      match text.dropWhile isNameChar with
      | '=' :: written =>
          let p := readValue name written
          if p.valid then
            p :: parametersFrom fuel (afterValue written)
          else
            parametersFrom fuel (afterValue written)
      | rest => parametersFrom fuel rest

def readParameters (text : JsString) : List Parameter :=
  parametersFrom text.length text

end MimeType

structure MimeType where
  essence : JsString
  parameters : List MimeType.Parameter
deriving DecidableEq

namespace MimeType

def notSlash (c : Char) : Bool :=
  c ≠ '/'

def parse (text : JsString) : Option MimeType :=
  let text := strip isHttpSpace text
  let type := text.takeWhile notSlash
  match text.dropWhile notSlash with
  | [] => none
  | _ :: rest =>
      let subtype := (rest.takeWhile notSemicolon).rdropWhile isHttpSpace
      if isToken type && isToken subtype then
        some
          { essence := (type ++ '/' :: subtype).map Char.toLower
            parameters := readParameters (rest.dropWhile notSemicolon) }
      else
        none

/-- The first parameter of a name counts. -/
def parameter (mime : MimeType) (name : JsString) : Option Parameter :=
  mime.parameters.find? fun p => p.name = name

def charset (mime : MimeType) : Option JsString :=
  (mime.parameter "charset".toList).map Parameter.value

/-!
## The type of a response

A member without a charset takes over that of the members before it, as far
back as the essence is the same.
-/

structure Extracted where
  mime : MimeType
  inherited : Option JsString
deriving DecidableEq

def Extracted.charset (x : Extracted) : Option JsString :=
  x.mime.charset <|> x.inherited

theorem charset_inherited (mime : MimeType) :
    Extracted.charset { mime, inherited := mime.charset } = mime.charset := by
  unfold Extracted.charset
  cases mime.charset with
  | none => rfl
  | some label => rfl

/-- A member that counts. -/
def usable (member : JsString) : Option MimeType :=
  (parse member).filter fun mime => mime.essence ≠ "*/*".toList

def extractStep (found : Option Extracted) (mime : MimeType) :
    Option Extracted :=
  match found with
  | some before =>
      if before.mime.essence = mime.essence then
        some { mime := mime, inherited := before.inherited }
      else
        some { mime := mime, inherited := mime.charset }
  | none => some { mime := mime, inherited := mime.charset }

def extract (value : JsString) : Option Extracted :=
  ((listMembers value).filterMap usable).foldl extractStep none

/-!
## The first member

It is the text up to the first comma outside quoted strings.
-/

theorem membersFrom_split (w : Within) (s : JsString) :
    exists first more, membersFrom w s = first :: more ∧
      ((s = first ∧ more = []) ∨ exists rest, s = first ++ ',' :: rest) := by
  induction s generalizing w with
  | nil => exact ⟨[], [], rfl, Or.inl ⟨rfl, rfl⟩⟩
  | cons c s ih =>
      unfold membersFrom
      split
      · rename_i hcomma
        refine ⟨[], _, rfl, Or.inr ⟨s, ?_⟩⟩
        rw [hcomma.right]
        rfl
      · rcases ih (w.next c) with ⟨first, more, hmembers, hsplit⟩
        refine ⟨c :: first, more, by rw [hmembers]; rfl, ?_⟩
        rcases hsplit with ⟨hs, hmore⟩ | ⟨rest, hs⟩
        · exact Or.inl ⟨by rw [hs], hmore⟩
        · exact Or.inr ⟨rest, by rw [hs]; rfl⟩

theorem membersFrom_append {a t first : JsString} {more : List JsString}
    (ha : forall c, c ∈ a -> c ≠ ',' ∧ c ≠ '"')
    (ht : membersFrom Within.nothing t = first :: more) :
    membersFrom Within.nothing (a ++ t) = (a ++ first) :: more := by
  induction a with
  | nil => exact ht
  | cons c a ih =>
      have hc := ha c List.mem_cons_self
      have hrest := ih (fun d hd => ha d (List.mem_cons_of_mem c hd))
      rw [List.cons_append]
      unfold membersFrom
      rw [if_neg (fun h => hc.left h.right)]
      have hnext : Within.next c Within.nothing = Within.nothing := by
        simp [Within.next, hc.right]
      rw [hnext, hrest]
      rfl

/-!
## Quoted strings and parameters
-/

theorem quotedString_quote (rest : JsString) :
    quotedString ('"' :: rest) = ([], some rest) := by
  rw [quotedString.eq_def]
  rfl

theorem quotedString_escape (d : Char) (rest : JsString) :
    quotedString ('\\' :: d :: rest) =
      (d :: (quotedString rest).1, (quotedString rest).2) := by
  rw [quotedString.eq_def]
  rfl

theorem quotedString_char {c : Char} (hquote : c ≠ '"') (hescape : c ≠ '\\')
    (rest : JsString) :
    quotedString (c :: rest) =
      (c :: (quotedString rest).1, (quotedString rest).2) := by
  rw [quotedString.eq_def]
  simp [hquote, hescape]

theorem quotedString_split (s : JsString) :
    exists raw, (forall c, c ∈ raw -> c ∈ (quotedString s).1 ∨ c = '\\') ∧
      ('\\' ∉ raw -> (quotedString s).1 = raw ∧ '"' ∉ raw) ∧
      (((quotedString s).2 = none ∧ s = raw) ∨
        exists rest, (quotedString s).2 = some rest ∧
          s = raw ++ '"' :: rest) := by
  induction s using quotedString.induct with
  | case1 => exact ⟨[], by simp, by simp [quotedString], Or.inl ⟨rfl, rfl⟩⟩
  | case2 rest =>
      rw [quotedString_quote]
      exact ⟨[], by simp, by simp, Or.inr ⟨rest, rfl, rfl⟩⟩
  | case3 =>
      refine ⟨['\\'], by simp, by simp, Or.inl ⟨?_, rfl⟩⟩
      simp [quotedString]
  | case4 d rest _ ih =>
      rcases ih with ⟨raw, hmem, _, hsplit⟩
      rw [quotedString_escape]
      refine ⟨'\\' :: d :: raw, ?_, by simp, ?_⟩
      · intro c hc
        rcases List.mem_cons.mp hc with hc | hc
        · exact Or.inr hc
        · rcases List.mem_cons.mp hc with hc | hc
          · simp [hc]
          · rcases hmem c hc with h | h
            · simp [h]
            · exact Or.inr h
      · rcases hsplit with ⟨hnone, hs⟩ | ⟨after, hsome, hs⟩
        · exact Or.inl ⟨hnone, by rw [← hs]⟩
        · exact Or.inr ⟨after, hsome, by rw [hs]; rfl⟩
  | case5 c rest hquote hescape ih =>
      rcases ih with ⟨raw, hmem, hplain, hsplit⟩
      rw [quotedString_char hquote hescape]
      refine ⟨c :: raw, ?_, ?_, ?_⟩
      · intro d hd
        rcases List.mem_cons.mp hd with hd | hd
        · simp [hd]
        · rcases hmem d hd with h | h
          · simp [h]
          · exact Or.inr h
      · intro hslash
        have hraw := hplain (fun h => hslash (List.mem_cons_of_mem c h))
        constructor
        · simp [hraw.left]
        · simp [hraw.right, Ne.symm hquote]
      · rcases hsplit with ⟨hnone, hs⟩ | ⟨after, hsome, hs⟩
        · exact Or.inl ⟨hnone, by rw [hs]⟩
        · exact Or.inr ⟨after, hsome, by rw [hs]; rfl⟩

theorem afterValue_suffix (written : JsString) :
    exists u, written = u ++ afterValue written := by
  unfold afterValue
  split
  · rename_i rest
    rcases quotedString_split rest with ⟨raw, _, _, hsplit⟩
    rcases hsplit with ⟨hnone, _⟩ | ⟨after, hsome, hs⟩
    · refine ⟨'"' :: rest, ?_⟩
      simp [hnone]
    · refine ⟨'"' :: raw ++ '"' :: after.takeWhile notSemicolon, ?_⟩
      rw [hsome, Option.getD_some]
      conv_lhs => rw [hs, ← List.takeWhile_append_dropWhile
        (p := notSemicolon) (l := after)]
      simp
  · exact ⟨_, (List.takeWhile_append_dropWhile).symm⟩

def AtSemicolon (s : JsString) : Prop :=
  forall c, c ∈ s.head? -> c = ';'

theorem atSemicolon_dropWhile (s : JsString) :
    AtSemicolon (s.dropWhile notSemicolon) := by
  intro c hc
  have h := List.head?_dropWhile_not notSemicolon s
  rw [Option.mem_def.mp hc] at h
  simpa [notSemicolon] using h

theorem atSemicolon_afterValue (written : JsString) :
    AtSemicolon (afterValue written) := by
  unfold afterValue
  split
  · exact atSemicolon_dropWhile _
  · exact atSemicolon_dropWhile _

theorem atSemicolon_rdropWhile {p : Char -> Bool} {s : JsString}
    (h : AtSemicolon s) : AtSemicolon (s.rdropWhile p) := by
  intro c hc
  apply h c
  rcases List.rdropWhile_prefix p s with ⟨u, hu⟩
  rw [← hu]
  cases hdrop : s.rdropWhile p with
  | nil => simp [hdrop] at hc
  | cons d rest => simpa [hdrop] using hc

/-- Where a parameter stands in the text it was read from. -/
def Located (p : Parameter) (text : JsString) : Prop :=
  exists before spaces name written,
    text = before ++ ';' :: (spaces ++ name ++ '=' :: written) ∧
      (forall c, c ∈ spaces -> isHttpSpace c = true) ∧
      (forall c, c ∈ name -> isNameChar c = true) ∧
      p = readValue name written

theorem located_append {p : Parameter} {u text : JsString}
    (h : Located p text) : Located p (u ++ text) := by
  rcases h with ⟨before, spaces, name, written, htext, hrest⟩
  refine ⟨u ++ before, spaces, name, written, ?_, hrest⟩
  rw [htext, ← List.append_assoc u before]

theorem located_of_mem {fuel : Nat} {text : JsString} {p : Parameter}
    (htext : AtSemicolon text) (h : p ∈ parametersFrom fuel text) :
    Located p text ∧ p.valid = true := by
  induction fuel generalizing text with
  | zero => simp [parametersFrom] at h
  | succ fuel ih =>
      cases text with
      | nil => simp [parametersFrom] at h
      | cons c rest =>
          have hc : c = ';' := htext c rfl
          subst hc
          have hspaces := (List.takeWhile_append_dropWhile
            (p := isHttpSpace) (l := rest)).symm
          have hname := (List.takeWhile_append_dropWhile
            (p := isNameChar) (l := rest.dropWhile isHttpSpace)).symm
          simp only [parametersFrom] at h
          split at h
          · rename_i written hwritten
            have hrest : rest = rest.takeWhile isHttpSpace ++
                (rest.dropWhile isHttpSpace).takeWhile isNameChar ++
                  '=' :: written := by
              rw [List.append_assoc, ← hwritten, ← hname, ← hspaces]
            have hlater : p ∈ parametersFrom fuel (afterValue written) ->
                Located p (';' :: rest) ∧ p.valid = true := by
              intro hp
              rcases ih (atSemicolon_afterValue written) hp with ⟨hat, hvalid⟩
              rcases afterValue_suffix written with ⟨u, hu⟩
              refine ⟨?_, hvalid⟩
              have hsplit : ';' :: rest = (';' ::
                  (rest.takeWhile isHttpSpace ++
                    (rest.dropWhile isHttpSpace).takeWhile isNameChar ++
                      '=' :: u)) ++ afterValue written := by
                conv_lhs => rw [hrest, hu]
                simp
              rw [hsplit]
              exact located_append hat
            split at h
            · rename_i hvalid
              rcases List.mem_cons.mp h with hp | hp
              · refine ⟨⟨[], _, _, written, by rw [← hrest]; rfl, ?_, ?_, hp⟩,
                  hp ▸ hvalid⟩
                · intro d hd
                  exact List.mem_takeWhile_imp hd
                · intro d hd
                  exact List.mem_takeWhile_imp hd
              · exact hlater hp
            · exact hlater h
          · -- The name ends at a `;` or with the text.
            rename_i hnext
            have hat : AtSemicolon
                ((rest.dropWhile isHttpSpace).dropWhile isNameChar) := by
              intro d hd
              have hstop := List.head?_dropWhile_not isNameChar
                (rest.dropWhile isHttpSpace)
              rw [Option.mem_def.mp hd] at hstop
              by_contra hne
              have heq : d = '=' := by
                simpa [isNameChar, hne] using hstop
              subst heq
              cases hdrop : (rest.dropWhile isHttpSpace).dropWhile isNameChar with
              | nil => simp [hdrop] at hd
              | cons e more =>
                  simp only [hdrop, List.head?_cons, Option.mem_def,
                    Option.some.injEq] at hd
                  exact hnext more (by rw [hdrop, hd])
            rcases ih hat h with ⟨hloc, hvalid⟩
            refine ⟨?_, hvalid⟩
            have hrest : ';' :: rest = ';' :: (rest.takeWhile isHttpSpace ++
                (rest.dropWhile isHttpSpace).takeWhile isNameChar) ++
                (rest.dropWhile isHttpSpace).dropWhile isNameChar := by
              rw [List.cons_append, List.append_assoc, ← hname, ← hspaces]
            rw [hrest]
            exact located_append hloc

/-!
## Parsing and extracting
-/

theorem takeWhile_append_stop {q : Char -> Bool} {a t : JsString}
    (ha : forall c, c ∈ a -> q c = true)
    (ht : forall c, c ∈ t.head? -> q c = false) :
    (a ++ t).takeWhile q = a ∧ (a ++ t).dropWhile q = t := by
  rw [List.takeWhile_append_of_pos ha, List.dropWhile_append_of_pos ha]
  cases t with
  | nil => simp
  | cons c t => simp [ht c rfl]

theorem isHttpSpace_semicolon {c : Char} (h : c = ';') :
    isHttpSpace c = false := by
  subst h
  decide

theorem rdropWhile_atSemicolon {head t : JsString}
    (hhead : ';' ∉ head) (ht : AtSemicolon t) :
    exists head', (head ++ t).rdropWhile isHttpSpace =
        head' ++ t.rdropWhile isHttpSpace ∧ ';' ∉ head' ∧
      head'.rdropWhile isHttpSpace = head.rdropWhile isHttpSpace := by
  cases t with
  | nil =>
      refine ⟨head.rdropWhile isHttpSpace, by simp, ?_, ?_⟩
      · intro h
        exact hhead ((List.rdropWhile_prefix isHttpSpace head).subset h)
      · exact List.rdropWhile_idempotent isHttpSpace head
  | cons c t =>
      have hc : c = ';' := ht c rfl
      refine ⟨head, ?_, hhead, rfl⟩
      have hsplit : c :: t = (c :: t).rdropWhile isHttpSpace ++
          (c :: t).rtakeWhile isHttpSpace :=
        List.rdropWhile_append_rtakeWhile.symm
      have hne : (c :: t).rdropWhile isHttpSpace ≠ [] := by
        rw [ne_eq, List.rdropWhile_eq_nil_iff]
        intro h
        simpa [isHttpSpace_semicolon hc] using h c List.mem_cons_self
      conv_lhs => rw [hsplit, ← List.append_assoc]
      rw [rdropWhile_append_of_all (fun d hd => List.mem_rtakeWhile_imp hd),
        List.rdropWhile_eq_self_iff]
      intro hnil
      rw [List.getLast_append_of_ne_nil hnil hne]
      exact List.rdropWhile_last_not isHttpSpace _ hne

theorem strip_around {p : Char -> Bool} {c : Char} {a b : JsString}
    (hc : p c = false) :
    strip p (a ++ c :: b) = a.dropWhile p ++ c :: b.rdropWhile p := by
  have hdrop : (a ++ c :: b).dropWhile p = a.dropWhile p ++ c :: b := by
    rw [List.dropWhile_append]
    split
    · rename_i hempty
      rw [List.isEmpty_iff] at hempty
      rw [hempty]
      simp [hc]
    · rfl
  have hsplit : b = b.rdropWhile p ++ b.rtakeWhile p :=
    List.rdropWhile_append_rtakeWhile.symm
  unfold strip
  rw [hdrop]
  conv_lhs => rw [hsplit, ← List.cons_append, ← List.append_assoc]
  rw [rdropWhile_append_of_all (fun d hd => List.mem_rtakeWhile_imp hd),
    List.rdropWhile_eq_self_iff]
  intro hnil
  rw [List.getLast_append_of_ne_nil hnil (by simp)]
  by_cases hb : b.rdropWhile p = []
  · simp [hb, hc]
  · rw [List.getLast_cons hb]
    exact List.rdropWhile_last_not p b hb

theorem parse_strip (text : JsString) :
    parse (strip isBlank text) = parse text := by
  rcases strip_split isBlank text with ⟨a, b, htext, ha, hb⟩
  have hspace : forall c, isBlank c = true -> isHttpSpace c = true := by
    intro c hc
    simp [isHttpSpace, hc]
  have hstrip : strip isHttpSpace text =
      strip isHttpSpace (strip isBlank text) := by
    conv_lhs => rw [htext]
    exact strip_append (fun c hc => hspace c (ha c hc))
      (fun c hc => hspace c (hb c hc))
  unfold parse
  rw [hstrip]

/-- What parsing makes of a text by its first slash and its first `;`. -/
theorem parse_pieces {a head t : JsString}
    (ha : '/' ∉ a) (hhead : ';' ∉ head) (ht : AtSemicolon t) :
    parse (a ++ '/' :: (head ++ t)) =
      if isToken (a.dropWhile isHttpSpace) &&
          isToken (head.rdropWhile isHttpSpace) then
        some
          { essence := (a.dropWhile isHttpSpace ++ '/' ::
              head.rdropWhile isHttpSpace).map Char.toLower
            parameters := readParameters (t.rdropWhile isHttpSpace) }
      else none := by
  rcases rdropWhile_atSemicolon hhead ht with ⟨head', hrest, hsemi, hsame⟩
  have hfirst : (a.dropWhile isHttpSpace ++ '/' ::
        (head' ++ t.rdropWhile isHttpSpace)).takeWhile notSlash =
          a.dropWhile isHttpSpace ∧
      (a.dropWhile isHttpSpace ++ '/' ::
        (head' ++ t.rdropWhile isHttpSpace)).dropWhile notSlash =
          '/' :: (head' ++ t.rdropWhile isHttpSpace) := by
    apply takeWhile_append_stop
    · intro c hc
      simp only [notSlash, ne_eq, decide_eq_true_eq]
      intro heq
      exact ha (heq ▸ (List.dropWhile_suffix isHttpSpace).subset hc)
    · intro c hc
      cases hc
      rfl
  have hsecond : (head' ++ t.rdropWhile isHttpSpace).takeWhile notSemicolon =
        head' ∧
      (head' ++ t.rdropWhile isHttpSpace).dropWhile notSemicolon =
        t.rdropWhile isHttpSpace := by
    apply takeWhile_append_stop
    · intro c hc
      simp only [notSemicolon, ne_eq, decide_eq_true_eq]
      intro heq
      exact hsemi (heq ▸ hc)
    · intro c hc
      simp [notSemicolon, atSemicolon_rdropWhile ht c hc]
  have hstrip : strip isHttpSpace (a ++ '/' :: (head ++ t)) =
      a.dropWhile isHttpSpace ++ '/' ::
        (head' ++ t.rdropWhile isHttpSpace) := by
    rw [strip_around (by decide), hrest]
  simp only [parse, hstrip, hfirst, hsecond, hsame]

/-- The members behind the first that count. -/
def laterTypes (value : JsString) : List MimeType :=
  (listMembers value).tail.filterMap usable

theorem extract_of_laterTypes_nil {value first : JsString}
    {more : List JsString} (hmembers : listMembers value = first :: more)
    (hlater : laterTypes value = []) :
    extract value = (usable first).map fun mime =>
      { mime := mime, inherited := mime.charset } := by
  have hmore : more.filterMap usable = [] := by
    simpa [laterTypes, hmembers] using hlater
  unfold extract
  rw [hmembers, List.filterMap_cons, hmore]
  cases usable first <;> rfl

theorem extract_of_laterTypes {value : JsString} {mime : MimeType}
    (hlast : (laterTypes value).getLast? = some mime) :
    exists x, extract value = some x ∧ x.mime = mime := by
  have hfold : forall (found : Option Extracted) (mimes : List MimeType),
      mimes.getLast? = some mime ->
      exists x, mimes.foldl extractStep found = some x ∧ x.mime = mime := by
    intro found mimes hmimes
    rcases List.getLast?_eq_some_iff.mp hmimes with ⟨before, hsplit⟩
    rw [hsplit, List.foldl_concat]
    unfold extractStep
    split
    · split <;> exact ⟨_, rfl, rfl⟩
    · exact ⟨_, rfl, rfl⟩
  apply hfold
  unfold laterTypes at hlast
  cases hmembers : listMembers value with
  | nil => simp [hmembers] at hlast
  | cons first more =>
      rw [hmembers, List.tail_cons] at hlast
      rw [List.filterMap_cons]
      cases usable first with
      | none => exact hlast
      | some other =>
          rcases List.getLast?_eq_some_iff.mp hlast with ⟨before, hsplit⟩
          rw [hsplit, List.getLast?_eq_some_iff]
          exact ⟨other :: before, rfl⟩

end MimeType

end Foundation
end RestCache
