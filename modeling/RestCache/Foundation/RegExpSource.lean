import RestCache.Foundation.RegExp

/-!
# Regular expression sources

What `new RegExp(source)` makes of its source.  The source is cut into tokens by
a scanner that reads one character at a time, and the tokens are assembled with
a stack of open groups, so the parts of a source can be read one after the
other.  Escapes by code, back references, look-behinds and named groups are not
read.
-/

namespace RestCache
namespace Foundation

namespace RegExpSource

inductive Unreadable where
  | syntaxError
  | unsupported
deriving DecidableEq

inductive Group where
  | plain
  | look (negated : Bool)

inductive Token where
  | atom (accepts : Char -> Bool)
  | assertion (p : Pattern)
  | opening (group : Group)
  | closing
  | bar
  | quantifier (min : Nat) (max : Option Nat)
  | question

/-!
## Character sets
-/

def literal (c d : Char) : Bool :=
  d = c

def isDigit (c : Char) : Bool :=
  c.isDigit

def isSpace (c : Char) : Bool :=
  c.toNat ∈ [0x09, 0x0A, 0x0B, 0x0C, 0x0D, 0x20, 0xA0, 0x1680, 0x2028, 0x2029,
    0x202F, 0x205F, 0x3000, 0xFEFF] || (0x2000 ≤ c.toNat && c.toNat ≤ 0x200A)

def isLineTerminator (c : Char) : Bool :=
  c.toNat ∈ [0x0A, 0x0D, 0x2028, 0x2029]

def setEscape : Char -> Option (Char -> Bool)
  | 'd' => some isDigit
  | 'D' => some (fun c => !isDigit c)
  | 'w' => some Pattern.isWordChar
  | 'W' => some (fun c => !Pattern.isWordChar c)
  | 's' => some isSpace
  | 'S' => some (fun c => !isSpace c)
  | _ => none

def controlEscape : Char -> Option Char
  | 't' => some '\t'
  | 'n' => some '\n'
  | 'r' => some '\r'
  | 'v' => some (Char.ofNat 0x0B)
  | 'f' => some (Char.ofNat 0x0C)
  | _ => none

/-- Escapes by code and back references. -/
def isUnsupportedEscape (c : Char) : Bool :=
  c.isDigit || c = 'x' || c = 'u' || c = 'c' || c = 'k' || c = 'p' || c = 'P'

def charEscape (c : Char) : Except Unreadable Char :=
  if isUnsupportedEscape c then Except.error Unreadable.unsupported
  else Except.ok ((controlEscape c).getD c)

/-!
## Character classes
-/

/-- What the last member of a class lets follow. -/
inductive ClassLast where
  | nothing
  | char (c : Char)
  | range (low : Char)
  | set
  | setDash

structure ClassState where
  negated : Bool
  accepts : Char -> Bool
  last : ClassLast

namespace ClassState

def init (negated : Bool) : ClassState where
  negated
  accepts _ := false
  last := ClassLast.nothing

def add (k : ClassState) (more : Char -> Bool) (last : ClassLast) :
    ClassState :=
  { k with accepts := fun c => k.accepts c || more c, last }

def char (k : ClassState) (c : Char) : Except Unreadable ClassState :=
  match k.last with
  | ClassLast.range low =>
      if low ≤ c then
        Except.ok (k.add (fun d => low ≤ d && d ≤ c) ClassLast.nothing)
      else
        Except.error Unreadable.syntaxError
  | ClassLast.setDash =>
      Except.ok (k.add (fun d => d = '-' || d = c) ClassLast.nothing)
  | _ => Except.ok (k.add (literal c) (ClassLast.char c))

def dash (k : ClassState) : Except Unreadable ClassState :=
  match k.last with
  | ClassLast.char low => Except.ok { k with last := ClassLast.range low }
  | ClassLast.set => Except.ok { k with last := ClassLast.setDash }
  | _ => k.char '-'

def set (k : ClassState) (more : Char -> Bool) : ClassState :=
  match k.last with
  | ClassLast.range _ =>
      k.add (fun c => c = '-' || more c) ClassLast.set
  | ClassLast.setDash =>
      k.add (fun c => c = '-' || more c) ClassLast.set
  | _ => k.add more ClassLast.set

/-- The class at its closing bracket, where a dash stands for itself. -/
def token (k : ClassState) : Token :=
  let accepts :=
    match k.last with
    | ClassLast.range _ => fun c => k.accepts c || literal '-' c
    | ClassLast.setDash => fun c => k.accepts c || literal '-' c
    | _ => k.accepts
  Token.atom (fun c => accepts c != k.negated)

end ClassState

/-!
## The scanner
-/

inductive Mode where
  | text
  | escape
  | brace (read : JsString)
  | paren
  | parenQuestion
  | classOpen
  | inClass (k : ClassState)
  | classEscape (k : ClassState)

abbrev Scanned := List Token × Mode

def ofChar (c : Char) : Token :=
  Token.atom (literal c)

def textChar (c : Char) : Scanned :=
  match c with
  | '\\' => ([], Mode.escape)
  | '^' => ([Token.assertion Pattern.start], Mode.text)
  | '$' => ([Token.assertion Pattern.stop], Mode.text)
  | '.' => ([Token.atom (fun d => !isLineTerminator d)], Mode.text)
  | '*' => ([Token.quantifier 0 none], Mode.text)
  | '+' => ([Token.quantifier 1 none], Mode.text)
  | '?' => ([Token.question], Mode.text)
  | '(' => ([], Mode.paren)
  | ')' => ([Token.closing], Mode.text)
  | '|' => ([Token.bar], Mode.text)
  | '[' => ([], Mode.classOpen)
  | '\x7b' => ([], Mode.brace [])
  | c => ([ofChar c], Mode.text)

def number (digits : JsString) : Nat :=
  digits.foldl (fun n c => 10 * n + (c.toNat - '0'.toNat)) 0

def bounds (read : JsString) : Option (Nat × Option Nat) :=
  let low := read.takeWhile Char.isDigit
  if low = [] then
    none
  else
    match read.dropWhile Char.isDigit with
    | [] => some (number low, some (number low))
    | [','] => some (number low, none)
    | ',' :: high =>
        if high.all Char.isDigit then some (number low, some (number high))
        else none
    | _ => none

/-- A brace that starts no quantifier stands for itself. -/
def plainBrace (read : JsString) : List Token :=
  ofChar '\x7b' :: read.map ofChar

def classChar (k : ClassState) (c : Char) : Except Unreadable Scanned :=
  if c = ']' then
    Except.ok ([k.token], Mode.text)
  else if c = '\\' then
    Except.ok ([], Mode.classEscape k)
  else if c = '-' then
    k.dash.map (fun k => ([], Mode.inClass k))
  else
    (k.char c).map (fun k => ([], Mode.inClass k))

def scanChar (mode : Mode) (c : Char) : Except Unreadable Scanned :=
  match mode with
  | Mode.text => Except.ok (textChar c)
  | Mode.escape =>
      if c = 'b' then
        Except.ok ([Token.assertion (Pattern.boundary false)], Mode.text)
      else if c = 'B' then
        Except.ok ([Token.assertion (Pattern.boundary true)], Mode.text)
      else
        match setEscape c with
        | some accepts => Except.ok ([Token.atom accepts], Mode.text)
        | none => (charEscape c).map (fun c => ([ofChar c], Mode.text))
  | Mode.brace read =>
      if c.isDigit ∨ c = ',' then
        Except.ok ([], Mode.brace (read ++ [c]))
      else if c = '\x7d' then
        match bounds read with
        | some (min, max) => Except.ok ([Token.quantifier min max], Mode.text)
        | none => Except.ok (plainBrace read ++ [ofChar c], Mode.text)
      else
        let z := textChar c
        Except.ok (plainBrace read ++ z.1, z.2)
  | Mode.paren =>
      if c = '?' then
        Except.ok ([], Mode.parenQuestion)
      else
        let z := textChar c
        Except.ok (Token.opening Group.plain :: z.1, z.2)
  | Mode.parenQuestion =>
      if c = ':' then
        Except.ok ([Token.opening Group.plain], Mode.text)
      else if c = '=' then
        Except.ok ([Token.opening (Group.look false)], Mode.text)
      else if c = '!' then
        Except.ok ([Token.opening (Group.look true)], Mode.text)
      else if c = '<' then
        Except.error Unreadable.unsupported
      else
        Except.error Unreadable.syntaxError
  | Mode.classOpen =>
      if c = '^' then
        Except.ok ([], Mode.inClass (ClassState.init true))
      else
        classChar (ClassState.init false) c
  | Mode.inClass k => classChar k c
  | Mode.classEscape k =>
      if c = 'b' then
        (k.char (Char.ofNat 0x08)).map (fun k => ([], Mode.inClass k))
      else
        match setEscape c with
        | some accepts => Except.ok ([], Mode.inClass (k.set accepts))
        | none =>
            (charEscape c).bind fun c =>
              (k.char c).map (fun k => ([], Mode.inClass k))

def scan : Mode -> JsString -> Except Unreadable Scanned
  | mode, [] => Except.ok ([], mode)
  | mode, c :: rest =>
      (scanChar mode c).bind fun z =>
        (scan z.2 rest).map fun y => (z.1 ++ y.1, y.2)

/-- The tokens still to come at the end of the source. -/
def endOf : Mode -> Except Unreadable (List Token)
  | Mode.text => Except.ok []
  | Mode.brace read => Except.ok (plainBrace read)
  | Mode.paren => Except.ok [Token.opening Group.plain]
  | _ => Except.error Unreadable.syntaxError

def tokens (source : JsString) : Except Unreadable (List Token) :=
  (scan Mode.text source).bind fun z =>
    (endOf z.2).map fun rest => z.1 ++ rest

/-!
## The assembler
-/

/-- The term read last, and whether a quantifier may follow it. -/
inductive Last where
  | nothing
  | fixed (p : Pattern)
  | atom (p : Pattern)
  | repeated (p : Pattern)

def Last.pattern : Last -> Pattern
  | Last.nothing => Pattern.empty
  | Last.fixed p => p
  | Last.atom p => p
  | Last.repeated p => p

/-- One group while it is read. -/
structure Level where
  group : Group
  alternatives : Option Pattern
  sequence : Pattern
  last : Last

namespace Level

def init (group : Group) : Level where
  group
  alternatives := none
  sequence := Pattern.empty
  last := Last.nothing

def terms (level : Level) : Pattern :=
  Pattern.seq level.sequence level.last.pattern

def push (level : Level) (last : Last) : Level :=
  { level with sequence := level.terms, last }

def body (level : Level) : Pattern :=
  match level.alternatives with
  | none => level.terms
  | some p => Pattern.alt p level.terms

def closed (level : Level) : Last :=
  match level.group with
  | Group.plain => Last.atom level.body
  | Group.look negated => Last.atom (Pattern.look negated level.body)

end Level

def times (p : Pattern) : Nat -> Pattern
  | 0 => Pattern.empty
  | n + 1 => Pattern.seq p (times p n)

def upTo (p : Pattern) : Nat -> Pattern
  | 0 => Pattern.empty
  | n + 1 => Pattern.alt (Pattern.seq p (upTo p n)) Pattern.empty

def repeatPattern (p : Pattern) (min : Nat) : Option Nat -> Pattern
  | none => Pattern.seq (times p min) (Pattern.star p)
  | some max => Pattern.seq (times p min) (upTo p (max - min))

/-- The group being read and the groups around it, the innermost first. -/
structure Reader where
  level : Level
  enclosing : List Level

def Reader.init : Reader where
  level := Level.init Group.plain
  enclosing := []

def quantify (level : Level) (min : Nat) (max : Option Nat) :
    Except Unreadable Level :=
  match level.last with
  | Last.atom p =>
      if max.any (fun m => m < min) then Except.error Unreadable.syntaxError
      else
        Except.ok
          { level with last := Last.repeated (repeatPattern p min max) }
  | _ => Except.error Unreadable.syntaxError

def assemble (r : Reader) : Token -> Except Unreadable Reader
  | Token.atom accepts =>
      Except.ok
        { r with level := r.level.push (Last.atom (Pattern.char accepts)) }
  | Token.assertion p =>
      Except.ok { r with level := r.level.push (Last.fixed p) }
  | Token.bar =>
      Except.ok
        { r with
          level := { Level.init r.level.group with
            alternatives := some r.level.body } }
  | Token.opening group =>
      Except.ok
        { level := Level.init group, enclosing := r.level :: r.enclosing }
  | Token.closing =>
      match r.enclosing with
      | [] => Except.error Unreadable.syntaxError
      | outer :: rest =>
          Except.ok { level := outer.push r.level.closed, enclosing := rest }
  | Token.quantifier min max =>
      (quantify r.level min max).map fun level => { r with level }
  | Token.question =>
      match r.level.last with
      | Last.repeated p =>
          Except.ok { r with level := { r.level with last := Last.fixed p } }
      | _ => (quantify r.level 0 (some 1)).map fun level => { r with level }

def assembleAll : Reader -> List Token -> Except Unreadable Reader
  | r, [] => Except.ok r
  | r, token :: rest =>
      (assemble r token).bind fun r => assembleAll r rest

/-- `new RegExp(source)`. -/
def compile (source : JsString) : Except Unreadable Pattern :=
  (tokens source).bind fun ts =>
    (assembleAll Reader.init ts).bind fun r =>
      match r.enclosing with
      | [] => Except.ok r.level.body
      | _ :: _ => Except.error Unreadable.syntaxError

end RegExpSource

end Foundation
end RestCache
