import Mathlib.Data.List.AList
import RestCache.Foundation.CaseMapping
import RestCache.Foundation.RegExpSource

/-!
# Patterns for the keys of a route

A purge turns every cached route into a regular expression over the cache keys:
the route's path from the start of the key up to the question mark, with a
wildcard or the purge's own values where the path has parameters.
-/

namespace RestCache
namespace Config

open Foundation
open RegExpSource

structure CacheRouteConfig where
  path : JsString
  method : JsString
  paramNames : List JsString
deriving DecidableEq

/-- The values of the parameters by name, each as the string it prints as. -/
abbrev RouteParams := AList (fun _ : JsString => JsString)

/-!
## Pattern text
-/

def lowerParts (lower : CaseMapping) (part : JsString) : JsString -> JsString
  | [] => lower.toLowerCase part
  | ['\\'] => lower.toLowerCase part ++ ['\\']
  | '\\' :: c :: rest =>
      if isLineTerminator c then
        lower.toLowerCase part ++ '\\' :: lowerParts lower [] (c :: rest)
      else
        lower.toLowerCase part ++ '\\' :: c :: lowerParts lower [] rest
  | c :: rest => lowerParts lower (part ++ [c]) rest

def lowerCasePattern (lower : CaseMapping) (pattern : JsString) : JsString :=
  lowerParts lower [] pattern

def regExpSpecials : JsString :=
  ".*+?^$\x7b\x7d()|[]\\".toList

def escapeRegExp (value : JsString) : JsString :=
  value.flatMap fun c => if c ∈ regExpSpecials then ['\\', c] else [c]

def pathLiterals : JsString :=
  "-._~!$&'()*+,;=:@/".toList

def isPathLiteral (c : Char) : Bool :=
  c.isAlphanum || c ∈ pathLiterals

def lowerHexDigit (n : Nat) : Char :=
  Nat.digitChar n

def percentEncode (c : Char) : JsString :=
  (String.utf8EncodeChar c).flatMap fun b =>
    ['%', lowerHexDigit (b.toNat / 16), lowerHexDigit (b.toNat % 16)]

def isHexDigit (c : Char) : Bool :=
  c.isDigit || ('a' ≤ c && c ≤ 'f') || ('A' ≤ c && c ≤ 'F')

def isPrintable (c : Char) : Bool :=
  0x21 ≤ c.toNat && c.toNat ≤ 0x7e

def charToPattern (c : Char) : JsString :=
  if isPathLiteral c then
    escapeRegExp [c]
  else if isPrintable c ∧ c ≠ '#' ∧ c ≠ '?' then
    "(?:".toList ++ escapeRegExp [c] ++ '|' :: percentEncode c ++ [')']
  else
    percentEncode c

def paramToPattern : JsString -> JsString
  | '%' :: h :: l :: rest =>
      if isHexDigit h ∧ isHexDigit l then
        '%' :: h :: l :: paramToPattern rest
      else
        charToPattern '%' ++ paramToPattern (h :: l :: rest)
  | c :: rest => charToPattern c ++ paramToPattern rest
  | [] => []

/-!
## Parameters in a path
-/

structure ParamToken where
  slash : JsString
  name : JsString
  rest : JsString
  optional : Bool
deriving DecidableEq

def isRest (c : Char) : Bool :=
  c ≠ '/' && c ≠ '#' && c ≠ '?'

def paramAfter (slash : JsString) : JsString -> Option (ParamToken × JsString)
  | ':' :: path =>
      let name := path.takeWhile Pattern.isWordChar
      if name = [] then
        none
      else
        let path := path.dropWhile Pattern.isWordChar
        let rest := path.takeWhile isRest
        match path.dropWhile isRest with
        | '?' :: path => some ({ slash, name, rest, optional := true }, path)
        | path => some ({ slash, name, rest, optional := false }, path)
  | _ => none

def paramToken? : JsString -> Option (ParamToken × JsString)
  | '/' :: path => paramAfter ['/'] path
  | path => paramAfter [] path

/-- The path as single characters and matches of `PARAM_TOKEN`. -/
def splitParams : Nat -> JsString -> List (Char ⊕ ParamToken)
  | 0, _ => []
  | _ + 1, [] => []
  | fuel + 1, c :: path =>
      match paramToken? (c :: path) with
      | some (token, path) => Sum.inr token :: splitParams fuel path
      | none => Sum.inl c :: splitParams fuel path

def pathParts (path : JsString) : List (Char ⊕ ParamToken) :=
  splitParams path.length path

def replaceParams (replace : ParamToken -> JsString) (path : JsString) :
    JsString :=
  (pathParts path).flatMap (Sum.elim (fun c => [c]) replace)

inductive Modifier where
  | none
  | question
  | plus
  | star
deriving DecidableEq

/-- The rest of a segment without the `+` or `*` it ends in. -/
def withoutRepeat (rest : JsString) : JsString :=
  if rest.getLast? = some '+' ∨ rest.getLast? = some '*' then rest.dropLast
  else rest

/-- The text in the parentheses that enclose all of it. -/
def parenthesised : JsString -> Option JsString
  | '(' :: inner =>
      if inner.getLast? = some ')' ∧
          inner.dropLast.all (fun c => !isLineTerminator c) then
        some inner.dropLast
      else
        none
  | _ => none

def constraintOf (rest : JsString) : Option JsString :=
  parenthesised (withoutRepeat rest)

def modifierOf (rest : JsString) (optional : Bool) : Modifier :=
  if optional then Modifier.question
  else if rest.getLast? = some '+' then Modifier.plus
  else if rest.getLast? = some '*' then Modifier.star
  else Modifier.none

def SEGMENT : JsString :=
  "[^\\/#\\?]+".toList

def groupSource (source : JsString) : JsString :=
  "(?:".toList ++ source ++ [')']

def repeatedSource (segment : JsString) : JsString :=
  segment ++ "(?:\\/".toList ++ segment ++ ")*".toList

def wildcardFor (token : ParamToken) : JsString :=
  let segment :=
    match constraintOf token.rest with
    | some constraint => groupSource constraint
    | none => SEGMENT
  let repeated := repeatedSource segment
  match modifierOf token.rest token.optional with
  | Modifier.plus => token.slash ++ '(' :: repeated ++ [')']
  | Modifier.question =>
      if token.slash ≠ [] then
        "(?:\\/(".toList ++ segment ++ "))?".toList
      else
        '(' :: segment ++ ")?".toList
  | Modifier.star =>
      if token.slash ≠ [] then
        "(?:\\/(".toList ++ repeated ++ "))?".toList
      else
        '(' :: repeated ++ ")?".toList
  | Modifier.none => token.slash ++ '(' :: segment ++ [')']

def collapseFirst : JsString -> JsString
  | '/' :: '/' :: rest => '/' :: rest
  | c :: rest => c :: collapseFirst rest
  | [] => []

def collapseSlashes (pattern : JsString) : Nat -> JsString
  | 0 => pattern
  | times + 1 => collapseSlashes (collapseFirst pattern) times

/-- The source between the anchor and the escaped question mark. -/
def anchored (lower : CaseMapping) (pattern : JsString) : JsString :=
  '^' :: lowerCasePattern lower pattern ++ "\\?".toList

def paramValue (params : RouteParams) (token : ParamToken) : Option JsString :=
  (params.lookup token.name).map fun value =>
    let modifier := modifierOf token.rest token.optional
    if value = [] ∧ (modifier = Modifier.question ∨ modifier = Modifier.star)
    then
      []
    else
      token.slash ++ paramToPattern value

def resolved (params : RouteParams) (path : JsString) : Bool :=
  (pathParts path).all
    (Sum.elim (fun _ => true) (fun token => (paramValue params token).isSome))

def routeSources (lower : CaseMapping) (route : CacheRouteConfig)
    (params : Option RouteParams) (wildcard : Bool) : List JsString :=
  if route.paramNames = [] then
    [anchored lower route.path]
  else if wildcard then
    [anchored lower (collapseSlashes (replaceParams wildcardFor route.path)
      route.paramNames.length)]
  else
    match params with
    | none => []
    | some params =>
        if resolved params route.path then
          [anchored lower (collapseSlashes
            (replaceParams (fun token => (paramValue params token).getD [])
              route.path)
            params.keys.length)]
        else
          []

def getRouteRegExp (lower : CaseMapping) (route : CacheRouteConfig)
    (params : Option RouteParams) (wildcard : Bool) :
    Except Unreadable (List Pattern) :=
  (routeSources lower route params wildcard).mapM compile

/-- The expressions, or none where a source is rejected. -/
def patternsOf (found : Except Unreadable (List Pattern)) : List Pattern :=
  match found with
  | Except.ok patterns => patterns
  | Except.error _ => []

theorem eq_ok_patternsOf {found : Except Unreadable (List Pattern)}
    (h : found.isOk = true) : found = Except.ok (patternsOf found) := by
  cases found with
  | ok patterns => rfl
  | error e => exact absurd h Bool.false_ne_true

/-!
## The patterns of a content type
-/

structure CacheContentTypeConfig where
  contentType : JsString
  routes : List CacheRouteConfig

structure CachePluginStrategy where
  enableDocumentServiceMiddleware : Bool
  contentTypes : List CacheContentTypeConfig

namespace CachePluginStrategy

variable (strategy : CachePluginStrategy)

def get (uid : JsString) : Option CacheContentTypeConfig :=
  strategy.contentTypes.find? (fun cacheConf => cacheConf.contentType = uid)

def getCacheKeysRegexp (lower : CaseMapping) (uid : JsString)
    (params : Option RouteParams) (wildcard : Bool) :
    Except Unreadable (List Pattern) :=
  match strategy.get uid with
  | none => Except.ok []
  | some cacheConf =>
      ((cacheConf.routes.filter (fun route => route.method = "GET".toList)).mapM
        (fun route => getRouteRegExp lower route params wildcard)).map
          List.flatten

end CachePluginStrategy

end Config
end RestCache
