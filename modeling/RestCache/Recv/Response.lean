import Mathlib.Data.List.Infix
import RestCache.Foundation.JsonParse
import RestCache.Keys.CacheKey

/-!
# Responses

What recv reads and sets on a response: whether it may be stored, the headers
it is advertised with, its ETag, and how a stored body is served again.
-/

namespace RestCache
namespace Recv

open Foundation
open Keys

/--
A value of `ctx.body`.  An object is given by the value that `JSON.stringify`
writes for it, a string for a date.  Streams and buffers are not stored, and
reading a property of a `hostile` body throws.
-/
inductive Body where
  | absent
  | text (s : JsString)
  | bool (b : Bool)
  | num (x : JsNumber)
  | object (v : JsonValue)
  | stream
  | buffer
  | hostile
deriving DecidableEq

namespace Body

def truthy : Body -> Bool
  | absent => false
  | text s => s ≠ []
  | Body.bool b => b
  | num x => x.digits.val ≠ []
  | _ => true

def data : Body -> JsonValue
  | text s => JsonValue.str s
  | Body.bool b => ⟨JsValue.bool b, JsValue.Ordered.bool b⟩
  | num x => ⟨JsValue.num x, JsValue.Ordered.num x⟩
  | object v => v
  | _ => JsonValue.null

def ofData (v : JsonValue) : Body :=
  match v.value with
  | JsValue.null => absent
  | JsValue.str s => text s
  | JsValue.bool b => Body.bool b
  | JsValue.num x => num x
  | _ => object v

/-- The body after a way through the store. -/
def readBack (body : Body) : Body :=
  ofData body.data

def isText : Body -> Bool
  | text _ => true
  | _ => false

/-- An object whose JSON is a string, as that of a date is. -/
def becomesText : Body -> Bool
  | object v => (object v).readBack.isText
  | _ => false

end Body

structure Response where
  status : Nat
  body : Body
  respond : Bool
  cacheControl : JsString
  etag : Option JsString
  contentType : JsString
  setCookie : List JsString
  xCache : Option JsString
deriving DecidableEq

/-!
## isCacheable
-/

inductive Verdict where
  | cacheable
  | refused (reason : JsString)
deriving DecidableEq

def decimal (n : Nat) : JsString :=
  Nat.toDigits 10 n

def isSpace (c : Char) : Bool :=
  c.toNat ∈ [0x09, 0x0A, 0x0B, 0x0C, 0x0D, 0x20, 0xA0, 0x1680, 0x2028, 0x2029,
    0x202F, 0x205F, 0x3000, 0xFEFF] ∨ c.toNat ∈ List.range' 0x2000 11

def trim (s : JsString) : JsString :=
  ((s.dropWhile isSpace).reverse.dropWhile isSpace).reverse

/-- One of the comma-separated directives, in any letter case, forbids it. -/
def forbidsStoring (cacheControl : JsString) : Bool :=
  (cacheControl.splitOn ',').any fun part =>
    (trim part).map Char.toLower ∈ ["no-store".toList, "private".toList]

/-- `none` where reading the body throws. -/
def isCacheable (ctx : Response) : Option Verdict :=
  if ctx.respond = false then
    some (Verdict.refused "handler set ctx.respond = false".toList)
  else if ctx.body.truthy = false then
    some (Verdict.refused "empty body".toList)
  else if ¬ (ctx.status ≥ 200 ∧ ctx.status ≤ 300) then
    some (Verdict.refused ("status ".toList ++ decimal ctx.status))
  else
    match ctx.body with
    | Body.hostile => none
    | Body.stream => some (Verdict.refused "streamed body".toList)
    | Body.buffer => some (Verdict.refused "binary (Buffer) body".toList)
    | _ =>
        if ctx.setCookie ≠ [] then
          some (Verdict.refused "response sets a cookie".toList)
        else if forbidsStoring ctx.cacheControl then
          some (Verdict.refused ("Cache-Control: ".toList ++ ctx.cacheControl))
        else
          some Verdict.cacheable

/-!
## Cache-Control
-/

inductive MaxAgeSetting where
  | none
  | config
  | milliseconds (n : Nat)
deriving DecidableEq

inductive Scope where
  | publicScope
  | privateScope
deriving DecidableEq

structure CacheControlConfig where
  enabled : Bool
  maxAge : MaxAgeSetting
  scope : Scope
  staleWhileRevalidate : Option Nat
deriving DecidableEq

def toSeconds (value : Nat) : Nat :=
  value / 1000

def Scope.text : Scope -> JsString
  | Scope.publicScope => "public".toList
  | Scope.privateScope => "private".toList

def buildCacheControl (config : Option CacheControlConfig)
    (keys : CacheKeysConfig) (routeMaxAge : Nat) : Option JsString :=
  match config with
  | none => none
  | some config =>
      if config.enabled then
        let scope :=
          if config.scope = Scope.publicScope ∧ keys.useAuth then
            Scope.privateScope
          else config.scope
        let maxAge :=
          match config.maxAge with
          | MaxAgeSetting.none => []
          | MaxAgeSetting.config =>
              ["max-age=".toList ++ decimal (toSeconds routeMaxAge)]
          | MaxAgeSetting.milliseconds n =>
              ["max-age=".toList ++ decimal (toSeconds n)]
        let staleWhileRevalidate :=
          match config.staleWhileRevalidate with
          | none => []
          | some n =>
              ["stale-while-revalidate=".toList ++ decimal (toSeconds n)]
        some (", ".toList.intercalate
          (scope.text :: (maxAge ++ staleWhileRevalidate)))
      else
        none

def setCacheControl (cacheControl : Option JsString) (ctx : Response) :
    Response :=
  match cacheControl with
  | none => ctx
  | some value =>
      if ctx.cacheControl ≠ [] then ctx
      else { ctx with cacheControl := value }

/-!
## ETags
-/

/--
The text `etagGenerate` hashes, which is also what a client is sent: a string
itself, anything else as JSON.
-/
def Body.etagSource : Body -> JsString
  | Body.text s => s
  | body => body.data.stringify

def etagGenerate (md5 : JsString -> JsString) (body : Body) : JsString :=
  md5 body.etagSource

def quoted (etag : JsString) : JsString :=
  '"' :: (etag ++ ['"'])

def etagMatch (ctx : Context) (etagCached : JsString) : Bool :=
  match ctx.header "if-none-match".toList with
  | none => false
  | some ifNoneMatch =>
      ifNoneMatch ≠ [] ∧ quoted etagCached <:+: ifNoneMatch

/-!
## Content types
-/

def PASSIVE_TYPES : List JsString :=
  ["text/plain".toList, "text/csv".toList, "text/tab-separated-values".toList,
    "application/json".toList]

def MARKUP_TYPES : List JsString :=
  ["application/xml".toList]

/-- `/^\s*</`, the test Koa infers `text/html` with. -/
def startsLikeMarkup (body : JsString) : Bool :=
  (body.dropWhile isSpace).head? = some '<'

variable (lower : CaseMapping)

def charsetOk (param : JsString) : Bool :=
  let parts := (param.splitOn '=').map trim
  let name := parts.headD []
  let value := parts.tail.headD []
  name ≠ "charset".toList ∨ value.filter (· ≠ '"') = "utf-8".toList

def isReplayable (type body : JsString) : Bool :=
  let parts := (lower.toLowerCase type).splitOn ';'
  let mime := trim (parts.headD [])
  if ¬ parts.tail.all charsetOk then
    false
  else if mime ∈ PASSIVE_TYPES then
    true
  else
    mime ∈ MARKUP_TYPES ∧ startsLikeMarkup body

def typeToKeep (ctx : Response) : Option JsString :=
  match ctx.body with
  | Body.text body =>
      if ctx.contentType ≠ [] ∧ isReplayable lower ctx.contentType body then
        some ctx.contentType
      else
        none
  | _ => none

def setBody (ctx : Response) (body : Body) : Response :=
  match body with
  | Body.text s =>
      let inferred :=
        if startsLikeMarkup s then "text/html; charset=utf-8".toList
        else "text/plain; charset=utf-8".toList
      { ctx with
        body
        contentType :=
          if ctx.contentType = [] then inferred else ctx.contentType }
  | Body.absent => { ctx with body, contentType := [] }
  | Body.stream | Body.buffer | Body.hostile => { ctx with body }
  | _ =>
      { ctx with body, contentType := "application/json; charset=utf-8".toList }

def replay (ctx : Response) (body : Body) (type : Option JsString) :
    Response :=
  match type, body with
  | some type, Body.text s =>
      if type ≠ [] ∧ isReplayable lower type s then
        setBody { ctx with contentType := type } body
      else
        setBody ctx body
  | _, _ => setBody ctx body

@[simp]
theorem setBody_body (ctx : Response) (body : Body) :
    (setBody ctx body).body = body := by
  cases body <;> rfl

@[simp]
theorem setBody_etag (ctx : Response) (body : Body) :
    (setBody ctx body).etag = ctx.etag := by
  cases body <;> rfl

@[simp]
theorem setBody_status (ctx : Response) (body : Body) :
    (setBody ctx body).status = ctx.status := by
  cases body <;> rfl

theorem replay_eq_setBody (ctx : Response) (body : Body)
    (type : Option JsString) :
    exists ctx', replay lower ctx body type = setBody ctx' body ∧
      ctx'.etag = ctx.etag ∧ ctx'.status = ctx.status := by
  unfold replay
  split
  · split
    · exact ⟨_, rfl, rfl, rfl⟩
    · exact ⟨_, rfl, rfl, rfl⟩
  · exact ⟨_, rfl, rfl, rfl⟩

@[simp]
theorem replay_body (ctx : Response) (body : Body) (type : Option JsString) :
    (replay lower ctx body type).body = body := by
  rcases replay_eq_setBody lower ctx body type with ⟨ctx', heq, _⟩
  rw [heq, setBody_body]

@[simp]
theorem replay_etag (ctx : Response) (body : Body) (type : Option JsString) :
    (replay lower ctx body type).etag = ctx.etag := by
  rcases replay_eq_setBody lower ctx body type with ⟨ctx', heq, hetag, _⟩
  rw [heq, setBody_etag, hetag]

@[simp]
theorem replay_status (ctx : Response) (body : Body)
    (type : Option JsString) :
    (replay lower ctx body type).status = ctx.status := by
  rcases replay_eq_setBody lower ctx body type with ⟨ctx', heq, _, hstatus⟩
  rw [heq, setBody_status, hstatus]

@[simp]
theorem setCacheControl_etag (cacheControl : Option JsString)
    (ctx : Response) : (setCacheControl cacheControl ctx).etag = ctx.etag := by
  cases cacheControl with
  | none => rfl
  | some value =>
      simp only [setCacheControl]
      split <;> rfl

/-!
## A body through the store
-/

/-- The same string, or two values of the same JSON text. -/
def SameBody (a b : Body) : Prop :=
  a.isText = b.isText ∧ a.etagSource = b.etagSource

theorem etagSource_ofData (v : JsonValue) :
    (Body.ofData v).etagSource =
      if (Body.ofData v).isText then (Body.ofData v).etagSource
      else v.stringify := by
  rcases v with ⟨value, hordered⟩
  cases value <;> rfl

/-- Only a date and the like come back as something else. -/
theorem sameBody_readBack {body : Body} (h : body.becomesText = false) :
    SameBody body.readBack body := by
  cases body with
  | object v =>
      have hsource := etagSource_ofData v
      have htext : (Body.ofData v).isText = false := h
      rw [htext, if_neg Bool.false_ne_true] at hsource
      exact ⟨htext, hsource⟩
  | _ => exact ⟨rfl, rfl⟩

example : ¬ forall body : Body, SameBody body.readBack body :=
  fun h => absurd (h (Body.object (JsonValue.str "1970-01-01".toList))).left
    (by decide)

end Recv
end RestCache
