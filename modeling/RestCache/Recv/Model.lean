import Mathlib.Data.List.AList
import RestCache.Foundation.Transition
import RestCache.Recv.Response
import RestCache.Store.CacheEntry
import RestCache.Store.PurgeLog

/-!
# Requests and purges of one process

Any number of recv calls and purges share a store, the purge log and the map of
reads in flight.  An event is what one of them does up to its next `await`, or
the moment one of its store operations takes effect.
-/

namespace RestCache
namespace Recv

open Foundation
open Keys
open Store

abbrev ReqId := Nat

abbrev PurgeId := Nat

structure Read where
  owner : ReqId
  generation : Nat
deriving DecidableEq

/-- The text of an entry.  `origin` is not stored: it says whose value this is. -/
structure Cell where
  text : JsString
  origin : Read
deriving DecidableEq

namespace Cell

def entry (c : Cell) : Option CacheEntry :=
  (deserializeEntry c.text).join

def data (c : Cell) : JsonValue :=
  (c.entry.map CacheEntry.data).getD JsonValue.null

def type (c : Cell) : Option JsString :=
  c.entry.bind CacheEntry.type

def body (c : Cell) : Body :=
  Body.ofData c.data

end Cell

abbrev Provider := AList (fun _ : JsString => Cell)

inductive Hitpass where
  | bool (b : Bool)
  | function (f : Context -> Bool)

def shouldLookup (ctx : Context) : Hitpass -> Bool
  | Hitpass.bool b => !b
  | Hitpass.function f => !(f ctx)

structure Route where
  keys : CacheKeysConfig
  maxAge : Nat
  hitpass : Hitpass

/-- A request, with the response as it is when recv is entered. -/
structure Request where
  ctx : Context
  route : Route
  response : Response

/--
The configuration, the hash and the conversion of a stored JSON value to a
string, and the requests and purges a run may start.
-/
structure Setup where
  lower : CaseMapping
  md5 : JsString -> JsString
  jsonToString : JsonValue -> JsString
  enableEtag : Bool
  enableXCacheHeaders : Bool
  cacheControl : Option CacheControlConfig
  keysPrefix : JsString
  request : ReqId -> Request
  purge : PurgeId -> RegExps

namespace Setup

variable (setup : Setup)

def key (r : ReqId) : JsString :=
  generateCacheKey setup.lower (setup.request r).ctx (setup.request r).route.keys

def etagKey (r : ReqId) : JsString :=
  setup.key r ++ "_etag".toList

def lookup (r : ReqId) : Bool :=
  shouldLookup (setup.request r).ctx (setup.request r).route.hitpass

def routeCacheControl (r : ReqId) : Option JsString :=
  buildCacheControl setup.cacheControl (setup.request r).route.keys
    (setup.request r).route.maxAge

def stored (key : JsString) : JsString :=
  setup.keysPrefix ++ key

def xCache (value : JsString) (ctx : Response) : Response :=
  if setup.enableXCacheHeaders then { ctx with xCache := some value } else ctx

end Setup

/-- What a coalescing leader hands to the requests waiting on it. -/
structure SharedResponse where
  body : Body
  status : Nat
  type : Option JsString
deriving DecidableEq

inductive Settlement where
  | resolved (shared : SharedResponse)
  | rejected
deriving DecidableEq

/--
How a request was answered.  `joinedAt` and `finishedAt` are the generation when
the waiter joined and when the call returned.
-/
inductive Answer where
  | notModified (origin : Read)
  | hit (origin : Read)
  | shared (read : Read) (joinedAt : Nat)
  | fetched (generation finishedAt : Nat)
deriving DecidableEq

/-- Where a recv call stands; a `reply` is there once the read took effect. -/
inductive Pc where
  | idle
  | hitpass
  | readingEtag (reply : Option (Option Cell))
  | readingEntry (etagCached : Option Cell) (reply : Option (Option Cell))
  | joined (read : Read) (joinedAt : Nat)
  | inNext (generation : Nat)
  | storing (generation : Nat) (ctx : Response) (etagPending bodyPending : Bool)
  | cleaning (generation : Nat) (ctx : Response) (deleted : Bool)
  | done (answer : Answer) (ctx : Response)
  | failed
deriving DecidableEq

/-- Where a purge stands; its generation is the number it was recorded under. -/
inductive PurgePc where
  | idle
  | listing (generation : Nat) (reply : Option (List JsString))
  | deleting (generation : Nat) (keys : List JsString) (deleted : Bool)
  | clearing (generation : Nat) (cleared : Bool)
  | returned (generation : Nat)
deriving DecidableEq

/-- `handled` keeps what each handler left, for the results only. -/
structure State where
  store : Provider
  journal : Journal
  inFlight : JsString -> Option Read
  settled : ReqId -> List Settlement
  handled : ReqId -> Option Response
  recv : ReqId -> Pc
  purges : PurgeId -> PurgePc

def State.init : State where
  store := ∅
  journal := Journal.init
  inFlight _ := none
  settled _ := []
  handled _ := none
  recv _ := Pc.idle
  purges _ := PurgePc.idle

def State.generation (s : State) : Nat :=
  s.journal.log.generation

inductive Event where
  | begin (r : ReqId)
  | hitpassDone (r : ReqId)
  | getEtag (r : ReqId) (timedOut : Bool)
  | etagDone (r : ReqId)
  | getEntry (r : ReqId) (timedOut : Bool)
  | entryDone (r : ReqId)
  | sharedDone (r : ReqId)
  | nextDone (r : ReqId) (ctx : Response)
  | nextThrows (r : ReqId)
  | setEtag (r : ReqId)
  | setEntry (r : ReqId)
  | writesDone (r : ReqId)
  | delPair (r : ReqId)
  | delPairDone (r : ReqId)
  | startPurge (p : PurgeId)
  | listKeys (p : PurgeId)
  | keysListed (p : PurgeId)
  | delKeys (p : PurgeId)
  | keysDeleted (p : PurgeId)
  | clear (p : PurgeId)
  | cleared (p : PurgeId)
  | expire (key : JsString)

/-!
## recv
-/

namespace State

variable (setup : Setup) (s : State)

def setRecv (r : ReqId) (pc : Pc) : State :=
  { s with recv := Function.update s.recv r pc }

def setPurge (p : PurgeId) (pc : PurgePc) : State :=
  { s with purges := Function.update s.purges p pc }

def settle (r : ReqId) (settlement : Settlement) : State :=
  { s with
    settled := Function.update s.settled r (s.settled r ++ [settlement]) }

def purgedSince (since : Nat) (key : JsString) : Bool :=
  Store.purgedSince s.journal.log since key

def fetch (r : ReqId) : State :=
  let ownRead := Read.mk r s.generation
  let registered :=
    if setup.lookup r then
      { s with inFlight := Function.update s.inFlight (setup.key r) ownRead }
    else
      s
  registered.setRecv r (Pc.inNext s.generation)

def afterHitpass (r : ReqId) : State :=
  if setup.lookup r then
    if setup.enableEtag then s.setRecv r (Pc.readingEtag none)
    else s.setRecv r (Pc.readingEntry none none)
  else
    s.fetch setup r

/-- What a provider's `get` answers, `null` after a timeout. -/
def providerGet (key : JsString) (timedOut : Bool) : Option Cell :=
  if timedOut then none else s.store.lookup (setup.stored key)

end State

def Setup.toText (setup : Setup) (v : JsonValue) : JsString :=
  match v.value with
  | JsValue.str text => text
  | _ => setup.jsonToString v

/-- An entry whose data are falsy counts as missing. -/
def present (reply : Option Cell) : Option Cell :=
  reply.filter (fun cell => cell.data.truthy)

namespace State

variable (setup : Setup) (s : State)

def afterEtag (r : ReqId) (reply : Option Cell) : State :=
  match present reply with
  | none => s.setRecv r (Pc.readingEntry none none)
  | some etagCached =>
      let request := setup.request r
      if etagMatch request.ctx (setup.toText etagCached.data) then
        let ctx := setCacheControl (setup.routeCacheControl r)
          (setup.xCache "HIT".toList request.response)
        s.setRecv r (Pc.done (Answer.notModified etagCached.origin)
          { setBody ctx Body.absent with status := 304 })
      else
        s.setRecv r (Pc.readingEntry (some etagCached) none)

def hitResponse (r : ReqId) (etagCached : Option Cell) (cacheEntry : Cell) :
    Response :=
  let ctx := setup.xCache "HIT".toList (setup.request r).response
  let ctx :=
    match etagCached with
    | some etag => { ctx with etag := some (quoted (setup.toText etag.data)) }
    | none => ctx
  let ctx := setCacheControl (setup.routeCacheControl r) ctx
  replay setup.lower { ctx with status := 200 } cacheEntry.body cacheEntry.type

def afterEntry (r : ReqId) (etagCached reply : Option Cell) : State :=
  match present reply with
  | some cacheEntry =>
      s.setRecv r (Pc.done (Answer.hit cacheEntry.origin)
        (hitResponse setup r etagCached cacheEntry))
  | none =>
      match s.inFlight (setup.key r) with
      | some pending =>
          if s.purgedSince pending.generation (setup.key r) then
            s.fetch setup r
          else
            s.setRecv r (Pc.joined pending s.generation)
      | none => s.fetch setup r

def sharedResponse (r : ReqId) (shared : SharedResponse) : Response :=
  let ctx := setup.xCache "MISS".toList (setup.request r).response
  replay setup.lower { ctx with status := shared.status } shared.body shared.type

def afterShared (r : ReqId) (read : Read) (joinedAt : Nat) :
    Settlement -> State
  | Settlement.resolved shared =>
      s.setRecv r (Pc.done (Answer.shared read joinedAt)
        (sharedResponse setup r shared))
  | Settlement.rejected => s.fetch setup r

/-- The `finally` block: only the own read is removed. -/
def forget (r : ReqId) (generation : Nat) : State :=
  if setup.lookup r ∧
      s.inFlight (setup.key r) = some (Read.mk r generation) then
    { s with inFlight := Function.update s.inFlight (setup.key r) none }
  else
    s

def finish (r : ReqId) (generation : Nat) (ctx : Response) : State :=
  s.setRecv r (Pc.done (Answer.fetched generation s.generation) ctx)

/-- The headers of a response that is going into the cache. -/
def advertised (r : ReqId) (ctx : Response) : Response :=
  let ctx := setCacheControl (setup.routeCacheControl r) ctx
  if setup.enableEtag then
    { ctx with etag := some (quoted (etagGenerate setup.md5 ctx.body)) }
  else
    ctx

def deliver (r : ReqId) (generation : Nat) (ctx : Response) : State :=
  if setup.lookup r then
    let ctx := setup.xCache "MISS".toList ctx
    match isCacheable ctx with
    | none => (s.settle r Settlement.rejected).setRecv r Pc.failed
    | some (Verdict.refused _) =>
        (s.settle r Settlement.rejected).finish r generation ctx
    | some Verdict.cacheable =>
        let shared :=
          SharedResponse.mk ctx.body ctx.status (typeToKeep setup.lower ctx)
        let s := s.settle r (Settlement.resolved shared)
        if s.purgedSince generation (setup.key r) then
          s.finish r generation ctx
        else
          s.setRecv r (Pc.storing generation (advertised setup r ctx)
            setup.enableEtag true)
  else
    s.finish r generation (setup.xCache "HITPASS".toList ctx)

def afterNext (r : ReqId) (generation : Nat) (ctx : Response) : State :=
  let s := { s with handled := Function.update s.handled r ctx }
  (s.forget setup r generation).deliver setup r generation ctx

def afterThrow (r : ReqId) (generation : Nat) : State :=
  let s := s.forget setup r generation
  let s := if setup.lookup r then s.settle r Settlement.rejected else s
  s.setRecv r Pc.failed

def etagCell (r : ReqId) (generation : Nat) (ctx : Response) : Cell where
  text := serialize (JsonValue.str (etagGenerate setup.md5 ctx.body)) none
  origin := Read.mk r generation

def entryCell (r : ReqId) (generation : Nat) (ctx : Response) : Cell where
  text := serialize ctx.body.data (typeToKeep setup.lower ctx)
  origin := Read.mk r generation

@[simp]
theorem etagCell_data (r : ReqId) (generation : Nat) (ctx : Response) :
    (etagCell setup r generation ctx).data =
      JsonValue.str (etagGenerate setup.md5 ctx.body) := by
  rw [Cell.data, Cell.entry, etagCell, deserializeEntry_serialize]
  rfl

@[simp]
theorem entryCell_data (r : ReqId) (generation : Nat) (ctx : Response) :
    (entryCell setup r generation ctx).data = ctx.body.data := by
  rw [Cell.data, Cell.entry, entryCell, deserializeEntry_serialize]
  rfl

@[simp]
theorem entryCell_body (r : ReqId) (generation : Nat) (ctx : Response) :
    (entryCell setup r generation ctx).body = ctx.body.readBack := by
  rw [Cell.body, entryCell_data]
  rfl

@[simp]
theorem entryCell_type (r : ReqId) (generation : Nat) (ctx : Response) :
    (entryCell setup r generation ctx).type =
      keptType (typeToKeep setup.lower ctx) := by
  rw [Cell.type, Cell.entry, entryCell, deserializeEntry_serialize]
  rfl

def providerSet (key : JsString) (cell : Cell) : State :=
  { s with store := s.store.insert (setup.stored key) cell }

def providerDelMany (keys : List JsString) : State :=
  { s with
    store := keys.foldl (fun store key => store.erase (setup.stored key))
      s.store }

def afterWrites (r : ReqId) (generation : Nat) (ctx : Response) : State :=
  if s.purgedSince generation (setup.key r) then
    s.setRecv r (Pc.cleaning generation ctx false)
  else
    s.finish r generation ctx

/-!
## Purges
-/

def logicalKeys : List JsString :=
  (s.store.keys.filter (fun key => setup.keysPrefix.isPrefixOf key)).map
    (fun key => key.drop setup.keysPrefix.length)

def recordPurge (p : PurgeId) : State :=
  let s := { s with journal := s.journal.record (setup.purge p) }
  if setup.purge p = none ∧ setup.keysPrefix = [] then
    s.setPurge p (PurgePc.clearing s.generation false)
  else
    s.setPurge p (PurgePc.listing s.generation none)

def afterListing (p : PurgeId) (generation : Nat) (keys : List JsString) :
    State :=
  let matching := keys.filter (fun key => covers key (setup.purge p))
  if matching = [] then
    s.setPurge p (PurgePc.returned generation)
  else
    s.setPurge p (PurgePc.deleting generation matching false)

end State

def step (setup : Setup) (s : State) : Event -> Option State
  | Event.begin r =>
      match s.recv r with
      | Pc.idle => some (s.setRecv r Pc.hitpass)
      | _ => none
  | Event.hitpassDone r =>
      match s.recv r with
      | Pc.hitpass => some (s.afterHitpass setup r)
      | _ => none
  | Event.getEtag r timedOut =>
      match s.recv r with
      | Pc.readingEtag none =>
          some (s.setRecv r (Pc.readingEtag
            (some (s.providerGet setup (setup.etagKey r) timedOut))))
      | _ => none
  | Event.etagDone r =>
      match s.recv r with
      | Pc.readingEtag (some reply) => some (s.afterEtag setup r reply)
      | _ => none
  | Event.getEntry r timedOut =>
      match s.recv r with
      | Pc.readingEntry etagCached none =>
          some (s.setRecv r (Pc.readingEntry etagCached
            (some (s.providerGet setup (setup.key r) timedOut))))
      | _ => none
  | Event.entryDone r =>
      match s.recv r with
      | Pc.readingEntry etagCached (some reply) =>
          some (s.afterEntry setup r etagCached reply)
      | _ => none
  | Event.sharedDone r =>
      match s.recv r with
      | Pc.joined read joinedAt =>
          (s.settled read.owner).head?.map (s.afterShared setup r read joinedAt)
      | _ => none
  | Event.nextDone r ctx =>
      match s.recv r with
      | Pc.inNext generation => some (s.afterNext setup r generation ctx)
      | _ => none
  | Event.nextThrows r =>
      match s.recv r with
      | Pc.inNext generation => some (s.afterThrow setup r generation)
      | _ => none
  | Event.setEtag r =>
      match s.recv r with
      | Pc.storing generation ctx true bodyPending =>
          some ((s.providerSet setup (setup.etagKey r)
              (State.etagCell setup r generation ctx)).setRecv r
            (Pc.storing generation ctx false bodyPending))
      | _ => none
  | Event.setEntry r =>
      match s.recv r with
      | Pc.storing generation ctx etagPending true =>
          some ((s.providerSet setup (setup.key r)
              (State.entryCell setup r generation ctx)).setRecv r
            (Pc.storing generation ctx etagPending false))
      | _ => none
  | Event.writesDone r =>
      match s.recv r with
      | Pc.storing generation ctx false false =>
          some (s.afterWrites setup r generation ctx)
      | _ => none
  | Event.delPair r =>
      match s.recv r with
      | Pc.cleaning generation ctx false =>
          some ((s.providerDelMany setup [setup.key r, setup.etagKey r]).setRecv
            r (Pc.cleaning generation ctx true))
      | _ => none
  | Event.delPairDone r =>
      match s.recv r with
      | Pc.cleaning generation ctx true => some (s.finish r generation ctx)
      | _ => none
  | Event.startPurge p =>
      match s.purges p with
      | PurgePc.idle => some (s.recordPurge setup p)
      | _ => none
  | Event.listKeys p =>
      match s.purges p with
      | PurgePc.listing generation none =>
          some (s.setPurge p
            (PurgePc.listing generation (some (s.logicalKeys setup))))
      | _ => none
  | Event.keysListed p =>
      match s.purges p with
      | PurgePc.listing generation (some keys) =>
          some (s.afterListing setup p generation keys)
      | _ => none
  | Event.delKeys p =>
      match s.purges p with
      | PurgePc.deleting generation keys false =>
          some ((s.providerDelMany setup keys).setPurge p
            (PurgePc.deleting generation keys true))
      | _ => none
  | Event.keysDeleted p =>
      match s.purges p with
      | PurgePc.deleting generation _ true =>
          some (s.setPurge p (PurgePc.returned generation))
      | _ => none
  | Event.clear p =>
      match s.purges p with
      | PurgePc.clearing generation false =>
          some (({ s with store := ∅ } : State).setPurge p
            (PurgePc.clearing generation true))
      | _ => none
  | Event.cleared p =>
      match s.purges p with
      | PurgePc.clearing generation true =>
          some (s.setPurge p (PurgePc.returned generation))
      | _ => none
  | Event.expire key =>
      some { s with store := s.store.erase key }

/-!
## Plain requests

A request with nothing but a path, and a setup in which every request asks for
the same path and every purge is a reset.  Its handlers answer `a` or `b`.
-/

def Response.initial : Response where
  status := 404
  body := Body.absent
  respond := true
  cacheControl := []
  etag := none
  contentType := []
  setCookie := []
  xCache := none

def Response.ok (text : JsString) : Response :=
  { Response.initial with status := 200, body := Body.text text }

def Request.plain (path : JsString) (h : '?' ∉ path) : Request where
  ctx :=
    { path
      path_noQuery := h
      query := Query.empty
      header := fun _ => none
      auth := none }
  route :=
    { keys :=
        { useHeaders := []
          useQueryParams := UseQueryParams.bool true
          useAuth := false }
      maxAge := 3600000
      hitpass := Hitpass.bool false }
  response := Response.initial

def plainPath : JsString :=
  "/foo".toList

theorem plainPath_noQuery : '?' ∉ plainPath := by
  decide

def plainMd5 (s : JsString) : JsString :=
  if s = "a".toList then "0cc175b9c0f1b6a831c399e269772661".toList
  else "92eb5ffee6ae2fec3ad71c777531578f".toList

def Setup.plain : Setup where
  lower := CaseMapping.latin1
  md5 := plainMd5
  jsonToString := JsonValue.stringify
  enableEtag := true
  enableXCacheHeaders := false
  cacheControl := some
    { enabled := true
      maxAge := MaxAgeSetting.config
      scope := Scope.privateScope
      staleWhileRevalidate := none }
  keysPrefix := []
  request _ := Request.plain plainPath plainPath_noQuery
  purge _ := none

def missing (r : ReqId) : List Event :=
  [Event.begin r, Event.hitpassDone r, Event.getEtag r false, Event.etagDone r,
    Event.getEntry r false, Event.entryDone r]

end Recv
end RestCache
