import RestCache.Recv.Coalescing
import RestCache.Store.PrefixIsolation

/-!
# One request over a cache that may fail

A recv call from its first line to its last, over a store whose provider may
throw, reject or answer with any entry.  What others do while it waits, and how
the read it joins ends, is given from outside.
-/

namespace RestCache
namespace Recv

open Foundation
open Keys
open Store

/-!
## Template literals
-/

mutual

/--
The value in a template literal.  The conversion throws for an object with a
property `toString`, which is no function.
-/
def templateText : JsValue -> Option JsString
  | JsValue.str s => some s
  | JsValue.null => some "null".toList
  | JsValue.bool b => some (JsValue.boolText b)
  | JsValue.num x => some x.text
  | JsValue.arr items => (joinedTexts items).map (",".toList.intercalate)
  | JsValue.obj props =>
      if "toString".toList ∈ props.map Prod.fst then none
      else some "[object Object]".toList

def joinedTexts : List JsValue -> Option (List JsString)
  | [] => some []
  | JsValue.null :: rest => (joinedTexts rest).map ([] :: ·)
  | item :: rest =>
      match templateText item, joinedTexts rest with
      | some text, some texts => some (text :: texts)
      | _, _ => none

end

/-!
## Headers
-/

def headerChar (c : Char) : Bool :=
  c = '\t' ∨ (0x20 ≤ c.toNat ∧ c.toNat ≤ 0xff ∧ c.toNat ≠ 0x7f)

def headerValue (text : JsString) : Bool :=
  text.all headerChar

/-- `ctx.set` of the quoted ETag, which throws where it is no header value. -/
def setEtag (etag : JsString) (ctx : Response) : Option Response :=
  if headerValue (quoted etag) then some { ctx with etag := some (quoted etag) }
  else none

/-- The ETag header of a hit; `none` where it throws. -/
def hitEtag (etagCached : Option JsonValue) (ctx : Response) : Option Response :=
  match etagCached with
  | none => some ctx
  | some etag => (templateText etag.value).bind (fun text => setEtag text ctx)

/-- Replaying the body sets the type. -/
def setsType (lower : CaseMapping) (body : Body) (type : Option JsString) :
    Bool :=
  match type, body with
  | some type, Body.text text => type ≠ [] ∧ isReplayable lower type text
  | _, _ => false

/-- `replay`, which throws where the type it sets is no header value. -/
def replayed (lower : CaseMapping) (ctx : Response) (body : Body)
    (type : Option JsString) : Option Response :=
  if setsType lower body type && !headerValue (type.getD []) then none
  else some (replay lower ctx body type)

/-!
## The call
-/

inductive Failure where
  | hitpass
  | next
  | inspection
  | header
  | store (e : Rejection)
deriving DecidableEq

inductive Served where
  | notModified
  | hit
  | shared
  | fetched
deriving DecidableEq

/--
The calls to `next`, whether the read was put in the map and how it was settled,
and how the promise of recv ends.
-/
structure Outcome where
  nextCalls : Nat
  registered : Bool
  settled : List Settlement
  result : Except Failure (Served × Response)

/-- The places where recv waits and others run. -/
inductive Await where
  | hitpass
  | etag
  | entry
  | shared
  | next
  | writes
deriving DecidableEq

structure Pending where
  generation : Nat
  settlement : Settlement

/--
What is not up to recv: whether the hitpass function bypasses, the response that
the handler leaves (`none` where they throw), the read that is found in the map,
and what others do to the store meanwhile.
-/
structure Surroundings (σ : Type) where
  hitpass : Option Bool
  pending : Option Pending
  next : Option Response
  meanwhile : Await -> Store.State σ -> Store.State σ

structure Call (σ : Type) where
  setup : Setup
  id : ReqId
  self : CacheStore
  provider : CacheProvider σ

namespace Call

variable {σ : Type} (call : Call σ) (w : Surroundings σ)

def request : Request :=
  call.setup.request call.id

def key : JsString :=
  call.setup.key call.id

def etagKey : JsString :=
  call.setup.etagKey call.id

def cacheControl (ctx : Response) : Response :=
  setCacheControl (call.setup.routeCacheControl call.id) ctx

/-- Each write has its own `catch`. -/
def caught : Settled (Option Unit) -> Settled Unit
  | Except.ok _ => Except.ok ()
  | Except.error _ => Except.ok ()

def awaitAll : List (Settled Unit) -> Except Failure Unit
  | [] => Except.ok ()
  | Except.ok _ :: rest => awaitAll rest
  | Except.error e :: _ => Except.error (Failure.store e)

def startWrites (ctx : Response) (s : Store.State σ) :
    List (Settled (Option Unit)) × Store.State σ :=
  let maxAge := call.request.route.maxAge
  let y :=
    if call.setup.enableEtag then
      let etag := JsonValue.str (etagGenerate call.setup.md5 ctx.body)
      let z := call.self.set call.provider call.etagKey etag maxAge none s
      ([z.1], z.2)
    else
      ([], s)
  let z := call.self.set call.provider call.key ctx.body.data maxAge
    (typeToKeep call.setup.lower ctx) y.2
  (y.1 ++ [z.1], z.2)

/-- The own entry is removed where a purge started during the writes. -/
def cleanUp (generation : Nat) (ctx : Response) (s : Store.State σ) :
    Except Failure (Served × Response) :=
  if Store.purgedSince s.log generation call.key then
    match (call.self.delMany call.provider [call.key, call.etagKey] s).1 with
    | Except.error e => Except.error (Failure.store e)
    | Except.ok _ => Except.ok (Served.fetched, ctx)
  else
    Except.ok (Served.fetched, ctx)

def write (generation : Nat) (ctx : Response) (s : Store.State σ) :
    Except Failure (Served × Response) :=
  let writes := call.startWrites ctx s
  match awaitAll (writes.1.map caught) with
  | Except.error e => Except.error e
  | Except.ok _ => call.cleanUp generation ctx (w.meanwhile Await.writes writes.2)

def advertise (generation : Nat) (ctx : Response) (s : Store.State σ) :
    Except Failure (Served × Response) :=
  let ctx := call.cacheControl ctx
  if call.setup.enableEtag then
    match setEtag (etagGenerate call.setup.md5 ctx.body) ctx with
    | none => Except.error Failure.header
    | some ctx => call.write w generation ctx s
  else
    call.write w generation ctx s

def fetch (lookup : Bool) (s : Store.State σ) : Outcome :=
  let generation := s.log.generation
  match w.next with
  | none =>
      { nextCalls := 1
        registered := lookup
        settled := if lookup then [Settlement.rejected] else []
        result := Except.error Failure.next }
  | some ctx =>
      if lookup then
        let ctx := call.setup.xCache "MISS".toList ctx
        match isCacheable ctx with
        | none =>
            { nextCalls := 1
              registered := true
              settled := [Settlement.rejected]
              result := Except.error Failure.inspection }
        | some (Verdict.refused _) =>
            { nextCalls := 1
              registered := true
              settled := [Settlement.rejected]
              result := Except.ok (Served.fetched, ctx) }
        | some Verdict.cacheable =>
            let s := w.meanwhile Await.next s
            { nextCalls := 1
              registered := true
              settled := [published call.setup ctx]
              result :=
                if Store.purgedSince s.log generation call.key then
                  Except.ok (Served.fetched, ctx)
                else
                  call.advertise w generation ctx s }
      else
        { nextCalls := 1
          registered := false
          settled := []
          result :=
            Except.ok (Served.fetched, call.setup.xCache "HITPASS".toList ctx) }

def answer (result : Except Failure (Served × Response)) : Outcome where
  nextCalls := 0
  registered := false
  settled := []
  result := result

def sharedResponse (shared : SharedResponse) : Option Response :=
  let ctx := call.setup.xCache "MISS".toList call.request.response
  replayed call.setup.lower { ctx with status := shared.status } shared.body
    shared.type

/-- The `try` block of a waiter, whose `catch` falls through. -/
def join (s : Store.State σ) : Outcome :=
  match w.pending with
  | none => call.fetch w true s
  | some pending =>
      if Store.purgedSince s.log pending.generation call.key then
        call.fetch w true s
      else
        match pending.settlement with
        | Settlement.rejected =>
            call.fetch w true (w.meanwhile Await.shared s)
        | Settlement.resolved shared =>
            match call.sharedResponse shared with
            | none => call.fetch w true (w.meanwhile Await.shared s)
            | some ctx => answer (Except.ok (Served.shared, ctx))

def hitResponse (etagCached : Option JsonValue)
    (cacheEntry : CacheEntry) : Option Response :=
  let ctx := call.setup.xCache "HIT".toList call.request.response
  (hitEtag etagCached ctx).bind fun ctx =>
    replayed call.setup.lower { call.cacheControl ctx with status := 200 }
      (Body.ofData cacheEntry.data) cacheEntry.type

def getEntry (s : Store.State σ) : Option CacheEntry :=
  (call.self.readEntry call.provider call.key s).1.filter
    (fun entry => entry.data.truthy)

def lookUpEntry (etagCached : Option JsonValue) (s : Store.State σ) :
    Outcome :=
  match call.getEntry s with
  | some cacheEntry =>
      match call.hitResponse etagCached cacheEntry with
      | none => answer (Except.error Failure.header)
      | some ctx => answer (Except.ok (Served.hit, ctx))
  | none =>
      let z := call.self.readEntry call.provider call.key s
      call.join w (w.meanwhile Await.entry z.2)

def etagLookup (s : Store.State σ) : Option JsonValue :=
  (call.self.get call.provider call.etagKey s).filter JsonValue.truthy

/-- `etagMatch`; `none` where writing the stored ETag as a text throws. -/
def etagMatches (etagCached : JsonValue) : Option Bool :=
  match call.request.ctx.header "if-none-match".toList with
  | none => some false
  | some ifNoneMatch =>
      if ifNoneMatch = [] then some false
      else (templateText etagCached.value).map (fun text => quoted text <:+: ifNoneMatch)

def notModified : Response :=
  let ctx := call.cacheControl
    (call.setup.xCache "HIT".toList call.request.response)
  { setBody ctx Body.absent with status := 304 }

def lookUp (s : Store.State σ) : Outcome :=
  if call.setup.enableEtag then
    let z := call.self.readEntry call.provider call.etagKey s
    let s' := w.meanwhile Await.etag z.2
    match call.etagLookup s with
    | none => call.lookUpEntry w none s'
    | some etagCached =>
        match call.etagMatches etagCached with
        | none => answer (Except.error Failure.header)
        | some true => answer (Except.ok (Served.notModified, call.notModified))
        | some false => call.lookUpEntry w (some etagCached) s'
  else
    call.lookUpEntry w none s

def recv (s : Store.State σ) : Outcome :=
  match w.hitpass with
  | none => answer (Except.error Failure.hitpass)
  | some bypass =>
      let s := w.meanwhile Await.hitpass s
      if bypass then call.fetch w false s else call.lookUp w s

end Call

/-!
## What a sick cache may not break
-/

/--
At most one call to `next`, and one exactly where the answer is no 304, no hit
and no shared response; a rejection only where the hitpass function, `next` or
the inspection of the body throws; a registered read is settled.
-/
structure Unbroken {σ : Type} (w : Surroundings σ) (o : Outcome) : Prop where
  once : o.nextCalls <= 1
  answered : forall served ctx, o.result = Except.ok (served, ctx) ->
    (o.nextCalls = 1 <-> served = Served.fetched)
  rejected : forall f, o.result = Except.error f ->
    (f = Failure.hitpass ∧ w.hitpass = none) ∨
    (f = Failure.next ∧ w.next = none ∧ o.nextCalls = 1) ∨
    (f = Failure.inspection ∧ o.nextCalls = 1 ∧
      exists ctx, w.next = some ctx ∧ isCacheable ctx = none)
  released : o.registered = true -> o.settled.length = 1

section Calls

variable {σ : Type} {call : Call σ} {w : Surroundings σ}

def Call.Compares (call : Call σ) : Prop :=
  exists ifNoneMatch,
    call.request.ctx.header "if-none-match".toList = some ifNoneMatch ∧
      ifNoneMatch ≠ []

def EtagFits (etagCached : JsonValue) : Prop :=
  exists text, templateText etagCached.value = some text ∧
    headerValue (quoted text) = true

def Call.TypeFits (call : Call σ) (entry : CacheEntry) : Prop :=
  setsType call.setup.lower (Body.ofData entry.data) entry.type = true ->
    headerValue (entry.type.getD []) = true

def Call.HitFits (call : Call σ) (etagCached : Option JsonValue)
    (s : Store.State σ) : Prop :=
  forall entry, call.getEntry s = some entry ->
    (forall etag, etagCached = some etag -> EtagFits etag) ∧
      call.TypeFits entry

/--
The stored ETag has a text where it is compared, and where no 304 is sent what
`get` found for a hit fits into its headers.
-/
def Call.LookUpFits (call : Call σ) (w : Surroundings σ)
    (s : Store.State σ) : Prop :=
  if call.setup.enableEtag then
    let s' := w.meanwhile Await.etag
      (call.self.readEntry call.provider call.etagKey s).2
    match call.etagLookup s with
    | none => call.HitFits none s'
    | some etagCached =>
        (call.Compares -> templateText etagCached.value ≠ none) ∧
          (call.etagMatches etagCached = some false ->
            call.HitFits (some etagCached) s')
  else
    call.HitFits none s

def Call.AnswersFit (call : Call σ) (w : Surroundings σ)
    (s : Store.State σ) : Prop :=
  w.hitpass = some false -> call.LookUpFits w (w.meanwhile Await.hitpass s)

theorem unbroken_answer {served : Served} {ctx : Response}
    (h : served ≠ Served.fetched) :
    Unbroken w (Call.answer (Except.ok (served, ctx))) where
  once := Nat.zero_le 1
  answered served' ctx' hresult := by
    have hserved : served = served' := by
      have hpair := Except.ok.inj hresult
      exact congrArg Prod.fst hpair
    rw [← hserved]
    exact iff_of_false Nat.zero_ne_one h
  rejected f hresult := by cases hresult
  released hregistered := absurd hregistered Bool.false_ne_true

theorem not_unbroken_header :
    ¬ Unbroken w (Call.answer (Except.error Failure.header)) := by
  intro h
  rcases h.rejected Failure.header rfl with ⟨hf, _⟩ | ⟨hf, _⟩ | ⟨hf, _⟩
  · cases hf
  · cases hf
  · cases hf

theorem unbroken_hitpass (h : w.hitpass = none) :
    Unbroken w (Call.answer (Except.error Failure.hitpass)) where
  once := Nat.zero_le 1
  answered served ctx hresult := by cases hresult
  rejected f hresult := by
    apply Or.inl
    exact ⟨(Except.error.inj hresult).symm, h⟩
  released hregistered := absurd hregistered Bool.false_ne_true

/-!
## From the trip to the origin on
-/

theorem awaitAll_caught (settled : List (Settled (Option Unit))) :
    Call.awaitAll (settled.map Call.caught) = Except.ok () := by
  induction settled with
  | nil => rfl
  | cons first rest ih => cases first <;> exact ih

theorem cleanUp_resolves (generation : Nat) (ctx : Response)
    (s : Store.State σ) :
    call.cleanUp generation ctx s = Except.ok (Served.fetched, ctx) := by
  unfold Call.cleanUp
  split
  · have hresolves := @CacheStore.delMany_resolves σ call.self call.provider
      [call.key, call.etagKey] s
    cases hdel : (call.self.delMany call.provider [call.key, call.etagKey]
        s).1 with
    | error e =>
        rw [hdel] at hresolves
        exact absurd hresolves Bool.false_ne_true
    | ok _ => rfl
  · rfl

/-- No failure of the writes or of the clean-up gets out of recv. -/
theorem write_resolves (generation : Nat) (ctx : Response)
    (s : Store.State σ) :
    call.write w generation ctx s = Except.ok (Served.fetched, ctx) := by
  unfold Call.write
  simp only [awaitAll_caught]
  exact cleanUp_resolves generation ctx _

theorem advertise_resolves
    (hmd5 : forall text, headerValue (call.setup.md5 text) = true)
    (generation : Nat) (ctx : Response) (s : Store.State σ) :
    exists ctx', call.advertise w generation ctx s =
      Except.ok (Served.fetched, ctx') := by
  have hfits : forall text,
      headerValue (quoted (call.setup.md5 text)) = true := by
    intro text
    have hdigest := hmd5 text
    unfold headerValue at hdigest
    unfold headerValue quoted
    rw [List.all_cons, List.all_append, hdigest]
    decide
  have hset : forall ctx : Response, setEtag (etagGenerate call.setup.md5
      ctx.body) ctx = some { ctx with
        etag := some (quoted (etagGenerate call.setup.md5 ctx.body)) } :=
    fun ctx => if_pos (hfits ctx.body.etagSource)
  unfold Call.advertise
  split
  · simp only [hset]
    exact ⟨_, write_resolves generation _ s⟩
  · exact ⟨_, write_resolves generation _ s⟩

theorem unbroken_fetch
    (hmd5 : forall text, headerValue (call.setup.md5 text) = true)
    (lookup : Bool) (s : Store.State σ) :
    Unbroken w (call.fetch w lookup s) := by
  unfold Call.fetch
  simp only
  cases hnext : w.next with
  | none =>
      simp only
      constructor
      · exact Nat.le_refl 1
      · intro served ctx hresult
        cases hresult
      · intro f hresult
        exact Or.inr (Or.inl ⟨(Except.error.inj hresult).symm, hnext, rfl⟩)
      · intro hlookup
        rw [if_pos (show lookup = true from hlookup)]
        rfl
  | some ctx =>
      have hfetched : forall (result : Except Failure (Served × Response))
          (registered : Bool) (settled : List Settlement),
          (exists ctx', result = Except.ok (Served.fetched, ctx')) ->
          (registered = true -> settled.length = 1) ->
          Unbroken w (Outcome.mk 1 registered settled result) := by
        intro result registered settled hok hsettled
        rcases hok with ⟨ctx', rfl⟩
        constructor
        · exact Nat.le_refl 1
        · intro served ctx'' hresult
          have hpair := Except.ok.inj hresult
          exact iff_of_true rfl (congrArg Prod.fst hpair).symm
        · intro f hresult
          cases hresult
        · exact hsettled
      simp only
      split
      · cases hverdict : isCacheable (call.setup.xCache "MISS".toList ctx) with
        | none =>
            simp only
            constructor
            · exact Nat.le_refl 1
            · intro served ctx' hresult
              cases hresult
            · intro f hresult
              rw [isCacheable_xCache] at hverdict
              exact Or.inr (Or.inr ⟨(Except.error.inj hresult).symm, rfl, ctx,
                hnext, hverdict⟩)
            · intro _
              rfl
        | some verdict =>
            cases verdict with
            | refused reason => exact hfetched _ _ _ ⟨_, rfl⟩ (fun _ => rfl)
            | cacheable =>
                apply hfetched
                · split
                  · exact ⟨_, rfl⟩
                  · exact advertise_resolves hmd5 _ _ _
                · exact fun _ => rfl
      · exact hfetched _ _ _ ⟨_, rfl⟩ (fun h => absurd h Bool.false_ne_true)

/-!
## Looking up
-/

theorem unbroken_join
    (hmd5 : forall text, headerValue (call.setup.md5 text) = true)
    (s : Store.State σ) : Unbroken w (call.join w s) := by
  unfold Call.join
  split
  · exact unbroken_fetch hmd5 true s
  · split
    · exact unbroken_fetch hmd5 true s
    · split
      · exact unbroken_fetch hmd5 true _
      · split
        · exact unbroken_fetch hmd5 true _
        · exact unbroken_answer (by decide)

theorem replayed_eq_none {lower : CaseMapping} {ctx : Response} {body : Body}
    {type : Option JsString} :
    replayed lower ctx body type = none <->
      ¬ (setsType lower body type = true ->
        headerValue (type.getD []) = true) := by
  unfold replayed
  cases setsType lower body type <;> cases headerValue (type.getD []) <;> simp

theorem hitEtag_eq_none {etagCached : Option JsonValue} {ctx : Response} :
    hitEtag etagCached ctx = none <->
      ¬ forall etag, etagCached = some etag -> EtagFits etag := by
  cases etagCached with
  | none => simp [hitEtag]
  | some etag =>
      cases htext : templateText etag.value with
      | none => simp [hitEtag, EtagFits, htext]
      | some text =>
          cases hfits : headerValue (quoted text) <;>
            simp [hitEtag, EtagFits, htext, setEtag, hfits]

theorem hitResponse_eq_none {etagCached : Option JsonValue}
    {entry : CacheEntry} :
    call.hitResponse etagCached entry = none <->
      ¬ ((forall etag, etagCached = some etag -> EtagFits etag) ∧
        call.TypeFits entry) := by
  let start := call.setup.xCache "HIT".toList call.request.response
  have hetag := @hitEtag_eq_none etagCached start
  unfold Call.hitResponse
  show (hitEtag etagCached start).bind _ = none <-> _
  cases hctx : hitEtag etagCached start with
  | none =>
      rw [Option.bind_none]
      exact iff_of_true rfl (fun h => hetag.mp hctx h.left)
  | some ctx =>
      have hall : forall etag, etagCached = some etag -> EtagFits etag := by
        by_contra hnot
        rw [hetag.mpr hnot] at hctx
        exact absurd hctx (by simp)
      rw [Option.bind_some, replayed_eq_none, not_and]
      constructor
      · exact fun hnot _ => hnot
      · exact fun h => h hall

theorem unbroken_lookUpEntry
    (hmd5 : forall text, headerValue (call.setup.md5 text) = true)
    (etagCached : Option JsonValue) (s : Store.State σ) :
    Unbroken w (call.lookUpEntry w etagCached s) <->
      call.HitFits etagCached s := by
  unfold Call.lookUpEntry Call.HitFits
  cases hentry : call.getEntry s with
  | none =>
      exact iff_of_true (unbroken_join hmd5 _)
        (fun entry hsome => absurd hsome (by simp))
  | some entry =>
      have hnone := @hitResponse_eq_none σ call etagCached entry
      simp only
      cases hresponse : call.hitResponse etagCached entry with
      | none =>
          apply iff_of_false not_unbroken_header
          intro hfits
          exact hnone.mp hresponse (hfits entry rfl)
      | some ctx =>
          apply iff_of_true (unbroken_answer (by decide))
          intro entry' hsome
          rw [← Option.some.inj hsome]
          by_contra hnot
          rw [hnone.mpr hnot] at hresponse
          exact absurd hresponse (by simp)

theorem etagMatches_eq_none {etagCached : JsonValue} :
    call.etagMatches etagCached = none <->
      ¬ (call.Compares -> templateText etagCached.value ≠ none) := by
  unfold Call.etagMatches Call.Compares
  cases hheader : call.request.ctx.header "if-none-match".toList with
  | none => simp
  | some ifNoneMatch =>
      by_cases hnil : ifNoneMatch = []
      · simp [hnil]
      · cases htext : templateText etagCached.value <;> simp [hnil]

theorem unbroken_lookUp
    (hmd5 : forall text, headerValue (call.setup.md5 text) = true)
    (s : Store.State σ) :
    Unbroken w (call.lookUp w s) <-> call.LookUpFits w s := by
  unfold Call.lookUp Call.LookUpFits
  split
  · simp only
    cases call.etagLookup s with
    | none => exact unbroken_lookUpEntry hmd5 none _
    | some etagCached =>
        have hnone := @etagMatches_eq_none σ call etagCached
        simp only
        cases hmatches : call.etagMatches etagCached with
        | none =>
            apply iff_of_false not_unbroken_header
            exact fun hfits => hnone.mp hmatches hfits.left
        | some matched =>
            have htext : call.Compares -> templateText etagCached.value ≠ none := by
              by_contra hnot
              rw [hnone.mpr hnot] at hmatches
              exact absurd hmatches (by simp)
            cases matched with
            | true =>
                apply iff_of_true (unbroken_answer (by decide))
                exact ⟨htext, fun h => absurd h (by simp)⟩
            | false =>
                show Unbroken w (call.lookUpEntry w (some etagCached) _) <-> _
                rw [unbroken_lookUpEntry hmd5]
                exact ⟨fun h => ⟨htext, fun _ => h⟩, fun h => h.right rfl⟩
  · exact unbroken_lookUpEntry hmd5 none s

/--
However the provider fails, the request is not broken by it if and only if what
`get` answered fits into the headers it is written to.
-/
theorem unbroken_recv_iff {σ : Type} (call : Call σ)
    (hmd5 : forall text, headerValue (call.setup.md5 text) = true)
    (w : Surroundings σ) (s : Store.State σ) :
    Unbroken w (call.recv w s) <-> call.AnswersFit w s := by
  unfold Call.recv Call.AnswersFit
  cases hhitpass : w.hitpass with
  | none =>
      exact iff_of_true (unbroken_hitpass hhitpass)
        (fun h => absurd h (by simp))
  | some bypass =>
      cases bypass with
      | true =>
          exact iff_of_true (unbroken_fetch hmd5 false _)
            (fun h => absurd h (by simp))
      | false =>
          show Unbroken w (call.lookUp w _) <-> _
          rw [unbroken_lookUp hmd5]
          exact ⟨fun h _ => h, fun h => h rfl⟩

end Calls

/-!
## Two sick providers
-/

def failing : CacheProvider Unit where
  ready _ := true
  get _ held := (Store.Answer.rejected, held)
  set _ _ _ held := (Store.Answer.rejected, held)
  del _ held := (Store.Answer.thrown, held)
  delMany _ held := (Store.Answer.thrown, held)
  keys _ held := (Store.Answer.rejected, held)
  clear held := (Store.Answer.thrown, held)

def twoLines : JsonValue :=
  JsonValue.str "a\nb".toList

def mixedUp : CacheProvider Unit :=
  { failing with
    get := fun _ held =>
      (Store.Answer.value (some (serialize twoLines none)), held) }

def plainCall (provider : CacheProvider Unit) : Call Unit where
  setup := Setup.plain
  id := 0
  self := prefixed []
  provider := provider

def undisturbed : Surroundings Unit where
  hitpass := some false
  pending := none
  next := some (Response.ok "a".toList)
  meanwhile _ s := s

def plainState : Store.State Unit where
  log := PurgeLog.init
  held := ()

theorem plainMd5_headerValue (text : JsString) :
    headerValue (plainMd5 text) = true := by
  unfold plainMd5
  split <;> decide

theorem unbroken_recv_iff_failing :
    (forall text, headerValue ((plainCall failing).setup.md5 text) = true) ∧
      Unbroken undisturbed ((plainCall failing).recv undisturbed plainState) := by
  refine ⟨plainMd5_headerValue, (unbroken_recv_iff (plainCall failing)
    plainMd5_headerValue undisturbed plainState).mpr ?_⟩
  intro _ entry hentry
  exact absurd hentry (by simp [Call.getEntry, CacheStore.readEntry,
    CacheStore.unusable, plainCall, prefixed, failing])

/-- The text of the body answers the look for the ETag and is no header value. -/
theorem not_unbroken_mixedUp :
    ¬ Unbroken undisturbed ((plainCall mixedUp).recv undisturbed plainState) := by
  have hread : forall key, ((plainCall mixedUp).self.readEntry
      (plainCall mixedUp).provider key plainState).1 =
        some { data := twoLines, type := none } := by
    intro key
    show (deserializeEntry (serialize twoLines none)).join = _
    rw [deserializeEntry_serialize]
    rfl
  have hetag : (plainCall mixedUp).etagLookup plainState = some twoLines := by
    unfold Call.etagLookup CacheStore.get
    rw [hread]
    rfl
  have hentry : (plainCall mixedUp).getEntry plainState =
      some { data := twoLines, type := none } := by
    unfold Call.getEntry
    rw [hread]
    rfl
  show ¬ Unbroken undisturbed ((plainCall mixedUp).lookUp undisturbed plainState)
  rw [unbroken_lookUp plainMd5_headerValue]
  intro hfits
  unfold Call.LookUpFits at hfits
  rw [if_pos (show (plainCall mixedUp).setup.enableEtag = true from rfl)] at hfits
  simp only [hetag] at hfits
  rcases (hfits.right rfl _ hentry).left twoLines rfl with ⟨text, htext, hvalue⟩
  have hlines : "a\nb".toList = text := Option.some.inj htext
  rw [← hlines] at hvalue
  exact absurd hvalue (by decide)

end Recv
end RestCache
