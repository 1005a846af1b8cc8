import RestCache.Config.RelatedPurge
import RestCache.Foundation.Memo
import RestCache.Invalidation.AutomaticPurge
import RestCache.Store.ProviderContract

/-!
# Writes through the document service

What a write leaves in the cache, over whole runs: none of the entries that its
content type's routes have for the document, none of the content types whose
responses can hold it, and all others.
-/

namespace RestCache
namespace Invalidation

open Foundation
open Config
open Store

/-!
## The middleware and its table
-/

/-- The cached content types embedding an uncached one, by its uid. -/
abbrev EmbeddedIn := Memo.Table JsString (List JsString)

section Middleware

variable {schemas : Schemas} (strategy : ResolvedStrategy schemas)

def embeddingOf (uid : JsString) : List JsString :=
  (getRelatedModelsUid true schemas uid).filter fun relatedUid =>
    relatedUid ≠ uid && strategy.related.isCached relatedUid

def cachedTypesEmbedding (embeddedIn : EmbeddedIn) (uid : JsString) :
    List JsString × EmbeddedIn :=
  Memo.ask (embeddingOf strategy) embeddedIn uid

/-- The table of the middleware, and the store. -/
structure Process (σ : Type) where
  embeddedIn : EmbeddedIn
  store : State σ

variable {σ E R : Type} (lower : CaseMapping) (self : CacheStore)
  (provider : CacheProvider σ) (resultId : R -> Option JsString)

def asksTable (ctx : DocumentServiceContext) (next : Except E R) : Bool :=
  next.isOk && decide (ctx.action ∈ WRITE_ACTIONS) &&
    !strategy.related.isCached ctx.uid && strategy.clearRelatedCache

/--
A call through the middleware, from the return of `next` on: what happened
before, the writes inside `next` included, is in the process already.
-/
def documentWrite (ctx : DocumentServiceContext) (next : Except E R)
    (p : Process σ) : Except (WriteError E) R × Process σ :=
  let found := cachedTypesEmbedding strategy p.embeddedIn ctx.uid
  let z := documentServiceMiddleware strategy.related lower self provider
    (fun _ => found.1) resultId ctx next p.store
  (z.1,
    { embeddedIn :=
        if asksTable strategy ctx next then found.2 else p.embeddedIn
      store := z.2 })

inductive Deed (E R : Type) where
  | write (ctx : DocumentServiceContext) (next : Except E R)
  | other (happening : Happening)

def Deed.perform (around : Surroundings σ) (p : Process σ) :
    Deed E R -> Process σ
  | Deed.write ctx next =>
      (documentWrite strategy lower self provider resultId ctx next p).2
  | Deed.other happening =>
      let store :=
        happening.perform strategy.related lower self provider around p.store
      { p with store }

/-- A run from the start of the process, where the table is empty. -/
def runOf (around : Surroundings σ) (s : State σ)
    (deeds : List (Deed E R)) : Process σ :=
  deeds.foldl (Deed.perform strategy lower self provider resultId around)
    { embeddedIn := ∅, store := s }

end Middleware

/-!
## The entries that a write makes stale
-/

section Affected

variable {schemas : Schemas} (strategy : ResolvedStrategy schemas)
  (lower : CaseMapping)

def Matched (uid : JsString) (params : RouteParams) (wildcard : Bool)
    (key : JsString) : Prop :=
  exists regExps, strategy.related.patternsFor lower uid params wildcard =
    Except.ok regExps ∧ CacheStore.shouldDel regExps key = true

/--
A chain of attributes leads to the written type from a cached one; of public
attributes, if the written type is not cached itself.
-/
def Holder (uid holder : JsString) : Prop :=
  strategy.related.isCached holder = true ∧
    ReachesModel (!strategy.related.isCached uid) schemas
      (Model.contentType holder) (Model.contentType uid)

/-- The key is one of the written document, or of what can hold it. -/
def Affected (uid : JsString) (documentId : Option JsString)
    (key : JsString) : Prop :=
  (strategy.related.isCached uid = true ∧
    Matched strategy lower uid (scopeOf documentId) documentId.isNone key) ∨
    (strategy.clearRelatedCache = true ∧ exists holder,
      Holder strategy uid holder ∧ Matched strategy lower holder ∅ true key)

structure Issuable (uid : JsString) (documentId : Option JsString) : Prop where
  own : strategy.related.isCached uid = true ->
    exists regExps, strategy.related.patternsFor lower uid (scopeOf documentId)
      documentId.isNone = Except.ok regExps
  holders : strategy.clearRelatedCache = true -> forall holder,
    Holder strategy uid holder ->
      exists regExps, strategy.related.patternsFor lower holder ∅ true =
        Except.ok regExps

variable {strategy lower}

theorem shouldDel_iff {regExps : List Pattern} {key : JsString} :
    CacheStore.shouldDel regExps key = true <->
      exists regExp, regExp ∈ regExps ∧ regExp.test key = true :=
  List.any_eq_true

theorem holder_iff_traversed {uid : JsString}
    (hcached : strategy.related.isCached uid = true) (holder : JsString) :
    Holder strategy uid holder <-> strategy.Traversed uid holder := by
  unfold Holder ResolvedStrategy.Traversed
  rw [hcached]
  exact Iff.rfl

theorem issued_cached {uid : JsString} {documentId : Option JsString}
    (h : Issuable strategy lower uid documentId)
    (hcached : strategy.related.isCached uid = true) :
    exists issued, strategy.related.clearPatterns lower uid (scopeOf documentId)
        documentId.isNone = Except.ok issued ∧
      forall key, CacheStore.shouldDel issued key = true <->
        Affected strategy lower uid documentId key := by
  rcases h.own hcached with ⟨own, hown⟩
  have hmatched : forall key,
      Matched strategy lower uid (scopeOf documentId) documentId.isNone key <->
        CacheStore.shouldDel own key = true := by
    intro key
    constructor
    · intro hkey
      rcases hkey with ⟨regExps, hregExps, htest⟩
      rw [hown, Except.ok.injEq] at hregExps
      rw [hregExps]
      exact htest
    · exact fun htest => ⟨own, hown, htest⟩
  by_cases hclear : strategy.clearRelatedCache = true
  · have hbuildable : strategy.Buildable lower uid (scopeOf documentId)
        documentId.isNone :=
      ⟨⟨own, hown⟩, fun holder hholder => h.holders hclear holder
        ((holder_iff_traversed hcached holder).mpr hholder)⟩
    rcases clearPatterns_of_buildable hclear hcached hbuildable with
      ⟨issued, hissued, hmem⟩
    refine ⟨issued, hissued, ?_⟩
    intro key
    rw [shouldDel_iff, Affected, and_iff_right hcached, and_iff_right hclear,
      hmatched]
    constructor
    · intro hkey
      rcases hkey with ⟨regExp, hregExp, htest⟩
      rcases (hmem regExp).mp hregExp with ⟨given, hgiven, hin⟩ |
        ⟨holder, regExps, hholder, hregExps, hin⟩
      · rw [hown, Except.ok.injEq] at hgiven
        rw [← hgiven] at hin
        exact Or.inl (shouldDel_iff.mpr ⟨regExp, hin, htest⟩)
      · exact Or.inr ⟨holder, (holder_iff_traversed hcached holder).mpr hholder,
          regExps, hregExps, shouldDel_iff.mpr ⟨regExp, hin, htest⟩⟩
    · intro hkey
      rcases hkey with hkey | ⟨holder, hholder, regExps, hregExps, htest⟩
      · rcases shouldDel_iff.mp hkey with ⟨regExp, hin, htest⟩
        exact ⟨regExp, (hmem regExp).mpr (Or.inl ⟨own, hown, hin⟩), htest⟩
      · rcases shouldDel_iff.mp htest with ⟨regExp, hin, htest⟩
        exact ⟨regExp, (hmem regExp).mpr (Or.inr ⟨holder, regExps,
          (holder_iff_traversed hcached holder).mp hholder, hregExps, hin⟩), htest⟩
  · refine ⟨own, ?_, ?_⟩
    · rw [RelatedStrategy.clearPatterns, if_pos hcached, hown]
      exact if_neg hclear
    · intro key
      rw [Affected, and_iff_right hcached, hmatched,
        or_iff_left (fun hholding => hclear hholding.left)]

theorem not_issued_cached {uid : JsString} {documentId : Option JsString}
    (h : ¬ Issuable strategy lower uid documentId)
    (hcached : strategy.related.isCached uid = true) :
    exists e, strategy.related.clearPatterns lower uid (scopeOf documentId)
      documentId.isNone = Except.error e := by
  cases hissued : strategy.related.clearPatterns lower uid (scopeOf documentId)
      documentId.isNone with
  | error e => exact ⟨e, rfl⟩
  | ok issued =>
      refine absurd ⟨fun _ => clearPatterns_own hcached hissued, ?_⟩ h
      intro hclear holder hholder
      exact (buildable_of_clearPatterns hclear hcached hissued).right holder
        ((holder_iff_traversed hcached holder).mp hholder)

theorem mem_embeddingOf {uid : JsString} (huid : uid ≠ [])
    (hcached : strategy.related.isCached uid = false) (holder : JsString) :
    holder ∈ embeddingOf strategy uid <-> Holder strategy uid holder := by
  rw [embeddingOf, List.mem_filter, mem_getRelatedModelsUid huid, Holder,
    hcached, Bool.and_eq_true, decide_eq_true_iff]
  constructor
  · exact fun h => ⟨h.right.right, h.left⟩
  · intro h
    refine ⟨h.right, ?_, h.left⟩
    intro heq
    rw [heq, hcached] at h
    exact Bool.false_ne_true h.left

theorem issued_uncached {uid : JsString} {documentId : Option JsString}
    (h : Issuable strategy lower uid documentId) (huid : uid ≠ [])
    (hcached : strategy.related.isCached uid = false)
    (hclear : strategy.clearRelatedCache = true) :
    exists issued, strategy.related.wildcardPatterns lower
        (embeddingOf strategy uid) = Except.ok issued ∧
      forall key, CacheStore.shouldDel issued key = true <->
        Affected strategy lower uid documentId key := by
  rcases wildcardPatterns_ok (fun holder hholder =>
    h.holders hclear holder ((mem_embeddingOf huid hcached holder).mp hholder)) with
    ⟨issued, hissued, hmem⟩
  refine ⟨issued, hissued, ?_⟩
  intro key
  rw [shouldDel_iff, Affected, and_iff_right hclear, or_iff_right
    (fun hown => Bool.false_ne_true (hcached.symm.trans hown.left))]
  constructor
  · intro hkey
    rcases hkey with ⟨regExp, hregExp, htest⟩
    rcases (hmem regExp).mp hregExp with ⟨holder, regExps, hholder, hregExps, hin⟩
    exact ⟨holder, (mem_embeddingOf huid hcached holder).mp hholder, regExps,
      hregExps, shouldDel_iff.mpr ⟨regExp, hin, htest⟩⟩
  · intro hkey
    rcases hkey with ⟨holder, hholder, regExps, hregExps, htest⟩
    rcases shouldDel_iff.mp htest with ⟨regExp, hin, htest⟩
    exact ⟨regExp, (hmem regExp).mpr ⟨holder, regExps,
      (mem_embeddingOf huid hcached holder).mpr hholder, hregExps, hin⟩, htest⟩

theorem not_issued_uncached {uid : JsString} {documentId : Option JsString}
    (h : ¬ Issuable strategy lower uid documentId) (huid : uid ≠ [])
    (hcached : strategy.related.isCached uid = false) :
    exists e, strategy.related.wildcardPatterns lower (embeddingOf strategy uid) =
      Except.error e := by
  cases hissued : strategy.related.wildcardPatterns lower
      (embeddingOf strategy uid) with
  | error e => exact ⟨e, rfl⟩
  | ok issued =>
      refine absurd ⟨?_, ?_⟩ h
      · intro hown
        exact absurd (hcached.symm.trans hown) Bool.false_ne_true
      · intro _ holder hholder
        exact of_wildcardPatterns_ok hissued holder
          ((mem_embeddingOf huid hcached holder).mpr hholder)

theorem not_affected {uid : JsString} (huid : uid ≠ [])
    (hcached : strategy.related.isCached uid = false)
    (hskip : strategy.clearRelatedCache = false ∨ embeddingOf strategy uid = [])
    (documentId : Option JsString) (key : JsString) :
    ¬ Affected strategy lower uid documentId key := by
  intro haffected
  rcases haffected with hown | ⟨hclear, holder, hholder, _⟩
  · rw [hcached] at hown
    exact Bool.false_ne_true hown.left
  · rcases hskip with hoff | hnil
    · rw [hoff] at hclear
      exact Bool.false_ne_true hclear
    · have hmem := (mem_embeddingOf huid hcached holder).mpr hholder
      rw [hnil] at hmem
      cases hmem

end Affected

/-!
## One write
-/

/--
The write is answered as the service answered it.  Where the expressions can be
built, the reads after it find the affected entries gone; all others, and
otherwise every entry, are as they were.
-/
def ClearsAffected {schemas : Schemas} {σ R : Type} (E : Type)
    (strategy : ResolvedStrategy schemas) (lower : CaseMapping)
    (keysPrefix : JsString) (provider : CacheProvider σ)
    (resultId : R -> Option JsString)
    (ctx : DocumentServiceContext) (result : R) (p : Process σ) : Prop :=
  exists after, documentWrite (E := E) strategy lower (prefixed keysPrefix)
      provider resultId ctx (Except.ok result) p = (Except.ok result, after) ∧
    forall key,
      (Issuable strategy lower ctx.uid
            (resolveDocumentId ctx (resultId result)) ∧
          Affected strategy lower ctx.uid
            (resolveDocumentId ctx (resultId result)) key ->
        (prefixed keysPrefix).get provider key after.store = none) ∧
      (¬ (Issuable strategy lower ctx.uid
            (resolveDocumentId ctx (resultId result)) ∧
          Affected strategy lower ctx.uid
            (resolveDocumentId ctx (resultId result)) key) ->
        (prefixed keysPrefix).get provider key after.store =
          (prefixed keysPrefix).get provider key p.store)

section Write

variable {schemas : Schemas} {strategy : ResolvedStrategy schemas}
  {lower : CaseMapping} {σ E R : Type} {provider : CacheProvider σ}
  {Holds : σ -> Contents -> Prop} {keysPrefix : JsString}
  {resultId : R -> Option JsString} {ctx : DocumentServiceContext}
  {p : Process σ} {m : State Contents}

theorem middleware_write (haction : ctx.action ∈ WRITE_ACTIONS)
    (self : CacheStore) (embedding : JsString -> List JsString) (result : R)
    (s : State σ) :
    documentServiceMiddleware (E := E) strategy.related lower self provider
        embedding resultId ctx (Except.ok result) s =
      if strategy.related.isCached ctx.uid then
        guarded result (self.clearByUid provider strategy.related lower ctx.uid
          (scopeOf (resolveDocumentId ctx (resultId result)))
          (resolveDocumentId ctx (resultId result)).isNone s)
      else if strategy.clearRelatedCache = false ∨ embedding ctx.uid = [] then
        (Except.ok result, s)
      else
        guarded result (self.clearByPatterns provider
          (strategy.related.wildcardPatterns lower (embedding ctx.uid)) s) := by
  unfold documentServiceMiddleware documentPatterns
  simp only
  rw [if_neg (not_not.mpr haction)]
  by_cases hcached : strategy.related.isCached ctx.uid = true
  · simp only [if_pos hcached]
    rfl
  · simp only [if_neg hcached]
    by_cases hskip : strategy.clearRelatedCache = false ∨ embedding ctx.uid = []
    · simp only [show strategy.related.clearRelatedCache =
        strategy.clearRelatedCache from rfl, if_pos hskip]
    · simp only [show strategy.related.clearRelatedCache =
        strategy.clearRelatedCache from rfl, if_neg hskip]

theorem middleware_issues (huid : ctx.uid ≠ [])
    (haction : ctx.action ∈ WRITE_ACTIONS) (self : CacheStore) (result : R)
    (s : State σ) {documentId : Option JsString}
    (hid : resolveDocumentId ctx (resultId result) = documentId) :
    (exists issued, Issuable strategy lower ctx.uid documentId ∧
      (forall key, CacheStore.shouldDel issued key = true <->
        Affected strategy lower ctx.uid documentId key) ∧
      documentServiceMiddleware (E := E) strategy.related lower self provider
          (fun _ => embeddingOf strategy ctx.uid) resultId ctx
          (Except.ok result) s =
        (Except.ok result, (self.clearByRegexp provider issued s).2)) ∨
      (forall key, ¬ (Issuable strategy lower ctx.uid documentId ∧
        Affected strategy lower ctx.uid documentId key)) ∧
      documentServiceMiddleware (E := E) strategy.related lower self provider
          (fun _ => embeddingOf strategy ctx.uid) resultId ctx
          (Except.ok result) s = (Except.ok result, s) := by
  rw [middleware_write haction, hid]
  cases hcached : strategy.related.isCached ctx.uid with
  | true =>
      rw [if_pos rfl, CacheStore.clearByUid]
      by_cases h : Issuable strategy lower ctx.uid documentId
      · rcases issued_cached h hcached with ⟨issued, hissued, hmatched⟩
        refine Or.inl ⟨issued, h, hmatched, ?_⟩
        rw [hissued]
        rfl
      · rcases not_issued_cached h hcached with ⟨e, hissued⟩
        refine Or.inr ⟨fun key hkey => h hkey.left, ?_⟩
        rw [hissued]
        rfl
  | false =>
      rw [if_neg Bool.false_ne_true]
      by_cases hskip : strategy.clearRelatedCache = false ∨
          embeddingOf strategy ctx.uid = []
      · exact Or.inr ⟨fun key hkey =>
          not_affected huid hcached hskip documentId key hkey.right, if_pos hskip⟩
      · rw [if_neg hskip]
        have hclear : strategy.clearRelatedCache = true := by
          rw [← Bool.not_eq_false]
          exact fun hoff => hskip (Or.inl hoff)
        by_cases h : Issuable strategy lower ctx.uid documentId
        · rcases issued_uncached h huid hcached hclear with
            ⟨issued, hissued, hmatched⟩
          refine Or.inl ⟨issued, h, hmatched, ?_⟩
          rw [hissued]
          rfl
        · rcases not_issued_uncached h huid hcached with ⟨e, hissued⟩
          refine Or.inr ⟨fun key hkey => h hkey.left, ?_⟩
          rw [hissued]
          rfl

theorem documentWrite_eq
    (hmemo : Memo.Faithful (embeddingOf strategy) p.embeddedIn)
    (self : CacheStore) (next : Except E R) :
    (documentWrite strategy lower self provider resultId ctx next p).1 =
        (documentServiceMiddleware strategy.related lower self provider
          (fun _ => embeddingOf strategy ctx.uid) resultId ctx next p.store).1 ∧
      (documentWrite strategy lower self provider resultId ctx next p).2.store =
        (documentServiceMiddleware strategy.related lower self provider
          (fun _ => embeddingOf strategy ctx.uid) resultId ctx next p.store).2 ∧
      Memo.Faithful (embeddingOf strategy)
        (documentWrite strategy lower self provider resultId ctx next
          p).2.embeddedIn := by
  have hfound : (cachedTypesEmbedding strategy p.embeddedIn ctx.uid).1 =
      embeddingOf strategy ctx.uid :=
    Memo.ask_value hmemo ctx.uid
  unfold documentWrite
  simp only [hfound, true_and]
  split
  · exact Memo.faithful_ask hmemo ctx.uid
  · exact hmemo

theorem clearByPatterns_agrees (h : Contract provider Holds)
    (patterns : Except ClearError (List Pattern)) {s : State σ}
    (hs : Agrees Holds s m) :
    exists m', Agrees Holds
      ((prefixed keysPrefix).clearByPatterns provider patterns s).2 m' := by
  cases patterns with
  | error e => exact ⟨m, hs⟩
  | ok regExps => exact ⟨_, (clearByRegexp_agrees h hs regExps).right⟩

/-- However a call ends, the store still agrees with some contents. -/
theorem documentWrite_agrees (h : Contract provider Holds)
    (hs : Agrees Holds p.store m) (next : Except E R) :
    exists m', Agrees Holds (documentWrite strategy lower (prefixed keysPrefix)
      provider resultId ctx next p).2.store m' := by
  cases next with
  | error e => exact ⟨m, hs⟩
  | ok result =>
      by_cases haction : ctx.action ∈ WRITE_ACTIONS
      · show exists m', Agrees Holds (documentServiceMiddleware (E := E)
          strategy.related lower (prefixed keysPrefix) provider _ resultId ctx
          (Except.ok result) p.store).2 m'
        rw [middleware_write haction]
        split
        · exact clearByPatterns_agrees h _ hs
        · split
          · exact ⟨m, hs⟩
          · exact clearByPatterns_agrees h _ hs
      · refine ⟨m, ?_⟩
        have hread : (documentServiceMiddleware (E := E) strategy.related lower
            (prefixed keysPrefix) provider
            (fun _ => (cachedTypesEmbedding strategy p.embeddedIn ctx.uid).1)
            resultId ctx (Except.ok result) p.store).2 = p.store := by
          simp only [documentServiceMiddleware]
          rw [if_pos haction]
        show Agrees Holds (documentServiceMiddleware (E := E) strategy.related
          lower (prefixed keysPrefix) provider _ resultId ctx
          (Except.ok result) p.store).2 m
        rw [hread]
        exact hs

theorem documentWrite_clears (h : Contract provider Holds)
    (hs : Agrees Holds p.store m)
    (hmemo : Memo.Faithful (embeddingOf strategy) p.embeddedIn)
    (huid : ctx.uid ≠ []) (haction : ctx.action ∈ WRITE_ACTIONS)
    (result : R) :
    ClearsAffected E strategy lower keysPrefix provider resultId ctx result
      p := by
  rcases @documentWrite_eq _ strategy lower _ E _ provider resultId ctx p hmemo
    (prefixed keysPrefix) (Except.ok result) with ⟨hanswer, hstore, _⟩
  rcases @middleware_issues _ strategy lower _ E _ provider resultId ctx huid
      haction (prefixed keysPrefix) result p.store _ rfl with
    ⟨issued, hissuable, hmatched, hissued⟩ | ⟨hnone, hsame⟩
  · rw [hissued] at hanswer hstore
    refine ⟨_, Prod.ext hanswer rfl, ?_⟩
    intro key
    rw [hstore, get_clearByRegexp h hs, and_iff_right hissuable, ← hmatched]
    exact ⟨fun hkey => if_pos hkey, fun hkey => if_neg hkey⟩
  · rw [hsame] at hanswer hstore
    refine ⟨_, Prod.ext hanswer rfl, ?_⟩
    intro key
    rw [hstore]
    exact ⟨fun hkey => absurd hkey (hnone key), fun _ => rfl⟩

end Write

/-!
## Writes in a run
-/

section Runs

variable {schemas : Schemas} {strategy : ResolvedStrategy schemas}
  {lower : CaseMapping} {σ E R : Type} {provider : CacheProvider σ}
  {Holds : σ -> Contents -> Prop} {keysPrefix : JsString}
  {resultId : R -> Option JsString}
  {around : Surroundings σ}

structure ProcessInv (strategy : ResolvedStrategy schemas)
    (Holds : σ -> Contents -> Prop) (p : Process σ) : Prop where
  embeddedIn : Memo.Faithful (embeddingOf strategy) p.embeddedIn
  store : exists m, Agrees Holds p.store m

theorem perform_inv (h : Contract provider Holds) (hfair : around.Fair Holds)
    {p : Process σ} (hp : ProcessInv strategy Holds p) (deed : Deed E R) :
    ProcessInv strategy Holds
      (deed.perform strategy lower (prefixed keysPrefix) provider resultId
        around p) := by
  rcases hp.store with ⟨m, hs⟩
  cases deed with
  | write ctx next =>
      exact ⟨(documentWrite_eq hp.embeddedIn (prefixed keysPrefix) next).right.right,
        documentWrite_agrees h hs next⟩
  | other happening =>
      exact ⟨hp.embeddedIn, _, happening.perform_agrees h hfair hs⟩

theorem runOf_inv (h : Contract provider Holds) (hfair : around.Fair Holds)
    {s : State σ} {m : State Contents} (hs : Agrees Holds s m)
    (deeds : List (Deed E R)) :
    ProcessInv strategy Holds
      (runOf strategy lower (prefixed keysPrefix) provider resultId around s
        deeds) := by
  have hstart : ProcessInv strategy Holds { embeddedIn := ∅, store := s } :=
    ⟨Memo.faithful_empty, m, hs⟩
  unfold runOf
  generalize ({ embeddedIn := ∅, store := s } : Process σ) = p at hstart
  induction deeds generalizing p with
  | nil => exact hstart
  | cons deed rest ih => exact ih _ (perform_inv h hfair hstart deed)

end Runs

/-- A write that was made clears what it affects, whatever came before it. -/
theorem documentWrites_clear {schemas : Schemas} {σ E R : Type}
    (strategy : ResolvedStrategy schemas) (lower : CaseMapping)
    (keysPrefix : JsString) (provider : CacheProvider σ)
    (Holds : σ -> Contents -> Prop) (around : Surroundings σ)
    (resultId : R -> Option JsString) (s : State σ)
    (m : State Contents) (h : Contract provider Holds)
    (hfair : around.Fair Holds) (hs : Agrees Holds s m)
    (deeds : List (Deed E R))
    (ctx : DocumentServiceContext) (huid : ctx.uid ≠ [])
    (haction : ctx.action ∈ WRITE_ACTIONS) (result : R) :
    ClearsAffected E strategy lower keysPrefix provider resultId ctx result
      (runOf strategy lower (prefixed keysPrefix) provider resultId around s
        deeds) := by
  have hinv := @runOf_inv _ strategy lower _ E R provider Holds keysPrefix
    resultId around h hfair s m hs deeds
  rcases hinv.store with ⟨m', hs'⟩
  exact documentWrite_clears h hs' hinv.embeddedIn huid haction result

def articlesOnly : ResolvedStrategy articleSchemas where
  enableDocumentServiceMiddleware := true
  contentTypes := [cachedAt "api::article.article".toList "/api/articles".toList]
  clearRelatedCache := true
  resolved := by decide

/-- A category is written for the second time, with an article cached between. -/
theorem documentWrites_clear_category :
    ClearsAffected Unit articlesOnly CaseMapping.latin1 "blog".toList keyspace id
      ⟨"update".toList, "api::category.category".toList, some "1".toList⟩ none
      (runOf articlesOnly CaseMapping.latin1 (prefixed "blog".toList) keyspace id
        keyspaceAround { log := PurgeLog.init, held := ∅ }
        [Deed.write (E := Unit)
            ⟨"create".toList, "api::category.category".toList, none⟩
            (Except.ok (some "1".toList)),
          Deed.other (Happening.call
            (Operation.set "/api/articles?&&".toList JsonValue.null 0 none))]) :=
  documentWrites_clear articlesOnly CaseMapping.latin1 "blog".toList keyspace _
    keyspaceAround id { log := PurgeLog.init, held := ∅ }
    { log := PurgeLog.init, held := Contents.empty } keyspace_contract
    keyspaceAround_fair ⟨rfl, rfl⟩ _ _ (by decide)
    (by decide) none

end Invalidation
end RestCache
