import Mathlib.Logic.Relation
import RestCache.Config.ClearPatterns
import RestCache.Foundation.Saturation

/-!
# Related models

Which content types reach a given one through the attributes of the schemas: the
rounds that find them, and that they find exactly these.
-/

namespace RestCache
namespace Config

open Foundation
open Saturation

/-!
## Schemas
-/

/-- The kinds of attributes; `scalar` stands for those that hold plain data. -/
inductive AttributeType where
  | relation
  | component
  | dynamiczone
  | media
  | scalar
deriving DecidableEq

structure TraversableAttribute where
  type : AttributeType
  target : Option JsString
  component : Option JsString
  components : Option (List JsString)
  isPrivate : Bool
deriving DecidableEq

structure TraversableSchema where
  uid : JsString
  attributes : List TraversableAttribute
deriving DecidableEq

/-- The components and the content types, in the order of their records. -/
structure Schemas where
  components : List TraversableSchema
  contentTypes : List TraversableSchema
deriving DecidableEq

inductive Model where
  | contentType (uid : JsString)
  | component (uid : JsString)
deriving DecidableEq

namespace TraversableAttribute

def targets (attr : TraversableAttribute) : List Model :=
  match attr.type with
  | AttributeType.relation => attr.target.toList.map Model.contentType
  | AttributeType.component => attr.component.toList.map Model.component
  | AttributeType.dynamiczone =>
      (attr.components.getD []).map Model.component
  | AttributeType.media => []
  | AttributeType.scalar => []

def ignored (ignorePrivate : Bool) (attr : TraversableAttribute) : Bool :=
  ignorePrivate && attr.isPrivate

end TraversableAttribute

/-!
## The rounds
-/

/-- The uids found so far, each set in the order of insertion. -/
structure Known where
  contentTypeUids : List JsString
  componentUids : List JsString
deriving DecidableEq

namespace Known

def has (known : Known) : Model -> Bool
  | Model.contentType uid => uid ∈ known.contentTypeUids
  | Model.component uid => uid ∈ known.componentUids

def add (known : Known) : Model -> Known
  | Model.contentType uid =>
      { known with contentTypeUids := known.contentTypeUids ++ [uid] }
  | Model.component uid =>
      { known with componentUids := known.componentUids ++ [uid] }

def size (known : Known) : Nat :=
  known.contentTypeUids.length + known.componentUids.length

end Known

section Rounds

variable (ignorePrivate : Bool)

def reachesKnown (known : Known) (attr : TraversableAttribute) : Bool :=
  !attr.ignored ignorePrivate && attr.targets.any known.has

/-- Add the schema's model where one of its attributes reaches a known one. -/
def visit (model : JsString -> Model) (known : Known)
    (schema : TraversableSchema) : Known :=
  if known.has (model schema.uid) then known
  else if schema.attributes.any (reachesKnown ignorePrivate known) then
    known.add (model schema.uid)
  else known

/-- All components, then all content types. -/
def relatedRound (schemas : Schemas) (known : Known) : Known :=
  schemas.contentTypes.foldl (visit ignorePrivate Model.contentType)
    (schemas.components.foldl (visit ignorePrivate Model.component) known)

def relatedFrom (uid : JsString) : Known where
  contentTypeUids := [uid]
  componentUids := []

/-- A round for every schema and one that adds nothing. -/
def relatedFuel (schemas : Schemas) : Nat :=
  schemas.components.length + schemas.contentTypes.length + 1

def relatedModels (schemas : Schemas) (uid : JsString) : Option Known :=
  saturate Known.size (relatedRound ignorePrivate schemas)
    (relatedFuel schemas) (relatedFrom uid)

def getRelatedModelsUid (schemas : Schemas) (uid : JsString) : List JsString :=
  if uid = [] then []
  else ((relatedModels ignorePrivate schemas uid).map
    Known.contentTypeUids).getD []

end Rounds

/-!
## Reaching
-/

def Declares (schemas : Schemas) : Model -> TraversableAttribute -> Prop
  | Model.contentType uid, attr =>
      exists schema, schema ∈ schemas.contentTypes ∧ schema.uid = uid ∧
        attr ∈ schema.attributes
  | Model.component uid, attr =>
      exists schema, schema ∈ schemas.components ∧ schema.uid = uid ∧
        attr ∈ schema.attributes

/-- One attribute of `m` that is not ignored points at `n`. -/
def PointsAt (ignorePrivate : Bool) (schemas : Schemas) (m n : Model) : Prop :=
  exists attr, Declares schemas m attr ∧
    attr.ignored ignorePrivate = false ∧ n ∈ attr.targets

/-- A finite chain of attributes leads from `m` to `n`. -/
def ReachesModel (ignorePrivate : Bool) (schemas : Schemas) :
    Model -> Model -> Prop :=
  Relation.ReflTransGen (PointsAt ignorePrivate schemas)

/-!
## Sets of known models
-/

@[simp]
theorem has_add (known : Known) (m n : Model) :
    (known.add m).has n = true <-> known.has n = true ∨ n = m := by
  cases m with
  | contentType uid =>
      cases n with
      | contentType other => simp [Known.has, Known.add]
      | component other =>
          show known.has (Model.component other) = true <-> _
          simp
  | component uid =>
      cases n with
      | contentType other =>
          show known.has (Model.contentType other) = true <-> _
          simp
      | component other => simp [Known.has, Known.add]

theorem size_add (known : Known) (m : Model) :
    (known.add m).size = known.size + 1 := by
  cases m <;> simp +arith [Known.size, Known.add]

theorem relatedFrom_has (uid : JsString) (m : Model) :
    (relatedFrom uid).has m = true <-> m = Model.contentType uid := by
  cases m <;> simp [Known.has, relatedFrom]

section Visits

variable {ignorePrivate : Bool} {schemas : Schemas} {uid : JsString}

theorem visit_grows (model : JsString -> Model) :
    Grows Known.size (visit ignorePrivate model) := by
  intro known schema
  unfold visit
  split
  · exact Or.inl rfl
  · split
    · apply Or.inr
      rw [size_add]
      exact Nat.lt_succ_self _
    · exact Or.inl rfl

theorem reachesKnown_iff (known : Known) (attr : TraversableAttribute) :
    reachesKnown ignorePrivate known attr = true <->
      attr.ignored ignorePrivate = false ∧
        exists m, m ∈ attr.targets ∧ known.has m = true := by
  simp [reachesKnown]

theorem has_of_visit_eq {model : JsString -> Model} {known : Known}
    {schema : TraversableSchema}
    (h : visit ignorePrivate model known schema = known)
    {attr : TraversableAttribute}
    (hattr : attr ∈ schema.attributes)
    (hreaches : reachesKnown ignorePrivate known attr = true) :
    known.has (model schema.uid) = true := by
  unfold visit at h
  split at h
  · assumption
  · rw [if_pos (List.any_eq_true.mpr ⟨attr, hattr, hreaches⟩)] at h
    have hsize := congrArg Known.size h
    rw [size_add] at hsize
    exact absurd hsize (Nat.succ_ne_self _)

/-!
## What the rounds keep
-/

structure RelatedInv (ignorePrivate : Bool) (schemas : Schemas)
    (uid : JsString) (known : Known) : Prop where
  contentTypes_nodup : known.contentTypeUids.Nodup
  components_nodup : known.componentUids.Nodup
  contentTypes_sub :
    known.contentTypeUids ⊆ uid :: schemas.contentTypes.map TraversableSchema.uid
  components_sub :
    known.componentUids ⊆ schemas.components.map TraversableSchema.uid
  start : known.has (Model.contentType uid) = true
  reaches : forall m, known.has m = true ->
    ReachesModel ignorePrivate schemas m (Model.contentType uid)

theorem relatedFrom_inv :
    RelatedInv ignorePrivate schemas uid (relatedFrom uid) where
  contentTypes_nodup := List.nodup_singleton uid
  components_nodup := List.nodup_nil
  contentTypes_sub := by simp [relatedFrom]
  components_sub := List.nil_subset _
  start := (relatedFrom_has uid _).mpr rfl
  reaches m hm := by
    rw [(relatedFrom_has uid m).mp hm]
    exact Relation.ReflTransGen.refl

def Describes (schemas : Schemas) (model : JsString -> Model)
    (schema : TraversableSchema) : Prop :=
  (model = Model.contentType ∧ schema ∈ schemas.contentTypes) ∨
    (model = Model.component ∧ schema ∈ schemas.components)

theorem declares_of_describes {model : JsString -> Model}
    {schema : TraversableSchema} (h : Describes schemas model schema)
    {attr : TraversableAttribute}
    (hattr : attr ∈ schema.attributes) :
    Declares schemas (model schema.uid) attr := by
  rcases h with ⟨rfl, hmem⟩ | ⟨rfl, hmem⟩
  · exact ⟨schema, hmem, rfl, hattr⟩
  · exact ⟨schema, hmem, rfl, hattr⟩

theorem nodup_append_new {l : List JsString} {a : JsString} (h : l.Nodup)
    (hnew : a ∉ l) : (l ++ [a]).Nodup := by
  rw [← List.concat_eq_append]
  exact List.Nodup.concat hnew h

theorem add_inv {model : JsString -> Model} {schema : TraversableSchema}
    (hdescribes : Describes schemas model schema) {known : Known}
    (h : RelatedInv ignorePrivate schemas uid known)
    (hnew : ¬ known.has (model schema.uid) = true)
    (hreaches : ReachesModel ignorePrivate schemas (model schema.uid)
      (Model.contentType uid)) :
    RelatedInv ignorePrivate schemas uid (known.add (model schema.uid)) := by
  have hall : forall m, (known.add (model schema.uid)).has m = true ->
      ReachesModel ignorePrivate schemas m (Model.contentType uid) := by
    intro m hm
    rcases (has_add known _ m).mp hm with hm | rfl
    · exact h.reaches m hm
    · exact hreaches
  have hstart := (has_add known (model schema.uid) _).mpr (Or.inl h.start)
  rcases hdescribes with ⟨rfl, hmem⟩ | ⟨rfl, hmem⟩
  · have hnew : schema.uid ∉ known.contentTypeUids := by
      simpa [Known.has] using hnew
    exact {
      contentTypes_nodup := nodup_append_new h.contentTypes_nodup hnew
      components_nodup := h.components_nodup
      contentTypes_sub := by
        apply List.append_subset.mpr
        apply And.intro h.contentTypes_sub
        intro other hother
        rw [List.mem_singleton.mp hother]
        exact List.mem_cons_of_mem uid (List.mem_map_of_mem hmem)
      components_sub := h.components_sub
      start := hstart
      reaches := hall }
  · have hnew : schema.uid ∉ known.componentUids := by
      simpa [Known.has] using hnew
    exact {
      contentTypes_nodup := h.contentTypes_nodup
      components_nodup := nodup_append_new h.components_nodup hnew
      contentTypes_sub := h.contentTypes_sub
      components_sub := by
        apply List.append_subset.mpr
        apply And.intro h.components_sub
        intro other hother
        rw [List.mem_singleton.mp hother]
        exact List.mem_map_of_mem hmem
      start := hstart
      reaches := hall }

theorem visit_inv {model : JsString -> Model} {schema : TraversableSchema}
    (hdescribes : Describes schemas model schema) {known : Known}
    (h : RelatedInv ignorePrivate schemas uid known) :
    RelatedInv ignorePrivate schemas uid
      (visit ignorePrivate model known schema) := by
  unfold visit
  split
  · exact h
  · rename_i hnew
    split
    · rename_i hany
      rcases List.any_eq_true.mp hany with ⟨attr, hattr, hreaches⟩
      rcases (reachesKnown_iff known attr).mp hreaches with
        ⟨hignored, m, hm, hknown⟩
      apply add_inv hdescribes h hnew
      exact Relation.ReflTransGen.head
        ⟨attr, declares_of_describes hdescribes hattr, hignored, hm⟩
        (h.reaches m hknown)
    · exact h

theorem relatedRound_inv {known : Known}
    (h : RelatedInv ignorePrivate schemas uid known) :
    RelatedInv ignorePrivate schemas uid
      (relatedRound ignorePrivate schemas known) := by
  apply foldl_invariant
  · intro known schema hmem hknown
    exact visit_inv (Or.inl ⟨rfl, hmem⟩) hknown
  · apply foldl_invariant
    · intro known schema hmem hknown
      exact visit_inv (Or.inr ⟨rfl, hmem⟩) hknown
    · exact h

theorem size_le_relatedRound (known : Known) :
    known.size <= (relatedRound ignorePrivate schemas known).size :=
  Nat.le_trans (size_le_foldl (visit_grows Model.component) _ _)
    (size_le_foldl (visit_grows Model.contentType) _ _)

theorem size_le_of_inv {known : Known}
    (h : RelatedInv ignorePrivate schemas uid known) :
    known.size <= relatedFuel schemas := by
  have hcontentTypes :=
    (List.subperm_of_subset h.contentTypes_nodup h.contentTypes_sub).length_le
  have hcomponents :=
    (List.subperm_of_subset h.components_nodup h.components_sub).length_le
  rw [List.length_cons, List.length_map] at hcontentTypes
  rw [List.length_map] at hcomponents
  unfold Known.size relatedFuel
  omega

/-- The rounds end, however the schemas refer to each other. -/
theorem relatedModels_ends (schemas : Schemas) (uid : JsString) :
    exists known, relatedModels ignorePrivate schemas uid = some known := by
  apply @saturate_ends _ Known.size _ (RelatedInv ignorePrivate schemas uid)
    (relatedFuel schemas)
  · exact fun known h => relatedRound_inv h
  · exact fun known _ => size_le_relatedRound known
  · exact fun known h => size_le_of_inv h
  · exact relatedFrom_inv
  · show relatedFuel schemas < 1 + relatedFuel schemas
    omega

/-!
## What the rounds find
-/

theorem relatedRound_eq {known : Known}
    (hsize : (relatedRound ignorePrivate schemas known).size = known.size) :
    relatedRound ignorePrivate schemas known = known ∧
      (forall schema, schema ∈ schemas.components ->
        visit ignorePrivate Model.component known schema = known) ∧
      forall schema, schema ∈ schemas.contentTypes ->
        visit ignorePrivate Model.contentType known schema = known := by
  have hcomponents_le :=
    @size_le_foldl _ _ _ _ (@visit_grows ignorePrivate Model.component)
      schemas.components known
  have hcontentTypes_le :=
    @size_le_foldl _ _ _ _ (@visit_grows ignorePrivate Model.contentType)
      schemas.contentTypes
      (schemas.components.foldl (visit ignorePrivate Model.component) known)
  unfold relatedRound at hsize ⊢
  have hcomponents := visit_eq_of_size_eq (visit_grows Model.component)
    (Nat.le_antisymm (hsize ▸ hcontentTypes_le) hcomponents_le)
  rw [hcomponents.left] at hsize ⊢
  have hcontentTypes :=
    visit_eq_of_size_eq (visit_grows Model.contentType) hsize
  exact ⟨hcontentTypes.left, hcomponents.right, hcontentTypes.right⟩

theorem has_of_pointsAt {known : Known}
    (hsize : (relatedRound ignorePrivate schemas known).size = known.size)
    {m n : Model} (hpoints : PointsAt ignorePrivate schemas m n)
    (hn : known.has n = true) : known.has m = true := by
  rcases relatedRound_eq hsize with ⟨_, hcomponents, hcontentTypes⟩
  rcases hpoints with ⟨attr, hdeclares, hignored, htarget⟩
  have hreaches := (reachesKnown_iff known attr).mpr
    ⟨hignored, n, htarget, hn⟩
  cases m with
  | contentType other =>
      rcases hdeclares with ⟨schema, hmem, rfl, hattr⟩
      exact has_of_visit_eq (hcontentTypes schema hmem) hattr hreaches
  | component other =>
      rcases hdeclares with ⟨schema, hmem, rfl, hattr⟩
      exact has_of_visit_eq (hcomponents schema hmem) hattr hreaches

theorem relatedModels_inv {known : Known}
    (h : relatedModels ignorePrivate schemas uid = some known) :
    RelatedInv ignorePrivate schemas uid known :=
  saturate_invariant (fun _ hknown => relatedRound_inv hknown) relatedFrom_inv h

theorem relatedModels_has {known : Known}
    (h : relatedModels ignorePrivate schemas uid = some known) (m : Model) :
    known.has m = true <->
      ReachesModel ignorePrivate schemas m (Model.contentType uid) := by
  have hinv := relatedModels_inv h
  constructor
  · exact hinv.reaches m
  · intro hreaches
    rcases saturate_final h with ⟨before, hsize, hbefore⟩
    rw [(relatedRound_eq hsize).left] at hbefore
    subst hbefore
    induction hreaches using Relation.ReflTransGen.head_induction_on with
    | refl => exact hinv.start
    | head hpoints _ ih => exact has_of_pointsAt hsize hpoints ih

theorem mem_getRelatedModelsUid (huid : uid ≠ []) (other : JsString) :
    other ∈ getRelatedModelsUid ignorePrivate schemas uid <->
      ReachesModel ignorePrivate schemas (Model.contentType other)
        (Model.contentType uid) := by
  rcases @relatedModels_ends ignorePrivate schemas uid with ⟨known, hknown⟩
  rw [getRelatedModelsUid, if_neg huid, hknown,
    ← relatedModels_has hknown (Model.contentType other)]
  simp [Known.has]

theorem getRelatedModelsUid_nodup (ignorePrivate : Bool) (schemas : Schemas)
    (uid : JsString) : (getRelatedModelsUid ignorePrivate schemas uid).Nodup := by
  unfold getRelatedModelsUid
  split
  · exact List.nodup_nil
  · cases hknown : relatedModels ignorePrivate schemas uid with
    | none => exact List.nodup_nil
    | some known => exact (relatedModels_inv hknown).contentTypes_nodup

theorem reachesModel_contentType_iff (other : JsString) :
    ReachesModel ignorePrivate schemas (Model.contentType other)
        (Model.contentType uid) <->
      other = uid ∨
        ((exists schema, schema ∈ schemas.contentTypes ∧ schema.uid = other) ∧
          Relation.TransGen (PointsAt ignorePrivate schemas)
            (Model.contentType other) (Model.contentType uid)) := by
  unfold ReachesModel
  rw [Relation.reflTransGen_iff_eq_or_transGen]
  constructor
  · intro h
    rcases h with heq | hchain
    · exact Or.inl (Model.contentType.inj heq).symm
    · apply Or.inr
      apply And.intro _ hchain
      rcases Relation.TransGen.head'_iff.mp hchain with ⟨next, hpoints, _⟩
      rcases hpoints with ⟨attr, hdeclares, _, _⟩
      rcases hdeclares with ⟨schema, hmem, huid, _⟩
      exact ⟨schema, hmem, huid⟩
  · intro h
    rcases h with heq | ⟨_, hchain⟩
    · exact Or.inl (by rw [heq])
    · exact Or.inr hchain

/--
The rounds end, and they list once the uid itself and each content type from
which a chain of attributes leads to it.
-/
theorem getRelatedModelsUid_reachability (ignorePrivate : Bool)
    (schemas : Schemas) (uid : JsString) (huid : uid ≠ []) :
    (exists known, relatedModels ignorePrivate schemas uid = some known ∧
      getRelatedModelsUid ignorePrivate schemas uid = known.contentTypeUids) ∧
    (getRelatedModelsUid ignorePrivate schemas uid).Nodup ∧
    forall other, other ∈ getRelatedModelsUid ignorePrivate schemas uid <->
      other = uid ∨
        ((exists schema, schema ∈ schemas.contentTypes ∧ schema.uid = other) ∧
          Relation.TransGen (PointsAt ignorePrivate schemas)
            (Model.contentType other) (Model.contentType uid)) := by
  constructor
  · rcases @relatedModels_ends ignorePrivate schemas uid with ⟨known, hknown⟩
    refine ⟨known, hknown, ?_⟩
    rw [getRelatedModelsUid, if_neg huid, hknown]
    rfl
  · apply And.intro (getRelatedModelsUid_nodup ignorePrivate schemas uid)
    intro other
    rw [mem_getRelatedModelsUid huid, reachesModel_contentType_iff]

end Visits

def blockSchemas : Schemas where
  components :=
    [{ uid := "b".toList
       attributes :=
        [TraversableAttribute.mk AttributeType.component none
            (some "b".toList) none false,
          TraversableAttribute.mk AttributeType.relation
            (some "c".toList) none none false] }]
  contentTypes :=
    [{ uid := "a".toList
       attributes :=
        [TraversableAttribute.mk AttributeType.dynamiczone none none
          (some ["x".toList, "b".toList]) false] },
      { uid := "c".toList, attributes := [] }]

/-- The article leads to the category through its zone and the block. -/
theorem getRelatedModelsUid_reachability_block :
    getRelatedModelsUid true blockSchemas "c".toList =
        ["c".toList, "a".toList] ∧
      Relation.TransGen (PointsAt true blockSchemas)
        (Model.contentType "a".toList) (Model.contentType "c".toList) := by
  have hreached := (((getRelatedModelsUid_reachability true blockSchemas
    "c".toList (by decide)).right.right "a".toList).mp (by decide)).resolve_left
      (by decide)
  exact ⟨by decide, hreached.right⟩

end Config
end RestCache
