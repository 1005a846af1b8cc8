import Mathlib.Data.Fintype.Card
import Mathlib.Data.List.Forall2

/-!
# Depth-first visits without a record of what was visited

A visit of a node visits what is below it and then the node, and gives up where
the depth that it may use runs out.  Nothing is remembered, so that a node below
two others is visited twice, and a node below itself for ever.
-/

namespace RestCache
namespace Foundation

namespace DepthFirst

variable {node : Type _}

/-- The nodes in the order of their visits; `none` where the depth runs out. -/
def postorder (below : node -> List node) : Nat -> node -> Option (List node)
  | 0, _ => none
  | depth + 1, a =>
      ((below a).mapM (postorder below depth)).map
        (fun visited => visited.flatten ++ [a])

/-- There is a way down from one node to another, or they are the same. -/
def Reaches (below : node -> List node) : node -> node -> Prop :=
  Relation.ReflTransGen (fun a b => b ∈ below a)

def Descends (below : node -> List node) : node -> node -> Prop :=
  Relation.TransGen (fun a b => b ∈ below a)

def Ends (below : node -> List node) (a : node) : Prop :=
  Acc (fun b a => b ∈ below a) a

variable {below : node -> List node} {depth : Nat} {a b : node}

/-!
## One visit
-/

theorem mapM_eq_some {source target : Type _} {f : source -> Option target}
    {l : List source} {results : List target} :
    l.mapM f = some results <->
      List.Forall₂ (fun x y => f x = some y) l results := by
  induction l generalizing results with
  | nil =>
      rw [List.mapM_nil, List.forall₂_nil_left_iff]
      exact (Option.some.injEq [] results).to_iff.trans eq_comm
  | cons x l ih =>
      rw [List.mapM_cons, List.forall₂_cons_left_iff]
      constructor
      · intro h
        rcases Option.bind_eq_some_iff.mp h with ⟨y, hx, h⟩
        rcases Option.bind_eq_some_iff.mp h with ⟨rest, hrest, h⟩
        exact ⟨y, rest, hx, ih.mp hrest, (Option.some.inj h).symm⟩
      · intro h
        rcases h with ⟨y, rest, hx, hrest, rfl⟩
        rw [hx, ih.mpr hrest]
        rfl

theorem postorder_succ {visited : List node} :
    postorder below (depth + 1) a = some visited <->
      exists parts, List.Forall₂ (fun b part =>
        postorder below depth b = some part) (below a) parts ∧
        visited = parts.flatten ++ [a] := by
  rw [postorder, Option.map_eq_some_iff]
  constructor
  · intro h
    rcases h with ⟨parts, hparts, rfl⟩
    exact ⟨parts, mapM_eq_some.mp hparts, rfl⟩
  · intro h
    rcases h with ⟨parts, hparts, rfl⟩
    exact ⟨parts, mapM_eq_some.mpr hparts, rfl⟩

theorem exists_postorder_succ :
    (exists visited, postorder below (depth + 1) a = some visited) <->
      forall b, b ∈ below a -> exists part, postorder below depth b = some part := by
  constructor
  · intro h b hb
    rcases h with ⟨visited, h⟩
    rcases postorder_succ.mp h with ⟨parts, hparts, _⟩
    rcases List.mem_iff_getElem.mp hb with ⟨i, hi, rfl⟩
    exact ⟨_, (List.forall₂_iff_get.mp hparts).right i hi
      ((List.Forall₂.length_eq hparts) ▸ hi)⟩
  · intro h
    have hparts : forall l : List node, (forall b, b ∈ l ->
        exists part, postorder below depth b = some part) ->
        exists parts, List.Forall₂ (fun b part =>
          postorder below depth b = some part) l parts := by
      intro l
      induction l with
      | nil =>
          intro _
          exact ⟨[], List.Forall₂.nil⟩
      | cons b rest ih =>
          intro hl
          rcases hl b List.mem_cons_self with ⟨part, hpart⟩
          rcases ih (fun c hc => hl c (List.mem_cons_of_mem b hc)) with
            ⟨parts, hparts⟩
          exact ⟨part :: parts, List.Forall₂.cons hpart hparts⟩
    rcases hparts (below a) h with ⟨parts, hparts⟩
    exact ⟨_, postorder_succ.mpr ⟨parts, hparts, rfl⟩⟩

/-!
## What is visited
-/

theorem mem_flatten_parts {parts : List (List node)} {l : List node}
    (h : List.Forall₂ (fun b part => postorder below depth b = some part)
      l parts) :
    b ∈ parts.flatten <->
      exists c part, c ∈ l ∧ postorder below depth c = some part ∧ b ∈ part := by
  induction h with
  | nil => simp
  | @cons c part l parts hc _ ih =>
      rw [List.flatten_cons, List.mem_append, ih]
      constructor
      · intro h
        rcases h with hb | ⟨d, other, hd, hother, hb⟩
        · exact ⟨c, part, List.mem_cons_self, hc, hb⟩
        · exact ⟨d, other, List.mem_cons_of_mem c hd, hother, hb⟩
      · intro h
        rcases h with ⟨d, other, hd, hother, hb⟩
        rcases List.mem_cons.mp hd with rfl | hd
        · rw [hc, Option.some.injEq] at hother
          exact Or.inl (hother ▸ hb)
        · exact Or.inr ⟨d, other, hd, hother, hb⟩

/-- A visit that ends has visited exactly what can be reached. -/
theorem mem_postorder {visited : List node}
    (h : postorder below depth a = some visited) :
    b ∈ visited <-> Reaches below a b := by
  induction depth generalizing a visited with
  | zero => cases h
  | succ depth ih =>
      have hall := exists_postorder_succ.mp ⟨visited, h⟩
      rcases postorder_succ.mp h with ⟨parts, hparts, rfl⟩
      rw [List.mem_append, List.mem_singleton, mem_flatten_parts hparts]
      constructor
      · intro hb
        rcases hb with ⟨c, part, hc, hpart, hb⟩ | rfl
        · exact Relation.ReflTransGen.head hc ((ih hpart).mp hb)
        · exact Relation.ReflTransGen.refl
      · intro hb
        rcases Relation.ReflTransGen.cases_head hb with rfl | ⟨c, hc, hcb⟩
        · exact Or.inr rfl
        · rcases hall c hc with ⟨part, hpart⟩
          exact Or.inl ⟨c, part, hc, hpart, (ih hpart).mpr hcb⟩

/-!
## The visits that end
-/

theorem exists_postorder_mono {more : Nat} (hle : depth ≤ more)
    (h : exists visited, postorder below depth a = some visited) :
    exists visited, postorder below more a = some visited := by
  induction depth generalizing a more with
  | zero =>
      rcases h with ⟨_, h⟩
      cases h
  | succ depth ih =>
      cases more with
      | zero => exact absurd hle (Nat.not_succ_le_zero depth)
      | succ more =>
          apply exists_postorder_succ.mpr
          intro b hb
          exact ih (Nat.le_of_succ_le_succ hle) (exists_postorder_succ.mp h b hb)

theorem ends_of_postorder {visited : List node}
    (h : postorder below depth a = some visited) : Ends below a := by
  induction depth generalizing a visited with
  | zero => cases h
  | succ depth ih =>
      apply Acc.intro
      intro b hb
      rcases exists_postorder_succ.mp ⟨visited, h⟩ b hb with ⟨part, hpart⟩
      exact ih hpart

theorem exists_postorder_of_ends (h : Ends below a) :
    exists depth visited, postorder below depth a = some visited := by
  induction h with
  | intro a _ ih =>
      -- finitely many nodes are right below, so one depth is enough for all
      have hcommon : forall l : List node, (forall b, b ∈ l -> b ∈ below a) ->
          exists depth, forall b, b ∈ l ->
            exists part, postorder below depth b = some part := by
        intro l
        induction l with
        | nil =>
            intro _
            exact ⟨0, fun b hb => absurd hb List.not_mem_nil⟩
        | cons c rest ihrest =>
            intro hl
            rcases ih c (hl c List.mem_cons_self) with ⟨mine, hmine⟩
            rcases ihrest (fun b hb => hl b (List.mem_cons_of_mem c hb)) with
              ⟨theirs, htheirs⟩
            refine ⟨max mine theirs, ?_⟩
            intro b hb
            rcases List.mem_cons.mp hb with rfl | hb
            · exact exists_postorder_mono (Nat.le_max_left _ _) hmine
            · exact exists_postorder_mono (Nat.le_max_right _ _) (htheirs b hb)
      rcases hcommon (below a) (fun _ hb => hb) with ⟨depth, hdepth⟩
      exact ⟨depth + 1, exists_postorder_succ.mpr hdepth⟩

/-- Some depth is enough exactly for a node from which every way down ends. -/
theorem exists_postorder_iff_ends :
    (exists depth visited, postorder below depth a = some visited) <->
      Ends below a := by
  constructor
  · intro h
    rcases h with ⟨_, _, h⟩
    exact ends_of_postorder h
  · exact exists_postorder_of_ends

/-!
## Ways down that come back
-/

theorem ends_of_reaches (h : Ends below a) (hb : Reaches below a b) :
    Ends below b := by
  induction hb with
  | refl => exact h
  | tail _ hstep ih => exact Acc.inv ih hstep

theorem not_descends_self (h : Ends below a) : ¬ Descends below a a := by
  intro hcycle
  induction h with
  | intro a _ ih =>
      rcases Relation.TransGen.head'_iff.mp hcycle with ⟨b, hb, hback⟩
      exact ih b hb (Relation.TransGen.tail' hback hb)

/-- Among finitely many nodes a way down ends unless it comes back. -/
theorem ends_iff_acyclic (hfinite : {b | Reaches below a b}.Finite) :
    Ends below a <-> forall b, Reaches below a b -> ¬ Descends below b b := by
  constructor
  · intro h b hb
    exact not_descends_self (ends_of_reaches h hb)
  · intro h
    have hreached : Finite {b // Reaches below a b} := hfinite.to_subtype
    let under (x y : {b // Reaches below a b}) : Prop := Descends below y.1 x.1
    have htrans : IsTrans _ under :=
      ⟨fun _ _ _ hxy hyz => Relation.TransGen.trans hyz hxy⟩
    have hirrefl : Std.Irrefl under := ⟨fun x => h x.1 x.2⟩
    have hwell : WellFounded under := Finite.wellFounded_of_trans_of_irrefl under
    have hall : forall x : {b // Reaches below a b}, Ends below x.1 := by
      intro x
      induction x using hwell.induction with
      | _ x ih =>
          apply Acc.intro
          intro b hb
          exact ih ⟨b, Relation.ReflTransGen.tail x.2 hb⟩
            (Relation.TransGen.single hb)
    exact hall ⟨a, Relation.ReflTransGen.refl⟩

end DepthFirst

end Foundation
end RestCache
