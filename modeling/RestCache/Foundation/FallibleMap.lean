import Mathlib.Data.List.Forall2

/-!
# Mapping with a function that may fail

The first element that fails decides what the whole map fails with.  If none
does, results and elements correspond one by one.
-/

namespace RestCache
namespace Foundation

variable {source target error : Type _} {f : source -> Except error target}

theorem exists_of_isOk {x : Except error source} (h : x.isOk = true) :
    exists a, x = Except.ok a := by
  cases x with
  | error e => exact absurd h Bool.false_ne_true
  | ok a => exact ⟨a, rfl⟩

theorem map_eq_ok {x : Except error source} {g : source -> target} {y : target} :
    x.map g = Except.ok y <-> exists a, x = Except.ok a ∧ g a = y := by
  cases x with
  | error e => simp [Except.map]
  | ok a => simp [Except.map]

theorem bind_eq_ok {x : Except error source} {y : target} :
    x.bind f = Except.ok y <-> exists a, x = Except.ok a ∧ f a = Except.ok y := by
  cases x with
  | error e => simp [Except.bind]
  | ok a => simp [Except.bind]

theorem mapM_eq_ok {l : List source} {results : List target} :
    l.mapM f = Except.ok results <->
      List.Forall₂ (fun x y => f x = Except.ok y) l results := by
  induction l generalizing results with
  | nil =>
      rw [List.mapM_nil, List.forall₂_nil_left_iff]
      exact Except.ok.injEq [] results ▸ eq_comm
  | cons x l ih =>
      rw [List.mapM_cons, List.forall₂_cons_left_iff]
      constructor
      · intro h
        cases hx : f x with
        | error e =>
            rw [hx] at h
            exact nomatch h
        | ok y =>
            rw [hx] at h
            cases hl : l.mapM f with
            | error e =>
                rw [hl] at h
                exact nomatch h
            | ok rest =>
                rw [hl] at h
                exact ⟨y, rest, rfl, ih.mp hl, (Except.ok.inj h).symm⟩
      · intro h
        rcases h with ⟨y, rest, hx, hrest, rfl⟩
        rw [hx, ih.mpr hrest]
        rfl

theorem mapM_eq_mapM {other : Type _} {g : other -> Except error target}
    {l : List source} {k : List other}
    (h : List.Forall₂ (fun x y => f x = g y) l k) : l.mapM f = k.mapM g := by
  induction h with
  | nil => rfl
  | cons hxy _ ih => rw [List.mapM_cons, List.mapM_cons, hxy, ih]

/-!
## Corresponding elements
-/

section Related

variable {R : source -> target -> Prop} {l : List source} {k : List target}

theorem exists_related_left (h : List.Forall₂ R l k) {x : source}
    (hx : x ∈ l) : exists y, y ∈ k ∧ R x y := by
  induction h with
  | nil => exact absurd hx List.not_mem_nil
  | cons hR _ ih =>
      rcases List.mem_cons.mp hx with rfl | hx
      · exact ⟨_, List.mem_cons_self, hR⟩
      · rcases ih hx with ⟨y, hy, hxy⟩
        exact ⟨y, List.mem_cons_of_mem _ hy, hxy⟩

theorem exists_related_right (h : List.Forall₂ R l k) {y : target}
    (hy : y ∈ k) : exists x, x ∈ l ∧ R x y := by
  induction h with
  | nil => exact absurd hy List.not_mem_nil
  | cons hR _ ih =>
      rcases List.mem_cons.mp hy with rfl | hy
      · exact ⟨_, List.mem_cons_self, hR⟩
      · rcases ih hy with ⟨x, hx, hxy⟩
        exact ⟨x, List.mem_cons_of_mem _ hx, hxy⟩

theorem exists_related_at (h : List.Forall₂ R l k) {i : Nat} {x : source}
    (hx : l[i]? = some x) : exists y, k[i]? = some y ∧ R x y := by
  induction h generalizing i with
  | nil => exact nomatch hx
  | cons hR _ ih =>
      cases i with
      | zero =>
          rcases Option.some.inj hx with rfl
          exact ⟨_, rfl, hR⟩
      | succ i => exact ih hx

theorem related_through {next : Type _} {S : target -> next -> Prop}
    {m : List next} (h : List.Forall₂ R l k) (hS : List.Forall₂ S k m) :
    List.Forall₂ (fun x z => exists y, R x y ∧ S y z) l m := by
  induction h generalizing m with
  | nil =>
      rcases List.forall₂_nil_left_iff.mp hS with rfl
      exact List.Forall₂.nil
  | cons hR _ ih =>
      rcases List.forall₂_cons_left_iff.mp hS with ⟨z, rest, hz, hrest, rfl⟩
      exact List.Forall₂.cons ⟨_, hR, hz⟩ (ih hrest)

end Related

/-!
## Maps that succeed
-/

theorem of_mapM_ok {l : List source} {results : List target}
    (h : l.mapM f = Except.ok results) :
    forall x, x ∈ l -> exists y, f x = Except.ok y := by
  intro x hx
  rcases exists_related_left (mapM_eq_ok.mp h) hx with ⟨y, _, hy⟩
  exact ⟨y, hy⟩

theorem mem_of_mapM_ok {l : List source} {results : List target}
    (h : l.mapM f = Except.ok results) {y : target} :
    y ∈ results <-> exists x, x ∈ l ∧ f x = Except.ok y := by
  constructor
  · exact exists_related_right (mapM_eq_ok.mp h)
  · intro hy
    rcases hy with ⟨x, hx, hxy⟩
    rcases exists_related_left (mapM_eq_ok.mp h) hx with ⟨z, hz, hxz⟩
    rw [hxy, Except.ok.injEq] at hxz
    exact hxz ▸ hz

theorem mapM_ok {l : List source}
    (h : forall x, x ∈ l -> exists y, f x = Except.ok y) :
    exists ys, l.mapM f = Except.ok ys ∧
      (forall y, y ∈ ys <-> exists x, x ∈ l ∧ f x = Except.ok y) := by
  have hresults : exists ys, l.mapM f = Except.ok ys := by
    induction l with
    | nil => exact ⟨[], rfl⟩
    | cons x l ih =>
        rcases h x List.mem_cons_self with ⟨y, hy⟩
        rcases ih (fun z hz => h z (List.mem_cons_of_mem x hz)) with ⟨ys, hys⟩
        refine ⟨y :: ys, ?_⟩
        rw [List.mapM_cons, hy, hys]
        rfl
  rcases hresults with ⟨ys, hys⟩
  exact ⟨ys, hys, fun y => mem_of_mapM_ok hys⟩

end Foundation
end RestCache
