import Mathlib.Data.Option.Basic

/-!
# Optional properties

An optional property of an object may be missing, and it may be there with the
value undefined.  Spreading an object and destructuring it tell the two apart in
different ways.
-/

namespace RestCache
namespace Foundation

inductive Property (value : Type _) where
  | absent
  | undefined
  | value (v : value)
deriving DecidableEq

namespace Property

variable {value : Type _}

/-- What reading the property gives; `none` is undefined. -/
def get? : Property value -> Option value
  | absent => none
  | undefined => none
  | Property.value v => some v

def getD (p : Property value) (default : value) : value :=
  p.get?.getD default

/-- A property that is written, with a value that may be undefined. -/
def ofOption : Option value -> Property value
  | none => undefined
  | some v => Property.value v

/-- The property of `{ ...q, ...p }`. -/
def spreadOver : Property value -> Property value -> Property value
  | absent, q => q
  | p, _ => p

def definedOnly : Property value -> Property value
  | undefined => absent
  | p => p

@[simp]
theorem get?_ofOption (o : Option value) : (ofOption o).get? = o := by
  cases o <;> rfl

theorem get?_definedOnly (p : Property value) :
    p.definedOnly.get? = p.get? := by
  cases p <;> rfl

theorem definedOnly_eq (p : Property value) :
    p.definedOnly = (p.get?.map Property.value).getD absent := by
  cases p <;> rfl

/-- What is defined goes over the rest. -/
theorem get?_spreadOver_definedOnly (p q : Property value) :
    (p.definedOnly.spreadOver q).get? = p.get?.or q.get? := by
  cases p <;> rfl

/-!
## Leaving out what is undefined
-/

/--
The second property is the first one, or it is left out where the first one is
undefined.  Values are related by `R`.
-/
inductive Drops (R : value -> value -> Prop) :
    Property value -> Property value -> Prop where
  | absent : Drops R absent absent
  | undefined : Drops R undefined undefined
  | dropped : Drops R undefined absent
  | value {v w : value} : R v w -> Drops R (Property.value v) (Property.value w)

variable {R : value -> value -> Prop} {p q : Property value}

theorem Drops.same (p : Property value) : Drops Eq p p := by
  cases p with
  | absent => exact Drops.absent
  | undefined => exact Drops.undefined
  | value v => exact Drops.value rfl

theorem Drops.get?_eq (h : Drops Eq p q) : p.get? = q.get? := by
  cases h with
  | absent => rfl
  | undefined => rfl
  | dropped => rfl
  | value hvalue => rw [hvalue]

theorem Drops.definedOnly_eq (h : Drops Eq p q) :
    p.definedOnly = q.definedOnly := by
  rw [Property.definedOnly_eq, Property.definedOnly_eq, h.get?_eq]

theorem Drops.congr_get? {result : Type _} {f : Option value -> result}
    (h : Drops R p q) (hf : forall v w, R v w -> f (some v) = f (some w)) :
    f p.get? = f q.get? := by
  cases h with
  | absent => rfl
  | undefined => rfl
  | dropped => rfl
  | value hvalue => exact hf _ _ hvalue

theorem Drops.getD_rel (h : Drops R p q) {default : value}
    (hdefault : R default default) : R (p.getD default) (q.getD default) := by
  cases h with
  | absent => exact hdefault
  | undefined => exact hdefault
  | dropped => exact hdefault
  | value hvalue => exact hvalue

theorem Drops.getD_eq (h : Drops Eq p q) (default : value) :
    p.getD default = q.getD default :=
  h.getD_rel rfl

end Property

end Foundation
end RestCache
