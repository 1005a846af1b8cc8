import RestCache.Foundation.UriComponent

/-!
# Hitpass

A hitpass says of a request whether it bypasses the cache: a boolean, or a
function of the request that may be asynchronous.  What is awaited may fail, or
never settle.
-/

namespace RestCache
namespace Strategy

open Foundation

inductive Failure where
  | rejected (reason : JsString)
  | pending
deriving DecidableEq

abbrev Awaited (value : Type _) := Except Failure value

/-- A function's answer is only tested for truthiness. -/
inductive Hitpass (Context : Type _) where
  | bool (b : Bool)
  | function (f : Context -> Awaited Bool)

variable {Context : Type _}

/-- `none` is an undefined hitpass. -/
def shouldLookup (ctx : Context) : Option (Hitpass Context) -> Awaited Bool
  | some (Hitpass.bool b) => Except.ok !b
  | some (Hitpass.function f) => (f ctx).map fun bypass => !bypass
  | none => Except.ok false

/-- `!(await a()) || !(await b())`; the second call is only made if needed. -/
def eitherBypasses (a b : Awaited Bool) : Awaited Bool :=
  a.bind fun lookup =>
    if lookup then b.map fun lookup => !lookup else Except.ok true

/-- `useAuth` as it was configured: a boolean, or what a script passed instead. -/
inductive UseAuth where
  | bool (b : Bool)
  | other (truthy : Bool)
deriving DecidableEq

def UseAuth.truthy : UseAuth -> Bool
  | UseAuth.bool b => b
  | UseAuth.other truthy => truthy

def listedRouteHitpass
    (strategyHitpass contentTypeHitpass : Option (Hitpass Context))
    (useAuth : UseAuth) : Option (Hitpass Context) :=
  match contentTypeHitpass with
  | none => strategyHitpass
  | some contentTypeHitpass =>
      if useAuth = UseAuth.bool true then
        some contentTypeHitpass
      else
        some (Hitpass.function fun ctx =>
          eitherBypasses (shouldLookup ctx strategyHitpass)
            (shouldLookup ctx (some contentTypeHitpass)))

/-!
## Looking up
-/

theorem eitherBypasses_eq_false {a b : Awaited Bool} :
    eitherBypasses a b = Except.ok false <->
      a = Except.ok true ∧ b = Except.ok true := by
  cases a with
  | error failure => simp [eitherBypasses, Except.bind]
  | ok lookup =>
      cases lookup with
      | false => simp [eitherBypasses, Except.bind]
      | true =>
          cases b with
          | error failure => simp [eitherBypasses, Except.bind, Except.map]
          | ok lookup =>
              cases lookup <;> simp [eitherBypasses, Except.bind, Except.map]

theorem map_not_eq_true {a : Awaited Bool} :
    (a.map fun b => !b) = Except.ok true <-> a = Except.ok false := by
  cases a with
  | error failure => simp [Except.map]
  | ok b => cases b <;> simp [Except.map]

/-- A bypass added on top of the strategy's never looks up more. -/
theorem shouldLookup_listed {ctx : Context}
    {strategyHitpass : Option (Hitpass Context)}
    {contentTypeHitpass : Hitpass Context} {useAuth : UseAuth}
    (hauth : useAuth ≠ UseAuth.bool true) :
    shouldLookup ctx (listedRouteHitpass strategyHitpass
        (some contentTypeHitpass) useAuth) = Except.ok true <->
      shouldLookup ctx strategyHitpass = Except.ok true ∧
        shouldLookup ctx (some contentTypeHitpass) = Except.ok true := by
  rw [listedRouteHitpass]
  simp only [if_neg hauth]
  exact map_not_eq_true.trans eitherBypasses_eq_false

end Strategy
end RestCache
