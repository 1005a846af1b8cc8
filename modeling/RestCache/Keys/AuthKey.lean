import RestCache.Foundation.UriComponent

/-!
# The identity part of a cache key

Only the strategy's name and the credentials' id and type are read: everything
else in the credentials may be secret or volatile.
-/

namespace RestCache
namespace Keys

open Foundation

/-- A string, or a number, which is given by the digits it prints as. -/
inductive CredentialId where
  | string (s : JsString)
  | number (digits : JsString)
deriving DecidableEq

structure Credentials where
  id : Option CredentialId
  type : Option JsString
deriving DecidableEq

structure Strategy where
  name : Option JsString
deriving DecidableEq

structure AuthState where
  strategy : Option Strategy
  credentials : Option Credentials
deriving DecidableEq

def AuthState.strategyName (auth : AuthState) : Option JsString :=
  auth.strategy.bind Strategy.name

/-!
The strategies the plugin knows, and the words a key is built of.
-/

def usersPermissionsName : JsString := "users-permissions".toList
def apiTokenName : JsString := "api-token".toList
def contentApiTokenName : JsString := "content-api-token".toList
def adminName : JsString := "admin".toList
def adminTokenName : JsString := "admin-token".toList
def unauthenticated : JsString := "unauthenticated".toList
def undefinedText : JsString := "undefined".toList
def publicText : JsString := "public".toList
def userPublic : JsString := "up:public".toList
def userPrefix : JsString := "up:".toList
def tokenPrefix : JsString := "token:".toList
def adminPrefix : JsString := "admin:".toList
def strategyPrefix : JsString := "strategy:".toList

def idText : Option CredentialId -> JsString
  | some (CredentialId.string s) => s
  | some (CredentialId.number digits) => digits
  | none => undefinedText

def typeText (type : Option JsString) : JsString :=
  type.getD undefinedText

def generateAuthKey (state : Option AuthState) : JsString :=
  match state with
  | none => unauthenticated
  | some auth =>
      let credentials := auth.credentials
      match auth.strategyName with
      | none => unauthenticated
      | some strategyName =>
          if strategyName = usersPermissionsName then
            match credentials with
            | none => userPublic
            | some c => userPrefix ++ idText c.id
          else if strategyName = apiTokenName ∨
              strategyName = contentApiTokenName then
            tokenPrefix ++ idText (credentials.bind Credentials.id) ++
              ':' :: typeText (credentials.bind Credentials.type)
          else if strategyName = adminName ∨
              strategyName = adminTokenName then
            adminPrefix ++ idText (credentials.bind Credentials.id)
          else if strategyName ≠ [] then
            strategyPrefix ++ strategyName
          else
            unauthenticated

/-!
## Callers

Who a caller is: how it was authenticated, with the old and the new name of a
strategy counted as one, and the id of its credentials.
-/

inductive Kind where
  | anonymous
  | user
  | apiToken
  | admin
  | custom (name : JsString)
deriving DecidableEq

def Kind.ofName (name : JsString) : Kind :=
  if name = usersPermissionsName then Kind.user
  else if name = apiTokenName ∨ name = contentApiTokenName then
    Kind.apiToken
  else if name = adminName ∨ name = adminTokenName then Kind.admin
  else if name ≠ [] then Kind.custom name
  else Kind.anonymous

def strategyKind (state : Option AuthState) : Kind :=
  match state.bind AuthState.strategyName with
  | none => Kind.anonymous
  | some name => Kind.ofName name

def credentialsOf (state : Option AuthState) : Option Credentials :=
  state.bind AuthState.credentials

def credentialsId (state : Option AuthState) : Option CredentialId :=
  (credentialsOf state).bind Credentials.id

/-- Two callers that must not share an answer. -/
def Different (a b : Option AuthState) : Prop :=
  strategyKind a ≠ strategyKind b ∨ credentialsId a ≠ credentialsId b

def identityText (kind : Kind) (state : Option AuthState) : JsString :=
  match kind with
  | Kind.anonymous => []
  | Kind.user =>
      match credentialsOf state with
      | none => publicText
      | some c => idText c.id
  | Kind.apiToken =>
      idText (credentialsId state) ++
        ':' :: typeText ((credentialsOf state).bind Credentials.type)
  | Kind.admin => idText (credentialsId state)
  | Kind.custom _ => []

/-- Different ids of one kind of caller that print alike, or not at all. -/
def Confusable (a b : Option AuthState) : Prop :=
  strategyKind a = strategyKind b ∧ credentialsId a ≠ credentialsId b ∧
    identityText (strategyKind a) a = identityText (strategyKind b) b

/-!
## What the identity part tells apart
-/

def Kind.label : Kind -> JsString
  | Kind.anonymous => unauthenticated
  | Kind.user => userPrefix
  | Kind.apiToken => tokenPrefix
  | Kind.admin => adminPrefix
  | Kind.custom name => strategyPrefix ++ name

theorem identityText_user (auth : AuthState) :
    identityText Kind.user (some auth) =
      match auth.credentials with
      | none => publicText
      | some c => idText c.id := rfl

theorem generateAuthKey_eq_label (state : Option AuthState) :
    generateAuthKey state =
      (strategyKind state).label ++ identityText (strategyKind state) state := by
  cases state with
  | none => simp only [generateAuthKey, strategyKind, Option.bind_none,
      Kind.label, identityText, List.append_nil]
  | some auth =>
      cases hname : auth.strategyName with
      | none => simp only [generateAuthKey, strategyKind, Option.bind_some,
          hname, Kind.label, identityText, List.append_nil]
      | some name =>
          have hkind : strategyKind (some auth) = Kind.ofName name := by
            simp only [strategyKind, Option.bind_some, hname]
          rw [hkind]
          simp only [generateAuthKey, hname, Kind.ofName]
          by_cases huser : name = usersPermissionsName
          · rw [if_pos huser, if_pos huser, identityText_user]
            cases auth.credentials with
            | none => simp only [Kind.label]; decide
            | some c => simp only [Kind.label]
          · rw [if_neg huser, if_neg huser]
            by_cases htoken : name = apiTokenName ∨
                name = contentApiTokenName
            · rw [if_pos htoken, if_pos htoken]
              simp only [Kind.label, identityText, credentialsId,
                credentialsOf, Option.bind_some, List.append_assoc]
            · rw [if_neg htoken, if_neg htoken]
              by_cases hadmin : name = adminName ∨
                  name = adminTokenName
              · rw [if_pos hadmin, if_pos hadmin]
                simp only [Kind.label, identityText, credentialsId,
                  credentialsOf, Option.bind_some]
              · rw [if_neg hadmin, if_neg hadmin]
                by_cases hempty : name = []
                · rw [if_neg (not_not_intro hempty),
                    if_neg (not_not_intro hempty)]
                  simp only [Kind.label, identityText, List.append_nil]
                · rw [if_pos hempty, if_pos hempty]
                  simp only [Kind.label, identityText, List.append_nil]

def Kind.initials : Kind -> JsString
  | Kind.anonymous => ['u', 'n']
  | Kind.user => ['u', 'p']
  | Kind.apiToken => ['t', 'o']
  | Kind.admin => ['a', 'd']
  | Kind.custom _ => ['s', 't']

theorem take_label (k : Kind) (t : JsString) :
    (k.label ++ t).take 2 = k.initials := by
  cases k <;> rfl

theorem kind_of_initials {k l : Kind} (h : k.initials = l.initials) :
    k = l ∨ exists name other, k = Kind.custom name ∧ l = Kind.custom other := by
  cases k <;> cases l <;> first
    | exact Or.inl rfl
    | exact Or.inr ⟨_, _, rfl, rfl⟩
    | simp [Kind.initials] at h

theorem label_cancel {k l : Kind} {a b : Option AuthState}
    (h : k.label ++ identityText k a = l.label ++ identityText l b) :
    k = l ∧ identityText k a = identityText l b := by
  have hinitials : k.initials = l.initials := by
    rw [← take_label k (identityText k a), h, take_label]
  have hkind : k = l := by
    rcases kind_of_initials hinitials with hkind | ⟨name, other, hk, hl⟩
    · exact hkind
    · subst hk hl
      simp only [Kind.label, identityText, List.append_nil] at h
      rw [List.append_cancel_left h]
  subst hkind
  exact ⟨rfl, List.append_cancel_left h⟩

theorem generateAuthKey_eq_iff {a b : Option AuthState} :
    generateAuthKey a = generateAuthKey b <->
      strategyKind a = strategyKind b ∧
        identityText (strategyKind a) a = identityText (strategyKind b) b := by
  rw [generateAuthKey_eq_label, generateAuthKey_eq_label]
  constructor
  · exact label_cancel
  · intro h
    rcases h with ⟨hkind, htext⟩
    rw [htext, hkind]

theorem generateAuthKey_separates_iff (a b : Option AuthState) :
    (Different a b -> generateAuthKey a ≠ generateAuthKey b) <->
      ¬ Confusable a b := by
  rw [Ne, generateAuthKey_eq_iff]
  constructor
  · intro hseparates h
    rcases h with ⟨hkind, hid, htext⟩
    exact hseparates (Or.inr hid) ⟨hkind, htext⟩
  · intro hconfusable hdifferent h
    rcases h with ⟨hkind, htext⟩
    rcases hdifferent with hother | hid
    · exact hother hkind
    · exact hconfusable ⟨hkind, hid, htext⟩

/-!
## Suffixes

The identity part is the end of a key, so a key with `_etag` appended is read as
the key of a caller whose identity part ends that way.
-/

/-- The first caller's identity is printed as the second's and the suffix. -/
def Extends (a b : Option AuthState) (suffix : JsString) : Prop :=
  match strategyKind a, strategyKind b with
  | Kind.custom name, Kind.custom other => name = other ++ suffix
  | k, l => k = l ∧ identityText k a = identityText l b ++ suffix

theorem generateAuthKey_initials (state : Option AuthState)
    (suffix : JsString) :
    (generateAuthKey state ++ suffix).take 2 =
      (strategyKind state).initials := by
  rw [generateAuthKey_eq_label, List.append_assoc]
  exact take_label _ _

theorem extends_of_generateAuthKey {a b : Option AuthState} {suffix : JsString}
    (h : generateAuthKey a = generateAuthKey b ++ suffix) :
    Extends a b suffix := by
  have hinitials : (strategyKind a).initials = (strategyKind b).initials := by
    rw [← generateAuthKey_initials a [], ← generateAuthKey_initials b suffix,
      List.append_nil, h]
  rw [generateAuthKey_eq_label, generateAuthKey_eq_label,
    List.append_assoc] at h
  unfold Extends
  rcases kind_of_initials hinitials with hkind | ⟨name, other, ha, hb⟩
  · rw [hkind] at h
    have htext := List.append_cancel_left h
    rw [hkind]
    split
    · rename_i name other ha hb
      rw [hb] at ha htext
      injection ha with hname
      simp only [identityText, List.nil_append] at htext
      rw [hname, ← htext, List.append_nil]
    · exact ⟨rfl, htext⟩
  · rw [ha, hb] at h ⊢
    simp only [Kind.label, identityText, List.append_nil, List.nil_append,
      List.append_assoc] at h
    exact List.append_cancel_left h

theorem generateAuthKey_ne {state : Option AuthState} {suffix : JsString}
    (h : suffix.head? ≠ some 'u' ∧ suffix.head? ≠ some 't' ∧
      suffix.head? ≠ some 'a' ∧ suffix.head? ≠ some 's') :
    generateAuthKey state ≠ suffix := by
  intro heq
  have hinitials := generateAuthKey_initials state []
  rw [List.append_nil, heq] at hinitials
  have hhead : suffix.head? = (strategyKind state).initials.head? := by
    rw [← hinitials]
    cases suffix <;> rfl
  rw [hhead] at h
  revert h
  cases strategyKind state <;> simp [Kind.initials]

end Keys
end RestCache
