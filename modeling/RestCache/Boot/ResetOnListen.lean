import RestCache.Foundation.Transition
import RestCache.Store.ProviderContract

/-!
# The reset when a server starts

Processes come and go around one provider.  One that is told to reset on startup
does so in its first call of `listen`, call by call, while others go on serving.
What it reads once it serves was written after that call.  A process that does
not listen, or is not told to reset, leaves no trace.
-/

namespace RestCache
namespace Boot

open Foundation
open Foundation.Transition
open Config
open Store

/-!
## The reset, call by call
-/

/-- What a reset waits for. -/
inductive ResetPc where
  | keys
  | delMany (listed : List JsString)
  | returned

section Reset

variable {σ : Type} (self : CacheStore) (provider : CacheProvider σ)

def resetStart (s : State σ) : ResetPc × State σ :=
  if self.unusable provider s then (ResetPc.returned, s)
  else (ResetPc.keys, s.record none)

/-- The call that the reset waits for takes effect. -/
def resetNext (s : State σ) : ResetPc -> ResetPc × State σ
  | ResetPc.keys =>
      if self.keysPrefix ≠ [] then
        match self.keys provider s with
        | (Except.error _, s) => (ResetPc.returned, s)
        | (Except.ok listed, s) => (ResetPc.delMany (listed.getD []), s)
      else
        (ResetPc.returned, { s with held := (provider.clear s.held).2 })
  | ResetPc.delMany listed =>
      (ResetPc.returned, (self.delMany provider listed s).2)
  | ResetPc.returned => (ResetPc.returned, s)

end Reset

/-!
## Processes around a provider
-/

structure PluginOption where
  keysPrefix : JsString
  resetOnStartup : Bool

def PluginOption.store (pluginOption : PluginOption) : CacheStore :=
  prefixed pluginOption.keysPrefix

/-- `strapi.listen`: the instance's own, or the one that wraps it. -/
inductive Listen where
  | own
  | resetsFirst

inductive Phase where
  | down
  | loaded (listen : Listen)
  | resetting (pc : ResetPc)
  | serving

/-- A process, and how many calls had been made when it last called `listen`. -/
structure Instance where
  phase : Phase
  log : PurgeLog
  since : Nat

/-- The provider, the processes, the calls so far and which of them wrote a key. -/
structure World (ι σ : Type) where
  held : σ
  instances : ι -> Instance
  born : JsString -> Nat
  clock : Nat

/-- A call of the provider on behalf of a request, a purge or a reset. -/
inductive Call where
  | get (key : JsString)
  | set (key val : JsString) (maxAge : Nat)
  | del (key : JsString)
  | delMany (keys : List JsString)
  | keys (keysPrefix : JsString)
  | clear

/--
What happens next.  A call of the provider belongs to no process here: it may be
that of any of them, of one that is gone, or of another program.
-/
inductive Event (ι : Type) where
  | load (i : ι)
  | listen (i : ι)
  | advance (i : ι)
  | exit (i : ι)
  | call (c : Call)
  | expire (key : JsString)
  | tidy

section World

variable {ι σ : Type} [DecidableEq ι]

namespace World

def state (w : World ι σ) (i : ι) : State σ where
  log := (w.instances i).log
  held := w.held

def become (w : World ι σ) (i : ι) (phase : Phase) (s : State σ) : World ι σ :=
  { w with
    held := s.held
    instances := Function.update w.instances i
      { w.instances i with phase, log := s.log } }

def stamp (w : World ι σ) (i : ι) : World ι σ :=
  { w with
    instances := Function.update w.instances i
      { w.instances i with since := w.clock } }

variable {w : World ι σ} {i j : ι} {phase : Phase} {s : State σ}

theorem become_self : (w.become i phase s).instances i =
    { w.instances i with phase, log := s.log } :=
  Function.update_self i _ w.instances

theorem become_other (h : j ≠ i) :
    (w.become i phase s).instances j = w.instances j :=
  Function.update_of_ne h _ w.instances

theorem stamp_self :
    (w.stamp i).instances i = { w.instances i with since := w.clock } :=
  Function.update_self i _ w.instances

theorem stamp_other (h : j ≠ i) : (w.stamp i).instances j = w.instances j :=
  Function.update_of_ne h _ w.instances

end World

def afterReset : ResetPc -> Phase
  | ResetPc.returned => Phase.serving
  | pc => Phase.resetting pc

def Call.perform (provider : CacheProvider σ) (held : σ) : Call -> σ
  | Call.get key => (provider.get key held).2
  | Call.set key val maxAge => (provider.set key val maxAge held).2
  | Call.del key => (provider.del key held).2
  | Call.delMany deleted => (provider.delMany deleted held).2
  | Call.keys begun => (provider.keys begun held).2
  | Call.clear => (provider.clear held).2

def Call.writes (key : JsString) : Call -> Bool
  | Call.set written _ _ => key = written
  | _ => false

variable (provider : CacheProvider σ) (around : Surroundings σ)
  (pluginOption : ι -> PluginOption)

def listenOf (i : ι) : Listen :=
  if (pluginOption i).resetOnStartup then Listen.resetsFirst else Listen.own

def listen (w : World ι σ) (i : ι) : Option (World ι σ) :=
  match (w.instances i).phase with
  | Phase.loaded Listen.own =>
      some ((w.stamp i).become i Phase.serving (w.state i))
  | Phase.loaded Listen.resetsFirst =>
      let z := resetStart (pluginOption i).store provider (w.state i)
      some ((w.stamp i).become i (afterReset z.1) z.2)
  -- A later call is one of the instance's own `listen`, which was put back.
  | Phase.serving => some w
  | _ => none

def step (w : World ι σ) : Event ι -> Option (World ι σ)
  | Event.load i =>
      match (w.instances i).phase with
      | Phase.down =>
          some (w.become i (Phase.loaded (listenOf pluginOption i))
            { log := PurgeLog.init, held := w.held })
      | _ => none
  | Event.listen i => listen provider pluginOption w i
  | Event.advance i =>
      match (w.instances i).phase with
      | Phase.resetting pc =>
          let z := resetNext (pluginOption i).store provider (w.state i) pc
          some (w.become i (afterReset z.1) z.2)
      | _ => none
  | Event.exit i => some (w.become i Phase.down (w.state i))
  | Event.call c =>
      some { w with
        held := c.perform provider w.held
        born := fun key => if c.writes key then w.clock else w.born key
        clock := w.clock + 1 }
  | Event.expire key => some { w with held := around.expire key w.held }
  | Event.tidy => some { w with held := around.tidy w.held }

def start (held : σ) : World ι σ where
  held
  instances _ := { phase := Phase.down, log := PurgeLog.init, since := 0 }
  born _ := 0
  clock := 1

end World

/-!
## One call
-/

section Calls

variable {σ : Type} {provider : CacheProvider σ} {Holds : σ -> Contents -> Prop}
  {held : σ} {m : Contents}

theorem call_holds (h : Contract provider Holds) (hheld : Holds held m)
    (c : Call) :
    exists m', Holds (c.perform provider held) m' ∧
      forall key, m' key ≠ none ->
        c.writes key = true ∨ c.writes key = false ∧ m' key = m key := by
  cases c with
  | get key =>
      exact ⟨m, (h.get key held m hheld).right, fun _ _ => Or.inr ⟨rfl, rfl⟩⟩
  | set key val maxAge =>
      refine ⟨_, (h.set key val maxAge held m hheld).right, ?_⟩
      intro other _
      by_cases hother : other = key
      · exact Or.inl (decide_eq_true hother)
      · exact Or.inr ⟨decide_eq_false hother, if_neg hother⟩
  | del key =>
      exact ⟨_, (h.del key held m hheld).right,
        fun other hother => Or.inr ⟨rfl, (Contents.of_remove hother).right.right⟩⟩
  | delMany keys =>
      exact ⟨_, (h.delMany keys held m hheld).right,
        fun other hother => Or.inr ⟨rfl, (Contents.of_remove hother).right.right⟩⟩
  | keys keysPrefix =>
      rcases h.keys keysPrefix held m hheld with ⟨_, _, _, hnext⟩
      exact ⟨m, hnext, fun _ _ => Or.inr ⟨rfl, rfl⟩⟩
  | clear =>
      exact ⟨_, (h.clear held m hheld).right,
        fun other hother => absurd rfl hother⟩

end Calls

/-!
## What a reset leaves
-/

/-- An entry that a process of this phase may find, by when it was written. -/
def Clean (self : CacheStore) (since born : Nat) (key : JsString) :
    Phase -> Prop
  | Phase.serving => since ≤ born
  | Phase.resetting (ResetPc.delMany listed) =>
      since ≤ born ∨ self.stripPrefix key ∈ listed
  | Phase.resetting ResetPc.returned => since ≤ born
  | _ => True

theorem clean_of_le {self : CacheStore} {since born : Nat} {key : JsString}
    (h : since ≤ born) (phase : Phase) : Clean self since born key phase := by
  cases phase with
  | down => trivial
  | loaded listen => trivial
  | serving => exact h
  | resetting pc =>
      cases pc with
      | keys => trivial
      | delMany listed => exact Or.inl h
      | returned => exact h

section Inv

variable {ι σ : Type} {provider : CacheProvider σ} {around : Surroundings σ}
  {pluginOption : ι -> PluginOption} {Holds : σ -> Contents -> Prop}
  {w : World ι σ} {m m' : Contents} {i : ι} {phase : Phase} {s : State σ}

/-- Every entry is clean to every process that resets on startup. -/
structure Inv (pluginOption : ι -> PluginOption)
    (Holds : σ -> Contents -> Prop) (w : World ι σ) (m : Contents) : Prop where
  holds : Holds w.held m
  past : forall i, (w.instances i).since ≤ w.clock
  wrapped : forall i, (pluginOption i).resetOnStartup = true ->
    (w.instances i).phase ≠ Phase.loaded Listen.own
  clean : forall i, (pluginOption i).resetOnStartup = true ->
    forall key, m key ≠ none -> (pluginOption i).store.hasPrefix key = true ->
      Clean (pluginOption i).store (w.instances i).since (w.born key) key
        (w.instances i).phase

theorem start_inv {held : σ} (h : Holds held m) :
    Inv pluginOption Holds (start held : World ι σ) m :=
  ⟨h, fun _ => Nat.zero_le 1, fun _ _ hphase => Phase.noConfusion hphase,
    fun _ _ _ _ _ => trivial⟩

theorem call_inv (hprovider : Contract provider Holds)
    (h : Inv pluginOption Holds w m) (c : Call) :
    exists m', Inv pluginOption Holds
      { w with
        held := c.perform provider w.held
        born := fun key => if c.writes key then w.clock else w.born key
        clock := w.clock + 1 } m' := by
  rcases call_holds hprovider h.holds c with ⟨m', hheld, hkept⟩
  refine ⟨m', hheld, fun j => Nat.le_succ_of_le (h.past j), h.wrapped, ?_⟩
  intro j hreset key hkey hprefixed
  rcases hkept key hkey with hwritten | ⟨hwritten, hsame⟩
  · apply clean_of_le
    simp only [hwritten, if_true]
    exact h.past j
  · simp only [hwritten, Bool.false_eq_true, if_false]
    rw [hsame] at hkey
    exact h.clean j hreset key hkey hprefixed

variable [DecidableEq ι]

theorem become_inv (h : Inv pluginOption Holds w m) (hheld : Holds s.held m')
    (hsub : forall key, m' key ≠ none -> m key ≠ none)
    (hwrapped : (pluginOption i).resetOnStartup = true ->
      phase ≠ Phase.loaded Listen.own)
    (hclean : (pluginOption i).resetOnStartup = true ->
      forall key, m' key ≠ none ->
        (pluginOption i).store.hasPrefix key = true ->
          Clean (pluginOption i).store (w.instances i).since (w.born key) key
            phase) :
    Inv pluginOption Holds (w.become i phase s) m' := by
  refine ⟨hheld, ?_, ?_, ?_⟩
  · intro j
    by_cases hj : j = i
    · rw [hj, World.become_self]
      exact h.past i
    · rw [World.become_other hj]
      exact h.past j
  · intro j hreset
    by_cases hj : j = i
    · rw [hj, World.become_self]
      rw [hj] at hreset
      exact hwrapped hreset
    · rw [World.become_other hj]
      exact h.wrapped j hreset
  · intro j hreset key hkey hprefixed
    by_cases hj : j = i
    · rw [hj, World.become_self]
      rw [hj] at hreset hprefixed
      exact hclean hreset key hkey hprefixed
    · rw [World.become_other hj]
      exact h.clean j hreset key (hsub key hkey) hprefixed

theorem stamp_inv (h : Inv pluginOption Holds w m) {called : Listen}
    (hphase : (w.instances i).phase = Phase.loaded called) :
    Inv pluginOption Holds (w.stamp i) m := by
  refine ⟨h.holds, ?_, ?_, ?_⟩
  · intro j
    by_cases hj : j = i
    · rw [hj, World.stamp_self]
      exact Nat.le_refl w.clock
    · rw [World.stamp_other hj]
      exact h.past j
  · intro j hreset
    by_cases hj : j = i
    · rw [hj, World.stamp_self]
      exact h.wrapped i (hj ▸ hreset)
    · rw [World.stamp_other hj]
      exact h.wrapped j hreset
  · intro j hreset key hkey hprefixed
    by_cases hj : j = i
    · rw [hj, World.stamp_self]
      show Clean _ w.clock _ key (w.instances i).phase
      rw [hphase]
      trivial
    · rw [World.stamp_other hj]
      exact h.clean j hreset key hkey hprefixed

theorem stored_stripPrefix {self : CacheStore} {key : JsString}
    (h : self.hasPrefix key = true) : self.stored (self.stripPrefix key) = key := by
  rcases List.isPrefixOf_iff_prefix.mp h with ⟨rest, rfl⟩
  exact congrArg self.stored (stripPrefix_stored self rest)

theorem resetNext_keys {keysPrefix : JsString} {log : PurgeLog}
    (hprovider : Contract provider Holds)
    (hs : Agrees Holds s { log, held := m }) (hkeys : keysPrefix ≠ []) :
    exists listed s', resetNext (prefixed keysPrefix) provider s ResetPc.keys =
        (ResetPc.delMany ((prefixed keysPrefix).logicalKeys listed), s') ∧
      (forall key, m key ≠ none -> key ∈ listed) ∧ Holds s'.held m := by
  rcases @keys_agrees _ _ _ keysPrefix _ _ hprovider hs with
    ⟨listed, s', hanswer, hlisted, hs'⟩
  refine ⟨listed, s', ?_, hlisted, hs'.held⟩
  show (if (prefixed keysPrefix).keysPrefix ≠ [] then _ else _) = _
  rw [if_pos (show (prefixed keysPrefix).keysPrefix ≠ [] from hkeys), hanswer]
  rfl

theorem resetNext_clear {log : PurgeLog} (hprovider : Contract provider Holds)
    (hs : Agrees Holds s { log, held := m }) :
    exists s', resetNext (prefixed []) provider s ResetPc.keys =
        (ResetPc.returned, s') ∧ Holds s'.held Contents.empty :=
  ⟨_, rfl, (hprovider.clear s.held m hs.held).right⟩

theorem advance_inv (hprovider : Contract provider Holds)
    (h : Inv pluginOption Holds w m) {pc : ResetPc}
    (hphase : (w.instances i).phase = Phase.resetting pc) :
    exists m', Inv pluginOption Holds
      (w.become i
        (afterReset
          (resetNext (pluginOption i).store provider (w.state i) pc).1)
        (resetNext (pluginOption i).store provider (w.state i) pc).2) m' := by
  have hs : Agrees Holds (w.state i) { log := (w.instances i).log, held := m } :=
    ⟨rfl, h.holds⟩
  cases pc with
  | returned =>
      refine ⟨m, become_inv h h.holds (fun _ hkey => hkey)
        (fun _ hloaded => Phase.noConfusion hloaded) ?_⟩
      intro hreset key hkey hprefixed
      have hclean := h.clean i hreset key hkey hprefixed
      rw [hphase] at hclean
      exact hclean
  | delMany listed =>
      have hheld : Holds (resetNext (pluginOption i).store provider (w.state i)
          (ResetPc.delMany listed)).2.held (m.remove
            (fun key => key ∈ listed.map (pluginOption i).store.stored)) :=
        (@delMany_agrees _ _ _ (pluginOption i).keysPrefix _ _ hprovider hs
          listed).right.held
      refine ⟨_, become_inv h hheld (fun key hkey => (Contents.of_remove hkey).left)
        (fun _ hloaded => Phase.noConfusion hloaded) ?_⟩
      intro hreset key hkey hprefixed
      rcases Contents.of_remove hkey with ⟨hbefore, hkept, _⟩
      have hclean := h.clean i hreset key hbefore hprefixed
      rw [hphase] at hclean
      rcases hclean with hwritten | hlisted
      · exact hwritten
      · have hgone := List.mem_map_of_mem (f := (pluginOption i).store.stored) hlisted
        rw [stored_stripPrefix hprefixed] at hgone
        exact absurd hgone (of_decide_eq_false hkept)
  | keys =>
      by_cases hkeys : (pluginOption i).keysPrefix = []
      · have hstore : (pluginOption i).store = prefixed [] := congrArg prefixed hkeys
        rw [hstore]
        rcases resetNext_clear hprovider hs with ⟨s', hnext, hheld⟩
        rw [hnext]
        exact ⟨_, become_inv h hheld (fun _ hkey => absurd rfl hkey)
          (fun _ hloaded => Phase.noConfusion hloaded)
          (fun _ _ hkey => absurd rfl hkey)⟩
      · rcases resetNext_keys hprovider hs hkeys with
          ⟨listed, s', hnext, hlisted, hheld⟩
        have hnext' : resetNext (pluginOption i).store provider (w.state i)
            ResetPc.keys =
              (ResetPc.delMany ((pluginOption i).store.logicalKeys listed), s') :=
          hnext
        rw [hnext']
        refine ⟨m, become_inv h hheld (fun _ hkey => hkey)
          (fun _ hloaded => Phase.noConfusion hloaded) ?_⟩
        intro _ key hkey hprefixed
        refine Or.inr (mem_logicalKeys.mpr ?_)
        show (pluginOption i).store.stored _ ∈ listed
        rw [stored_stripPrefix hprefixed]
        exact hlisted key hkey

theorem listen_inv (hprovider : Contract provider Holds)
    (h : Inv pluginOption Holds w m) {w' : World ι σ}
    (hlisten : listen provider pluginOption w i = some w') :
    Inv pluginOption Holds w' m := by
  unfold listen at hlisten
  split at hlisten
  · rename_i hphase
    cases hlisten
    have hown : (pluginOption i).resetOnStartup ≠ true :=
      fun hreset => h.wrapped i hreset hphase
    exact become_inv (stamp_inv h hphase) h.holds (fun _ hkey => hkey)
      (fun hreset => absurd hreset hown) (fun hreset => absurd hreset hown)
  · rename_i hphase
    have hready : (pluginOption i).store.unusable provider (w.state i) ≠ true :=
      @not_unusable _ _ _ (pluginOption i).keysPrefix (w.state i)
        { log := (w.instances i).log, held := m } hprovider ⟨rfl, h.holds⟩
    unfold resetStart at hlisten
    rw [if_neg hready] at hlisten
    cases hlisten
    exact become_inv (stamp_inv h hphase) h.holds (fun _ hkey => hkey)
      (fun _ hloaded => Phase.noConfusion hloaded) (fun _ _ _ _ => trivial)
  · cases hlisten
    exact h
  · cases hlisten

theorem step_inv (hprovider : Contract provider Holds)
    (hfair : around.Fair Holds) (h : Inv pluginOption Holds w m) {e : Event ι}
    {w' : World ι σ} (hstep : step provider around pluginOption w e = some w') :
    exists m', Inv pluginOption Holds w' m' := by
  cases e with
  | load i =>
      simp only [step] at hstep
      split at hstep
      · cases hstep
        refine ⟨m, become_inv h h.holds (fun _ hkey => hkey) ?_
          (fun _ _ _ _ => trivial)⟩
        intro hreset
        rw [listenOf, if_pos hreset]
        exact fun hown => Listen.noConfusion (Phase.loaded.inj hown)
      · cases hstep
  | listen i => exact ⟨m, listen_inv hprovider h hstep⟩
  | advance i =>
      simp only [step] at hstep
      split at hstep
      · rename_i hphase
        cases hstep
        exact advance_inv hprovider h hphase
      · cases hstep
  | exit i =>
      cases hstep
      exact ⟨m, become_inv h h.holds (fun _ hkey => hkey)
        (fun _ hloaded => Phase.noConfusion hloaded) (fun _ _ _ _ => trivial)⟩
  | call c =>
      cases hstep
      exact call_inv hprovider h c
  | expire key =>
      cases hstep
      refine ⟨_, hfair.expire key w.held m h.holds, h.past, h.wrapped, ?_⟩
      intro j hreset other hother hprefixed
      exact h.clean j hreset other (Contents.of_remove hother).left hprefixed
  | tidy =>
      cases hstep
      exact ⟨m, hfair.tidy w.held m h.holds, h.past, h.wrapped, h.clean⟩

end Inv

/--
What a process reads that resets on startup was written after it last called
`listen`, whatever the others do while it starts.
-/
theorem listen_serves_fresh {ι σ : Type} [DecidableEq ι]
    (provider : CacheProvider σ) (Holds : σ -> Contents -> Prop)
    (around : Surroundings σ) (pluginOption : ι -> PluginOption)
    (held : σ) (m : Contents)
    (hprovider : Contract provider Holds) (hfair : around.Fair Holds)
    (hheld : Holds held m) (w : World ι σ)
    (hrun : Reaches (step provider around pluginOption) Any (start held) w)
    (i : ι) (hreset : (pluginOption i).resetOnStartup = true)
    (hserving : (w.instances i).phase = Phase.serving) (key : JsString)
    (val : JsonValue)
    (hget : (pluginOption i).store.get provider key (w.state i) = some val) :
    (w.instances i).since ≤ w.born ((pluginOption i).store.stored key) := by
  have hinv : exists m', Inv pluginOption Holds w m' := by
    refine reaches_invariant (I := fun w => exists m', Inv pluginOption Holds w m')
      ⟨m, start_inv hheld⟩ ?_ hrun
    intro a e b ha _ hstep
    rcases ha with ⟨m', ha⟩
    exact step_inv hprovider hfair ha hstep
  rcases hinv with ⟨m', hinv⟩
  have hread := @get_agrees _ provider Holds (pluginOption i).keysPrefix
    (w.state i) { log := (w.instances i).log, held := m' } hprovider
    ⟨rfl, hinv.holds⟩ key
  have hfound : m' ((pluginOption i).store.stored key) ≠ none := by
    intro hnone
    have hmissed : State.read (pluginOption i).store
        { log := (w.instances i).log, held := m' } key = none := by
      simp only [State.read, hnone, Option.bind_none, Option.map_none]
    have hsame := hget.symm.trans (hread.trans hmissed)
    cases hsame
  have hclean := hinv.clean i hreset _ hfound
    (hasPrefix_stored (pluginOption i).store key)
  rw [hserving] at hclean
  exact hclean

/-!
A process starts over an entry that an earlier one left, while another one
writes between the two calls of the reset.
-/

def resetting : PluginOption where
  keysPrefix := "blog".toList
  resetOnStartup := true

def nullEntry : JsString :=
  serialize JsonValue.null none

def startAndWrite : List (Event Nat) :=
  [Event.load 0, Event.listen 0, Event.advance 0,
    Event.call (Call.set "blog/a".toList nullEntry 0), Event.advance 0]

def earlier : Keyspace :=
  AList.singleton "blog/old".toList "".toList

theorem listen_serves_fresh_startAndWrite :
    ((last (step keyspace keyspaceAround (fun _ => resetting)) startAndWrite
        (start earlier)).instances 0).since ≤
      (last (step keyspace keyspaceAround (fun _ => resetting)) startAndWrite
        (start earlier)).born (resetting.store.stored "/a".toList) := by
  refine listen_serves_fresh keyspace _ keyspaceAround (fun _ => resetting)
    earlier _ keyspace_contract keyspaceAround_fair rfl _
    (reaches_last rfl) 0 rfl rfl "/a".toList JsonValue.null ?_
  apply @get_of_lookup "blog".toList "/a".toList _ JsonValue.null none
  rfl

/-!
## Processes that do not reset
-/

section Loads

variable {ι σ : Type} {provider : CacheProvider σ} {around : Surroundings σ}
  {pluginOption : ι -> PluginOption} {w w' t : World ι σ} {i j : ι}

/-- Two worlds that differ in one process at most. -/
structure SameBut (i : ι) (w w' : World ι σ) : Prop where
  held : w'.held = w.held
  born : w'.born = w.born
  clock : w'.clock = w.clock
  instances : forall j, j ≠ i -> w'.instances j = w.instances j

theorem state_same (h : SameBut i w w') (hj : j ≠ i) :
    w'.state j = w.state j := by
  unfold World.state
  rw [h.instances j hj, h.held]

variable [DecidableEq ι]

theorem become_same (h : SameBut i w w') (hj : j ≠ i) (phase : Phase)
    (s : State σ) : SameBut i (w.become j phase s) (w'.become j phase s) := by
  refine ⟨rfl, h.born, h.clock, ?_⟩
  intro k hk
  by_cases hkj : k = j
  · rw [hkj, World.become_self, World.become_self, h.instances j hj]
  · rw [World.become_other hkj, World.become_other hkj]
    exact h.instances k hk

theorem stamp_same (h : SameBut i w w') (hj : j ≠ i) :
    SameBut i (w.stamp j) (w'.stamp j) := by
  refine ⟨h.held, h.born, h.clock, ?_⟩
  intro k hk
  by_cases hkj : k = j
  · rw [hkj, World.stamp_self, World.stamp_self, h.instances j hj, h.clock]
  · rw [World.stamp_other hkj, World.stamp_other hkj]
    exact h.instances k hk

theorem become_own (h : SameBut i w w') (phase : Phase) {s : State σ}
    (hs : s.held = w.held) : SameBut i (w.become i phase s) w' := by
  refine ⟨h.held.trans hs.symm, h.born, h.clock, ?_⟩
  intro k hk
  rw [World.become_other hk]
  exact h.instances k hk

theorem stamp_own (h : SameBut i w w') : SameBut i (w.stamp i) w' := by
  refine ⟨h.held, h.born, h.clock, ?_⟩
  intro k hk
  rw [World.stamp_other hk]
  exact h.instances k hk

theorem listen_same (h : SameBut i w w') (hj : j ≠ i)
    (hlisten : listen provider pluginOption w j = some t) :
    exists t', listen provider pluginOption w' j = some t' ∧ SameBut i t t' := by
  unfold listen at hlisten ⊢
  rw [h.instances j hj, state_same h hj]
  split at hlisten
  · cases hlisten
    exact ⟨_, rfl, become_same (stamp_same h hj) hj _ _⟩
  · cases hlisten
    exact ⟨_, rfl, become_same (stamp_same h hj) hj _ _⟩
  · cases hlisten
    exact ⟨w', rfl, h⟩
  · cases hlisten

def processOf : Event ι -> Option ι
  | Event.load i => some i
  | Event.listen i => some i
  | Event.advance i => some i
  | Event.exit i => some i
  | _ => none

theorem step_same (h : SameBut i w w') {e : Event ι} (he : processOf e ≠ some i)
    (hstep : step provider around pluginOption w e = some t) :
    exists t', step provider around pluginOption w' e = some t' ∧
      SameBut i t t' := by
  cases e with
  | load j =>
      have hj : j ≠ i := fun heq => he (congrArg some heq)
      simp only [step] at hstep ⊢
      rw [h.instances j hj, h.held]
      split at hstep
      · cases hstep
        exact ⟨_, rfl, become_same h hj _ _⟩
      · cases hstep
  | listen j => exact listen_same h (fun heq => he (congrArg some heq)) hstep
  | advance j =>
      have hj : j ≠ i := fun heq => he (congrArg some heq)
      simp only [step] at hstep ⊢
      rw [h.instances j hj, state_same h hj]
      split at hstep
      · cases hstep
        exact ⟨_, rfl, become_same h hj _ _⟩
      · cases hstep
  | exit j =>
      have hj : j ≠ i := fun heq => he (congrArg some heq)
      cases hstep
      refine ⟨_, rfl, ?_⟩
      rw [state_same h hj]
      exact become_same h hj _ _
  | call c =>
      cases hstep
      refine ⟨_, rfl, congrArg (fun held => c.perform provider held) h.held, ?_,
        congrArg (fun n => n + 1) h.clock, h.instances⟩
      show (fun key => if c.writes key then w'.clock else w'.born key) = _
      rw [h.clock, h.born]
  | expire key =>
      cases hstep
      exact ⟨_, rfl, congrArg (around.expire key) h.held, h.born, h.clock,
        h.instances⟩
  | tidy =>
      cases hstep
      exact ⟨_, rfl, congrArg around.tidy h.held, h.born, h.clock, h.instances⟩

/-- The process has not begun a reset. -/
def Harmless (resetOnStartup : Bool) : Phase -> Prop
  | Phase.resetting _ => False
  | Phase.loaded Listen.resetsFirst => resetOnStartup = true
  | _ => True

theorem step_own (h : SameBut i w w')
    (hphase : Harmless (pluginOption i).resetOnStartup (w.instances i).phase)
    {e : Event ι} (he : processOf e = some i)
    (hlisten : (pluginOption i).resetOnStartup = true -> e ≠ Event.listen i)
    (hstep : step provider around pluginOption w e = some t) :
    SameBut i t w' ∧
      Harmless (pluginOption i).resetOnStartup (t.instances i).phase := by
  cases e with
  | load j =>
      cases he
      simp only [step] at hstep
      split at hstep <;> cases hstep
      refine ⟨become_own h _ rfl, ?_⟩
      rw [World.become_self]
      show Harmless _ (Phase.loaded (listenOf pluginOption i))
      unfold listenOf
      split
      · assumption
      · trivial
  | listen j =>
      cases he
      simp only [step, listen] at hstep
      split at hstep
      · cases hstep
        refine ⟨become_own (stamp_own h) _ rfl, ?_⟩
        rw [World.become_self]
        trivial
      · rename_i hloaded
        rw [hloaded] at hphase
        exact absurd rfl (hlisten hphase)
      · cases hstep
        exact ⟨h, hphase⟩
      · cases hstep
  | advance j =>
      cases he
      simp only [step] at hstep
      split at hstep
      · rename_i hresetting
        rw [hresetting] at hphase
        exact hphase.elim
      · cases hstep
  | exit j =>
      cases he
      cases hstep
      refine ⟨become_own h _ rfl, ?_⟩
      rw [World.become_self]
      trivial
  | call c => cases he
  | expire key => cases he
  | tidy => cases he

theorem step_other {e : Event ι} (he : processOf e ≠ some i)
    (hstep : step provider around pluginOption w e = some t) :
    t.instances i = w.instances i := by
  cases e with
  | load j =>
      simp only [step] at hstep
      split at hstep <;> cases hstep
      exact World.become_other (fun heq => he (congrArg some heq.symm))
  | listen j =>
      have hj : i ≠ j := fun heq => he (congrArg some heq.symm)
      simp only [step, listen] at hstep
      split at hstep <;> cases hstep
      · exact (World.become_other hj).trans (World.stamp_other hj)
      · exact (World.become_other hj).trans (World.stamp_other hj)
      · rfl
  | advance j =>
      simp only [step] at hstep
      split at hstep <;> cases hstep
      exact World.become_other (fun heq => he (congrArg some heq.symm))
  | exit j =>
      cases hstep
      exact World.become_other (fun heq => he (congrArg some heq.symm))
  | call c =>
      cases hstep
      rfl
  | expire key =>
      cases hstep
      rfl
  | tidy =>
      cases hstep
      rfl

theorem exec_own (h : SameBut i w w')
    (hphase : Harmless (pluginOption i).resetOnStartup (w.instances i).phase)
    {events : List (Event ι)}
    (hlisten : (pluginOption i).resetOnStartup = true -> Event.listen i ∉ events)
    (hexec : exec (step provider around pluginOption) events w = some t) :
    exists t', exec (step provider around pluginOption)
        (events.filter (fun e => processOf e ≠ some i)) w' = some t' ∧
      SameBut i t t' := by
  induction events generalizing w w' with
  | nil =>
      cases hexec
      exact ⟨w', rfl, h⟩
  | cons e rest ih =>
      rcases Option.bind_eq_some_iff.mp hexec with ⟨next, hstep, hrest⟩
      have hne : (pluginOption i).resetOnStartup = true -> e ≠ Event.listen i :=
        fun hreset heq => hlisten hreset (heq ▸ List.mem_cons_self)
      have hnot : (pluginOption i).resetOnStartup = true ->
          Event.listen i ∉ rest :=
        fun hreset hmem => hlisten hreset (List.mem_cons_of_mem e hmem)
      by_cases he : processOf e = some i
      · rcases step_own h hphase he hne hstep with ⟨hsame, hnext⟩
        rw [List.filter_cons_of_neg (by simpa using he)]
        exact ih hsame hnext hnot hrest
      · rcases step_same h he hstep with ⟨next', hstep', hsame⟩
        rw [List.filter_cons_of_pos (by simpa using he)]
        have hnext : Harmless (pluginOption i).resetOnStartup
            (next.instances i).phase := by
          rw [step_other he hstep]
          exact hphase
        rcases ih hsame hnext hnot hrest with ⟨t', hexec', hlast⟩
        refine ⟨t', ?_, hlast⟩
        show (step provider around pluginOption w' e).bind _ = _
        rw [hstep']
        exact hexec'

end Loads

/--
A process that does not listen, or is not told to reset, might as well not have
come and gone: its loading, listening and leaving change nothing for the others.
The calls of the provider stay, as they belong to no process.
-/
theorem leaves_no_trace {ι σ : Type} [DecidableEq ι] (provider : CacheProvider σ)
    (around : Surroundings σ) (pluginOption : ι -> PluginOption) (held : σ) (i : ι)
    (events : List (Event ι)) (w : World ι σ)
    (hlisten : (pluginOption i).resetOnStartup = true -> Event.listen i ∉ events)
    (hexec : exec (step provider around pluginOption) events (start held) =
      some w) :
    exists w', exec (step provider around pluginOption)
        (events.filter (fun e => processOf e ≠ some i)) (start held) = some w' ∧
      SameBut i w w' :=
  exec_own ⟨rfl, rfl, rfl, fun _ _ => rfl⟩
    (show Harmless _ ((start held : World ι σ).instances i).phase from trivial)
    hlisten hexec

def startAmongLoad : List (Event Nat) :=
  [Event.load 1, Event.load 0, Event.listen 0, Event.advance 0, Event.exit 1,
    Event.advance 0]

theorem leaves_no_trace_startAmongLoad :
    exists w', exec (step keyspace keyspaceAround (fun _ => resetting))
        (startAmongLoad.filter (fun e => processOf e ≠ some 1)) (start earlier) =
          some w' ∧
      SameBut 1 (last (step keyspace keyspaceAround (fun _ => resetting))
        startAmongLoad (start earlier)) w' :=
  leaves_no_trace keyspace keyspaceAround (fun _ => resetting) earlier 1
    startAmongLoad _ (fun _ => by simp [startAmongLoad]) (exec_last rfl)

end Boot
end RestCache
