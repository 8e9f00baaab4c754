import ForeignCall.Proofs.Settlement

/-!
# ForeignCall.Proofs.Logging

Nobody can tell what becomes of the log.

Engines that differ in their loggers only are the same when silent
(`Engine.silent`), and worlds are alike if their hosts are equal and their
engines are the same when silent; the streams may be any.  An operation is
`Unheard` if it ends the same in worlds that are alike, and they are still
alike then.  What writes to the log drops the outcome, so each step of an
operation is unheard, and hence whatever a module runs.  Enabling the log
changes the logger and the streams, and nothing else.

* `closed_unheard` — whatever a module runs is unheard;
* `Site.call_enableLogging` — enabling the log has no value, no error and no effect;
* `Site.callAll_unheard` — two runs of calls cannot be told apart by their logs.
-/

namespace ForeignCall

/-! ## Silent engines -/

namespace Engine

/-- An engine without a log. -/
def silent (e : Engine) : Engine :=
  { e with logger := { minLevel := .debug } }

/-- A request whose answer does not depend on the log, nor does the engine then, but for its log. -/
def Unlogged {α : Type} (request : Engine → Log.Streams → α × Engine × Log.Streams) : Prop :=
  ∀ e streams streams', (request e.silent streams').1 = (request e streams).1 ∧
    (request e.silent streams').2.1.silent = (request e streams).2.1.silent

theorem unlogged_callByName (name : String) (args : List Value) :
    Unlogged fun e streams => e.callByName name args streams := by
  intro e streams streams'
  have hfunctions : e.silent.functions = e.functions := rfl
  dsimp only
  unfold callByName
  rw [hfunctions]
  cases hf : Entries.find? name e.functions with
  | none => exact ⟨rfl, rfl⟩
  | some f =>
    dsimp only
    cases f.behaviour f.history args <;> exact ⟨rfl, rfl⟩

theorem unlogged_loadFromFile (tag : String) (paths : List (List UInt8)) :
    Unlogged fun e streams => e.loadFromFile tag paths streams := by
  intro e streams streams'
  have hstatus : e.silent.loadStatus = e.loadStatus := rfl
  dsimp only
  unfold loadFromFile
  dsimp only
  rw [hstatus]
  split <;> exact ⟨rfl, rfl⟩

theorem unlogged_selfDescribe [Memory] : Unlogged fun e streams => (e.selfDescribe, e, streams) :=
  fun _ _ _ => ⟨rfl, rfl⟩

theorem unlogged_create (registry : Log.Registry) (stream : Nat) :
    Unlogged fun e streams =>
      let (created, streams) := registry.create Log.stdioTag (.stdio stream) streams
      (created, e, streams) := by
  intro e streams streams'
  dsimp only
  unfold Log.Registry.create
  cases Entries.find? Log.stdioTag registry.factories with
  | none => exact ⟨rfl, rfl⟩
  | some factory =>
    dsimp only
    cases factory.build (.stdio stream) <;> exact ⟨rfl, rfl⟩

theorem unlogged_attachLog (policy : Log.Policy) :
    Unlogged fun e streams => e.attachLog policy streams := by
  intro e streams streams'
  have hrefuses : e.silent.refusesLogs = e.refusesLogs := rfl
  dsimp only
  unfold attachLog
  rw [hrefuses]
  cases e.refusesLogs with
  | some reason => exact ⟨rfl, rfl⟩
  | none =>
    dsimp only
    split <;> exact ⟨rfl, rfl⟩

/-- A policy that is not destroyed is taken by an engine that takes any. -/
theorem attachLog_of_willing {e : Engine} {policy : Log.Policy} (h : e.refusesLogs = none)
    (hpolicy : policy.isInitialized) (streams : Log.Streams) :
    ∃ streams', e.attachLog policy streams =
      (.ok (), { e with logger := e.logger.attach policy }, streams') := by
  unfold attachLog
  split
  · next hrefuses =>
    rw [h] at hrefuses
    cases hrefuses
  · rw [if_pos hpolicy]
    exact ⟨_, rfl⟩

end Engine

/-! ## Unheard operations -/

namespace Bridge

open Operation

variable {σ α β ε : Type}

/-- Worlds that differ in the log only. -/
structure World.Alike (w w' : World σ) : Prop where
  host : w.host = w'.host
  engine : w.engine.silent = w'.engine.silent

/-- The same entry on the ledgers of both leaves worlds alike. -/
theorem World.Alike.onLedger {w w' : World σ} (h : w.Alike w') (change : Ledger → Ledger) :
    World.Alike (onLedger w change) (onLedger w' change) where
  host := h.host
  engine := by
    have hledger : ∀ e : Engine, ({ e with ledger := change e.ledger } : Engine).silent =
        { e.silent with ledger := change e.silent.ledger } := fun _ => rfl
    show ({ w.engine with ledger := change w.engine.ledger } : Engine).silent =
      ({ w'.engine with ledger := change w'.engine.ledger } : Engine).silent
    rw [hledger, hledger, h.engine]

/-- Results that are equal, in worlds that are alike. -/
inductive SameEnd : EStateM.Result (Abort BridgeError) (World σ) α →
    EStateM.Result (Abort BridgeError) (World σ) α → Prop where
  | ok {a : α} {w w' : World σ} : w.Alike w' → SameEnd (.ok a w) (.ok a w')
  | error {abort : Abort BridgeError} {w w' : World σ} : w.Alike w' →
      SameEnd (.error abort w) (.error abort w')

namespace Operation

/-- In worlds that are alike an operation ends the same, and they are alike then. -/
def Unheard (op : Operation σ α) : Prop :=
  ∀ w w', World.Alike w w' → SameEnd (op w) (op w')

theorem unheard_pure (a : α) : Unheard (pure a : Operation σ α) := fun _ _ h => .ok h

theorem unheard_fail (e : BridgeError) : Unheard (Action.fail e : Operation σ α) :=
  fun _ _ h => .error h

theorem unheard_panic (detail : Option String) :
    Unheard (Action.panic detail : Operation σ α) :=
  fun _ _ h => .error h

theorem Unheard.bind {op : Operation σ α} {next : α → Operation σ β} (hop : Unheard op)
    (hnext : ∀ a, Unheard (next a)) : Unheard (op >>= next) := by
  intro w w' h
  have hend := hop w w' h
  generalize hw : op w = r at hend
  generalize hw' : op w' = r' at hend
  cases hend with
  | ok halike =>
    rw [Action.bind_of_ok hw, Action.bind_of_ok hw']
    exact hnext _ _ _ halike
  | error halike =>
    rw [Action.bind_of_error hw, Action.bind_of_error hw']
    exact .error halike

theorem unheard_onHost (see : ε → BridgeError) (action : Action σ ε α) :
    Unheard (onHost see action) := by
  rintro ⟨host, engine, streams⟩ ⟨host', engine', streams'⟩ ⟨rfl, hengine⟩
  unfold onHost
  dsimp only
  cases action host with
  | ok a host => exact .ok ⟨rfl, hengine⟩
  | error abort host => exact .error ⟨rfl, hengine⟩

/-- A request that takes no notice of the log is unheard. -/
theorem unheard_onEngine {request : Engine → Log.Streams → α × Engine × Log.Streams}
    (h : Engine.Unlogged request) : Unheard (onEngine request : Operation σ α) := by
  rintro ⟨host, engine, streams⟩ ⟨host', engine', streams'⟩ ⟨rfl, hengine⟩
  obtain ⟨hanswer, hthen⟩ := h engine streams #[]
  obtain ⟨hanswer', hthen'⟩ := h engine' streams' #[]
  dsimp only at hengine
  rw [hengine] at hanswer hthen
  rw [onEngine_apply, onEngine_apply, ← hanswer, ← hanswer']
  exact .ok ⟨rfl, hthen.symm.trans hthen'⟩

theorem Unheard.borrowing {body : Operation σ α} (r : Resource) (h : Unheard body) :
    Unheard (borrowing r body) := by
  intro w w' halike
  have hend := h w w' halike
  unfold Operation.borrowing
  generalize body w = result at hend
  generalize body w' = result' at hend
  cases hend with
  | ok halike => exact .ok (halike.onLedger _)
  | error halike => exact .error (halike.onLedger _)

theorem Unheard.holding {body : Operation σ α} (r : Resource) (h : Unheard body) :
    Unheard (holding r body) := fun _ _ halike => h.borrowing r _ _ (halike.onLedger _)

end Operation

theorem unheard_dispatch (name : String) (args : List Value) :
    Unheard (dispatch name args : Operation σ (Option Value)) := by
  unfold dispatch
  refine (unheard_onEngine (Engine.unlogged_callByName name args)).bind fun outcome => ?_
  cases outcome with
  | value v => exact unheard_pure (some v)
  | nothing => exact unheard_pure none
  | error e => exact unheard_fail _
  | panic detail => exact unheard_panic detail

/-- Whatever a module runs is unheard. -/
theorem closed_unheard [Memory] [HostRuntime σ] : @Closed _ σ _ fun _ _ => Unheard where
  pure := unheard_pure
  fail := unheard_fail
  panic := unheard_panic
  bind := Unheard.bind
  onHost see _ _ := unheard_onHost see _
  holding r := Unheard.holding r
  borrowing r := Unheard.borrowing r
  dispatch := unheard_dispatch
  load tag paths := unheard_onEngine (Engine.unlogged_loadFromFile tag paths)
  selfDescribe := unheard_onEngine Engine.unlogged_selfDescribe
  create registry stream := unheard_onEngine (Engine.unlogged_create registry stream)
  attach policy := unheard_onEngine (Engine.unlogged_attachLog policy)

/-! ## Engines that take logs -/

namespace Operation

/-- An operation leaves the engine as willing to take log policies as it was. -/
def KeepsWilling (op : Operation σ α) : Prop :=
  Action.Moves (fun w v : World σ => v.engine.refusesLogs = w.engine.refusesLogs) op

theorem KeepsWilling.bind {op : Operation σ α} {next : α → Operation σ β} (hop : KeepsWilling op)
    (hnext : ∀ a, KeepsWilling (next a)) : KeepsWilling (op >>= next) :=
  Action.Moves.bind (R := fun w v : World σ => v.engine.refusesLogs = w.engine.refusesLogs)
    (fun hfirst hlater => Eq.trans hlater hfirst) hop hnext

theorem keepsWilling_onEngine {request : Engine → Log.Streams → α × Engine × Log.Streams}
    (h : ∀ e streams, (request e streams).2.1.refusesLogs = e.refusesLogs) :
    KeepsWilling (onEngine request : Operation σ α) := fun w => h w.engine w.streams

end Operation

theorem refusesLogs_callByName (e : Engine) (name : String) (args : List Value)
    (streams : Log.Streams) : (e.callByName name args streams).2.1.refusesLogs = e.refusesLogs := by
  unfold Engine.callByName
  cases Entries.find? name e.functions with
  | none => rfl
  | some f =>
    dsimp only
    cases f.behaviour f.history args <;> rfl

theorem refusesLogs_loadFromFile (e : Engine) (tag : String) (paths : List (List UInt8))
    (streams : Log.Streams) :
    (e.loadFromFile tag paths streams).2.1.refusesLogs = e.refusesLogs := by
  unfold Engine.loadFromFile
  dsimp only
  split <;> rfl

theorem refusesLogs_attachLog (e : Engine) (policy : Log.Policy) (streams : Log.Streams) :
    (e.attachLog policy streams).2.1.refusesLogs = e.refusesLogs := by
  unfold Engine.attachLog
  split
  · rfl
  · split <;> rfl

theorem keepsWilling_dispatch (name : String) (args : List Value) :
    KeepsWilling (dispatch name args : Operation σ (Option Value)) := by
  unfold dispatch
  refine (keepsWilling_onEngine fun e s => refusesLogs_callByName e name args s).bind
    fun outcome => ?_
  cases outcome <;> exact fun _ => rfl

/-- Whatever a module runs leaves the engine as willing to take log policies as it was. -/
theorem closed_keepsWilling [Memory] [HostRuntime σ] : @Closed _ σ _ fun _ _ => KeepsWilling where
  toThreaded :=
    threaded_moves (R := fun w v : World σ => v.engine.refusesLogs = w.engine.refusesLogs)
      (fun hfirst hlater => Eq.trans hlater hfirst) (fun _ _ => rfl) (fun _ => rfl) fun _ _ => rfl
  dispatch := keepsWilling_dispatch
  load tag paths := keepsWilling_onEngine fun e s => refusesLogs_loadFromFile e tag paths s
  selfDescribe := keepsWilling_onEngine fun _ _ => rfl
  create _ _ := keepsWilling_onEngine fun _ _ => rfl
  attach policy := keepsWilling_onEngine fun e s => refusesLogs_attachLog e policy s

/-- Where a policy over a stream can be made and is taken, the log is enabled, whatever the
streams are. -/
theorem enableLogging_apply {w : World σ} (h : w.engine.refusesLogs = none) (stream : Nat) :
    ∃ v, enableLogging .withDefaults stream w = .ok () v ∧ w.Alike v := by
  have hcreate : Log.Registry.withDefaults.create Log.stdioTag (.stdio stream) w.streams =
      (.ok ⟨Log.stdioTag, some (.stdio stream)⟩, w.streams.hold stream) := by
    rfl
  have hpolicy : (createPolicy .withDefaults stream : Operation σ Log.Policy) w =
      .ok ⟨Log.stdioTag, some (.stdio stream)⟩ { w with streams := w.streams.hold stream } := by
    rw [createPolicy, Action.bind_of_ok (onEngine_apply _ w), hcreate]
    rfl
  have hinitialized : (⟨Log.stdioTag, some (.stdio stream)⟩ : Log.Policy).isInitialized := rfl
  obtain ⟨streams, hattach⟩ :=
    Engine.attachLog_of_willing h hinitialized (w.streams.hold stream)
  rw [enableLogging, Action.bind_of_ok hpolicy, Action.bind_of_ok (onEngine_apply _ _), hattach]
  exact ⟨_, rfl, rfl, rfl⟩

end Bridge

open Bridge Operation

/-! ## Modules -/

namespace Module

/-- The entry point of a name has this name. -/
theorem name_of_entry? {m : Module} {name : String} {entry : Export}
    (h : m.entry? name = some entry) : entry.name = name := by
  have hfound : m.exports.find? (·.name = name) = some entry := h
  have hmatches := List.find?_some hfound
  exact of_decide_eq_true hmatches

/-- A module without a log. -/
def silent (m : Module) : Module :=
  { m with engine := m.engine.silent, logStream := 0 }

/-- A module whose log can be enabled. -/
structure TakesLogs (m : Module) : Prop where
  exports : m.exports = Export.all
  registry : m.registry = .withDefaults
  willing : m.engine.refusesLogs = none

/-- A module that has been started is one, if its engine takes log policies. -/
theorem takesLogs_of_start {engine : Engine} {config : Config} {logStream : Nat} {m : Module}
    (h : Module.start engine config logStream = .ok m) (hw : engine.refusesLogs = none) :
    m.TakesLogs := by
  unfold Module.start Engine.start at h
  split at h
  · next engine' hstart =>
    split at hstart
    · cases hstart
    · cases hstart
      cases h
      exact ⟨rfl, rfl, hw⟩
  · cases h

theorem TakesLogs.of_silent {m m' : Module} (h : m.TakesLogs) (hsilent : m.silent = m'.silent) :
    m'.TakesLogs where
  exports := (congrArg Module.exports hsilent).symm.trans h.exports
  registry := (congrArg Module.registry hsilent).symm.trans h.registry
  willing := (congrArg (·.engine.refusesLogs) hsilent).symm.trans h.willing

end Module

namespace Site

variable {σ α : Type}

/-- Sites that differ in the log only. -/
structure Alike (s t : Site σ) : Prop where
  host : s.host = t.host
  module : s.module.silent = t.module.silent

theorem Alike.refl (s : Site σ) : s.Alike s := ⟨rfl, rfl⟩

theorem Alike.symm {s t : Site σ} (h : s.Alike t) : t.Alike s := ⟨h.host.symm, h.module.symm⟩

theorem Alike.trans {s t u : Site σ} (h : s.Alike t) (h' : t.Alike u) : s.Alike u :=
  ⟨h.host.trans h'.host, h.module.trans h'.module⟩

theorem Alike.loads {s t : Site σ} (h : s.Alike t) :
    s.module.engine.loads = t.module.engine.loads := by
  have hsilent : s.module.silent.engine.loads = t.module.silent.engine.loads := by rw [h.module]
  exact hsilent

theorem Alike.ledger {s t : Site σ} (h : s.Alike t) : s.ledger = t.ledger := by
  have hsilent : s.module.silent.engine.ledger = t.module.silent.engine.ledger := by rw [h.module]
  exact hsilent

/-- An operation that is unheard is so at sites that are alike. -/
theorem perform_unheard {op : Operation σ α} (h : Unheard op) {s t : Site σ} (hst : s.Alike t) :
    (s.perform op).1 = (t.perform op).1 ∧ (s.perform op).2.Alike (t.perform op).2 := by
  obtain ⟨⟨engine, config, registry, logStream, exports⟩, host, streams⟩ := s
  obtain ⟨⟨engine', config', registry', logStream', exports'⟩, host', streams'⟩ := t
  obtain ⟨rfl, hmodule⟩ := hst
  simp only [Module.silent, Module.mk.injEq] at hmodule
  obtain ⟨hengine, rfl, rfl, _, rfl⟩ := hmodule
  have hend := h ⟨host, engine, streams⟩ ⟨host, engine', streams'⟩ ⟨rfl, hengine⟩
  unfold perform
  dsimp only
  generalize op ⟨host, engine, streams⟩ = result at hend
  generalize op ⟨host, engine', streams'⟩ = result' at hend
  cases hend with
  | ok halike => exact ⟨rfl, halike.host, by simp [Module.silent, halike.engine]⟩
  | error halike => exact ⟨rfl, halike.host, by simp [Module.silent, halike.engine]⟩

theorem perform_keepsWilling {op : Operation σ α} (h : KeepsWilling op) {s : Site σ}
    (hs : s.module.TakesLogs) : (s.perform op).2.module.TakesLogs := by
  obtain ⟨⟨engine, config, registry, logStream, exports⟩, host, streams⟩ := s
  have hwilling := h ⟨host, engine, streams⟩
  unfold perform
  dsimp only
  cases hop : op ⟨host, engine, streams⟩ with
  | ok a w =>
    rw [Action.final_of_ok hop] at hwilling
    exact ⟨hs.exports, hs.registry, hwilling.trans hs.willing⟩
  | error abort w =>
    rw [Action.final_of_error hop] at hwilling
    exact ⟨hs.exports, hs.registry, hwilling.trans hs.willing⟩

variable [HostRuntime σ]

theorem Alike.raise {s t : Site σ} (h : s.Alike t) (message : String) :
    (s.raise message).Alike (t.raise message) :=
  ⟨congrArg (HostRuntime.raise message) h.host, h.module⟩

/-! ## Calls -/

/-- What a module runs for any other entry point does not depend on the log. -/
theorem run_eq_of_silent [Memory] {m m' : Module} (h : m.silent = m'.silent) {entry : Export}
    (hentry : entry ≠ .enableLogging) (args : List Handle) :
    (m.run args entry : Operation σ _) = m'.run args entry := by
  have hconfig : m.silent.config = m'.silent.config := congrArg Module.config h
  have hsame : m.config = m'.config := hconfig
  cases entry with
  | invoke => simp only [Module.run, hsame]
  | bulkLoad => simp only [Module.run, hsame]
  | inspect => rfl
  | enableLogging => exact absurd rfl hentry

/-- Calls of other entry points end the same at sites that are alike. -/
theorem call_unheard [Memory] {s t : Site σ} (hst : s.Alike t) {name : String}
    (hname : name ≠ Export.enableLogging.name) (args : List Handle) :
    (s.call name args).1 = (t.call name args).1 ∧
      (s.call name args).2.Alike (t.call name args).2 := by
  have hexports : s.module.silent.entry? name = t.module.silent.entry? name := by
    rw [hst.module]
  have hentries : s.module.entry? name = t.module.entry? name := hexports
  unfold call
  rw [← hentries]
  cases hentry : s.module.entry? name with
  | none => exact ⟨rfl, hst.raise _⟩
  | some entry =>
    have hother : entry ≠ .enableLogging := by
      rintro rfl
      exact hname (Module.name_of_entry? hentry).symm
    obtain ⟨houtcome, hthen⟩ := perform_unheard (closed_unheard.run s.module args entry) hst
    dsimp only
    rw [← run_eq_of_silent hst.module hother]
    generalize s.perform (s.module.run args entry) = ended at houtcome hthen
    generalize t.perform (s.module.run args entry) = ended' at houtcome hthen
    obtain ⟨outcome, s'⟩ := ended
    obtain ⟨outcome', t'⟩ := ended'
    cases houtcome
    cases outcome with
    | ok value => exact ⟨rfl, hthen⟩
    | error abort => exact ⟨rfl, hthen.raise _⟩

/-- A module whose log can be enabled is one after each call. -/
theorem call_takesLogs [Memory] {s : Site σ} (hs : s.module.TakesLogs) (name : String)
    (args : List Handle) : (s.call name args).2.module.TakesLogs := by
  unfold call
  cases s.module.entry? name with
  | none => exact hs
  | some entry =>
    have hthen := perform_keepsWilling (closed_keepsWilling.run s.module args entry) hs
    dsimp only
    generalize s.perform (s.module.run args entry) = ended at hthen
    obtain ⟨outcome, s'⟩ := ended
    cases outcome with
    | ok value => exact hthen
    | error abort => exact hthen

/-- **Unheard when enabled**: enabling the log has no value and raises nothing, and the site is
the same but for the log. -/
theorem call_enableLogging [Memory] {s : Site σ} (hs : s.module.TakesLogs) (args : List Handle) :
    (s.call Export.enableLogging.name args).1 = none ∧
      s.Alike (s.call Export.enableLogging.name args).2 := by
  obtain ⟨⟨engine, config, registry, logStream, exports⟩, host, streams⟩ := s
  obtain ⟨rfl, rfl, hwilling⟩ := hs
  obtain ⟨v, henabled, halike⟩ :=
    enableLogging_apply (w := ⟨host, engine, streams⟩) hwilling logStream
  have hentry : Module.entry? ⟨engine, config, .withDefaults, logStream, Export.all⟩
      Export.enableLogging.name = some .enableLogging := by rfl
  unfold call
  rw [hentry]
  dsimp only [perform, Module.run]
  rw [Action.bind_of_ok henabled]
  exact ⟨rfl, halike.host, by simp [Module.silent, halike.engine]⟩

/-! ## Runs of calls -/

/-- The calls other than those that enable the log. -/
def others (calls : List (String × List Handle)) : List (String × List Handle) :=
  calls.filter (·.1 ≠ Export.enableLogging.name)

/-- What the calls other than those that enable the log return, in a run of all. -/
def answers [Memory] (s : Site σ) (calls : List (String × List Handle)) : List (Option Handle) :=
  ((calls.zip (s.callAll calls).1).filter (·.1.1 ≠ Export.enableLogging.name)).map Prod.snd

@[simp] theorem others_enable (args : List Handle) (rest : List (String × List Handle)) :
    others ((Export.enableLogging.name, args) :: rest) = others rest := by
  simp [others]

theorem others_cons {name : String} (hname : name ≠ Export.enableLogging.name)
    (args : List Handle) (rest : List (String × List Handle)) :
    others ((name, args) :: rest) = (name, args) :: others rest := by
  simp [others, hname]

@[simp] theorem answers_enable [Memory] (s : Site σ) (args : List Handle)
    (rest : List (String × List Handle)) :
    s.answers ((Export.enableLogging.name, args) :: rest) =
      (s.call Export.enableLogging.name args).2.answers rest := by
  simp [answers, callAll]

theorem answers_cons [Memory] (s : Site σ) {name : String}
    (hname : name ≠ Export.enableLogging.name) (args : List Handle)
    (rest : List (String × List Handle)) :
    s.answers ((name, args) :: rest) =
      (s.call name args).1 :: (s.call name args).2.answers rest := by
  simp [answers, callAll, hname]

/-- A run with the log enabled in between is like a run of the other calls only. -/
theorem callAll_others [Memory] {s t : Site σ} (hst : s.Alike t) (hs : s.module.TakesLogs)
    (calls : List (String × List Handle)) :
    s.answers calls = (t.callAll (others calls)).1 ∧
      (s.callAll calls).2.Alike (t.callAll (others calls)).2 := by
  induction calls generalizing s t with
  | nil => exact ⟨rfl, hst⟩
  | cons call rest ih =>
    obtain ⟨name, args⟩ := call
    have hs' := call_takesLogs hs name args
    by_cases hname : name = Export.enableLogging.name
    · subst hname
      obtain ⟨_, hsame⟩ := call_enableLogging hs args
      obtain ⟨hanswers, hthen⟩ := ih (hsame.symm.trans hst) hs'
      rw [answers_enable, others_enable]
      exact ⟨hanswers, hthen⟩
    · obtain ⟨hfirst, hsame⟩ := call_unheard hst hname args
      obtain ⟨hanswers, hthen⟩ := ih hsame hs'
      rw [answers_cons s hname, others_cons hname, hfirst, hanswers]
      exact ⟨rfl, hthen⟩

theorem callAll_takesLogs [Memory] {s : Site σ} (hs : s.module.TakesLogs)
    (calls : List (String × List Handle)) : (s.callAll calls).2.module.TakesLogs := by
  induction calls generalizing s with
  | nil => exact hs
  | cons call rest ih => exact ih (call_takesLogs hs call.1 call.2)

/-- **Unheard**: of two runs of the same calls at sites that differ in the log only, except that
each may enable the log wherever it likes, the other calls return the same, and the host, what is
loaded and the ledger are the same; enabling the log after either has no value and raises
nothing. -/
theorem callAll_unheard [Memory] (s t : Site σ) (hst : s.Alike t) (hs : s.module.TakesLogs)
    (calls calls' : List (String × List Handle)) (hcalls : others calls = others calls') :
    let after := (s.callAll calls).2
    let after' := (t.callAll calls').2
    s.answers calls = t.answers calls' ∧ after.host = after'.host ∧
      after.module.engine.loads = after'.module.engine.loads ∧ after.ledger = after'.ledger ∧
      ∀ args, let enabled := after.call Export.enableLogging.name args
        enabled.1 = none ∧ enabled.2.host = after.host := by
  intro after after'
  obtain ⟨hanswers, halike⟩ := callAll_others hst hs calls
  have ht : t.module.TakesLogs := hs.of_silent hst.module
  obtain ⟨hanswers', halike'⟩ := callAll_others (Alike.refl t) ht calls'
  rw [hcalls] at hanswers halike
  have hafter : after.Alike after' := halike.trans halike'.symm
  refine ⟨hanswers.trans hanswers'.symm, hafter.host, hafter.loads, hafter.ledger, fun args => ?_⟩
  obtain ⟨hnone, hsame⟩ := call_enableLogging (callAll_takesLogs hs calls) args
  exact ⟨hnone, hsame.host.symm⟩

/-- With a stream that breaks down after a few octets, and without a log at all. -/
theorem callAll_unheard_brittle :
    let failing : Site Arena :=
      { brittle with streams := #[{ limit := some 3, interrupts := 2, failAt := some 5 }] }
    let calls := [("invoke", [⟨0⟩]), ("inspect", [])]
    brittle.Alike failing ∧ brittle.module.TakesLogs ∧
      brittle.answers calls = failing.answers (("enable_logging", []) :: calls) := by
  intro failing calls
  have halike : brittle.Alike failing := ⟨rfl, rfl⟩
  have htakes : brittle.module.TakesLogs := ⟨rfl, rfl, rfl⟩
  have hcalls : others calls = others (("enable_logging", []) :: calls) := by decide
  exact ⟨halike, htakes, (callAll_unheard brittle failing halike htakes _ _ hcalls).1⟩

end Site

end ForeignCall
