import ForeignCall.Proofs.Hosts
import ForeignCall.Proofs.KeyOrder
import ForeignCall.Proofs.Requests

/-!
# ForeignCall.Proofs.Atomicity

A call that fails raises one error and leaves the module as it was.

What a call raises is said without regard to what it does (`Site.Raises`): an
entry point that there is not, one that ends with an error, and one that breaks
down.  What stays is said of the engine (`Engine.Kept`) and of the site
(`Site.Unharmed`): loads, functions, log policies, settings, and every value of
the host.  The engine's ledger, its streams and what functions remember of
their calls are not among it, and neither are values that were added.

Only three requests change an engine.  A function that is called changes
nothing that is kept.  A load is recorded only if its status is zero, and then
nothing can fail any more (`bulkLoad_of_forwarded`).  A log policy is attached
only if that is the last thing that can fail (`enableLogging_of_error`).

`call_all_or_nothing` — the errors and the value of a call, and what is left by
one that fails; `callAll_failing` — the same of any number of failing calls.
-/

namespace ForeignCall

open Bridge Operation

/-! ## What is kept of an engine -/

namespace Engine

/-- The loads, functions, log policies and settings of an engine are still there. -/
structure Kept (e e' : Engine) : Prop where
  loads : e'.loads = e.loads
  /-- Each name stands for the same function, or still for none. -/
  functions (name : String) : (Entries.find? name e'.functions).map Callable.behaviour =
    (Entries.find? name e.functions).map Callable.behaviour
  names : Entries.Sorted e.functions → e'.functionNames = e.functionNames
  logger : e'.logger = e.logger
  settings : { e' with ledger := e.ledger, functions := e.functions } = e

variable {e e' : Engine}

theorem Kept.refl (e : Engine) : Kept e e := ⟨rfl, fun _ => rfl, fun _ => rfl, rfl, rfl⟩

theorem Kept.trans {e₁ e₂ : Engine} (h : Kept e e₁) (h' : Kept e₁ e₂) : Kept e e₂ where
  loads := h'.loads.trans h.loads
  functions name := (h'.functions name).trans (h.functions name)
  names hsorted := by
    have hkeys : Entries.keys e₁.functions = Entries.keys e.functions := h.names hsorted
    have hstill : Entries.Sorted e₁.functions := by
      rw [Entries.sorted_iff, hkeys]
      exact Entries.sorted_iff.mp hsorted
    exact (h'.names hstill).trans hkeys
  logger := h'.logger.trans h.logger
  settings :=
    calc { e₂ with ledger := e.ledger, functions := e.functions }
      _ = { { e₂ with ledger := e₁.ledger, functions := e₁.functions } with
            ledger := e.ledger, functions := e.functions } := rfl
      _ = { e₁ with ledger := e.ledger, functions := e.functions } := by rw [h'.settings]
      _ = e := h.settings

/-- The ledger does not matter. -/
theorem Kept.of_bare {e₁ : Engine} (h : Kept e e₁) (hbare : e'.bare = e₁.bare) : Kept e e' := by
  obtain ⟨ledger, rfl⟩ := eq_of_bare hbare
  exact ⟨h.loads, h.functions, h.names, h.logger, h.settings⟩

/-- A function that has been called is still the same, whatever it remembers. -/
theorem kept_called {name : String} {f : Callable} (hf : Entries.find? name e.functions = some f)
    (args : List Value) :
    Kept e { e with functions :=
      Entries.insert name { f with history := f.history ++ [args] } e.functions } where
  loads := rfl
  functions other := by
    by_cases h : other = name
    · rw [h, Entries.find?_insert_self, hf]
      rfl
    · rw [Entries.find?_insert_ne h]
  names hsorted := by
    refine Entries.keys_insert_of_mem hsorted (Entries.contains_eq_true.mp ?_)
    rw [Entries.contains, hf]
    rfl
  logger := rfl
  settings := rfl

/-- However a call ends, a breakdown included, the engine is still there. -/
theorem kept_callByName (e : Engine) (name : String) (args : List Value) (streams : Log.Streams) :
    Kept e (e.callByName name args streams).2.1 := by
  unfold callByName
  cases hf : Entries.find? name e.functions with
  | none => exact .refl e
  | some f =>
    have hcalled := kept_called hf args
    dsimp only
    cases f.behaviour f.history args with
    | value v => exact hcalled.of_bare rfl
    | _ => exact hcalled

theorem status_loadFromFile (e : Engine) (tag : String) (paths : List (List UInt8))
    (streams : Log.Streams) : (e.loadFromFile tag paths streams).1 = e.loadStatus := by
  simp only [loadFromFile]
  split <;> rfl

/-- A load with another status than zero is not recorded. -/
theorem loadFromFile_of_status {e : Engine} (h : e.loadStatus ≠ 0) (tag : String)
    (paths : List (List UInt8)) (streams : Log.Streams) :
    (e.loadFromFile tag paths streams).2.1 = e := by
  simp only [loadFromFile, if_neg h]

/-- A policy that is not taken leaves no trace in the engine. -/
theorem attachLog_of_error {policy : Log.Policy} {streams streams' : Log.Streams}
    {reason : EngineError} (h : e.attachLog policy streams = (.error reason, e', streams')) :
    e' = e := by
  unfold attachLog at h
  split at h
  · cases h
    rfl
  · split at h
    · cases h
    · cases h
      rfl

end Engine

/-- How an outcome ends the operation that asked for it, if it does. -/
def Engine.Outcome.abort? : Engine.Outcome → Option (Abort BridgeError)
  | .value _ | .nothing => none
  | .error e => some (.error (.callFailure (.engine e)))
  | .panic detail => some (.panic detail)

/-! ## Operations that come through -/

namespace Bridge

variable {σ α : Type} {w w' : World σ}

theorem dispatch_of_abort {name : String} {values : List Value} {abort : Abort BridgeError}
    (h : (w.engine.callByName name values w.streams).1.abort? = some abort) :
    ∃ u, dispatch name values w = .error abort u := by
  rw [dispatch_apply]
  generalize w.engine.callByName name values w.streams = answer at h ⊢
  obtain ⟨outcome, engine, streams⟩ := answer
  cases outcome with
  | value v => cases h
  | nothing => cases h
  | error e =>
    cases h
    exact ⟨_, rfl⟩
  | panic detail =>
    cases h
    exact ⟨_, rfl⟩

theorem holding_apply (r : Resource) (body : Operation σ α) (w : World σ) :
    holding r body w =
      Action.endIn (onLedger · (·.release r)) (body (onLedger w (·.acquire r))) := by
  rw [Operation.holding, Operation.borrowing]
  cases body (onLedger w (·.acquire r)) <;> rfl

/-- In what holds a resource, the body decides how it ends. -/
theorem endIn_holding {r : Resource} {body rest : Operation σ α} {v : World σ}
    {change : Ledger → Ledger}
    (h : rest (onLedger w (·.acquire r)) = Action.endIn (onLedger · change) (body v)) :
    holding r rest w =
      Action.endIn (onLedger · fun ledger => (change ledger).release r) (body v) := by
  rw [holding_apply, h]
  cases body v <;> rfl

variable [HostRuntime σ] {limits : Limits}

/-- Once all arguments are converted, what is done with the values decides how it ends. -/
theorem withValues_of_convertsTo {s s' : σ} {handles : List Handle} {values : List Value}
    (h : ConvertsTo limits s handles values s') (hs : w.host = s)
    (body : List Value → Operation σ α) :
    ∃ v change, w.Quiet v ∧ v.host = s' ∧
      withValues limits body handles w = Action.endIn (onLedger · change) (body values v) := by
  induction h generalizing w body with
  | nil =>
    refine ⟨w, id, .refl w, hs, ?_⟩
    rw [withValues]
    cases body [] w <;> rfl
  | @cons s s₁ s' handle value handles values hfirst _ ih =>
    have hvalue :
        (onHost .conversion (Marshal.toValue limits handle) : Operation σ Value.Canonical) w =
          .ok value { w with host := s₁ } := onHost_eq_ok.mpr ⟨s₁, hs ▸ hfirst, rfl⟩
    obtain ⟨v, change, hquiet, hhost, hrest⟩ := ih
      (w := onLedger { w with host := s₁ } (·.acquire .value)) rfl fun rest => body (value :: rest)
    refine ⟨v, fun ledger => (change ledger).release .value,
      ((w.quiet_host s₁).trans (World.quiet_onLedger _ _)).trans hquiet, hhost, ?_⟩
    rw [withValues, Action.bind_of_ok hvalue]
    exact endIn_holding hrest

/-- Once all paths are read, what is done with them decides how it ends. -/
theorem withPaths_of_pathsRead [Memory] {paths : Handle} {index : Nat} {s s' : σ}
    {natives : List (List UInt8)} (h : PathsRead limits paths index s natives s') (hs : w.host = s)
    (body : List (List UInt8) → Operation σ α) :
    ∃ v change, w.Quiet v ∧ v.host = s' ∧ withPaths limits paths index body natives.length w =
      Action.endIn (onLedger · change) (body natives v) := by
  induction h generalizing w body with
  | nil =>
    refine ⟨w, id, .refl w, hs, ?_⟩
    rw [List.length_nil, withPaths]
    cases body [] w <;> rfl
  | @cons index s s₁ s' bytes natives hfirst _ ih =>
    have hpath : nativePath limits paths index w = .ok bytes { w with host := s₁ } :=
      nativePath_eq_ok.mpr ⟨s₁, hs ▸ hfirst, rfl⟩
    obtain ⟨v, change, hquiet, hhost, hrest⟩ := ih
      (w := onLedger { w with host := s₁ } (·.acquire .nativeString)) rfl
      fun rest => body (bytes :: rest)
    refine ⟨v, fun ledger => (change ledger).release .nativeString,
      ((w.quiet_host s₁).trans (World.quiet_onLedger _ _)).trans hquiet, hhost, ?_⟩
    rw [List.length_cons, withPaths, Action.bind_of_ok hpath]
    exact endIn_holding hrest

/-- An invocation that reaches the engine ends early as the function does. -/
theorem invoke_of_reached [Memory] {nameHandle : Handle} {args : List Handle} {name : String}
    {values : List Value} {abort : Abort BridgeError}
    (h : Reached limits w.host nameHandle args name values)
    (habort : ∀ v : World σ, w.Quiet v → ∃ u, dispatch name values v = .error abort u) :
    ∃ u, invoke limits (.ofList (nameHandle :: args)) w = .error abort u := by
  obtain ⟨hhandles, s₁, hname, hvalues, s₂, hconverts⟩ := h
  have hcollected : (reserve .argumentHandles ((args.length + 1) * handleWidth) :
      Operation σ Unit) w = .ok () w := reserve_eq_ok.mpr ⟨hhandles, rfl⟩
  have hdecoded : decodeName nameHandle w = .ok name { w with host := s₁ } :=
    decodeName_eq_ok.mpr ⟨s₁, hname, rfl⟩
  have hroom : (reserve .argumentValues (args.length * valueWidth) : Operation σ Unit)
      { w with host := s₁ } = .ok () { w with host := s₁ } := reserve_eq_ok.mpr ⟨hvalues, rfl⟩
  obtain ⟨v, change, hquiet, -, hdispatched⟩ :=
    withValues_of_convertsTo (w := { w with host := s₁ }) hconverts rfl (dispatch name)
  obtain ⟨u, hu⟩ := habort v ((w.quiet_host s₁).trans hquiet)
  rw [hu] at hdispatched
  rw [invoke_eq, Action.bind_of_ok hcollected, Action.bind_of_ok hdecoded, Action.bind_of_ok hroom]
  exact ⟨_, Action.bind_of_error hdispatched⟩

/-- A load that is forwarded to an engine whose status is zero comes through. -/
theorem bulkLoad_of_forwarded [Memory] {tag paths : Handle} {name : String}
    {natives : List (List UInt8)}
    (h : Forwarded limits w.host tag paths name natives) (hstatus : w.engine.loadStatus = 0) :
    ∃ v, bulkLoad limits tag paths w = .ok () v := by
  obtain ⟨s₁, htag, s₂, hlen, hmost, hne, hfits, s₃, hread⟩ := h
  have hname : decodeTag limits tag w = .ok name { w with host := s₁ } :=
    decodeTag_eq_ok.mpr ⟨s₁, htag, rfl⟩
  have hcount : (onHost .host (HostRuntime.arrayLen paths) : Operation σ Nat)
      { w with host := s₁ } = .ok natives.length { w with host := s₂ } :=
    onHost_eq_ok.mpr ⟨s₂, hlen, rfl⟩
  have hroom : (reserve .pathList (natives.length * nativeWidth) : Operation σ Unit)
      { w with host := s₂ } = .ok () { w with host := s₂ } := reserve_eq_ok.mpr ⟨hfits, rfl⟩
  obtain ⟨v, change, hquiet, -, hloaded⟩ := withPaths_of_pathsRead (w := { w with host := s₂ })
    hread rfl fun natives => onEngine fun engine streams => engine.loadFromFile name natives streams
  have hzero : v.engine.loadStatus = 0 := by
    obtain ⟨ledger, hengine⟩ := Engine.eq_of_bare hquiet.engine
    rw [hengine]
    exact hstatus
  rw [onEngine_apply] at hloaded
  unfold bulkLoad
  rw [Action.bind_of_ok hname, Action.bind_of_ok hcount, if_neg (Nat.not_lt.mpr hmost),
    if_neg fun hnil => hne (List.length_eq_zero_iff.mp hnil), Action.bind_of_ok hroom,
    Action.bind_of_ok hloaded]
  rw [if_pos ((Engine.status_loadFromFile ..).trans hzero)]
  exact ⟨_, rfl⟩

omit [HostRuntime σ] in
/-- To enable the log fails only before the policy is attached. -/
theorem enableLogging_of_error {registry : Log.Registry} {stream : Nat} {abort : Abort BridgeError}
    (h : enableLogging registry stream w = .error abort w') : w'.engine = w.engine := by
  rw [enableLogging_eq] at h
  split at h
  · cases h
    rfl
  · split at h
    · next hattach =>
      cases h
      exact Engine.attachLog_of_error hattach
    · cases h

end Bridge

variable {σ : Type} [HostRuntime σ]

namespace Site

/-! ## What calls raise -/

/-- The errors that a call raises. -/
inductive Raises [Memory] (s : Site σ) (name : String) (args : List Handle) : String → Prop where
  /-- There is no such entry point. -/
  | unknown : s.module.entry? name = none → Raises s name args ("no such export: " ++ name)
  /-- The entry point ends with an error. -/
  | failed {entry : Export} {e : BridgeError} {w : World σ} :
      s.module.entry? name = some entry →
      s.module.run args entry s.world = .error (.error e) w → Raises s name args e.message
  /-- The entry point breaks down. -/
  | broken {entry : Export} {detail : Option String} {w : World σ} :
      s.module.entry? name = some entry →
      s.module.run args entry s.world = .error (.panic detail) w →
      Raises s name args ("panic in entry point: " ++ detail.getD "unknown panic")

variable {s : Site σ} {name : String} {args : List Handle} {message : String}

theorem raises_of_abort [Memory] {entry : Export} {abort : Abort BridgeError} {w : World σ}
    (hentry : s.module.entry? name = some entry)
    (hrun : s.module.run args entry s.world = .error abort w) :
    s.Raises name args (Module.abortMessage abort) := by
  cases abort with
  | error e => exact .failed hentry hrun
  | panic detail => exact .broken hentry hrun

/-- A function that fails or breaks down in the middle of a call ends the call in the same way. -/
theorem raises_of_asks [Memory] {f : String} {values : List Value} {abort : Abort BridgeError}
    (h : s.Asks name args (.call f values))
    (hout : (s.module.engine.callByName f values s.streams).1.abort? = some abort) :
    s.Raises name args (Module.abortMessage abort) := by
  obtain ⟨entry, hentry, hasks⟩ := h
  cases hasks with
  | @call nameHandle args _ _ hreached =>
    -- between the start of the call and the dispatch only the ledger is written
    have habort (v : World σ) (hquiet : s.world.Quiet v) :
        ∃ u, dispatch f values v = .error abort u := by
      have hsame : (v.engine.callByName f values v.streams).1 =
          (s.module.engine.callByName f values s.streams).1 := by
        rw [hquiet.streams]
        exact (Engine.callByName_bare hquiet.engine f values s.streams).1
      exact dispatch_of_abort (hsame.symm ▸ hout)
    obtain ⟨u, hrun⟩ := invoke_of_reached hreached habort
    exact raises_of_abort hentry hrun

/-- How a call ends: there is no entry point, or it comes through, or it ends early. -/
theorem call_cases [Memory] (s : Site σ) (name : String) (args : List Handle) :
    (s.module.entry? name = none ∧
      s.call name args = (none, s.raise ("no such export: " ++ name))) ∨
    ∃ entry, s.module.entry? name = some entry ∧
      ((∃ value w, s.module.run args entry s.world = .ok value w ∧
        s.call name args = (value, s.become w)) ∨
      ∃ abort w, s.module.run args entry s.world = .error abort w ∧
        s.call name args = (none, (s.become w).raise (Module.abortMessage abort))) := by
  rw [call_eq]
  cases s.module.entry? name with
  | none => exact .inl ⟨rfl, rfl⟩
  | some entry =>
    refine .inr ⟨entry, rfl, ?_⟩
    dsimp only
    cases s.module.run args entry s.world with
    | ok value w => exact .inl ⟨value, w, rfl, rfl⟩
    | error abort w => exact .inr ⟨abort, w, rfl, rfl⟩

/-- A call that raises an error ends in one of two ways. -/
theorem Raises.cases_end [Memory] (h : s.Raises name args message) :
    (s.module.entry? name = none ∧ message = "no such export: " ++ name) ∨
    ∃ entry abort w, s.module.entry? name = some entry ∧
      s.module.run args entry s.world = .error abort w ∧ message = Module.abortMessage abort := by
  cases h with
  | unknown hentry => exact .inl ⟨hentry, rfl⟩
  | failed hentry hrun => exact .inr ⟨_, _, _, hentry, hrun, rfl⟩
  | broken hentry hrun => exact .inr ⟨_, _, _, hentry, hrun, rfl⟩

/-- What a call raises is raised in the host, where the operation left it, and there is no value. -/
theorem Raises.call_eq [Memory] (h : s.Raises name args message) :
    ∃ w : World σ, s.call name args = (none, (s.become w).raise message) ∧
      (w = s.world ∨ ∃ entry, w = Action.final (s.module.run args entry) s.world) := by
  rcases h.cases_end with ⟨hentry, rfl⟩ | ⟨entry, abort, w, hentry, hrun, rfl⟩
  · exact ⟨s.world, by rw [Site.call_eq, hentry]; rfl, .inl rfl⟩
  · refine ⟨w, by rw [Site.call_eq, hentry]; simp only [hrun], .inr ⟨entry, ?_⟩⟩
    rw [Action.final_of_error hrun]

/-! ## What is left -/

/-- **What a failed call leaves of the engine** is all but its ledger and what its functions
remember. -/
theorem Raises.kept [Memory] (h : s.Raises name args message) :
    s.module.engine.Kept (s.call name args).2.module.engine := by
  rcases h.cases_end with ⟨hentry, -⟩ | ⟨entry, abort, w, hentry, hrun, -⟩
  · rw [Site.call_eq, hentry]
    exact .refl _
  by_cases hasks : ∃ request, s.Asks name args request
  swap
  · exact (Engine.Kept.refl _).of_bare (call_quiet fun request h => hasks ⟨request, h⟩).1
  obtain ⟨request, hrequest⟩ := hasks
  have hserved := (call_served hrequest).1
  obtain ⟨entry', hentry', hasks⟩ := hrequest
  obtain rfl := Option.some.inj (hentry'.symm.trans hentry)
  cases hasks with
  | @call nameHandle args f values _ =>
    exact (Engine.kept_callByName s.module.engine f values s.streams).of_bare hserved
  | @load tag paths more f natives hforwarded =>
    have hstatus : s.module.engine.loadStatus ≠ 0 := by
      intro hzero
      obtain ⟨v, hload⟩ := bulkLoad_of_forwarded (w := s.world) hforwarded hzero
      have hthrough : s.module.run (tag :: paths :: more) .bulkLoad s.world = .ok none v :=
        Action.bind_of_ok hload
      rw [hthrough] at hrun
      cases hrun
    refine (Engine.Kept.refl _).of_bare (hserved.trans ?_)
    exact congrArg Engine.bare
      (Engine.loadFromFile_of_status hstatus f natives s.streams)
  | log =>
    have hengine : w.engine = s.module.engine := by
      cases hlog : enableLogging s.module.registry s.module.logStream s.world with
      | ok u v =>
        have hthrough : s.module.run args .enableLogging s.world = .ok none v :=
          Action.bind_of_ok hlog
        rw [hthrough] at hrun
        cases hrun
      | error abort' v =>
        have hfailed : s.module.run args .enableLogging s.world = .error abort' v :=
          Action.bind_of_error hlog
        rw [hfailed] at hrun
        cases hrun
        exact enableLogging_of_error hlog
    rw [(call_of_entry hentry args).1, Action.final_of_error hrun]
    exact hengine.symm ▸ .refl _

variable [ArenaHost σ]

/-- What a failed call leaves as it was: the engine's loads, functions, policies and settings, the
module's configuration, registry, log stream and exports, and all values that the host had. -/
structure Unharmed (s s' : Site σ) : Prop where
  engine : s.module.engine.Kept s'.module.engine
  module : s'.module = { s.module with engine := s'.module.engine }
  values : (ArenaHost.arena s.host).Extends (ArenaHost.arena s'.host)

theorem grows_run [Memory] (s : Site σ) (args : List Handle) (entry : Export) :
    (ArenaHost.arena s.host).Grows
      (ArenaHost.arena (Action.final (s.module.run args entry) s.world).host) :=
  closed_grows.run s.module args entry s.world

theorem Raises.arena [Memory] (h : s.Raises name args message) :
    ∃ a, (ArenaHost.arena s.host).Grows a ∧
      ArenaHost.arena (s.call name args).2.host = a.raise message := by
  obtain ⟨w, hcall, hw⟩ := h.call_eq
  refine ⟨ArenaHost.arena w.host, ?_, ?_⟩
  · rcases hw with rfl | ⟨entry, rfl⟩
    · exact .refl _
    · exact s.grows_run args entry
  · rw [hcall]
    exact ArenaHost.raised message w.host

theorem Raises.unharmed [Memory] (h : s.Raises name args message) :
    s.Unharmed (s.call name args).2 := by
  obtain ⟨a, hgrows, harena⟩ := h.arena
  refine ⟨h.kept, call_module s name args, ?_⟩
  rw [harena]
  exact hgrows.extends

/-- The errors raised in the host so far. -/
def errors (s : Site σ) : List String := (ArenaHost.arena s.host).errors

theorem Raises.errors_eq [Memory] (h : s.Raises name args message) :
    (s.call name args).2.errors = s.errors ++ [message] := by
  obtain ⟨a, hgrows, harena⟩ := h.arena
  rw [errors, harena, Arena.raise, hgrows.errors_eq, errors]

theorem errors_of_not_raises [Memory] (h : ∀ message, ¬ s.Raises name args message) :
    (s.call name args).2.errors = s.errors := by
  rcases call_cases s name args with ⟨hentry, -⟩ | ⟨entry, hentry, ⟨value, w, hrun, hcall⟩ |
    ⟨abort, w, hrun, -⟩⟩
  · exact (h _ (.unknown hentry)).elim
  · have hgrows := s.grows_run args entry
    rw [Action.final_of_ok hrun] at hgrows
    rw [hcall]
    exact hgrows.errors_eq
  · exact (h _ (raises_of_abort hentry hrun)).elim

/-- **All or nothing**: a call raises one error and has no value if its entry point is not there,
ends with an error or breaks down, as it does with a function that breaks down, and raises none
otherwise.  One that raises an error leaves the module and the values of the host as they were. -/
theorem call_all_or_nothing [Memory] (s : Site σ) (name : String) (args : List Handle) :
    let answer := s.call name args
    (∀ message, s.Raises name args message →
      answer.1 = none ∧ answer.2.errors = s.errors ++ [message] ∧ s.Unharmed answer.2) ∧
    ((∀ message, ¬ s.Raises name args message) → answer.2.errors = s.errors) ∧
    ∀ f values detail, s.Asks name args (.call f values) →
      (s.module.engine.callByName f values s.streams).1 = .panic detail →
      s.Raises name args ("panic in entry point: " ++ detail.getD "unknown panic") := by
  refine ⟨fun message h => ?_, errors_of_not_raises, fun f values detail hasks hpanic => ?_⟩
  · obtain ⟨w, hcall, -⟩ := h.call_eq
    exact ⟨by rw [hcall], h.errors_eq, h.unharmed⟩
  · have hout :
        (s.module.engine.callByName f values s.streams).1.abort? = some (.panic detail) := by
      rw [hpanic]
      rfl
    exact raises_of_asks hasks hout

/-- A function breaks down without a text in the middle of a call. -/
theorem call_all_or_nothing_brittle :
    let answer := brittle.call "invoke" [⟨0⟩]
    brittle.Raises "invoke" [⟨0⟩] "panic in entry point: unknown panic" ∧
      answer.1 = none ∧ answer.2.errors = ["panic in entry point: unknown panic"] ∧
      answer.2.module.engine.functionNames = ["boom"] := by
  have hname : NameRead brittle.host ⟨0⟩ "boom" brittle.host :=
    ⟨4, 5, [98, 111, 111, 109], brittle.host, rfl, by decide, rfl, rfl, rfl, rfl⟩
  have hasks : brittle.Asks "invoke" [⟨0⟩] (.call "boom" []) :=
    ⟨.invoke, rfl, .call ⟨rfl, brittle.host, hname, rfl, brittle.host, .nil⟩⟩
  obtain ⟨hraised, -, hpanics⟩ := call_all_or_nothing brittle "invoke" [⟨0⟩]
  have hraises := hpanics "boom" [] none hasks rfl
  obtain ⟨hvalue, herrors, hunharmed⟩ := hraised _ hraises
  exact ⟨hraises, hvalue, herrors, hunharmed.engine.names (List.pairwise_singleton _ _)⟩

/-! ## Calls that fail one after another -/

/-- The calls of a run all raise errors, these ones. -/
inductive Failing [Memory] : Site σ → List (String × List Handle) → List String → Prop where
  | nil {s : Site σ} : Failing s [] []
  | cons {s : Site σ} {name : String} {args : List Handle} {message : String}
      {calls : List (String × List Handle)} {messages : List String} :
      s.Raises name args message → Failing (s.call name args).2 calls messages →
      Failing s ((name, args) :: calls) (message :: messages)

theorem Unharmed.refl (s : Site σ) : s.Unharmed s := ⟨.refl _, rfl, .refl _⟩

theorem Unharmed.trans {s t u : Site σ} (hst : s.Unharmed t) (htu : t.Unharmed u) :
    s.Unharmed u where
  engine := hst.engine.trans htu.engine
  module := by rw [htu.module, hst.module]
  values := hst.values.trans htu.values

/-- However many calls fail, the next one finds the module as the first did. -/
theorem callAll_failing [Memory] {calls : List (String × List Handle)} {messages : List String}
    (h : s.Failing calls messages) :
    s.Unharmed (s.callAll calls).2 ∧ (s.callAll calls).2.errors = s.errors ++ messages := by
  induction h with
  | nil => exact ⟨.refl _, (List.append_nil _).symm⟩
  | @cons s name args message calls messages hfirst _ ih =>
    have hcalls : (s.callAll ((name, args) :: calls)).2 =
      ((s.call name args).2.callAll calls).2 := rfl
    rw [hcalls]
    refine ⟨hfirst.unharmed.trans ih.1, ?_⟩
    rw [ih.2, hfirst.errors_eq, List.append_assoc]
    rfl

end Site

end ForeignCall
