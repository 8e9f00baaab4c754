import ForeignCall.Proofs.Pouring
import ForeignCall.Proofs.Requests

/-!
# ForeignCall.Proofs.Trace

The log of a module as a trace of what its engine was asked.

Each call amounts to at most one `Event`, which is read off the host's answers
and not off the log (`Site.Tells`).  Over a run of calls the stream grows by the
`transcript` of the events:

```
transcript n (e₁ e₂ …)  =  record e₁ × n₁  record e₂ × n₂  …
```

where `nᵢ` is the number of policies that are attached when the record is
written: `n` to begin with, and one more from each enabling of the log on, its
own record included.
-/

namespace ForeignCall

open Bridge

/-! ## Events -/

/-- What the engine tells its log. -/
inductive Event where
  | enabled
  /-- A function was called by a name, with so many arguments. -/
  | called (name : String) (args : Nat)
  /-- So many paths were loaded under a tag, or were to be. -/
  | loaded (tag : String) (paths : Nat)
deriving DecidableEq, Repr

namespace Event

/-- The line of an event. -/
def line : Event → String
  | .enabled => "[INFO] engine: debug logs enabled\n"
  | .called name args => "[DEBUG] engine: call " ++ name ++ " (" ++ toString args ++ " args)\n"
  | .loaded tag paths => "[INFO] engine: load " ++ tag ++ " (" ++ toString paths ++ " files)\n"

/-- The policies that are attached when the line is written, of `n` that were before. -/
def policies (n : Nat) : Event → Nat
  | .enabled => n + 1
  | .called _ _ | .loaded _ _ => n

/-- What is written for an event. -/
def written (n : Nat) (event : Event) : List UInt8 :=
  (List.replicate (event.policies n) (Utf8.octets event.line)).flatten

end Event

/-- What is written for some events, with `n` policies attached at first. -/
def transcript : Nat → List Event → List UInt8
  | _, [] => []
  | n, event :: rest => event.written n ++ transcript (event.policies n) rest

variable {σ : Type} [HostRuntime σ]

namespace Site

/-- The event that a call amounts to: the log is enabled if the engine takes log policies, an
invocation is told if it reaches the engine, and a load if it is forwarded there. -/
inductive Tells [Memory] (s : Site σ) (name : String) : List Handle → Event → Prop where
  | enabled {args : List Handle} : s.module.entry? name = some .enableLogging →
      s.module.engine.refusesLogs = none → Tells s name args .enabled
  | called {nameHandle : Handle} {args : List Handle} {function : String} {values : List Value} :
      s.module.entry? name = some .invoke →
      Reached s.module.config.limits s.host nameHandle args function values →
      Tells s name (nameHandle :: args) (.called function args.length)
  | loaded {tagHandle paths : Handle} {more : List Handle} {tag : String}
      {natives : List (List UInt8)} : s.module.entry? name = some .bulkLoad →
      Forwarded s.module.config.limits s.host tagHandle paths tag natives →
      Tells s name (tagHandle :: paths :: more) (.loaded tag natives.length)

/-- The events of a run of calls, in order. -/
inductive Chronicle [Memory] : Site σ → List (String × List Handle) → List Event → Prop where
  | nil {s : Site σ} : Chronicle s [] []
  | event {s : Site σ} {name : String} {args : List Handle} {rest : List (String × List Handle)}
      {event : Event} {events : List Event} : s.Tells name args event →
      Chronicle (s.call name args).2 rest events →
      Chronicle s ((name, args) :: rest) (event :: events)
  | silent {s : Site σ} {name : String} {args : List Handle} {rest : List (String × List Handle)}
      {events : List Event} : (∀ event, ¬ s.Tells name args event) →
      Chronicle (s.call name args).2 rest events →
      Chronicle s ((name, args) :: rest) events

/-- Every run of calls has its events. -/
theorem exists_chronicle [Memory] (s : Site σ) (calls : List (String × List Handle)) :
    ∃ events, s.Chronicle calls events := by
  induction calls generalizing s with
  | nil => exact ⟨[], .nil⟩
  | cons call rest ih =>
    obtain ⟨name, args⟩ := call
    obtain ⟨events, hrest⟩ := ih (s.call name args).2
    by_cases htells : ∃ event, s.Tells name args event
    · obtain ⟨event, hevent⟩ := htells
      exact ⟨event :: events, .event hevent hrest⟩
    · exact ⟨events, .silent (fun event hevent => htells ⟨event, hevent⟩) hrest⟩

end Site

/-! ## Records -/

/-- The record of a request, in the engine's words, is the line of its event. -/
theorem record_enabled :
    Log.record .info "engine" "debug logs enabled" = Utf8.octets Event.enabled.line := by
  rfl

theorem record_called (name : String) (args : Nat) :
    Log.record .debug "engine" ("call " ++ name ++ " (" ++ toString args ++ " args)") =
      Utf8.octets (Event.called name args).line := by
  have hlead : "[DEBUG] engine: call " =
      "[" ++ "DEBUG" ++ "] " ++ "engine" ++ ": " ++ "call " := rfl
  have hend : " args)\n" = " args)" ++ "\n" := rfl
  unfold Log.record Event.line Log.Level.name
  rw [hlead, hend]
  simp only [String.append_assoc]

theorem record_loaded (tag : String) (paths : Nat) :
    Log.record .info "engine" ("load " ++ tag ++ " (" ++ toString paths ++ " files)") =
      Utf8.octets (Event.loaded tag paths).line := by
  have hlead : "[INFO] engine: load " = "[" ++ "INFO" ++ "] " ++ "engine" ++ ": " ++ "load " := rfl
  have hend : " files)\n" = " files)" ++ "\n" := rfl
  unfold Log.record Event.line Log.Level.name
  rw [hlead, hend]
  simp only [String.append_assoc]

namespace Engine

theorem callByName_log (e : Engine) (name : String) (args : List Value) (streams : Log.Streams) :
    (e.callByName name args streams).2.1.logger = e.logger ∧
      (e.callByName name args streams).2.2 =
        e.emit .debug ("call " ++ name ++ " (" ++ toString args.length ++ " args)") streams := by
  unfold callByName
  cases Entries.find? name e.functions with
  | none => exact ⟨rfl, rfl⟩
  | some f =>
    dsimp only
    cases f.behaviour f.history args <;> exact ⟨rfl, rfl⟩

theorem loadFromFile_log (e : Engine) (tag : String) (paths : List (List UInt8))
    (streams : Log.Streams) :
    (e.loadFromFile tag paths streams).2.1.logger = e.logger ∧
      (e.loadFromFile tag paths streams).2.2 =
        e.emit .info ("load " ++ tag ++ " (" ++ toString paths.length ++ " files)") streams := by
  unfold loadFromFile
  dsimp only
  split <;> exact ⟨rfl, rfl⟩

/-- A policy that is taken is attached before the record is written. -/
theorem attachLog_of_taken {e : Engine} {policy : Log.Policy} (h : e.refusesLogs = none)
    (hpolicy : policy.isInitialized) (streams : Log.Streams) :
    (e.attachLog policy streams).2 = ({ e with logger := e.logger.attach policy },
      ({ e with logger := e.logger.attach policy } : Engine).emit .info "debug logs enabled"
        streams) := by
  unfold attachLog
  split
  · next hrefuses =>
    rw [h] at hrefuses
    cases hrefuses
  · rw [if_pos hpolicy]

/-- A policy that is refused is dropped. -/
theorem attachLog_of_refused {e : Engine} {reason : String} (h : e.refusesLogs = some reason)
    (policy : Log.Policy) (streams : Log.Streams) :
    (e.attachLog policy streams).2 = (e, (policy.destroy streams).2) := by
  unfold attachLog
  split
  · rfl
  · next hrefuses =>
    rw [h] at hrefuses
    cases hrefuses

end Engine

/-! ## Logs that keep records -/

namespace Log

/-- Policies over one stream. -/
def policiesOver (id n : Nat) : List Policy :=
  List.replicate n ⟨stdioTag, some (.stdio id)⟩

/-- A stream that accepts everything and has some content. -/
def Streams.Keeps (streams : Streams) (id : Nat) (content : List UInt8) : Prop :=
  ∃ t, streams[id]? = some t ∧ t.Accepting ∧ t.content.toList = content

theorem policiesOver_succ (id n : Nat) :
    policiesOver id (n + 1) = policiesOver id n ++ [⟨stdioTag, some (.stdio id)⟩] :=
  List.replicate_succ'

variable {streams : Streams} {id : Nat} {content : List UInt8}

/-- Holding a stream, or letting it go, changes nothing about its content. -/
theorem Streams.Keeps.heldBy {later : Streams} {f : Stream → Nat} (h : streams.Keeps id content)
    (hlater : later[id]? = streams[id]?.map fun s => s.heldBy (f s)) : later.Keeps id content := by
  obtain ⟨t, ht, haccepting, hcontent⟩ := h
  exact ⟨t.heldBy (f t), by rw [hlater, ht]; rfl, haccepting.heldBy _, hcontent⟩

/-- A record goes to the stream once for each policy. -/
theorem Streams.Keeps.emit (h : streams.Keeps id content) {e : Engine} {n : Nat}
    (hlogger : e.logger = ⟨.debug, policiesOver id n⟩) (level : Level) (message : String) :
    Streams.Keeps (e.emit level message streams) id
      (content ++ (List.replicate n (record level "engine" message)).flatten) := by
  have hlevel : ¬ level.rank < Level.debug.rank := Nat.not_lt_zero _
  obtain ⟨t, ht, haccepting, rfl⟩ := h
  obtain ⟨u, hu⟩ :=
    Logger.attempt_accepting stdioTag (record level "engine" message) n ht haccepting
  refine ⟨u, ?_⟩
  rw [Engine.emit, hlogger, Logger.log, if_neg hlevel]
  exact hu

end Log

namespace Site

/-- A site whose log is at level debug, and goes to some number of policies over the log stream. -/
structure Keeps {σ : Type} (s : Site σ) (n : Nat) (content : List UInt8) : Prop where
  registry : s.module.registry = .withDefaults
  logger : s.module.engine.logger = ⟨.debug, Log.policiesOver s.module.logStream n⟩
  stream : s.streams.Keeps s.module.logStream content

namespace Keeps

variable [Memory] {s : Site σ} {n : Nat} {content : List UInt8} {name : String} {args : List Handle}

/-- A call keeps records if what it makes of the engine and the streams does. -/
theorem call (h : s.Keeps n content) {e : Engine} {streams : Log.Streams} {m : Nat}
    {content' : List UInt8} (hlater : (s.call name args).2.module.engine.bare = e.bare ∧
      (s.call name args).2.streams = streams)
    (hlogger : e.logger = ⟨.debug, Log.policiesOver s.module.logStream m⟩)
    (hstream : streams.Keeps s.module.logStream content') :
    (s.call name args).2.Keeps m content' := by
  obtain ⟨hengine, rfl⟩ := hlater
  have hmodule := call_module s name args
  have hbare : (s.call name args).2.module.engine.bare.logger = e.bare.logger := by rw [hengine]
  have hsame : (s.call name args).2.module.engine.logger = e.logger := hbare
  constructor
  · rw [hmodule]
    exact h.registry
  · rw [hsame, hlogger, hmodule]
  · rw [hmodule]
    exact hstream

theorem called (h : s.Keeps n content) {function : String} {values : List Value}
    (hasks : s.Asks name args (.call function values)) :
    (s.call name args).2.Keeps n (content ++ (Event.called function values.length).written n) := by
  obtain ⟨hlogger, hemit⟩ := s.module.engine.callByName_log function values s.streams
  have hwritten := h.stream.emit h.logger .debug
    ("call " ++ function ++ " (" ++ toString values.length ++ " args)")
  rw [record_called, ← hemit] at hwritten
  exact h.call (call_served hasks) (hlogger.trans h.logger) hwritten

theorem loaded (h : s.Keeps n content) {tag : String} {natives : List (List UInt8)}
    (hasks : s.Asks name args (.load tag natives)) :
    (s.call name args).2.Keeps n (content ++ (Event.loaded tag natives.length).written n) := by
  obtain ⟨hlogger, hemit⟩ := s.module.engine.loadFromFile_log tag natives s.streams
  have hwritten := h.stream.emit h.logger .info
    ("load " ++ tag ++ " (" ++ toString natives.length ++ " files)")
  rw [record_loaded, ← hemit] at hwritten
  exact h.call (call_served hasks) (hlogger.trans h.logger) hwritten

omit [Memory] [HostRuntime σ] in
/-- To enable the log a policy is created over the log stream, and the engine is asked to take
it. -/
theorem serve_log (h : s.Keeps n content) :
    s.module.engine.serve s.streams (.log s.module.registry s.module.logStream) =
      (s.module.engine.attachLog ⟨Log.stdioTag, some (.stdio s.module.logStream)⟩
        (s.streams.hold s.module.logStream)).2 := by
  rw [h.registry]
  rfl

/-- The policy is attached, and then the record goes to it, too. -/
theorem enabled (h : s.Keeps n content) (hwilling : s.module.engine.refusesLogs = none)
    (hasks : s.Asks name args (.log s.module.registry s.module.logStream)) :
    (s.call name args).2.Keeps (n + 1) (content ++ Event.enabled.written n) := by
  have hserved := call_served hasks
  rw [h.serve_log, Engine.attachLog_of_taken hwilling rfl] at hserved
  have hlogger : s.module.engine.logger.attach
      ⟨Log.stdioTag, some (.stdio s.module.logStream)⟩ =
        ⟨.debug, Log.policiesOver s.module.logStream (n + 1)⟩ := by
    rw [h.logger, Log.policiesOver_succ]
    rfl
  have hheld := h.stream.heldBy (s.streams.getElem?_hold s.module.logStream s.module.logStream)
  refine h.call hserved hlogger ?_
  rw [Event.written, ← record_enabled]
  exact hheld.emit hlogger .info "debug logs enabled"

/-- A policy that is refused lets go of the stream. -/
theorem refused (h : s.Keeps n content) {reason : String}
    (hrefuses : s.module.engine.refusesLogs = some reason)
    (hasks : s.Asks name args (.log s.module.registry s.module.logStream)) :
    (s.call name args).2.Keeps n content := by
  have hserved := call_served hasks
  rw [h.serve_log, Engine.attachLog_of_refused hrefuses] at hserved
  have hheld := h.stream.heldBy (s.streams.getElem?_hold s.module.logStream s.module.logStream)
  exact h.call hserved h.logger (hheld.heldBy (Log.Streams.getElem?_destroy _ _ _))

theorem tells (h : s.Keeps n content) {event : Event} (hevent : s.Tells name args event) :
    (s.call name args).2.Keeps (event.policies n) (content ++ event.written n) := by
  cases hevent with
  | enabled hentry hwilling => exact h.enabled hwilling ⟨_, hentry, .log⟩
  | called hentry hreached =>
    obtain ⟨_, s₁, _, _, s₂, hconverts⟩ := id hreached
    rw [← hconverts.length_eq]
    exact h.called ⟨_, hentry, .call hreached⟩
  | loaded hentry hforwarded => exact h.loaded ⟨_, hentry, .load hforwarded⟩

theorem silent (h : s.Keeps n content) (hnone : ∀ event, ¬ s.Tells name args event) :
    (s.call name args).2.Keeps n content := by
  by_cases hasks : ∃ request, s.Asks name args request
  · obtain ⟨request, entry, hentry, hasked⟩ := hasks
    cases hasked with
    | call hreached => exact (hnone _ (.called hentry hreached)).elim
    | load hforwarded => exact (hnone _ (.loaded hentry hforwarded)).elim
    | log =>
      cases hrefuses : s.module.engine.refusesLogs with
      | none => exact (hnone _ (.enabled hentry hrefuses)).elim
      | some reason => exact h.refused hrefuses ⟨_, hentry, .log⟩
  · exact h.call (call_quiet fun request hrequest => hasks ⟨request, hrequest⟩) h.logger h.stream

/-- What a run of calls writes is the transcript of its events. -/
theorem callAll (h : s.Keeps n content) {calls : List (String × List Handle)}
    {events : List Event} (hevents : s.Chronicle calls events) :
    (s.callAll calls).2.Keeps (events.foldl Event.policies n) (content ++ transcript n events) := by
  induction hevents generalizing n content with
  | nil => simpa [transcript, Site.callAll] using h
  | event hevent _ ih =>
    have hrest := ih (h.tells hevent)
    rw [List.append_assoc] at hrest
    exact hrest
  | silent hnone _ ih => exact ih (h.silent hnone)

end Keeps

omit [HostRuntime σ] in
/-- A module that has been started with an engine that has no log policies keeps records. -/
theorem keeps_of_start {engine : Engine} {config : Config} {logStream : Nat} {m : Module} {host : σ}
    {streams : Log.Streams} {t : Log.Stream} (hstart : Module.start engine config logStream = .ok m)
    (hlogger : engine.logger = { minLevel := .debug }) (ht : streams[logStream]? = some t)
    (haccepting : t.Accepting) : (⟨m, host, streams⟩ : Site σ).Keeps 0 t.content.toList := by
  unfold Module.start Engine.start at hstart
  split at hstart
  · next engine' hengine =>
    split at hengine
    · cases hengine
    · cases hengine
      cases hstart
      exact ⟨rfl, hlogger, t, ht, haccepting, rfl⟩
  · cases hstart

/-- Without any policy nothing is written. -/
theorem transcript_of_not_enabled {events : List Event} (h : .enabled ∉ events) :
    transcript 0 events = [] := by
  induction events with
  | nil => rfl
  | cons event rest ih =>
    have hrest := ih fun hmem => h (List.mem_cons_of_mem _ hmem)
    cases event with
    | enabled => exact (h List.mem_cons_self).elim
    | called | loaded => exact hrest

theorem foldl_policies (n : Nat) (events : List Event) :
    events.foldl Event.policies n = n + events.count .enabled := by
  induction events generalizing n with
  | nil => rfl
  | cons event rest ih =>
    rw [List.foldl_cons, ih]
    cases event with
    | enabled =>
      rw [List.count_cons_self, Event.policies]
      omega
    | called | loaded => rw [List.count_cons_of_ne (by simp), Event.policies]

/-- **The log is a trace of dispatch.**  A run of calls has its events, which say what reached the
engine; the log stream grows by their transcript, in the order of the calls and once for each policy
attached at the moment; each enabling of the log attaches one; and nothing is written before the
first. -/
theorem callAll_traced [Memory] (s : Site σ) (n : Nat) (content : List UInt8)
    (h : s.Keeps n content) (calls : List (String × List Handle)) :
    let after := (s.callAll calls).2
    (∃ events, s.Chronicle calls events) ∧ ∀ events, s.Chronicle calls events →
      (∃ t, after.streams[after.module.logStream]? = some t ∧
        t.content.toList = content ++ transcript n events ∧
        (n = 0 → .enabled ∉ events → t.content.toList = content)) ∧
      after.module.engine.logger.policies.length = n + events.count .enabled := by
  refine ⟨exists_chronicle s calls, fun events hevents => ?_⟩
  have hafter := h.callAll hevents
  obtain ⟨t, ht, -, hcontent⟩ := hafter.stream
  refine ⟨⟨t, ht, hcontent, ?_⟩, ?_⟩
  · rintro rfl hnone
    rw [hcontent, transcript_of_not_enabled hnone, List.append_nil]
  · rw [hafter.logger, Log.policiesOver, List.length_replicate, foldl_policies]

/-- The log is enabled, a function that breaks down is called, and the engine is described: two
lines are written. -/
theorem callAll_traced_brittle :
    let after := (brittle.callAll [("enable_logging", []), ("invoke", [⟨0⟩]), ("inspect", [])]).2
    brittle.Keeps 0 [] ∧ ∃ t, after.streams[after.module.logStream]? = some t ∧
      t.content.toList = transcript 0 [.enabled, .called "boom" 0] := by
  intro after
  have h : brittle.Keeps 0 [] := ⟨rfl, rfl, {}, rfl, ⟨nofun, rfl, rfl, rfl⟩, rfl⟩
  have hname : NameRead brittle.host ⟨0⟩ "boom" brittle.host :=
    ⟨4, 5, [98, 111, 111, 109], brittle.host, rfl, by decide, rfl, rfl, rfl, rfl⟩
  have hreached : Reached {} brittle.host ⟨0⟩ [] "boom" [] :=
    ⟨rfl, brittle.host, hname, rfl, brittle.host, .nil⟩
  have hevents : brittle.Chronicle [("enable_logging", []), ("invoke", [⟨0⟩]), ("inspect", [])]
      [.enabled, .called "boom" 0] := by
    have henabled : (brittle.call "enable_logging" []).2.Tells "invoke" [⟨0⟩] (.called "boom" 0) :=
      .called (by rw [entry?_call]; rfl) hreached
    refine .event (.enabled rfl rfl) (.event henabled (.silent ?_ .nil))
    · intro event hevent
      have hentry : brittle.module.entry? "inspect" = some .inspect := rfl
      cases hevent
      simp_all [entry?_call]
  obtain ⟨⟨t, ht, hcontent, -⟩, -⟩ := (callAll_traced brittle 0 [] h _).2 _ hevents
  exact ⟨h, t, ht, hcontent⟩

end Site

end ForeignCall
