import ForeignCall.Startup

/-!
# ForeignCall.Proofs.Slot

The slot of a process over whole runs.

A run is read by its steps and their answers.  Whatever else happens in
between, the slot is taken from the first attempt on that answered with a
module, and free until then (`loaded_after`): a failed start gives it back,
while starting a module beside the slot, dropping one and calling one have
nothing to do with it.

`slot_run` — so an attempt yields a module just if its engine starts and no
earlier attempt yielded one, and an attempt that comes too late does not even
ask its engine to start.
-/

namespace ForeignCall

namespace Startup

/-! ## Runs -/

/-- The process after a run of steps. -/
abbrev after [Memory] (p : Startup) (steps : List Step) : Startup :=
  Run.after step p steps

/-- The steps of a run, each with its answer. -/
abbrev history [Memory] (p : Startup) (steps : List Step) : List (Step × Answer) :=
  Run.history step p steps

/-! ## Single steps -/

/-- An attempt at the slot that answered with a module. -/
def Yielded : Step × Answer → Prop
  | (.load _ _, .truth true) => True
  | _ => False

/-- An engine is asked to start, and does or does not. -/
theorem start_cases (engine : Engine) (config : Config) (stream : Nat) :
    (engine.failsToStart = false ∧ ∃ m, Module.start engine config stream = .ok m ∧
      m.engine = { engine with initialized := true }) ∨
    (engine.failsToStart = true ∧
      Module.start engine config stream = .error (.callFailure (.startup .initialization))) := by
  unfold Module.start Engine.start
  cases engine.failsToStart with
  | false => exact .inl ⟨rfl, _, rfl, rfl⟩
  | true => exact .inr ⟨rfl, rfl⟩

variable [Memory]

/-- What comes of an attempt at the slot, if it is taken already. -/
theorem step_load_of_taken {p : Startup} (h : p.loaded = true) (engine : Engine)
    (config : Config) :
    p.step (.load engine config) = (.truth false, { p with
      host := p.host.raise (BridgeError.callFailure .alreadyLoaded).message
      modules := p.modules.push none }) := by
  simp only [step, load, h, if_true]
  rfl

/-- What comes of an attempt at the free slot, if the engine starts. -/
theorem step_load_of_ok {p : Startup} (h : p.loaded = false) {engine : Engine} {config : Config}
    {m : Module} (hstart : Module.start engine config standardStream = .ok m) :
    p.step (.load engine config) = (.truth true, { p with
      loaded := true
      modules := p.modules.push (some m)
      started := p.started ++ [engine] }) := by
  simp only [step, load, h, launch, hstart, Bool.false_eq_true, if_false]
  rfl

/-- What comes of an attempt at the free slot, if the engine does not start. -/
theorem step_load_of_error {p : Startup} (h : p.loaded = false) {engine : Engine}
    {config : Config} {e : BridgeError}
    (hstart : Module.start engine config standardStream = .error e) :
    p.step (.load engine config) = (.truth false, { p with
      loaded := false
      host := p.host.raise e.message
      modules := p.modules.push none
      started := p.started ++ [engine] }) := by
  simp only [step, load, h, launch, hstart, Bool.false_eq_true, if_false]
  rfl

/-- A call of a module leaves the slot alone, and starts no engine. -/
theorem callModule_slot (p : Startup) (n : Nat) (m : Module) (name : String) (args : List Json) :
    (p.callModule n m name args).2.loaded = p.loaded ∧
      (p.callModule n m name args).2.started = p.started := by
  unfold callModule
  dsimp only
  split <;> exact ⟨rfl, rfl⟩

/-- Asking for a module to be dropped, looked at or called. -/
def Step.Uses : Step → Prop
  | .load _ _ | .start _ _ => False
  | _ => True

/-- Whatever is done with modules leaves the slot alone, and starts no engine. -/
theorem step_of_uses (p : Startup) (s : Step) (h : s.Uses) :
    (p.step s).2.loaded = p.loaded ∧ (p.step s).2.started = p.started := by
  cases s with
  | load | start => exact h.elim
  | drop n => exact ⟨rfl, rfl⟩
  | isInitialized n =>
    simp only [step]
    cases p.module? n <;> exact ⟨rfl, rfl⟩
  | call n name args =>
    simp only [step]
    cases p.module? n with
    | none => exact ⟨rfl, rfl⟩
    | some m =>
      cases readArguments args with
      | error fault => exact ⟨rfl, rfl⟩
      | ok values => exact p.callModule_slot n m name values

/-! ## What comes of a step -/

/-- What comes of an attempt at the slot. -/
structure Attempted (taken : Prop) (engine : Engine) (config : Config) (now : Startup)
    (answer : Answer) (later : Startup) : Prop where
  yields_iff : answer = .truth true ↔ engine.failsToStart = false ∧ ¬ taken
  /-- A module over the started engine gets the next number, and no error is raised. -/
  module : answer = .truth true → ∃ m, Module.start engine config standardStream = .ok m ∧
    m.engine = { engine with initialized := true } ∧
    later.modules = now.modules.push (some m) ∧ later.host = now.host
  /-- Otherwise there is no module, and one error is raised. -/
  refused : answer ≠ .truth true → answer = .truth false ∧ later.modules = now.modules.push none ∧
    ∃ e : BridgeError, later.host = now.host.raise e.message ∧
      (e = .callFailure .alreadyLoaded ↔ taken)
  /-- An attempt that comes too late does not start its engine. -/
  untouched : taken → later.started = now.started
  asked : ¬ taken → later.started = now.started ++ [engine]
  /-- An engine that does not start leaves the slot free. -/
  freed : ¬ taken → engine.failsToStart = true → later.loaded = false

/-- What comes of starting an engine beside the slot: it is asked to start, whether the slot is free
or not, and the slot stays as it is. -/
structure Beside (engine : Engine) (config : Config) (now : Startup) (answer : Answer)
    (later : Startup) : Prop where
  answer_iff : answer = .truth true ↔ engine.failsToStart = false
  module : answer = .truth true → ∃ m, Module.start engine config standardStream = .ok m ∧
    later.modules = now.modules.push (some m)
  refused : answer ≠ .truth true →
    answer = .failed (.callFailure (.startup .initialization)) ∧
      later.modules = now.modules.push none
  asked : later.started = now.started ++ [engine]
  slot : later.loaded = now.loaded
  host : later.host = now.host

/-- What comes of a step, if the slot is taken or free. -/
def Accords (taken : Prop) (now : Startup) (answer : Answer) (later : Startup) : Step → Prop
  | .load engine config => Attempted taken engine config now answer later
  | .start engine config => Beside engine config now answer later
  | _ => later.loaded = now.loaded ∧ later.started = now.started

theorem attempted_step (p : Startup) (engine : Engine) (config : Config) :
    Attempted (p.loaded = true) engine config p (p.step (.load engine config)).1
      (p.step (.load engine config)).2 := by
  cases h : p.loaded with
  | true =>
    rw [step_load_of_taken h]
    exact
      { yields_iff := by simp
        module := by simp
        refused := fun _ => ⟨rfl, rfl, _, rfl, by simp⟩
        untouched := fun _ => rfl
        asked := fun hfree => absurd rfl hfree
        freed := fun hfree => absurd rfl hfree }
  | false =>
    rcases start_cases engine config standardStream with ⟨hstarts, m, hstart, hm⟩ | ⟨hfails, hstart⟩
    · rw [step_load_of_ok h hstart]
      exact
        { yields_iff := by simp [hstarts]
          module := fun _ => ⟨m, hstart, hm, rfl, rfl⟩
          refused := fun hrefused => absurd rfl hrefused
          untouched := fun htaken => absurd htaken (by simp)
          asked := fun _ => rfl
          freed := fun _ hfails => absurd (hstarts.symm.trans hfails) (by simp) }
    · rw [step_load_of_error h hstart]
      exact
        { yields_iff := by simp [hfails]
          module := by simp
          refused := fun _ => ⟨rfl, rfl, _, rfl, by simp⟩
          untouched := fun htaken => absurd htaken (by simp)
          asked := fun _ => rfl
          freed := fun _ _ => rfl }

theorem beside_step (p : Startup) (engine : Engine) (config : Config) :
    Beside engine config p (p.step (.start engine config)).1
      (p.step (.start engine config)).2 := by
  rcases start_cases engine config standardStream with ⟨hstarts, m, hstart, -⟩ | ⟨hfails, hstart⟩
  · simp only [step, launch, hstart]
    exact
      { answer_iff := by simp [hstarts]
        module := fun _ => ⟨m, hstart, rfl⟩
        refused := fun hrefused => absurd rfl hrefused
        asked := rfl
        slot := rfl
        host := rfl }
  · simp only [step, launch, hstart]
    exact
      { answer_iff := by simp [hfails]
        module := by simp
        refused := fun _ => ⟨rfl, rfl⟩
        asked := rfl
        slot := rfl
        host := rfl }

/-- Every step goes by whether the slot is taken. -/
theorem accords_step (p : Startup) (s : Step) :
    Accords (p.loaded = true) p (p.step s).1 (p.step s).2 s := by
  cases s with
  | load engine config => exact p.attempted_step engine config
  | start engine config => exact p.beside_step engine config
  | drop | isInitialized | call => exact p.step_of_uses _ trivial

/-! ## Histories -/

/-- A step takes the slot just if it is an attempt that yields a module. -/
theorem loaded_step (p : Startup) (s : Step) :
    (p.step s).2.loaded = true ↔ p.loaded = true ∨ Yielded (s, (p.step s).1) := by
  cases s with
  | load engine config =>
    cases h : p.loaded with
    | true => simp [step_load_of_taken h, h]
    | false =>
      rcases start_cases engine config standardStream with ⟨-, m, hstart, -⟩ | ⟨-, hstart⟩
      · simp [step_load_of_ok h hstart, Yielded]
      · simp [step_load_of_error h hstart, Yielded]
  | start engine config =>
    rw [(p.beside_step engine config).slot]
    simp [Yielded]
  | drop n => simp [p.step_of_uses (.drop n) trivial, Yielded]
  | isInitialized n => simp [p.step_of_uses (.isInitialized n) trivial, Yielded]
  | call n name args => simp [p.step_of_uses (.call n name args) trivial, Yielded]

/-- **The slot over a run**: it is taken once an attempt has yielded a module. -/
theorem loaded_after (p : Startup) (steps : List Step) :
    (p.after steps).loaded = true ↔
      p.loaded = true ∨ ∃ entry ∈ p.history steps, Yielded entry := by
  induction steps generalizing p with
  | nil => simp [Run.after, Run.history]
  | cons s rest ih =>
    have hrest := ih (p.step s).2
    rw [loaded_step, or_assoc] at hrest
    simp only [history, Run.history_cons, List.mem_cons, exists_eq_or_imp]
    exact hrest

/-- **At most one module is loaded into the slot of a process.**  After any steps, and whatever
steps follow, the next step answers in a run as it does by itself.  If it is an attempt at the slot,
it goes by whether an earlier attempt yielded a module; if it starts a module beside the slot, or
does something with one, it goes by nothing of the kind. -/
theorem slot_run (host : Arena) (streams : Log.Streams) (before rest : List Step) (s : Step) :
    let fresh : Startup := { host, streams }
    let now := fresh.after before
    let later := fresh.after (before ++ [s])
    ∃ answer, (fresh.run (before ++ s :: rest))[before.length]? = some (answer, later.host.errors) ∧
      Accords (∃ entry ∈ fresh.history before, Yielded entry) now answer later s := by
  intro fresh now later
  have hlater : later = (now.step s).2 := Run.after_append fresh before [s]
  have htaken : (now.loaded = true) = ∃ entry ∈ fresh.history before, Yielded entry :=
    propext ((loaded_after fresh before).trans (by simp [fresh]))
  refine ⟨(now.step s).1, ?_, ?_⟩
  · rw [hlater]
    exact Run.getElem?_run_append fresh before rest s
  · rw [hlater, ← htaken]
    exact now.accords_step s

end Startup

end ForeignCall
