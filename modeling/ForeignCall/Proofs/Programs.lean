import ForeignCall.Proofs.View
import ForeignCall.Proofs.Description
import ForeignCall.Proofs.Logging
import ForeignCall.CommandLine

/-!
# ForeignCall.Proofs.Programs

The steps of which carrying out a command line consists.

A call is a value if it raises nothing, and otherwise a failure with the
message that was raised; either way no error is left in the host
(`call_of_value`, `call_of_abort`).  Between the steps the site is `Stocked`:
the module with its built-in functions knows the loads so far, and no error is
pending.  A site is stocked when it has been prepared, and still when the log
has been enabled; at a stocked site the engine describes itself
(`inspect_of_stocked`).
-/

namespace ForeignCall

open Bridge

namespace CommandLine

/-! ## Sequences -/

section

variable {α β : Type} {program : Program α} {next : α → Program β} {s t : Site Arena}

theorem bind_of_ok {a : α} (h : program s = .ok a t) : (program >>= next) s = next a t := by
  simp only [bind, EStateM.bind, h]

theorem bind_of_error {failure : Failure} (h : program s = .error failure t) :
    (program >>= next) s = .error failure t := by
  simp only [bind, EStateM.bind, h]

theorem discard_of_ok {a : α} (h : program s = .ok a t) : discard program s = .ok () t := by
  simp only [discard, Functor.mapConst, EStateM.map, Function.comp, h]

theorem discard_of_error {failure : Failure} (h : program s = .error failure t) :
    discard program s = .error failure t := by
  simp only [discard, Functor.mapConst, EStateM.map, Function.comp, h]

/-- What is done with the values of the host concerns nothing else. -/
theorem onHost_eq (act : Arena → α × Arena) (s : Site Arena) :
    onHost act s = .ok (act s.host).1 { s with host := (act s.host).2 } := rfl

theorem onHost_bind (act : Arena → α × Arena) (s : Site Arena) :
    (onHost act >>= next) s = next (act s.host).1 { s with host := (act s.host).2 } :=
  bind_of_ok (onHost_eq act s)

end

/-! ## Calls -/

variable {s t : Site Arena} {entry : Export} {args : List Handle}

theorem call_apply [Memory] (entry : Export) (args : List Handle) (s : Site Arena) :
    call entry args s =
      let called := s.call entry.name args
      match called.2.host.errors.getLast? with
      | some message =>
        .error (.call entry message) { called.2 with host := called.2.host.takeError.2 }
      | none => .ok called.1 { called.2 with host := called.2.host.takeError.2 } := by
  unfold call
  simp only [bind, EStateM.bind, onHost, Arena.takeError]
  cases (s.call entry.name args).2.host.errors.getLast? <;> rfl

/-- A call that raises nothing, where nothing was raised, is its value. -/
theorem call_of_value [Memory] {value : Option Handle} (h : s.call entry.name args = (value, t))
    (herrors : t.host.errors = []) : call entry args s = .ok value t := by
  have htaken : t.host.takeError.2 = t.host := by
    rw [Arena.takeError, herrors]
    exact congrArg (Arena.mk t.host.slots) herrors.symm
  rw [call_apply, h]
  simp only [herrors, htaken]
  rfl

/-- A call that raises an error is a failure, and the error is taken. -/
theorem call_of_abort [Memory] {abort : Abort BridgeError} {w : World Arena}
    (hentry : s.module.entry? entry.name = some entry)
    (hrun : s.module.run args entry s.world = .error abort w) :
    call entry args s = .error (.call entry (Module.abortMessage abort)) (s.become w) := by
  have hcall : s.call entry.name args =
      (none, (s.become w).raise (Module.abortMessage abort)) := by
    rw [Site.call_eq, hentry]
    simp only [hrun]
  have hraised : ((s.become w).raise (Module.abortMessage abort)).host.takeError =
      (some (Module.abortMessage abort), w.host) := by
    simp [Site.raise, Site.become, HostRuntime.raise, Arena.raise, Arena.takeError]
  have hlast := congrArg Prod.fst hraised
  have htaken := congrArg Prod.snd hraised
  rw [Arena.takeError] at hlast
  rw [call_apply, hcall]
  simp only at hlast htaken ⊢
  rw [hlast, htaken]
  rfl

theorem view_of_some {h : Handle} {json : Json} (hview : s.host.toJson? h = some json) :
    view (some h) s = .ok json s := by
  have hfound : (some h).bind s.host.toJson? = some json := hview
  have happly : view (some h) s = .ok (((some h).bind s.host.toJson?).getD .null) s := rfl
  rw [happly, hfound, Option.getD_some]

/-! ## Between the steps -/

/-- A site between the steps of a command line: the module was started with a configuration over the
built-in functions, these loads came through, and no error is pending. -/
structure Stocked (config : Config) (records : List LoadRecord) (s : Site Arena) : Prop where
  config : s.module.config = config
  exports : s.module.exports = Export.all
  functions : s.module.engine.functions = Engine.withBuiltins.functions
  loads : s.module.engine.loads = records
  own : s.module.engine.description = .own
  status : s.module.engine.loadStatus = 0
  settled : s.host.errors = []

namespace Stocked

variable {config : Config} {records : List LoadRecord}

theorem entry? (h : Stocked config records s) (entry : Export) :
    s.module.entry? entry.name = some entry := by
  rw [Module.entry?, h.exports]
  cases entry <;> rfl

/-- Values that are added to the host change nothing else. -/
theorem addAll (h : Stocked config records s) (new : List HostValue) :
    Stocked config records { s with host := s.host.addAll new } :=
  ⟨h.config, h.exports, h.functions, h.loads, h.own, h.status, h.settled⟩

/-- The log is no part of it. -/
theorem of_alike (h : Stocked config records s) (halike : s.Alike t) :
    Stocked config records t where
  config := (congrArg Module.config halike.module).symm.trans h.config
  exports := (congrArg Module.exports halike.module).symm.trans h.exports
  functions := (congrArg (·.engine.functions) halike.module).symm.trans h.functions
  loads := halike.loads.symm.trans h.loads
  own := (congrArg (·.engine.description) halike.module).symm.trans h.own
  status := (congrArg (·.engine.loadStatus) halike.module).symm.trans h.status
  settled := (congrArg Arena.errors halike.host).symm.trans h.settled

end Stocked

theorem functionNames_withBuiltins :
    Entries.keys Engine.withBuiltins.functions = ["add", "concat", "echo"] := by
  decide

/-! ## The beginning -/

/-- A prepared site is stocked with nothing, and its log can be enabled. -/
theorem stocked_of_prepare {fileText : String → Except String String} {options : Options}
    {config : Config} (h : configure fileText options = .ok config) :
    ∃ s, prepare fileText options = .ok s ∧ Stocked config [] s ∧ s.module.TakesLogs ∧
      s.host.slots.size = 0 := by
  obtain ⟨m, hstart⟩ : ∃ m, Module.start .withBuiltins config logStream = .ok m := ⟨_, rfl⟩
  refine ⟨⟨m, {}, #[{}]⟩, ?_, ?_, Module.takesLogs_of_start hstart rfl, rfl⟩
  · unfold prepare
    rw [h]
    simp only [bind, Except.bind, hstart, Except.mapError]
    rfl
  · cases hstart
    exact ⟨rfl, rfl, rfl, rfl, rfl, rfl, rfl⟩

/-- The log, if it is asked for. -/
def enableIf [Memory] (logs : Bool) : Program Unit :=
  if logs then discard (call .enableLogging []) else pure ()

/-- Enabling the log goes through, and the site is as stocked as before. -/
theorem enableIf_apply [Memory] (logs : Bool) {config : Config} {records : List LoadRecord}
    (hs : Stocked config records s) (htakes : s.module.TakesLogs) :
    ∃ t, enableIf logs s = .ok () t ∧ Stocked config records t ∧ t.host = s.host := by
  cases logs with
  | false => exact ⟨s, rfl, hs, rfl⟩
  | true =>
    obtain ⟨-, halike⟩ := Site.call_enableLogging htakes []
    have ht := hs.of_alike halike
    exact ⟨_, discard_of_ok (call_of_value rfl ht.settled), ht, halike.host.symm⟩

/-- Carry out a command: what is printed. -/
def perform [Memory] : Command → Program String
  | .invoke name args => do return (← invoke name args).pretty ++ "\n"
  | .load tag paths => do
    load tag paths
    return ""
  | .inspect => do return (← inspect).json.pretty ++ "\n"

/-- What a request comes to: the log, the preloads, and the command. -/
theorem carryOut_eq [Memory] (request : Request) :
    carryOut request = (do
      enableIf request.options.logs
      request.options.preloads.forM preload
      perform request.command) := by
  unfold carryOut enableIf perform
  cases request.options.logs <;> rfl

/-! ## Descriptions -/

/-- At a stocked site the engine describes its functions and loads, if there is memory for that. -/
theorem inspect_of_stocked [Memory] {config : Config} {records : List LoadRecord}
    (hs : Stocked config records s) (hsize : s.host.slots.size < 2 ^ 32)
    (hgrants : Memory.grants (Utf8.size s.module.engine.toJson.compact + 1)) :
    ∃ t, inspect s = .ok (Engine.described ["add", "concat", "echo"] records) t := by
  let text := s.module.engine.toJson.compact
  let h := Arena.handleAt s.host.slots.size
  obtain ⟨t, hcalled, hhost⟩ := Site.call_inspect (hs.entry? .inspect) hs.own hgrants []
  have herrors : t.host.errors = [] := (congrArg Arena.errors hhost).trans hs.settled
  have hview : t.host.toJson? h = some (.string text) := by
    have hnew : t.host.get h = .ok (.string text) := by
      rw [hhost]
      exact Arena.get_addAll_new (i := 0) rfl (by rw [Arena.size_addAll]; exact hsize)
    exact Arena.Unfolds.view (.leaf hnew rfl)
  have hmeant : Json.Meant (123 + 4) s.module.engine.toJson _ := Engine.meant_toJson s.module.engine
  have hread := Json.read_compact hmeant
  rw [hs.loads, Engine.functionNames, hs.functions, functionNames_withBuiltins] at hread
  refine ⟨t, ?_⟩
  unfold inspect
  rw [bind_of_ok (call_of_value hcalled herrors)]
  simp only
  rw [bind_of_ok (view_of_some hview)]
  simp only [text, hread]
  rfl

end CommandLine

end ForeignCall
