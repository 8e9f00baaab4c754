import ForeignCall.Host.Arena
import ForeignCall.Proofs.Traversal

/-!
# ForeignCall.Proofs.Settlement

Every call settles its account: whatever it acquires it has released when it
ends, by whichever of its exits.

The account of an operation is kept by `Settles due left`.  An operation may
start while something acquired before it is *due*, and may end with something
*left* that whoever comes next has to release; apart from these it enters as
many acquisitions as releases of each resource.  Only a dispatched function
leaves anything, namely its value, and only what converts that value back
starts with anything due.

* `Settles.bind` — operations in sequence pass on what is left;
* `Settles.holding`, `Settles.borrowing` — the two ways to release;
* `closed_settles` — so whatever a module runs settles;
* `call_settled`, `callAll_settled` — what one call and a run of calls enter.
-/

namespace ForeignCall

/-! ## Settled ledgers -/

namespace Ledger

/-- Since `before`, each resource has been acquired and released equally often. -/
def Settled (before after : Ledger) : Prop :=
  ∀ r, ∃ n, after.account r =
    ⟨(before.account r).acquired + n, (before.account r).released + n⟩

/-- Acquire a resource, if there is one to acquire. -/
def acquireDue (ledger : Ledger) : Option Resource → Ledger
  | some r => ledger.acquire r
  | none => ledger

@[simp] theorem acquireDue_none (ledger : Ledger) : ledger.acquireDue none = ledger := rfl

@[simp] theorem acquireDue_some (ledger : Ledger) (r : Resource) :
    ledger.acquireDue (some r) = ledger.acquire r := rfl

theorem ext_account {a b : Ledger} (h : ∀ r, a.account r = b.account r) : a = b := by
  have hv := h .value
  have hs := h .nativeString
  have hb := h .buffer
  have ha := h .allocator
  cases a; cases b
  simp_all [account]

theorem acquire_comm (ledger : Ledger) (r s : Resource) :
    (ledger.acquire r).acquire s = (ledger.acquire s).acquire r := by
  refine ext_account fun t => ?_
  simp only [account_acquire]
  split <;> split <;> rfl

theorem acquireDue_acquire (ledger : Ledger) (due : Option Resource) (r : Resource) :
    (ledger.acquire r).acquireDue due = (ledger.acquireDue due).acquire r := by
  cases due with
  | none => rfl
  | some s => exact acquire_comm ledger r s

namespace Settled

theorem refl (ledger : Ledger) : Settled ledger ledger := fun _ => ⟨0, rfl⟩

theorem trans {a b c : Ledger} (hab : Settled a b) (hbc : Settled b c) : Settled a c := by
  intro r
  obtain ⟨m, hm⟩ := hab r
  obtain ⟨n, hn⟩ := hbc r
  exact ⟨m + n, by rw [hn, hm, Nat.add_assoc, Nat.add_assoc]⟩

/-- What was acquired in front is settled by its release behind. -/
theorem release {before after : Ledger} {r : Resource} (h : Settled (before.acquire r) after) :
    Settled before (after.release r) := by
  intro s
  obtain ⟨n, hn⟩ := h s
  rw [account_acquire] at hn
  rw [account_release, hn]
  by_cases hs : s = r
  · exact ⟨n + 1, by simp only [if_pos hs]; congr 1; omega⟩
  · exact ⟨n, by simp only [if_neg hs]⟩

/-- An acquisition on both sides changes nothing. -/
theorem acquire {before after : Ledger} (r : Resource) (h : Settled before after) :
    Settled (before.acquire r) (after.acquire r) := by
  intro s
  obtain ⟨n, hn⟩ := h s
  rw [account_acquire, account_acquire, hn]
  by_cases hs : s = r
  · exact ⟨n, by simp only [if_pos hs]; congr 1; omega⟩
  · exact ⟨n, by simp only [if_neg hs]⟩

theorem balanced {before after : Ledger} (h : Settled before after) (hb : before.Balanced) :
    after.Balanced := by
  intro r
  obtain ⟨n, hn⟩ := h r
  rw [hn]
  exact congrArg (· + n) (hb r)

theorem acquired_le {before after : Ledger} (h : Settled before after) (r : Resource) :
    (before.account r).acquired ≤ (after.account r).acquired := by
  obtain ⟨n, hn⟩ := h r
  rw [hn]
  exact Nat.le_add_right ..

theorem released_le {before after : Ledger} (h : Settled before after) (r : Resource) :
    (before.account r).released ≤ (after.account r).released := by
  obtain ⟨n, hn⟩ := h r
  rw [hn]
  exact Nat.le_add_right ..

theorem fits {before after : Ledger} {r : Resource} (h : Settled before after)
    (hfits : (after.account r).Fits) : (before.account r).Fits :=
  ⟨Nat.lt_of_le_of_lt (h.acquired_le r) hfits.1, Nat.lt_of_le_of_lt (h.released_le r) hfits.2⟩

end Settled

/-- Nothing is outstanding on a balanced ledger. -/
theorem outstanding_of_balanced {ledger : Ledger} (h : ledger.Balanced) :
    ledger.outstanding = 0 := by
  have hlive : ∀ r, ledger.live r = 0 := fun r => by
    rw [live, Account.live, h r, Nat.sub_self]
  simp [outstanding, Resource.all, hlive]

end Ledger

/-! ## Operations -/

namespace Bridge

/-- The ledger of a world is the one of its engine. -/
def World.ledger {σ : Type} (w : World σ) : Ledger := w.engine.ledger

namespace Operation

variable {σ α β ε : Type}

/-- Started with `due` acquired for it, an operation ends with `left` acquired for what comes
next, or with nothing if it ends early; all else that it acquires it also releases. -/
def Settles (due : Option Resource) (left : α → Option Resource) (op : Operation σ α) : Prop :=
  ∀ (w : World σ) (before : Ledger), (before.acquireDue due).Settled w.ledger →
    match op w with
    | .ok a w' => (before.acquireDue (left a)).Settled w'.ledger
    | .error _ w' => before.Settled w'.ledger

/-- Nothing due and nothing left. -/
abbrev SettlesAll (op : Operation σ α) : Prop := Settles none (fun _ => none) op

/-- An operation that does not touch the ledger settles trivially. -/
theorem settlesAll_of_final {op : Operation σ α}
    (h : ∀ w, (Action.final op w).ledger = w.ledger) : SettlesAll op := by
  intro w before hw
  have hl := h w
  cases hop : op w with
  | ok a w' =>
    rw [Action.final_of_ok hop] at hl
    simpa [hl] using hw
  | error e w' =>
    rw [Action.final_of_error hop] at hl
    simpa [hl] using hw

theorem settlesAll_pure (a : α) : SettlesAll (pure a : Operation σ α) :=
  settlesAll_of_final fun _ => rfl

theorem settlesAll_fail (e : BridgeError) : SettlesAll (Action.fail e : Operation σ α) :=
  settlesAll_of_final fun _ => rfl

theorem settlesAll_panic (detail : Option String) :
    SettlesAll (Action.panic detail : Operation σ α) :=
  settlesAll_of_final fun _ => rfl

theorem settlesAll_onHost (see : ε → BridgeError) (action : Action σ ε α) :
    SettlesAll (onHost see action) :=
  settlesAll_of_final fun ⟨host, engine, streams⟩ => by
    rw [Action.final, onHost]
    cases action host <;> rfl

theorem settlesAll_onEngine {request : Engine → Log.Streams → α × Engine × Log.Streams}
    (h : ∀ engine streams, (request engine streams).2.1.ledger = engine.ledger) :
    SettlesAll (onEngine request : Operation σ α) :=
  settlesAll_of_final fun ⟨_, engine, streams⟩ => h engine streams

theorem onEngine_apply (request : Engine → Log.Streams → α × Engine × Log.Streams)
    (w : World σ) :
    onEngine request w = .ok (request w.engine w.streams).1
      ⟨w.host, (request w.engine w.streams).2.1, (request w.engine w.streams).2.2⟩ := rfl

theorem Settles.bind {due : Option Resource} {left : α → Option Resource}
    {later : β → Option Resource} {op : Operation σ α} {next : α → Operation σ β}
    (hop : Settles due left op) (hnext : ∀ a, Settles (left a) later (next a)) :
    Settles due later (op >>= next) := by
  intro w before hw
  have h := hop w before hw
  cases hr : op w with
  | ok a w' =>
    rw [hr] at h
    rw [Action.bind_of_ok hr]
    exact hnext a w' before h
  | error e w' =>
    rw [hr] at h
    rw [Action.bind_of_error hr]
    exact h

/-- What is acquired around an operation is released behind it. -/
theorem Settles.holding {left : α → Option Resource} {body : Operation σ α} (r : Resource)
    (h : Settles none left body) : Settles none left (holding r body) := by
  intro w before hw
  have hb := h (onLedger w (·.acquire r)) (before.acquire r) (Ledger.Settled.acquire r hw)
  rw [Operation.holding, borrowing]
  cases hr : body (onLedger w (·.acquire r)) with
  | ok a w' =>
    simp only [hr, Ledger.acquireDue_acquire] at hb
    exact Ledger.Settled.release hb
  | error e w' =>
    rw [hr] at hb
    exact Ledger.Settled.release hb

/-- What is due is released behind an operation. -/
theorem SettlesAll.borrowing {body : Operation σ α} (r : Resource) (h : SettlesAll body) :
    Settles (some r) (fun _ => none) (borrowing r body) := by
  intro w before hw
  have hb := h w (before.acquire r) hw
  rw [Operation.borrowing]
  cases hr : body w with
  | ok a w' => rw [hr] at hb; exact Ledger.Settled.release hb
  | error e w' => rw [hr] at hb; exact Ledger.Settled.release hb

end Operation

/-! ## The engine -/

variable {σ : Type}

open Operation

/-- Only a value that a function answers with is entered by the engine. -/
theorem ledger_of_callByName {e e' : Engine} {name : String} {args : List Value}
    {streams streams' : Log.Streams} {outcome : Engine.Outcome}
    (h : e.callByName name args streams = (outcome, e', streams')) :
    e'.ledger = match outcome with
      | .value _ => e.ledger.acquire .value
      | _ => e.ledger := by
  unfold Engine.callByName at h
  split at h
  · cases h; rfl
  · split at h <;> cases h <;> rfl

/-- A dispatch ends as the engine's call does. -/
theorem dispatch_apply (name : String) (args : List Value) (w : World σ) :
    dispatch name args w =
      match w.engine.callByName name args w.streams with
      | (.value v, engine, streams) => .ok (some v) ⟨w.host, engine, streams⟩
      | (.nothing, engine, streams) => .ok none ⟨w.host, engine, streams⟩
      | (.error e, engine, streams) =>
        .error (.error (.callFailure (.engine e))) ⟨w.host, engine, streams⟩
      | (.panic detail, engine, streams) => .error (.panic detail) ⟨w.host, engine, streams⟩ := by
  unfold dispatch
  rw [Action.bind_of_ok (onEngine_apply _ w)]
  obtain ⟨outcome, engine, streams⟩ := w.engine.callByName name args w.streams
  cases outcome <;> rfl

theorem settles_dispatch (name : String) (args : List Value) :
    Settles none valueLeft (dispatch name args : Operation σ (Option Value)) := by
  intro w before hw
  rw [dispatch_apply]
  rcases hcall : w.engine.callByName name args w.streams with ⟨outcome, engine, streams⟩
  have hledger := ledger_of_callByName hcall
  cases outcome with
  | value v =>
    simp only [valueLeft, Ledger.acquireDue_some, World.ledger, hledger]
    exact Ledger.Settled.acquire .value hw
  | nothing | error e | panic detail =>
    simp only [valueLeft, World.ledger, hledger]
    exact hw

theorem ledger_attachLog (e : Engine) (policy : Log.Policy) (streams : Log.Streams) :
    (e.attachLog policy streams).2.1.ledger = e.ledger := by
  unfold Engine.attachLog
  split
  · rfl
  · split <;> rfl

theorem ledger_loadFromFile (e : Engine) (tag : String) (paths : List (List UInt8))
    (streams : Log.Streams) : (e.loadFromFile tag paths streams).2.1.ledger = e.ledger := by
  unfold Engine.loadFromFile
  dsimp only
  split <;> rfl

/-- Every step of a bridge operation settles. -/
theorem closed_settles [Memory] [HostRuntime σ] : @Closed _ σ _ Settles where
  pure := settlesAll_pure
  fail := settlesAll_fail
  panic := settlesAll_panic
  bind := Settles.bind
  onHost see _ _ := settlesAll_onHost see _
  holding r := Settles.holding r
  borrowing r := SettlesAll.borrowing r
  dispatch := settles_dispatch
  load tag paths := settlesAll_onEngine fun e s => ledger_loadFromFile e tag paths s
  selfDescribe := settlesAll_onEngine fun _ _ => rfl
  create _ _ := settlesAll_onEngine fun _ _ => rfl
  attach policy := settlesAll_onEngine fun e s => ledger_attachLog e policy s

end Bridge

open Bridge Operation

variable {σ : Type} [HostRuntime σ]

/-! ## Calls and runs of calls -/

namespace Site

/-- The ledger of a site is the one of its engine. -/
def ledger {σ : Type} (s : Site σ) : Ledger := s.module.engine.ledger

omit [HostRuntime σ] in
theorem perform_settled {α : Type} {op : Operation σ α} (h : SettlesAll op) (s : Site σ) :
    s.ledger.Settled (s.perform op).2.ledger := by
  obtain ⟨⟨engine, config, registry, logStream, exports⟩, host, streams⟩ := s
  have hop := h ⟨host, engine, streams⟩ engine.ledger (Ledger.Settled.refl _)
  unfold perform
  dsimp only
  cases hr : op ⟨host, engine, streams⟩ with
  | ok a w => rw [hr] at hop; exact hop
  | error e w => rw [hr] at hop; exact hop

/-- One call enters as many acquisitions as releases, however it ends. -/
theorem call_settled [Memory] (s : Site σ) (name : String) (args : List Handle) :
    s.ledger.Settled (s.call name args).2.ledger := by
  unfold call
  split
  · exact Ledger.Settled.refl _
  · next entry _ =>
    have h := perform_settled (closed_settles.run s.module args entry) s
    split
    · next hp => rw [hp] at h; exact h
    · next hp => rw [hp] at h; exact h

/-- So does a run of calls. -/
theorem callAll_settled [Memory] (s : Site σ) (calls : List (String × List Handle)) :
    s.ledger.Settled (s.callAll calls).2.ledger := by
  induction calls generalizing s with
  | nil => exact Ledger.Settled.refl _
  | cons call rest ih => exact (call_settled s call.1 call.2).trans (ih _)

/-- A run of calls is one part of it after the other. -/
theorem callAll_append [Memory] (s : Site σ) (calls more : List (String × List Handle)) :
    (s.callAll (calls ++ more)).2 = ((s.callAll calls).2.callAll more).2 := by
  induction calls generalizing s with
  | nil => rfl
  | cons call rest ih => exact ih _

/-- **Release exactly once**: whatever calls are made and however they end, after each of them
everything acquired has been released, and no count has gone down.  As long as fewer than 2^64 of a
resource have been acquired, its counts fit 64-bit counters, and have done so all along. -/
theorem callAll_balanced [Memory] (s : Site σ) (h : s.ledger.Balanced)
    (calls more : List (String × List Handle)) :
    let before := (s.callAll calls).2.ledger
    let after := (s.callAll (calls ++ more)).2.ledger
    (∀ r, (after.account r).acquired = (after.account r).released) ∧ after.outstanding = 0 ∧
      (∀ r, (before.account r).acquired ≤ (after.account r).acquired ∧
        (before.account r).released ≤ (after.account r).released) ∧
      ∀ r, (after.account r).acquired < 2 ^ 64 →
        (before.account r).Fits ∧ (after.account r).Fits := by
  intro before after
  have hafter : after.Balanced := (callAll_settled s (calls ++ more)).balanced h
  have hstep : before.Settled after := by
    simp only [after, callAll_append]
    exact callAll_settled _ more
  refine ⟨hafter, Ledger.outstanding_of_balanced hafter,
    fun r => ⟨hstep.acquired_le r, hstep.released_le r⟩, fun r hfew => ?_⟩
  have hfits : (after.account r).Fits := ⟨hfew, (hafter r).symm ▸ hfew⟩
  exact ⟨hstep.fits hfits, hfits⟩

/-- A host with a name and an array that contains itself, and an engine that breaks down when the
function of that name is called. -/
def brittle : Site Arena where
  module :=
    { engine := { functions := [("boom", { behaviour := fun _ _ => .panic none })] }
      config := {}
      registry := .withDefaults
      logStream := 0
      exports := Export.all }
  host := { slots := #[.string "boom", .array [⟨1⟩]] }
  streams := #[{}]

/-- After a breakdown, a conversion that fails and a stale handle, a call that is described. -/
theorem callAll_balanced_brittle :
    brittle.ledger.Balanced ∧
      (brittle.callAll ([("invoke", [⟨0⟩]), ("invoke", [⟨0⟩, ⟨0⟩, ⟨1⟩]), ("invoke", [⟨7⟩])] ++
        [("inspect", [])])).2.ledger.outstanding = 0 :=
  have h : brittle.ledger.Balanced := fun r => by cases r <;> rfl
  ⟨h, (callAll_balanced brittle h _ _).2.1⟩

end Site

end ForeignCall
