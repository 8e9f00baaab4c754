import ForeignCall.Module
import ForeignCall.Proofs.Action

/-!
# ForeignCall.Proofs.Traversal

What holds of each step holds of every entry point.

A property of operations is `Threaded` if it holds of the requests to the host,
and is kept by what puts operations together; then it holds of whatever is done
before and after the engine is asked.  It is `Closed` if it also holds of the
requests to the engine.  Nothing else is needed for it to hold of whatever a
module runs (`Closed.run`).  A property may speak of what has been acquired for
an operation before it starts, and of what it leaves acquired to the one that
comes next.
-/

namespace ForeignCall

open Bridge Operation

/-- A dispatched function leaves its value, if it has one. -/
def Bridge.valueLeft : Option Value → Option Resource
  | some _ => some .value
  | none => none

/-- The requests of a host that are about values it has. -/
inductive HostRuntime.Query {σ : Type} [HostRuntime σ] :
    {α : Type} → Action σ HostError α → Prop where
  | classify (h : Handle) : Query (HostRuntime.classify h)
  | utf8Len (h : Handle) : Query (HostRuntime.utf8Len h)
  | readUtf8 (h : Handle) (size : Nat) : Query (HostRuntime.readUtf8 h size)
  | coerceToString (h : Handle) : Query (HostRuntime.coerceToString h)
  | arrayLen (h : Handle) : Query (HostRuntime.arrayLen h)
  | arrayGet (h : Handle) (index : Nat) : Query (HostRuntime.arrayGet h index)

/-- The requests of a host. -/
inductive HostRuntime.Request {σ : Type} [HostRuntime σ] :
    {α : Type} → Action σ HostError α → Prop where
  | query {α : Type} {action : Action σ HostError α} : Query action → Request action
  | create (v : HostValue) : Request (HostRuntime.create v)

/-- What operations ask of the host.  A value with parts is new only as a whole that is
converted. -/
inductive Bridge.Asked {σ : Type} [HostRuntime σ] : {ε α : Type} → Action σ ε α → Prop where
  | query {α : Type} {action : Action σ HostError α} : HostRuntime.Query action → Asked action
  | create (text : String) : Asked (HostRuntime.create (.string text) : Action σ _ _)
  | toValue (limits : Limits) (h : Handle) : Asked (Marshal.toValue limits h : Action σ _ _)
  | toHost (limits : Limits) (v : Value) : Asked (Marshal.toHost limits v : Action σ _ _)

/-- A property of operations, of what is acquired for them and of what they leave, that holds of all
requests to the host and is kept by sequences and around what is held. -/
structure Threaded {σ : Type} [HostRuntime σ]
    (P : {α : Type} → Option Resource → (α → Option Resource) → Operation σ α → Prop) : Prop where
  pure {α : Type} (a : α) : P none (fun _ => none) (pure a)
  fail {α : Type} (e : BridgeError) : P none (fun _ : α => none) (Action.fail e)
  panic {α : Type} (detail : Option String) : P none (fun _ : α => none) (Action.panic detail)
  bind {α β : Type} {due : Option Resource} {left : α → Option Resource}
    {later : β → Option Resource} {op : Operation σ α} {next : α → Operation σ β} :
    P due left op → (∀ a, P (left a) later (next a)) → P due later (op >>= next)
  onHost {α ε : Type} (see : ε → BridgeError) {action : Action σ ε α} :
    Asked action → P none (fun _ => none) (onHost see action)
  holding {α : Type} {left : α → Option Resource} (r : Resource) {body : Operation σ α} :
    P none left body → P none left (holding r body)
  borrowing {α : Type} (r : Resource) {body : Operation σ α} :
    P none (fun _ => none) body → P (some r) (fun _ => none) (borrowing r body)

/-- Such a property that holds of all requests to the engine, too. -/
structure Closed [Memory] {σ : Type} [HostRuntime σ]
    (P : {α : Type} → Option Resource → (α → Option Resource) → Operation σ α → Prop) : Prop
    extends Threaded P where
  dispatch (name : String) (args : List Value) : P none valueLeft (dispatch name args)
  load (tag : String) (paths : List (List UInt8)) : P none (fun _ => none)
    (onEngine fun engine streams => engine.loadFromFile tag paths streams)
  selfDescribe : P none (fun _ => none)
    (onEngine fun engine streams => (engine.selfDescribe, engine, streams))
  create (registry : Log.Registry) (stream : Nat) : P none (fun _ => none)
    (onEngine fun engine streams =>
      let (created, streams) := registry.create Log.stdioTag (.stdio stream) streams
      (created, engine, streams))
  attach (policy : Log.Policy) : P none (fun _ => none)
    (onEngine fun engine streams => engine.attachLog policy streams)

/-! ## Moves -/

namespace Bridge.Operation

variable {σ α ε : Type}

theorem final_onHost (see : ε → BridgeError) (action : Action σ ε α) (w : World σ) :
    Action.final (onHost see action) w = { w with host := Action.final action w.host } := by
  obtain ⟨host, engine, streams⟩ := w
  simp only [Action.final, onHost]
  cases action host <;> rfl

/-- Releasing something afterwards is an entry on the ledger. -/
theorem final_borrowing (r : Resource) (body : Operation σ α) (w : World σ) :
    Action.final (borrowing r body) w = onLedger (Action.final body w) (·.release r) := by
  rw [Action.final, Action.final, borrowing]
  cases body w <;> rfl

section
variable {R : World σ → World σ → Prop} (trans : ∀ {w v u}, R w v → R v u → R w u)
  (ledger : ∀ w change, R w (onLedger w change))
include trans ledger

theorem moves_borrowing (r : Resource) {body : Operation σ α} (h : Action.Moves R body) :
    Action.Moves R (borrowing r body) := by
  intro w
  rw [final_borrowing]
  exact trans (h w) (ledger _ _)

theorem moves_holding (r : Resource) {body : Operation σ α} (h : Action.Moves R body) :
    Action.Moves R (holding r body) :=
  fun w => trans (ledger w (·.acquire r)) (moves_borrowing (R := R) trans ledger r h _)

/-- Whatever is done before and after the engine is asked moves the world along a relation, if what
the host is asked and entries on the ledger do. -/
theorem threaded_moves [HostRuntime σ] (refl : ∀ w, R w w)
    (host : ∀ {ε α : Type} {action : Action σ ε α}, Asked action →
      ∀ w : World σ, R w { w with host := Action.final action w.host }) :
    @Threaded σ _ fun _ _ => Action.Moves R where
  pure _ := refl
  fail _ := refl
  panic _ := refl
  bind h hnext := Action.Moves.bind (R := R) trans h hnext
  onHost see _ h w := final_onHost see _ w ▸ host h w
  holding r := moves_holding (R := R) trans ledger r
  borrowing r := moves_borrowing (R := R) trans ledger r

end

end Bridge.Operation

/-! ## What operations are made of -/

variable {σ : Type} [HostRuntime σ]
  {P : {α : Type} → Option Resource → (α → Option Resource) → Operation σ α → Prop}

namespace Threaded

variable (h : Threaded P) {α β ε : Type}
include h

theorem map {due : Option Resource} {op : Operation σ α} (hop : P due (fun _ => none) op)
    (f : α → β) : P due (fun _ => none) (f <$> op) := by
  rw [map_eq_pure_bind]
  exact h.bind hop fun a => h.pure (f a)

theorem ofExcept (r : Except ε α) (see : ε → BridgeError) :
    P none (fun _ => none) ((Action.ofExcept r).mapError see : Operation σ α) := by
  cases r with
  | ok a => exact h.pure a
  | error e => exact h.fail (see e)

theorem reserve [Memory] (what : Subject) (octets : Nat) :
    P none (fun _ => none) (Operation.reserve what octets) := by
  unfold Operation.reserve
  split
  · exact h.pure ()
  · exact h.fail _

theorem terminatedSize (length : Nat) :
    P none (fun _ => none) (Operation.terminatedSize length) := by
  unfold Operation.terminatedSize
  split
  · exact h.pure _
  · exact h.panic _

theorem fixedBuffer (size : Nat) : P none (fun _ => none) (fixedBuffer size) := by
  unfold Bridge.fixedBuffer
  split
  · exact h.panic _
  · exact h.pure ()

theorem query (see : HostError → BridgeError) {action : Action σ HostError α}
    (haction : HostRuntime.Query action) : P none (fun _ => none) (Operation.onHost see action) :=
  h.onHost see (.query haction)

theorem nameOnHost {action : Action σ HostError α} (haction : HostRuntime.Query action) :
    P none (fun _ => none) (nameOnHost action) :=
  h.query _ haction

theorem collect [Memory] (info : CallInfo) : P none (fun _ => none) (collect info) := by
  unfold Bridge.collect
  refine h.bind (h.reserve _ _) fun _ => ?_
  split
  · exact h.pure _
  · exact h.fail _

theorem decodeName [Memory] (name : Handle) : P none (fun _ => none) (decodeName name) := by
  unfold Bridge.decodeName
  refine h.bind (h.nameOnHost (.utf8Len name)) fun len => ?_
  split
  · exact h.fail _
  · refine h.bind (h.terminatedSize len) fun size => ?_
    refine h.bind (h.reserve _ _) fun _ => ?_
    refine h.bind (h.nameOnHost (.readUtf8 name size)) fun bytes => ?_
    exact h.ofExcept _ _

/-- Arguments are held around the body, each from its conversion on. -/
theorem withValues {left : α → Option Resource} (limits : Limits) (handles : List Handle)
    (body : List Value → Operation σ α) (hbody : ∀ values, P none left (body values)) :
    P none left (withValues limits body handles) := by
  induction handles generalizing body with
  | nil => exact hbody []
  | cons handle rest ih =>
    unfold Bridge.withValues
    refine h.bind (h.onHost _ (.toValue limits handle)) fun v => ?_
    exact h.holding .value (ih _ fun values => hbody (v :: values))

theorem decodeTag (limits : Limits) (tag : Handle) :
    P none (fun _ => none) (decodeTag limits tag) := by
  unfold Bridge.decodeTag
  refine h.bind (h.nameOnHost (.utf8Len tag)) fun len => ?_
  split
  · exact h.fail _
  · split
    · exact h.fail _
    · refine h.bind (h.terminatedSize _) fun size => ?_
      refine h.bind (h.fixedBuffer size) fun _ => ?_
      refine h.bind (h.nameOnHost (.readUtf8 tag size)) fun bytes => ?_
      exact h.ofExcept _ _

theorem copyPath [Memory] (limits : Limits) (index : Nat) (item : Handle) :
    P none (fun _ => none) (copyPath limits index item) := by
  unfold Bridge.copyPath
  refine h.bind (h.query _ (.coerceToString item)) fun coerced => ?_
  refine h.bind (h.query _ (.utf8Len coerced)) fun len => ?_
  split
  · exact h.fail _
  · split
    · exact h.fail _
    · refine h.bind (h.terminatedSize len) fun size => ?_
      refine h.bind (h.reserve _ _) fun _ => ?_
      exact h.query _ (.readUtf8 coerced size)

theorem nativePath [Memory] (limits : Limits) (paths : Handle) (index : Nat) :
    P none (fun _ => none) (nativePath limits paths index) := by
  unfold Bridge.nativePath
  refine h.bind (h.query _ (.arrayGet paths index)) fun item => ?_
  refine h.bind (h.copyPath limits index item) fun bytes => ?_
  split
  · exact h.fail _
  · exact h.pure _

/-- Copies of paths are held around the body, each from its making on. -/
theorem withPaths [Memory] (limits : Limits) (paths : Handle) (index count : Nat)
    (body : List (List UInt8) → Operation σ α)
    (hbody : ∀ natives, P none (fun _ => none) (body natives)) :
    P none (fun _ => none) (withPaths limits paths index body count) := by
  induction count generalizing index body with
  | zero => exact hbody []
  | succ count ih =>
    unfold Bridge.withPaths
    refine h.bind (h.nativePath limits paths index) fun bytes => ?_
    exact h.holding .nativeString (ih _ _ fun natives => hbody (bytes :: natives))

theorem describe (buffer : List UInt8) :
    P none (fun _ => none) (describe buffer : Operation σ Handle) := by
  unfold Bridge.describe
  split
  · exact h.fail _
  · refine h.bind (h.ofExcept _ _) fun text => ?_
    exact h.onHost _ (.create text)

end Threaded

namespace Closed

variable [Memory] (h : Closed P)
include h

theorem createPolicy (registry : Log.Registry) (stream : Nat) :
    P none (fun _ => none) (createPolicy registry stream) := by
  unfold Bridge.createPolicy
  refine h.bind (h.create registry stream) fun created => ?_
  exact h.ofExcept _ _

theorem enableLogging (registry : Log.Registry) (stream : Nat) :
    P none (fun _ => none) (enableLogging registry stream) := by
  unfold Bridge.enableLogging
  refine h.bind (h.createPolicy registry stream) fun policy => ?_
  refine h.bind (h.attach policy) fun attached => ?_
  exact h.ofExcept _ _

theorem invoke (limits : Limits) (info : CallInfo) :
    P none (fun _ => none) (invoke limits info) := by
  unfold Bridge.invoke
  split
  · exact h.fail _
  · refine h.bind (h.collect info) fun handles => ?_
    split
    · exact h.fail _
    · refine h.bind (h.decodeName _) fun name => ?_
      refine h.bind (h.reserve _ _) fun _ => ?_
      refine h.bind (h.withValues limits _ _ (h.dispatch name)) fun answer => ?_
      cases answer with
      | none => exact h.pure none
      | some v => exact h.map (h.borrowing .value (h.onHost _ (.toHost limits v))) some

theorem bulkLoad (limits : Limits) (tag paths : Handle) :
    P none (fun _ => none) (bulkLoad limits tag paths) := by
  unfold Bridge.bulkLoad
  refine h.bind (h.decodeTag limits tag) fun tag => ?_
  refine h.bind (h.query _ (.arrayLen paths)) fun len => ?_
  split
  · exact h.fail _
  · split
    · exact h.pure ()
    · refine h.bind (h.reserve _ _) fun _ => ?_
      refine h.bind (h.withPaths limits paths 0 len _ fun natives => h.load tag natives)
        fun status => ?_
      split
      · exact h.pure ()
      · exact h.fail _

theorem inspect : P none (fun _ => none) (inspect : Operation σ Handle) := by
  unfold Bridge.inspect
  refine h.holding .allocator ?_
  refine h.bind h.selfDescribe fun answer => ?_
  split
  · exact h.fail _
  · exact h.holding .buffer (h.describe _)

/-- What holds of each step holds of every entry point. -/
theorem run (m : Module) (args : List Handle) (entry : Export) :
    P none (fun _ => none) (m.run args entry) := by
  cases entry with
  | invoke => exact h.invoke _ _
  | bulkLoad =>
    match args with
    | tag :: paths :: _ => exact h.bind (h.bulkLoad _ tag paths) fun _ => h.pure none
    | [] | [_] => exact h.fail _
  | inspect => exact h.map h.inspect some
  | enableLogging => exact h.bind (h.enableLogging _ _) fun _ => h.pure none

end Closed

end ForeignCall
