import ForeignCall.Proofs.Settlement

/-!
# ForeignCall.Proofs.Requests

What a call asks of the engine, and what becomes of the engine and the streams.

A call asks the engine for at most one thing.  Whether it does, and for what,
is up to the host's answers: the relations `Reached` and `Forwarded` follow
them, for a host of any kind.  Before and after, the engine and the streams
stay as they are, except that the engine's ledger is written (`Quiet`).

`Site.call_served`, `Site.call_quiet` — after a call the engine and the streams
are what serving its request makes of them, and what they were if there is none.
-/

namespace ForeignCall

open Log (Streams)

/-! ## Engines and their ledgers -/

namespace Engine

/-- An engine with nothing on its ledger. -/
def bare (e : Engine) : Engine :=
  { e with ledger := {} }

theorem eq_of_bare {e e' : Engine} (h : e'.bare = e.bare) : ∃ ledger, e' = { e with ledger } := by
  refine ⟨e'.ledger, ?_⟩
  cases e
  cases e'
  simp only [bare, mk.injEq, true_and] at h ⊢
  exact h

/-- The same answer, the same streams, and the same engine but for the ledger. -/
def Agree {α : Type} (x y : α × Engine × Streams) : Prop :=
  x.1 = y.1 ∧ x.2.1.bare = y.2.1.bare ∧ x.2.2 = y.2.2

theorem callByName_bare {e e' : Engine} (h : e'.bare = e.bare) (name : String) (args : List Value)
    (streams : Streams) :
    Agree (e'.callByName name args streams) (e.callByName name args streams) := by
  obtain ⟨ledger, rfl⟩ := eq_of_bare h
  unfold callByName
  dsimp only
  cases Entries.find? name e.functions with
  | none => exact ⟨rfl, rfl, rfl⟩
  | some f =>
    dsimp only
    cases f.behaviour f.history args <;> exact ⟨rfl, rfl, rfl⟩

theorem loadFromFile_bare {e e' : Engine} (h : e'.bare = e.bare) (tag : String)
    (paths : List (List UInt8)) (streams : Streams) :
    Agree (e'.loadFromFile tag paths streams) (e.loadFromFile tag paths streams) := by
  obtain ⟨ledger, rfl⟩ := eq_of_bare h
  unfold loadFromFile
  dsimp only
  split <;> exact ⟨rfl, rfl, rfl⟩

theorem attachLog_bare {e e' : Engine} (h : e'.bare = e.bare) (policy : Log.Policy)
    (streams : Streams) :
    Agree (e'.attachLog policy streams) (e.attachLog policy streams) := by
  obtain ⟨ledger, rfl⟩ := eq_of_bare h
  obtain ⟨_, _, _, _, _, _, _, refusesLogs, _⟩ := e
  unfold attachLog
  cases refusesLogs with
  | some reason => exact ⟨rfl, rfl, rfl⟩
  | none =>
    dsimp only
    split <;> exact ⟨rfl, rfl, rfl⟩

/-! ## Requests -/

/-- What can be asked of an engine. -/
inductive Request where
  | call (name : String) (values : List Value)
  | load (tag : String) (paths : List (List UInt8))
  /-- Log to a stream. -/
  | log (registry : Log.Registry) (stream : Nat)

/-- The engine and the streams once a request has been served. -/
def serve (e : Engine) (streams : Streams) : Request → Engine × Streams
  | .call name values => (e.callByName name values streams).2
  | .load tag paths => (e.loadFromFile tag paths streams).2
  | .log registry stream =>
    match registry.create Log.stdioTag (.stdio stream) streams with
    | (.ok policy, streams) => (e.attachLog policy streams).2
    | (.error _, streams) => (e, streams)

theorem serve_bare {e e' : Engine} (h : e'.bare = e.bare) (streams : Streams) (request : Request) :
    (e'.serve streams request).1.bare = (e.serve streams request).1.bare ∧
      (e'.serve streams request).2 = (e.serve streams request).2 := by
  cases request with
  | call name values => exact (callByName_bare h name values streams).2
  | load tag paths => exact (loadFromFile_bare h tag paths streams).2
  | log registry stream =>
    simp only [serve]
    obtain ⟨policy | e, streams'⟩ := registry.create Log.stdioTag (.stdio stream) streams
    · exact ⟨h, rfl⟩
    · exact (attachLog_bare h _ streams').2

end Engine

/-! ## How operations come through -/

namespace Action

variable {σ ε α β : Type}

theorem bind_eq_ok {x : Action σ ε α} {f : α → Action σ ε β} {s s' : σ} {b : β} :
    (x >>= f) s = .ok b s' ↔ ∃ a t, x s = .ok a t ∧ f a t = .ok b s' := by
  cases hx : x s with
  | ok a t =>
    rw [bind_of_ok hx]
    exact ⟨fun h => ⟨a, t, rfl, h⟩, fun ⟨_, _, ha, h⟩ => by cases ha; exact h⟩
  | error e t => simp [bind_of_error hx]

theorem ite_fail_eq_ok {c : Prop} [Decidable c] {e : ε} {x : Action σ ε α} {s s' : σ} {a : α} :
    (if c then fail e else x : Action σ ε α) s = .ok a s' ↔ ¬ c ∧ x s = .ok a s' := by
  split <;> simp [*]

end Action

namespace Bridge

open Operation

variable {σ : Type} {α β ε : Type} {w w' : World σ}

theorem onHost_eq_ok {see : ε → BridgeError} {action : Action σ ε α} {a : α} :
    onHost see action w = .ok a w' ↔
      ∃ s, action w.host = .ok a s ∧ w' = { w with host := s } := by
  obtain ⟨host, engine, streams⟩ := w
  simp only [onHost]
  cases action host with
  | ok b host' =>
    constructor
    · intro h
      cases h
      exact ⟨host', rfl, rfl⟩
    · rintro ⟨_, h, rfl⟩
      cases h
      rfl
  | error e host' => simp

theorem reserve_eq_ok [Memory] {what : Subject} {octets : Nat} {u : Unit} :
    (reserve what octets : Operation σ Unit) w = .ok u w' ↔ Memory.grants octets ∧ w' = w := by
  unfold reserve
  split <;> simp [*, eq_comm]

theorem terminatedSize_eq_ok {length size : Nat} :
    (terminatedSize length : Operation σ Nat) w = .ok size w' ↔
      Allocation.terminated? length = some size ∧ w' = w := by
  unfold terminatedSize
  cases Allocation.terminated? length <;> simp [eq_comm]

theorem fixedBuffer_eq_ok {size : Nat} {u : Unit} :
    (fixedBuffer size : Operation σ Unit) w = .ok u w' ↔ size ≤ Allocation.maxSize ∧ w' = w := by
  unfold fixedBuffer
  split
  · next h => simp [Nat.not_le.mpr h]
  · next h => simp [Nat.not_lt.mp h, eq_comm]

theorem asName_eq_ok {bytes : List UInt8} {name : String} :
    (asName bytes : Operation σ String) w = .ok name w' ↔
      Utf8.decode bytes = .ok name ∧ w' = w := by
  unfold asName
  cases Utf8.decode bytes <;> simp [Action.ofExcept, Action.mapError, Action.look, eq_comm]

/-! ## Quiet operations -/

/-- The streams are as they were, and so is the engine but for its ledger. -/
structure World.Quiet (w w' : World σ) : Prop where
  engine : w'.engine.bare = w.engine.bare
  streams : w'.streams = w.streams

namespace World

theorem Quiet.refl (w : World σ) : w.Quiet w := ⟨rfl, rfl⟩

theorem Quiet.trans {w v u : World σ} (h : w.Quiet v) (h' : v.Quiet u) : w.Quiet u :=
  ⟨h'.engine.trans h.engine, h'.streams.trans h.streams⟩

theorem quiet_onLedger (w : World σ) (change : Ledger → Ledger) : w.Quiet (onLedger w change) :=
  ⟨rfl, rfl⟩

theorem quiet_host (w : World σ) (host : σ) : w.Quiet { w with host } := ⟨rfl, rfl⟩

/-- The engine and the streams are what serving a request makes of them. -/
structure Served (w : World σ) (request : Engine.Request) (w' : World σ) : Prop where
  engine : w'.engine.bare = (w.engine.serve w.streams request).1.bare
  streams : w'.streams = (w.engine.serve w.streams request).2

theorem Quiet.served {w v u : World σ} {request : Engine.Request} (h : w.Quiet v)
    (h' : v.Served request u) : w.Served request u := by
  obtain ⟨hengine, hstreams⟩ := Engine.serve_bare h.engine v.streams request
  rw [h.streams] at hengine hstreams
  exact ⟨h'.engine.trans (h.streams ▸ hengine), h'.streams.trans (h.streams ▸ hstreams)⟩

theorem Served.quiet {w v u : World σ} {request : Engine.Request} (h : w.Served request v)
    (h' : v.Quiet u) : w.Served request u :=
  ⟨h'.engine.trans h.engine, h'.streams.trans h.streams⟩

end World

namespace Operation

/-- An operation that does nothing to the engine and the streams. -/
def StaysQuiet (op : Operation σ α) : Prop :=
  Action.Moves World.Quiet op

theorem StaysQuiet.bind {op : Operation σ α} {next : α → Operation σ β} (hop : StaysQuiet op)
    (hnext : ∀ a, StaysQuiet (next a)) : StaysQuiet (op >>= next) :=
  Action.Moves.bind (R := World.Quiet) World.Quiet.trans hop hnext

theorem staysQuiet_pure (a : α) : StaysQuiet (pure a : Operation σ α) := World.Quiet.refl

theorem staysQuiet_fail (e : BridgeError) : StaysQuiet (Action.fail e : Operation σ α) :=
  World.Quiet.refl

theorem StaysQuiet.borrowing {body : Operation σ α} (r : Resource) (h : StaysQuiet body) :
    StaysQuiet (borrowing r body) :=
  moves_borrowing (R := World.Quiet) World.Quiet.trans World.quiet_onLedger r h

theorem StaysQuiet.holding {body : Operation σ α} (r : Resource) (h : StaysQuiet body) :
    StaysQuiet (holding r body) :=
  moves_holding (R := World.Quiet) World.Quiet.trans World.quiet_onLedger r h

/-! ## Operations that ask once -/

/-- An operation asks the engine for what is related to the host it starts with, and for nothing
else. -/
structure Sends (R : σ → Engine.Request → Prop) (op : Operation σ α) : Prop where
  served : ∀ (w : World σ) request, R w.host request → w.Served request (Action.final op w)
  quiet : ∀ w : World σ, (∀ request, ¬ R w.host request) → w.Quiet (Action.final op w)

variable {R : σ → Engine.Request → Prop} {op : Operation σ α}

theorem StaysQuiet.sends (h : StaysQuiet op) : Sends (fun _ _ => False) op :=
  ⟨fun _ _ => False.elim, fun w _ => h w⟩

theorem Sends.congr {R' : σ → Engine.Request → Prop} (h : Sends R op)
    (hR : ∀ s request, R' s request ↔ R s request) : Sends R' op :=
  ⟨fun w request hrequest => h.served w request ((hR _ _).mp hrequest),
    fun w hnone => h.quiet w fun request hrequest => hnone request ((hR _ _).mpr hrequest)⟩

/-- What quietly reads something from the host decides what is asked for. -/
theorem Sends.after (Pre : σ → α → σ → Prop) {pre : Operation σ α} {next : α → Operation σ β}
    {R : α → σ → Engine.Request → Prop} (hquiet : StaysQuiet pre)
    (hpre : ∀ {w a w'}, pre w = .ok a w' ↔ ∃ s, Pre w.host a s ∧ w' = { w with host := s })
    (hnext : ∀ a, Sends (R a) (next a)) :
    Sends (fun s request => ∃ a s', Pre s a s' ∧ R a s' request) (pre >>= next) where
  served w request := by
    rintro ⟨a, s', hs', hR⟩
    have hread : pre w = .ok a { w with host := s' } := hpre.mpr ⟨s', hs', rfl⟩
    rw [Action.final_bind_of_ok hread]
    exact (w.quiet_host s').served ((hnext a).served { w with host := s' } request hR)
  quiet w hnone := by
    cases hw : pre w with
    | ok a v =>
      obtain ⟨s', hs', rfl⟩ := hpre.mp hw
      rw [Action.final_bind_of_ok hw]
      exact (w.quiet_host s').trans ((hnext a).quiet _ fun request hR =>
        hnone request ⟨a, s', hs', hR⟩)
    | error abort v =>
      rw [Action.final_of_error (Action.bind_of_error hw)]
      simpa only [Action.final_of_error hw] using hquiet w

theorem Sends.before {next : α → Operation σ β} (h : Sends R op)
    (hnext : ∀ a, StaysQuiet (next a)) : Sends R (op >>= next) := by
  have hlater (w : World σ) : World.Quiet (Action.final op w) (Action.final (op >>= next) w) := by
    cases hw : op w with
    | ok a v =>
      rw [Action.final_of_ok hw, Action.final_bind_of_ok hw]
      exact hnext a v
    | error abort v =>
      rw [Action.final_of_error hw, Action.final_of_error (Action.bind_of_error hw)]
      exact .refl v
  exact ⟨fun w request hR => (h.served w request hR).quiet (hlater w),
    fun w hnone => (h.quiet w hnone).trans (hlater w)⟩

theorem Sends.holding (r : Resource) (h : Sends R op) : Sends R (holding r op) := by
  have hheld (w : World σ) : w.Quiet (onLedger w (·.acquire r)) := w.quiet_onLedger _
  have hfinal (w : World σ) : Action.final (Operation.holding r op) w =
      onLedger (Action.final op (onLedger w (·.acquire r))) (·.release r) := final_borrowing r op _
  constructor
  · intro w request hR
    rw [hfinal]
    exact ((hheld w).served (h.served _ request hR)).quiet (World.quiet_onLedger _ _)
  · intro w hnone
    rw [hfinal]
    exact ((hheld w).trans (h.quiet _ hnone)).trans (World.quiet_onLedger _ _)

/-- Nothing is asked for if a check fails. -/
theorem Sends.unless (h : Sends R op) (c : Prop) [Decidable c] {other : Operation σ α}
    (hquiet : StaysQuiet other) :
    Sends (fun s request => ¬ c ∧ R s request) (if c then other else op) := by
  split
  · next hc => exact hquiet.sends.congr fun s request => by simp [hc]
  · next hc => exact h.congr fun s request => by simp [hc]

theorem Sends.reserve [Memory] (h : Sends R op) (what : Subject) (octets : Nat) :
    Sends (fun s request => Memory.grants octets ∧ R s request)
      (Operation.reserve what octets >>= fun _ => op) := by
  unfold Operation.reserve
  split
  · next hfits => exact h.congr fun s request => by simp [hfits]
  · next hfits =>
    have hquiet :
        StaysQuiet ((Action.fail (.allocation what) : Operation σ Unit) >>= fun _ => op) :=
      World.Quiet.refl
    exact hquiet.sends.congr fun s request => by simp [hfits]

end Operation

/-! ## What the host answers -/

variable [HostRuntime σ]

/-- The name of a function: a text that is not empty, and for which there is memory. -/
def NameRead [Memory] (s : σ) (h : Handle) (name : String) (s' : σ) : Prop :=
  ∃ len size bytes s₁, HostRuntime.utf8Len h s = .ok len s₁ ∧ len ≠ 0 ∧
    Allocation.terminated? len = some size ∧ Memory.grants size ∧
    HostRuntime.readUtf8 h size s₁ = .ok bytes s' ∧ Utf8.decode bytes = .ok name

/-- A language tag: a text that is not empty and not too long. -/
def TagRead (limits : Limits) (s : σ) (h : Handle) (tag : String) (s' : σ) : Prop :=
  ∃ len size bytes s₁, HostRuntime.utf8Len h s = .ok len s₁ ∧ len ≠ 0 ∧
    len ≤ limits.maxTagLen.toNat ∧ Allocation.terminated? limits.maxTagLen.toNat = some size ∧
    size ≤ Allocation.maxSize ∧ HostRuntime.readUtf8 h size s₁ = .ok bytes s' ∧
    Utf8.decode bytes = .ok tag

/-- A path: an item of the array as text, not empty, not too long and without a NUL. -/
def PathRead [Memory] (limits : Limits) (paths : Handle) (index : Nat) (s : σ) (bytes : List UInt8)
    (s' : σ) : Prop :=
  ∃ item h len size s₁ s₂ s₃, HostRuntime.arrayGet paths index s = .ok item s₁ ∧
    HostRuntime.coerceToString item s₁ = .ok h s₂ ∧ HostRuntime.utf8Len h s₂ = .ok len s₃ ∧
    len ≠ 0 ∧ len ≤ limits.maxPathLen.toNat ∧ Allocation.terminated? len = some size ∧
    Memory.grants size ∧ HostRuntime.readUtf8 h size s₃ = .ok bytes s' ∧ 0 ∉ bytes

/-- Handles are converted, from left to right. -/
inductive ConvertsTo (limits : Limits) : σ → List Handle → List Value → σ → Prop where
  | nil {s : σ} : ConvertsTo limits s [] [] s
  | cons {s s₁ s' : σ} {h : Handle} {v : Value.Canonical} {handles : List Handle}
      {values : List Value} :
      Marshal.toValue limits h s = .ok v s₁ → ConvertsTo limits s₁ handles values s' →
      ConvertsTo limits s (h :: handles) (v :: values) s'

theorem ConvertsTo.length_eq {limits : Limits} {s s' : σ} {handles : List Handle}
    {values : List Value} (h : ConvertsTo limits s handles values s') :
    values.length = handles.length := by
  induction h with
  | nil => rfl
  | cons _ _ ih => exact congrArg (· + 1) ih

/-- Paths are read, from an index on. -/
inductive PathsRead [Memory] (limits : Limits) (paths : Handle) :
    Nat → σ → List (List UInt8) → σ → Prop where
  | nil {index : Nat} {s : σ} : PathsRead limits paths index s [] s
  | cons {index : Nat} {s s₁ s' : σ} {bytes : List UInt8} {natives : List (List UInt8)} :
      PathRead limits paths index s bytes s₁ →
      PathsRead limits paths (index + 1) s₁ natives s' →
      PathsRead limits paths index s (bytes :: natives) s'

/-- An invocation reaches the engine: there is memory for the handles, a name is read, there is
memory for the values, and all arguments are converted. -/
def Reached [Memory] (limits : Limits) (s : σ) (nameHandle : Handle) (args : List Handle)
    (name : String) (values : List Value) : Prop :=
  Memory.grants ((args.length + 1) * handleWidth) ∧ ∃ s₁, NameRead s nameHandle name s₁ ∧
    Memory.grants (args.length * valueWidth) ∧ ∃ s₂, ConvertsTo limits s₁ args values s₂

/-- A load is forwarded to the engine: a tag is read, there are paths but not too many, there is
memory for them, and all of them are read. -/
def Forwarded [Memory] (limits : Limits) (s : σ) (tagHandle paths : Handle) (tag : String)
    (natives : List (List UInt8)) : Prop :=
  ∃ s₁, TagRead limits s tagHandle tag s₁ ∧ ∃ s₂,
    HostRuntime.arrayLen paths s₁ = .ok natives.length s₂ ∧
    natives.length ≤ limits.maxLoadPaths.toNat ∧ natives ≠ [] ∧
    Memory.grants (natives.length * nativeWidth) ∧ ∃ s₃, PathsRead limits paths 0 s₂ natives s₃

theorem decodeName_eq_ok [Memory] {h : Handle} {name : String} :
    decodeName h w = .ok name w' ↔
      ∃ s, NameRead w.host h name s ∧ w' = { w with host := s } := by
  unfold decodeName nameOnHost NameRead
  simp only [Action.bind_eq_ok, Action.ite_fail_eq_ok, onHost_eq_ok, terminatedSize_eq_ok,
    reserve_eq_ok, asName_eq_ok]
  constructor
  · rintro ⟨len, _, ⟨s₁, hlen, rfl⟩, hne, size, _, ⟨hsize, rfl⟩, _, _, ⟨hroom, rfl⟩, bytes, _,
      ⟨s, hread, rfl⟩, hdecode, rfl⟩
    exact ⟨s, ⟨len, size, bytes, s₁, hlen, hne, hsize, hroom, hread, hdecode⟩, rfl⟩
  · rintro ⟨s, ⟨len, size, bytes, s₁, hlen, hne, hsize, hroom, hread, hdecode⟩, rfl⟩
    exact ⟨len, _, ⟨s₁, hlen, rfl⟩, hne, size, _, ⟨hsize, rfl⟩, (), _, ⟨hroom, rfl⟩, bytes, _,
      ⟨s, hread, rfl⟩, hdecode, rfl⟩

theorem decodeTag_eq_ok {limits : Limits} {h : Handle} {tag : String} :
    decodeTag limits h w = .ok tag w' ↔
      ∃ s, TagRead limits w.host h tag s ∧ w' = { w with host := s } := by
  unfold decodeTag nameOnHost TagRead
  simp only [Action.bind_eq_ok, Action.ite_fail_eq_ok, onHost_eq_ok, terminatedSize_eq_ok,
    fixedBuffer_eq_ok, asName_eq_ok, Nat.not_lt]
  constructor
  · rintro ⟨len, _, ⟨s₁, hlen, rfl⟩, hne, hmost, size, _, ⟨hsize, rfl⟩, _, _,
      ⟨hroom, rfl⟩, bytes, _, ⟨s, hread, rfl⟩, hdecode, rfl⟩
    exact ⟨s, ⟨len, size, bytes, s₁, hlen, hne, hmost, hsize, hroom, hread, hdecode⟩, rfl⟩
  · rintro ⟨s, ⟨len, size, bytes, s₁, hlen, hne, hmost, hsize, hroom, hread, hdecode⟩, rfl⟩
    exact ⟨len, _, ⟨s₁, hlen, rfl⟩, hne, hmost, size, _, ⟨hsize, rfl⟩, (), _,
      ⟨hroom, rfl⟩, bytes, _, ⟨s, hread, rfl⟩, hdecode, rfl⟩

theorem nativePath_eq_ok [Memory] {limits : Limits} {paths : Handle} {index : Nat}
    {bytes : List UInt8} :
    nativePath limits paths index w = .ok bytes w' ↔
      ∃ s, PathRead limits paths index w.host bytes s ∧ w' = { w with host := s } := by
  unfold nativePath copyPath PathRead
  simp only [Action.bind_eq_ok, Action.ite_fail_eq_ok, onHost_eq_ok, terminatedSize_eq_ok,
    reserve_eq_ok, Nat.not_lt]
  constructor
  · rintro ⟨item, _, ⟨s₁, hitem, rfl⟩, bytes', _,
      ⟨h, _, ⟨s₂, hcoerce, rfl⟩, len, _, ⟨s₃, hlen, rfl⟩, hne, hmost, size, _,
        ⟨hsize, rfl⟩, _, _, ⟨hroom, rfl⟩, s, hread, rfl⟩, hreturn⟩
    cases hnul : bytes'.findIdx? (· = 0) with
    | some position =>
      rw [hnul] at hreturn
      cases hreturn
    | none =>
      rw [hnul] at hreturn
      cases hreturn
      exact ⟨s, ⟨item, h, len, size, s₁, s₂, s₃, hitem, hcoerce, hlen, hne, hmost, hsize, hroom,
        hread, findIdx?_nul_eq_none_iff.mp hnul⟩, rfl⟩
  · rintro ⟨s, ⟨item, h, len, size, s₁, s₂, s₃, hitem, hcoerce, hlen, hne, hmost, hsize, hroom,
      hread, hnul⟩, rfl⟩
    refine ⟨item, _, ⟨s₁, hitem, rfl⟩, bytes, _, ⟨h, _, ⟨s₂, hcoerce, rfl⟩, len, _, ⟨s₃, hlen, rfl⟩,
      hne, hmost, size, _, ⟨hsize, rfl⟩, (), _, ⟨hroom, rfl⟩, s, hread, rfl⟩, ?_⟩
    rw [findIdx?_nul_eq_none_iff.mpr hnul]
    rfl

/-! ## Quiet steps -/

namespace Operation

/-- Whatever is done before and after the engine is asked is quiet. -/
theorem threaded_staysQuiet : @Threaded σ _ fun _ _ => StaysQuiet :=
  threaded_moves (R := World.Quiet) World.Quiet.trans World.quiet_onLedger World.Quiet.refl
    fun _ w => w.quiet_host _

end Operation

/-! ## What operations ask -/

omit [HostRuntime σ] in
/-- A request that is made in any case. -/
theorem sends_of_final {request : Engine.Request} {op : Operation σ α}
    (h : ∀ w : World σ, w.Served request (Action.final op w)) :
    Sends (fun _ r => r = request) op :=
  ⟨fun w _ hr => hr ▸ h w, fun _ hnone => (hnone request rfl).elim⟩

omit [HostRuntime σ] in
theorem sends_dispatch (name : String) (values : List Value) :
    Sends (fun (_ : σ) request => request = .call name values) (dispatch name values) := by
  refine sends_of_final fun w => ?_
  have hserve : w.engine.serve w.streams (.call name values) =
      (w.engine.callByName name values w.streams).2 := rfl
  rw [Action.final, dispatch_apply]
  rcases hcall : w.engine.callByName name values w.streams with ⟨outcome, engine, streams⟩
  rw [hcall] at hserve
  cases outcome <;> exact ⟨by rw [hserve], by rw [hserve]⟩

/-- Handles are converted, and then the values decide. -/
theorem sends_withValues (limits : Limits) (handles : List Handle)
    {body : List Value → Operation σ α} {R : List Value → σ → Engine.Request → Prop}
    (h : ∀ values, Sends (R values) (body values)) :
    Sends
      (fun s request => ∃ values s', ConvertsTo limits s handles values s' ∧ R values s' request)
      (withValues limits body handles) := by
  induction handles generalizing body R with
  | nil =>
    refine (h []).congr fun s request => ⟨?_, fun hR => ⟨[], s, .nil, hR⟩⟩
    rintro ⟨_, _, ⟨⟩, hR⟩
    exact hR
  | cons handle rest ih =>
    unfold withValues
    have hrest (v : Value.Canonical) := (ih fun values => h (v :: values)).holding .value
    refine (Sends.after (fun s v s' => Marshal.toValue limits handle s = .ok v s')
      (threaded_staysQuiet.onHost _ (.toValue limits handle)) onHost_eq_ok hrest).congr
      fun s request => ?_
    constructor
    · rintro ⟨_, s', hconverts, hR⟩
      cases hconverts with
      | cons hfirst hrest => exact ⟨_, _, hfirst, _, s', hrest, hR⟩
    · rintro ⟨v, s₁, hfirst, values, s', hrest, hR⟩
      exact ⟨v :: values, s', .cons hfirst hrest, hR⟩

/-- Paths are read, and then their octets decide. -/
theorem sends_withPaths [Memory] (limits : Limits) (paths : Handle) (index count : Nat)
    {body : List (List UInt8) → Operation σ α}
    {R : List (List UInt8) → σ → Engine.Request → Prop}
    (h : ∀ natives, Sends (R natives) (body natives)) :
    Sends (fun s request => ∃ natives s', natives.length = count ∧
        PathsRead limits paths index s natives s' ∧ R natives s' request)
      (withPaths limits paths index body count) := by
  induction count generalizing index body R with
  | zero =>
    refine (h []).congr fun s request => ⟨?_, fun hR => ⟨[], s, rfl, .nil, hR⟩⟩
    rintro ⟨natives, s', hlength, hread, hR⟩
    obtain rfl := List.length_eq_zero_iff.mp hlength
    cases hread
    exact hR
  | succ count ih =>
    unfold withPaths
    have hrest (bytes : List UInt8) :=
      (ih (index + 1) fun natives => h (bytes :: natives)).holding .nativeString
    refine (Sends.after (PathRead limits paths index)
      (threaded_staysQuiet.nativePath limits paths index) nativePath_eq_ok hrest).congr
        fun s request => ?_
    constructor
    · rintro ⟨natives, s', hlength, hread, hR⟩
      cases hread with
      | nil => cases hlength
      | cons hfirst hrest =>
        exact ⟨_, _, hfirst, _, s', Nat.succ.inj hlength, hrest, hR⟩
    · rintro ⟨bytes, s₁, hfirst, natives, s', hlength, hrest, hR⟩
      exact ⟨bytes :: natives, s', congrArg (· + 1) hlength, .cons hfirst hrest, hR⟩

/-- An invocation with a name, step by step. -/
theorem invoke_eq [Memory] (limits : Limits) (nameHandle : Handle) (args : List Handle) :
    (invoke limits (.ofList (nameHandle :: args)) : Operation σ (Option Handle)) = do
      reserve .argumentHandles ((args.length + 1) * handleWidth)
      let name ← decodeName nameHandle
      reserve .argumentValues (args.length * valueWidth)
      match ← withValues limits (dispatch name) args with
      | some v => some <$> borrowing .value (onHost .conversion (Marshal.toHost limits v))
      | none => return none := by
  unfold invoke collect
  simp only [CallInfo.ofList, Nat.le_refl, if_true, List.take_length, bind_assoc, pure_bind]
  rfl

/-- An invocation asks for a call of the function it names. -/
theorem sends_invoke [Memory] (limits : Limits) (nameHandle : Handle) (args : List Handle) :
    Sends (fun (s : σ) request => ∃ name values, Reached limits s nameHandle args name values ∧
        request = .call name values)
      (invoke limits (.ofList (nameHandle :: args))) := by
  rw [invoke_eq]
  have hcall (name : String) := sends_withValues limits args fun values =>
    sends_dispatch (σ := σ) name values
  refine (Sends.after (NameRead · nameHandle) (threaded_staysQuiet.decodeName nameHandle)
    decodeName_eq_ok fun name =>
      ((hcall name).before fun answer => ?_).reserve _ _).reserve _ _ |>.congr
        fun s request => ?_
  · cases answer with
    | none => exact World.Quiet.refl
    | some v =>
      have hback : StaysQuiet (onHost .conversion (Marshal.toHost limits v) : Operation σ Handle) :=
        threaded_staysQuiet.onHost _ (.toHost limits v)
      exact Action.Moves.map (hback.borrowing .value) some
  · constructor
    · rintro ⟨name, values, ⟨hhandles, s₁, hname, hvalues, s₂, hconverts⟩, hrequest⟩
      exact ⟨hhandles, name, s₁, hname, hvalues, values, s₂, hconverts, hrequest⟩
    · rintro ⟨hhandles, name, s₁, hname, hvalues, values, s₂, hconverts, hrequest⟩
      exact ⟨name, values, ⟨hhandles, s₁, hname, hvalues, s₂, hconverts⟩, hrequest⟩

/-- Loading asks for a load of what it reads. -/
theorem sends_bulkLoad [Memory] (limits : Limits) (tag paths : Handle) :
    Sends (fun (s : σ) request => ∃ name natives, Forwarded limits s tag paths name natives ∧
        request = .load name natives)
      (bulkLoad limits tag paths) := by
  unfold bulkLoad
  have hload (name : String) (natives : List (List UInt8)) :
      Sends (fun (_ : σ) request => request = .load name natives)
        (onEngine fun engine streams => engine.loadFromFile name natives streams) :=
    sends_of_final fun _ => ⟨rfl, rfl⟩
  have hpaths (name : String) (len : Nat) :=
    (sends_withPaths limits paths 0 len (hload name)).before fun status =>
      show StaysQuiet (if status = 0 then return else
        Action.fail (.callFailure (.loadStatus status))) by
      split
      · exact staysQuiet_pure ()
      · exact staysQuiet_fail _
  have hchecked (name : String) (len : Nat) :=
    (((hpaths name len).reserve .pathList (len * nativeWidth)).unless
      (len = 0) (staysQuiet_pure ())).unless (limits.maxLoadPaths.toNat < len)
      (staysQuiet_fail (.capacityExceeded .pathList len limits.maxLoadPaths.toNat))
  refine (Sends.after (TagRead limits · tag) (threaded_staysQuiet.decodeTag limits tag)
    decodeTag_eq_ok fun name =>
      Sends.after (fun s len s' => HostRuntime.arrayLen paths s = .ok len s')
        (threaded_staysQuiet.query _ (.arrayLen paths)) onHost_eq_ok (hchecked name)).congr
          fun s request => ?_
  constructor
  · rintro ⟨name, natives, ⟨s₁, htag, s₂, hlen, hmost, hne, hfits, s₃, hread⟩, hrequest⟩
    exact ⟨name, s₁, htag, natives.length, s₂, hlen, Nat.not_lt.mpr hmost,
      fun hzero => hne (List.length_eq_zero_iff.mp hzero), hfits, natives, s₃, rfl, hread, hrequest⟩
  · rintro ⟨name, s₁, htag, _, s₂, hlen, hmost, hne, hfits, natives, s₃, rfl, hread, hrequest⟩
    exact ⟨name, natives, ⟨s₁, htag, s₂, hlen, Nat.not_lt.mp hmost,
      fun hnil => hne (congrArg List.length hnil), hfits, s₃, hread⟩, hrequest⟩

omit [HostRuntime σ] in
/-- Enabling the log: a policy is created, and then attached. -/
theorem enableLogging_eq (registry : Log.Registry) (stream : Nat) (w : World σ) :
    enableLogging registry stream w =
      match registry.create Log.stdioTag (.stdio stream) w.streams with
      | (.error e, streams) => .error (.error (.ofLog e)) { w with streams }
      | (.ok policy, streams) =>
        match w.engine.attachLog policy streams with
        | (.error e, engine, streams) =>
          .error (.error (.callFailure (.logging e))) ⟨w.host, engine, streams⟩
        | (.ok (), engine, streams) => .ok () ⟨w.host, engine, streams⟩ := by
  unfold enableLogging createPolicy
  rw [bind_assoc, Action.bind_of_ok (onEngine_apply _ w)]
  rcases registry.create Log.stdioTag (.stdio stream) w.streams with ⟨e | policy, streams⟩
  · rfl
  · dsimp only
    have hok : ((Action.ofExcept (.ok policy)).mapError .ofLog : Operation σ Log.Policy)
        { w with streams } = .ok policy { w with streams } := rfl
    rw [Action.bind_of_ok hok, Action.bind_of_ok (onEngine_apply _ _)]
    dsimp only
    rcases w.engine.attachLog policy streams with ⟨e | ⟨⟩, engine, streams'⟩
    · rfl
    · rfl

omit [HostRuntime σ] in
theorem final_enableLogging (registry : Log.Registry) (stream : Nat) (w : World σ) :
    Action.final (enableLogging registry stream) w =
      ⟨w.host, (w.engine.serve w.streams (.log registry stream)).1,
        (w.engine.serve w.streams (.log registry stream)).2⟩ := by
  rw [Action.final, enableLogging_eq]
  simp only [Engine.serve]
  rcases registry.create Log.stdioTag (.stdio stream) w.streams with ⟨e | policy, streams⟩
  · rfl
  · dsimp only
    rcases w.engine.attachLog policy streams with ⟨e | ⟨⟩, engine, streams'⟩
    · rfl
    · rfl

omit [HostRuntime σ] in
/-- Enabling the log asks for nothing else. -/
theorem sends_enableLogging (registry : Log.Registry) (stream : Nat) :
    Sends (fun (_ : σ) request => request = .log registry stream)
      (enableLogging registry stream) :=
  sends_of_final fun w => by
    rw [final_enableLogging]
    exact ⟨rfl, rfl⟩

/-- Describing the engine asks it for nothing that would change it. -/
theorem staysQuiet_inspect [Memory] : StaysQuiet (inspect : Operation σ Handle) := by
  unfold inspect
  refine StaysQuiet.holding .allocator (StaysQuiet.bind World.Quiet.refl fun answer => ?_)
  cases answer with
  | none => exact World.Quiet.refl
  | some buffer => exact StaysQuiet.holding .buffer (threaded_staysQuiet.describe buffer)

end Bridge

open Bridge Operation

variable [Memory] {σ : Type} [HostRuntime σ]

/-! ## What calls ask -/

/-- What an entry point asks of the engine: an invocation that reaches it asks for a call, a load
that is forwarded asks for it, and enabling the log asks for that. -/
inductive Module.Asks (m : Module) (host : σ) : Export → List Handle → Engine.Request → Prop where
  | call {nameHandle : Handle} {args : List Handle} {name : String} {values : List Value} :
      Reached m.config.limits host nameHandle args name values →
      Asks m host .invoke (nameHandle :: args) (.call name values)
  | load {tag paths : Handle} {more : List Handle} {name : String} {natives : List (List UInt8)} :
      Forwarded m.config.limits host tag paths name natives →
      Asks m host .bulkLoad (tag :: paths :: more) (.load name natives)
  | log {args : List Handle} : Asks m host .enableLogging args (.log m.registry m.logStream)

/-- What a module runs asks for what its entry point asks for. -/
theorem Module.sends_run (m : Module) (args : List Handle) (entry : Export) :
    Sends (fun (s : σ) => m.Asks s entry args) (m.run args entry) := by
  cases entry with
  | invoke =>
    cases args with
    | nil =>
      refine (staysQuiet_fail .arity).sends.congr fun s request => ⟨?_, False.elim⟩
      rintro ⟨⟩
    | cons nameHandle args =>
      refine (sends_invoke m.config.limits nameHandle args).congr
        fun s request => ⟨fun hasks => ?_, ?_⟩
      · cases hasks with
        | call h => exact ⟨_, _, h, rfl⟩
      · rintro ⟨name, values, h, rfl⟩
        exact .call h
  | bulkLoad =>
    match args with
    | [] | [_] =>
      refine (staysQuiet_fail .arity).sends.congr fun s request => ⟨?_, False.elim⟩
      rintro ⟨⟩
    | tag :: paths :: more =>
      refine ((sends_bulkLoad m.config.limits tag paths).before fun _ => staysQuiet_pure none).congr
        fun s request => ⟨fun hasks => ?_, ?_⟩
      · cases hasks with
        | load h => exact ⟨_, _, h, rfl⟩
      · rintro ⟨name, natives, h, rfl⟩
        exact .load h
  | inspect =>
    have hquiet : StaysQuiet (some <$> inspect : Operation σ (Option Handle)) :=
      Action.Moves.map staysQuiet_inspect some
    refine hquiet.sends.congr fun s request => ⟨?_, False.elim⟩
    rintro ⟨⟩
  | enableLogging =>
    refine ((sends_enableLogging m.registry m.logStream).before fun _ => staysQuiet_pure none).congr
      fun s request => ⟨?_, ?_⟩
    · rintro ⟨⟩
      rfl
    · rintro rfl
      exact .log

namespace Site

/-- The world of an operation that is performed at a site. -/
def world {σ : Type} (s : Site σ) : World σ :=
  ⟨s.host, s.module.engine, s.streams⟩

/-- The site when the world has become another. -/
def become {σ : Type} (s : Site σ) (w : World σ) : Site σ :=
  ⟨{ s.module with engine := w.engine }, w.host, w.streams⟩

omit [Memory] [HostRuntime σ] in
theorem perform_eq {α : Type} (s : Site σ) (op : Operation σ α) :
    s.perform op = match op s.world with
      | .ok a w => (.ok a, s.become w)
      | .error abort w => (.error abort, s.become w) := rfl

/-- What a call comes to: a value, or an error that is raised. -/
theorem call_eq (s : Site σ) (name : String) (args : List Handle) :
    s.call name args = match s.module.entry? name with
      | none => (none, s.raise ("no such export: " ++ name))
      | some entry => match s.module.run args entry s.world with
        | .ok value w => (value, s.become w)
        | .error abort w => (none, (s.become w).raise (Module.abortMessage abort)) := by
  unfold call
  cases s.module.entry? name with
  | none => rfl
  | some entry =>
    simp only [perform_eq]
    cases s.module.run args entry s.world <;> rfl

/-- But for the host a site is after a call what the operation makes of it. -/
theorem call_of_entry {s : Site σ} {name : String} {entry : Export}
    (h : s.module.entry? name = some entry) (args : List Handle) :
    let w := Action.final (s.module.run args entry) s.world
    (s.call name args).2.module = { s.module with engine := w.engine } ∧
      (s.call name args).2.streams = w.streams := by
  rw [call_eq, h, Action.final]
  dsimp only
  cases s.module.run args entry s.world with
  | ok value w => exact ⟨rfl, rfl⟩
  | error abort w => exact ⟨rfl, rfl⟩

/-- What a call asks of the engine. -/
def Asks (s : Site σ) (name : String) (args : List Handle) (request : Engine.Request) : Prop :=
  ∃ entry, s.module.entry? name = some entry ∧ s.module.Asks s.host entry args request

/-- Of a module, calls change the engine only. -/
theorem call_module (s : Site σ) (name : String) (args : List Handle) :
    (s.call name args).2.module =
      { s.module with engine := (s.call name args).2.module.engine } := by
  cases hentry : s.module.entry? name with
  | none =>
    rw [call_eq, hentry]
    rfl
  | some entry =>
    rw [(call_of_entry hentry args).1]

theorem entry?_call (s : Site σ) (name : String) (args : List Handle) :
    (s.call name args).2.module.entry? = s.module.entry? := by
  rw [call_module]
  rfl

section
variable {s : Site σ} {name : String} {args : List Handle}

/-- **What a call does** if it asks for something: the engine, but for its ledger, and the streams
are what serving the request makes of them. -/
theorem call_served {request : Engine.Request} (h : s.Asks name args request) :
    (s.call name args).2.module.engine.bare = (s.module.engine.serve s.streams request).1.bare ∧
      (s.call name args).2.streams = (s.module.engine.serve s.streams request).2 := by
  obtain ⟨entry, hentry, hasks⟩ := h
  obtain ⟨hmodule, hstreams⟩ := call_of_entry hentry args
  have hserved := (s.module.sends_run args entry).served s.world request hasks
  rw [hmodule, hstreams]
  exact ⟨hserved.engine, hserved.streams⟩

/-- **What a call does** if it asks for nothing: nothing, but for the ledger. -/
theorem call_quiet (h : ∀ request, ¬ s.Asks name args request) :
    (s.call name args).2.module.engine.bare = s.module.engine.bare ∧
      (s.call name args).2.streams = s.streams := by
  cases hentry : s.module.entry? name with
  | none =>
    rw [call_eq, hentry]
    exact ⟨rfl, rfl⟩
  | some entry =>
    obtain ⟨hmodule, hstreams⟩ := call_of_entry hentry args
    have hquiet := (s.module.sends_run args entry).quiet s.world fun request hasks =>
      h request ⟨entry, hentry, hasks⟩
    rw [hmodule, hstreams]
    exact ⟨hquiet.engine, hquiet.streams⟩

end

end Site

end ForeignCall
