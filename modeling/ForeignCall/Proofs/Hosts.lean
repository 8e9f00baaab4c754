import ForeignCall.Host.Scripted
import ForeignCall.Proofs.Growth
import ForeignCall.Proofs.Settlement
import ForeignCall.Proofs.Walk

/-!
# ForeignCall.Proofs.Hosts

Hosts that keep their values in an arena.

Whatever such a host is asked, and however that ends, values are only added to
the arena, and errors are raised in no other way than by raising them
(`ArenaHost`).  An arena is such a host, and so is one that plays a part.

`closed_grows` — then all that a module runs adds values and does nothing else
to the host: the walks that convert values only make requests, and the engine
knows nothing of the host.
-/

namespace ForeignCall

open Bridge Marshal Operation

/-- A host that keeps its values in an arena. -/
class ArenaHost (σ : Type) [HostRuntime σ] where
  arena : σ → Arena
  /-- A request adds values at most, however it ends. -/
  grows {α : Type} {request : Action σ HostError α} : HostRuntime.Request request →
    Action.Moves (fun s t => (arena s).Grows (arena t)) request
  raised (message : String) (s : σ) :
    arena (HostRuntime.raise message s) = (arena s).raise message

/-! ## An arena by itself -/

namespace Arena

theorem grows_coerceToString (h : Handle) :
    Action.Moves Grows (HostRuntime.coerceToString h : Action Arena HostError Handle) := by
  intro a
  simp only [Action.final, HostRuntime.coerceToString]
  cases hc : a.coerce h with
  | ok result => exact grows_of_coerce hc
  | error e => exact .refl a

instance : ArenaHost Arena where
  arena := id
  grows
    | .query (.classify _) | .query (.utf8Len _) | .query (.readUtf8 _ _)
    | .query (.arrayLen _) | .query (.arrayGet _ _) => Action.Moves.look .refl _
    | .query (.coerceToString h) => grows_coerceToString h
    | .create v => (grows_alloc · v)
  raised _ _ := rfl

end Arena

/-! ## An arena that plays a part -/

namespace Host.Scripted

variable {α : Type}

/-- The arena grows. -/
def Grows (s t : Scripted) : Prop := s.arena.Grows t.arena

/-- To reckon with a request does not concern the arena. -/
theorem arena_request (s : Scripted) (p : Primitive) : (s.request p).2.arena = s.arena := by
  unfold request
  split
  · rfl
  · dsimp only
    split <;> rfl

theorem grows_onArena {action : Action Arena HostError α} (h : Action.Moves Arena.Grows action) :
    Action.Moves Grows (onArena action) := by
  rintro ⟨arena, faults, raw⟩
  have harena := h arena
  rw [Action.final] at harena ⊢
  rw [onArena, Grows]
  cases ha : action arena with
  | ok a arena' => simpa only [ha] using harena
  | error abort arena' => simpa only [ha] using harena

theorem grows_octetsOr {action : Action Arena HostError α} (h : Handle) (own : List UInt8 → α)
    (haction : Action.Moves Arena.Grows action) :
    Action.Moves Grows (octetsOr h own action) := by
  intro s
  cases hraw : s.raw? h with
  | some bytes =>
    have hown : octetsOr h own action s = .ok (own bytes) s := by rw [octetsOr, hraw]
    rw [Action.final_of_ok hown]
    exact .refl s.arena
  | none =>
    have hpart : octetsOr h own action s = onArena action s := by rw [octetsOr, hraw]
    rw [Action.final, hpart]
    exact grows_onArena haction s

/-- A fault does nothing to the arena. -/
theorem grows_answering {action : Action Scripted HostError α} (p : Primitive)
    (number : Nat → Option α) (h : Action.Moves Grows action) :
    Action.Moves Grows (answering p number action) := by
  intro s
  have hsame : Grows s (s.request p).2 := by
    rw [Grows, arena_request]
    exact .refl s.arena
  have hthen : Grows s (Action.final action (s.request p).2) := hsame.trans (h _)
  rw [Action.final, answering]
  generalize s.request p = reckoned at hsame hthen ⊢
  obtain ⟨_ | text | n | text, t⟩ := reckoned
  · exact hthen
  · exact hsame
  · dsimp only
    cases number n with
    | some a => exact hsame
    | none => exact hthen
  · exact hsame

instance : ArenaHost Scripted where
  arena := arena
  grows
    | .query (.classify h) =>
      grows_answering _ _ (grows_onArena (ArenaHost.grows (.query (.classify h))))
    | .query (.utf8Len h) =>
      grows_answering _ _ (grows_octetsOr _ _ (ArenaHost.grows (.query (.utf8Len h))))
    | .query (.readUtf8 h size) =>
      grows_answering _ _ (grows_octetsOr _ _ (ArenaHost.grows (.query (.readUtf8 h size))))
    | .query (.coerceToString h) =>
      grows_answering _ _ (grows_onArena (ArenaHost.grows (.query (.coerceToString h))))
    | .query (.arrayLen h) =>
      grows_answering _ _ (grows_onArena (ArenaHost.grows (.query (.arrayLen h))))
    | .query (.arrayGet h index) =>
      grows_answering _ _ (grows_onArena (ArenaHost.grows (.query (.arrayGet h index))))
    | .create v => grows_answering _ _ (grows_onArena (ArenaHost.grows (.create v)))
  raised _ _ := rfl

end Host.Scripted

variable {σ : Type} [HostRuntime σ] [ArenaHost σ]

/-- The host's arena grows. -/
def HostGrows (s t : σ) : Prop := (ArenaHost.arena s).Grows (ArenaHost.arena t)

theorem HostGrows.refl (s : σ) : HostGrows s s := Arena.Grows.refl _

theorem HostGrows.trans {s t u : σ} (hst : HostGrows s t) (htu : HostGrows t u) : HostGrows s u :=
  Arena.Grows.trans hst htu

/-! ## Walks -/

namespace Marshal

variable {α β : Type}

/-- A walk that adds values at most. -/
def Walk.Grows (walk : Walk σ α) : Prop :=
  Action.Moves (fun s t : Visit σ => HostGrows s.host t.host) walk

namespace Walk

theorem Grows.bind {walk : Walk σ α} {next : α → Walk σ β} (h : Grows walk)
    (hnext : ∀ a, Grows (next a)) : Grows (walk >>= next) :=
  Action.Moves.bind (R := fun s t : Visit σ => HostGrows s.host t.host) HostGrows.trans h hnext

theorem grows_pure (a : α) : Grows (pure a : Walk σ α) := fun s => .refl s.host

theorem grows_fail (e : ConversionError) : Grows (Action.fail e : Walk σ α) := fun s => .refl s.host

theorem grows_visit (most : Nat) : Grows (visit most : Walk σ Unit) := by
  rintro ⟨host, visited⟩
  rw [Action.final]
  unfold visit
  by_cases hend : visited + 1 = 2 ^ 64
  · simp only [if_pos hend]
    exact .refl host
  · by_cases hmost : visited + 1 ≤ most
    · simp only [if_neg hend, if_pos hmost]
      exact .refl host
    · simp only [if_neg hend, if_neg hmost]
      exact .refl host

theorem grows_onHost {request : Action σ HostError α} (h : HostRuntime.Request request) :
    Grows (onHost request) := by
  rintro ⟨host, visited⟩
  have hhost : HostGrows host (Action.final request host) := ArenaHost.grows h host
  rw [Action.final] at hhost ⊢
  rw [onHost]
  cases ha : request host with
  | ok a host' => simpa only [ha] using hhost
  | error abort host' => simpa only [ha] using hhost

theorem grows_each {step : α → Walk σ β} (h : ∀ a, Grows (step a)) (items : List α) :
    Grows (each step items) := by
  induction items with
  | nil => exact grows_pure []
  | cons item rest ih => exact (h item).bind fun first => ih.bind fun others => grows_pure _

theorem grows_eachEntry {step : α → Walk σ β} (h : ∀ a, Grows (step a))
    (entries : List (String × α)) : Grows (eachEntry step entries) := by
  rw [eachEntry_eq]
  exact Action.Moves.map (grows_each h _) _

theorem Grows.start {walk : Walk σ α} (h : Grows walk) : Action.Moves HostGrows walk.start := by
  intro host
  have hhost := h ⟨host, 0⟩
  rw [Action.final] at hhost ⊢
  rw [Walk.start]
  cases hw : walk ⟨host, 0⟩ with
  | ok a s => simpa only [hw] using hhost
  | error abort s => simpa only [hw] using hhost

end Walk

theorem grows_importNode (most levels : Nat) (h : Handle) :
    Walk.Grows (importNode most levels h : Walk σ Value.Canonical) := by
  induction levels generalizing h with
  | zero => exact Walk.grows_fail .tooDeep
  | succ levels ih =>
    unfold importNode
    refine (Walk.grows_visit most).bind fun _ => ?_
    refine (Walk.grows_onHost (.query (.classify h))).bind fun v => ?_
    cases v with
    | array items => exact (Walk.grows_each ih items).bind fun _ => Walk.grows_pure _
    | object properties =>
      exact (Walk.grows_eachEntry ih properties).bind fun _ => Walk.grows_pure _
    | symbol => exact Walk.grows_fail _
    | _ => exact Walk.grows_pure _

theorem grows_exportNode (most levels : Nat) (v : Value) :
    Walk.Grows (exportNode most levels v : Walk σ Handle) := by
  induction levels generalizing v with
  | zero => exact Walk.grows_fail .tooDeep
  | succ levels ih =>
    unfold exportNode
    refine (Walk.grows_visit most).bind fun _ => ?_
    split
    · next items =>
      exact (Walk.grows_each ih items).bind fun handles => Walk.grows_onHost (.create _)
    · next entries =>
      exact (Walk.grows_eachEntry ih entries).bind fun properties => Walk.grows_onHost (.create _)
    · split
      · exact Walk.grows_onHost (.create _)
      · exact Walk.grows_fail _

end Marshal

/-! ## Operations -/

namespace Bridge

variable {α β ε : Type}

theorem grows_asked {action : Action σ ε α} (h : Asked action) : Action.Moves HostGrows action := by
  cases h with
  | query h => exact ArenaHost.grows (.query h)
  | create text => exact ArenaHost.grows (.create (.string text))
  | toValue limits handle => exact (grows_importNode _ _ handle).start
  | toHost limits v => exact (grows_exportNode _ _ v).start

omit [HostRuntime σ] [ArenaHost σ] in
theorem host_final_dispatch (name : String) (args : List Value) (w : World σ) :
    (Action.final (dispatch name args) w).host = w.host := by
  rw [Action.final, dispatch_apply]
  obtain ⟨outcome, engine, streams⟩ := w.engine.callByName name args w.streams
  cases outcome <;> rfl

omit [ArenaHost σ] in
/-- The engine knows nothing of the host: whatever a module runs moves the host as what is asked of
it does. -/
theorem closed_host [Memory] {R : σ → σ → Prop} (refl : ∀ s, R s s)
    (trans : ∀ {s t u}, R s t → R t u → R s u)
    (asked : ∀ {ε α : Type} {action : Action σ ε α}, Asked action → Action.Moves R action) :
    @Closed _ σ _ fun _ _ => Action.Moves fun w v : World σ => R w.host v.host where
  toThreaded :=
    threaded_moves (R := fun w v : World σ => R w.host v.host) trans (fun w _ => refl w.host)
      (fun w => refl w.host) fun h w => asked h w.host
  dispatch name args w := by
    show R w.host _
    rw [host_final_dispatch]
    exact refl w.host
  load _ _ w := refl w.host
  selfDescribe w := refl w.host
  create _ _ w := refl w.host
  attach _ w := refl w.host

/-- Whatever a module runs adds values at most to what the host has. -/
theorem closed_grows [Memory] : @Closed _ σ _ fun _ _ =>
    Action.Moves fun w v : World σ => HostGrows w.host v.host :=
  closed_host HostGrows.refl HostGrows.trans grows_asked

end Bridge

end ForeignCall
