import ForeignCall.Proofs.Import
import ForeignCall.Proofs.Settlement
import ForeignCall.Proofs.Utf8

/-!
# ForeignCall.Proofs.Invocation

What a call of an engine function comes to, from its arguments to its value.

The rules of `Invocation` say it for a host that is an arena.  They come in the
order in which a call can end: there is no memory for what it needs, there is
no name, an argument cannot be converted, the engine ends the call, or its
value is converted back.  A rule gives the whole world afterwards, hence also
what has *not* happened; of the ledger it says how many values were acquired
and released in between.

`invoke_iff` — a call ends so if and only if a rule says so.
-/

namespace ForeignCall

/-! ## Values acquired and released -/

namespace Ledger

/-- Enter some acquisitions and releases of values. -/
def enter (ledger : Ledger) (acquired released : Nat) : Ledger :=
  ledger.modify (fun a => ⟨a.acquired + acquired, a.released + released⟩) .value

@[simp] theorem enter_enter (ledger : Ledger) (m n m' n' : Nat) :
    (ledger.enter m n).enter m' n' = ledger.enter (m + m') (n + n') := by
  simp [enter, modify, Nat.add_assoc]

/-- The order in which resources are entered does not matter. -/
theorem acquire_enter (ledger : Ledger) (r : Resource) (m n : Nat) :
    (ledger.enter m n).acquire r = (ledger.acquire r).enter m n := by
  cases r <;> simp [enter, acquire, modify, Nat.add_right_comm]

end Ledger

namespace Engine

/-- An engine on whose ledger some acquisitions and releases of values have been entered. -/
def enter (e : Engine) (acquired released : Nat) : Engine :=
  { e with ledger := e.ledger.enter acquired released }

/-- A call takes no notice of the ledger. -/
theorem callByName_enter {e e' : Engine} {name : String} {args : List Value}
    {streams streams' : Log.Streams} {outcome : Outcome}
    (h : e.callByName name args streams = (outcome, e', streams')) (m n : Nat) :
    (e.enter m n).callByName name args streams = (outcome, e'.enter m n, streams') := by
  unfold callByName at h ⊢
  have hfind : Entries.find? name (e.enter m n).functions = Entries.find? name e.functions := rfl
  rw [hfind]
  split at h
  · cases h
    rfl
  · next f hf =>
    cases hreply : f.behaviour f.history args with
    | value v =>
      simp only [hreply] at h ⊢
      cases h
      simp only [enter, Ledger.acquire_enter]
      rfl
    | nothing | failure message | panic detail =>
      simp only [hreply] at h ⊢
      cases h
      rfl

end Engine

namespace Arena

/-! ## Strings -/

variable {a : Arena} {h : Handle} {text : String}

theorem utf8Len_of_ok (ht : a.stringOf h = .ok text) :
    HostRuntime.utf8Len h a = .ok (Utf8.size text) a :=
  Action.look_of_ok (by rw [Arena.utf8Len, ht]; rfl)

theorem utf8Len_of_error {e : HostError} (ht : a.stringOf h = .error e) :
    HostRuntime.utf8Len h a = .error (.error e) a :=
  Action.look_of_error (by rw [Arena.utf8Len, ht]; rfl)

/-- Only a string has a length. -/
theorem stringOf_of_utf8Len {b : Arena} {len : Nat}
    (hlen : HostRuntime.utf8Len h a = .ok len b) :
    ∃ text, a.stringOf h = .ok text ∧ len = Utf8.size text ∧ b = a := by
  cases ht : a.stringOf h with
  | ok text =>
    rw [utf8Len_of_ok ht] at hlen
    cases hlen
    exact ⟨text, rfl, rfl, rfl⟩
  | error e =>
    rw [utf8Len_of_error ht] at hlen
    cases hlen

/-- One octet of a buffer is for the terminator. -/
theorem readUtf8_of_pos (ht : a.stringOf h = .ok text) {size : Nat} (hsize : 0 < size) :
    a.readUtf8 h size = .ok (Utf8.cut (size - 1) text) := by
  rw [Arena.readUtf8, ht]
  exact congrArg Except.ok (if_neg (Nat.ne_of_gt hsize))

/-- A string is read whole into a buffer that has room for it. -/
theorem readUtf8_of_room (ht : a.stringOf h = .ok text) {room : Nat}
    (hroom : Utf8.size text ≤ room) :
    HostRuntime.readUtf8 h (room + 1) a = .ok (Utf8.octets text) a := by
  refine Action.look_of_ok ?_
  rw [readUtf8_of_pos ht (Nat.zero_lt_succ room), Nat.succ_sub_one, Utf8.cut_eq_octets hroom]

end Arena

namespace Bridge

open Operation

/-- The world when a call is over: the host, the engine and the streams, and as many values as this
acquired and released. -/
def World.over {σ : Type} (w : World σ) (host : σ) (engine : Engine) (streams : Log.Streams)
    (values : Nat) : World σ :=
  ⟨host, { engine with ledger := w.engine.ledger.enter values values }, streams⟩

/-! ## The rules -/

/-- Handles are converted to values, each by itself. -/
inductive Converts (limits : Limits) (a : Arena) : List Handle → List Value → Prop where
  | nil : Converts limits a [] []
  | cons {h : Handle} {v : Value.Canonical} {handles : List Handle} {values : List Value} :
      Marshal.toValue limits h a = .ok v a → Converts limits a handles values →
      Converts limits a (h :: handles) (v :: values)

/-- A call has the name of a function, and there is memory for all that it needs. -/
structure Addressed [Memory] (a : Arena) (nameHandle : Handle) (args : List Handle)
    (name : String) : Prop where
  handlesFit : Memory.grants ((args.length + 1) * handleWidth)
  text : a.stringOf nameHandle = .ok name
  nonempty : name ≠ ""
  nameFits : Memory.grants (Utf8.size name + 1)
  valuesFit : Memory.grants (args.length * valueWidth)

/-- A call reaches the engine, with a name and values. -/
structure Reaches [Memory] (limits : Limits) (a : Arena) (nameHandle : Handle) (args : List Handle)
    (name : String) (values : List Value) : Prop extends Addressed a nameHandle args name where
  converted : Converts limits a args values

/-- There is no memory for what a call needs. -/
inductive OutOfMemory [Memory] (a : Arena) (nameHandle : Handle) (args : List Handle) :
    Abort BridgeError → Prop where
  | handles : ¬ Memory.grants ((args.length + 1) * handleWidth) →
      OutOfMemory a nameHandle args (.error (.allocation .argumentHandles))
  | size {name : String} : Memory.grants ((args.length + 1) * handleWidth) →
      a.stringOf nameHandle = .ok name → 2 ^ 64 ≤ Utf8.size name + 1 →
      OutOfMemory a nameHandle args (.panic (some "attempt to add with overflow"))
  | name {name : String} : Memory.grants ((args.length + 1) * handleWidth) →
      a.stringOf nameHandle = .ok name → name ≠ "" → Utf8.size name + 1 < 2 ^ 64 →
      ¬ Memory.grants (Utf8.size name + 1) →
      OutOfMemory a nameHandle args (.error (.allocation .functionName))
  | values {name : String} : Memory.grants ((args.length + 1) * handleWidth) →
      a.stringOf nameHandle = .ok name → name ≠ "" →
      Memory.grants (Utf8.size name + 1) →
      ¬ Memory.grants (args.length * valueWidth) →
      OutOfMemory a nameHandle args (.error (.allocation .argumentValues))

/-- How a call with some arguments ends. -/
inductive Invocation [Memory] (limits : Limits) (w : World Arena) :
    List Handle → EStateM.Result (Abort BridgeError) (World Arena) (Option Handle) → Prop where
  | arity : Invocation limits w [] (.error (.error .arity) w)
  | outOfMemory {nameHandle : Handle} {args : List Handle} {abort : Abort BridgeError} :
      OutOfMemory w.host nameHandle args abort →
      Invocation limits w (nameHandle :: args) (.error abort w)
  /-- The name is stale, or not a string. -/
  | noName {nameHandle : Handle} {args : List Handle} {e : HostError} :
      Memory.grants ((args.length + 1) * handleWidth) → w.host.stringOf nameHandle = .error e →
      Invocation limits w (nameHandle :: args) (.error (.error (.nameDecode (.host e))) w)
  | emptyName {nameHandle : Handle} {args : List Handle} :
      Memory.grants ((args.length + 1) * handleWidth) → w.host.stringOf nameHandle = .ok "" →
      Invocation limits w (nameHandle :: args) (.error (.error (.nameDecode .emptyFunctionName)) w)
  /-- An argument is not converted, but all before it are. -/
  | argument {nameHandle h : Handle} {before after : List Handle} {name : String}
      {values : List Value} {abort : Abort ConversionError} :
      Addressed w.host nameHandle (before ++ h :: after) name →
      Converts limits w.host before values → Marshal.toValue limits h w.host = .error abort w.host →
      Invocation limits w (nameHandle :: (before ++ h :: after))
        (.error (abort.map .conversion) (w.over w.host w.engine w.streams before.length))
  | engineError {nameHandle : Handle} {args : List Handle} {name : String} {values : List Value}
      {e : EngineError} {engine : Engine} {streams : Log.Streams} :
      Reaches limits w.host nameHandle args name values →
      w.engine.callByName name values w.streams = (.error e, engine, streams) →
      Invocation limits w (nameHandle :: args)
        (.error (.error (.callFailure (.engine e))) (w.over w.host engine streams args.length))
  | enginePanic {nameHandle : Handle} {args : List Handle} {name : String} {values : List Value}
      {detail : Option String} {engine : Engine} {streams : Log.Streams} :
      Reaches limits w.host nameHandle args name values →
      w.engine.callByName name values w.streams = (.panic detail, engine, streams) →
      Invocation limits w (nameHandle :: args)
        (.error (.panic detail) (w.over w.host engine streams args.length))
  | nothing {nameHandle : Handle} {args : List Handle} {name : String} {values : List Value}
      {engine : Engine} {streams : Log.Streams} :
      Reaches limits w.host nameHandle args name values →
      w.engine.callByName name values w.streams = (.nothing, engine, streams) →
      Invocation limits w (nameHandle :: args)
        (.ok none (w.over w.host engine streams args.length))
  /-- The engine's value is converted back. -/
  | value {nameHandle h : Handle} {args : List Handle} {name : String} {values : List Value}
      {v : Value} {engine : Engine} {streams : Log.Streams} {host : Arena} :
      Reaches limits w.host nameHandle args name values →
      w.engine.callByName name values w.streams = (.value v, engine, streams) →
      Marshal.toHost limits v w.host = .ok h host →
      Invocation limits w (nameHandle :: args)
        (.ok (some h) (w.over host engine streams (args.length + 1)))
  /-- The engine's value is not converted back. -/
  | unconvertible {nameHandle : Handle} {args : List Handle} {name : String} {values : List Value}
      {v : Value} {engine : Engine} {streams : Log.Streams} {abort : Abort ConversionError}
      {host : Arena} :
      Reaches limits w.host nameHandle args name values →
      w.engine.callByName name values w.streams = (.value v, engine, streams) →
      Marshal.toHost limits v w.host = .error abort host →
      Invocation limits w (nameHandle :: args)
        (.error (abort.map .conversion) (w.over host engine streams (args.length + 1)))

/-! ## Entries on the ledger -/

/-- A world on whose ledger some acquisitions and releases of values have been entered. -/
def World.enter {σ : Type} (w : World σ) (acquired released : Nat) : World σ :=
  { w with engine := w.engine.enter acquired released }

theorem World.enter_enter {σ : Type} (w : World σ) (m n m' n' : Nat) :
    (w.enter m n).enter m' n' = w.enter (m + m') (n + n') := by
  simp [World.enter, Engine.enter]

theorem endIn_enter_zero {α : Type} (r : EStateM.Result (Abort BridgeError) (World Arena) α) :
    Action.endIn (·.enter 0 0) r = r := by
  cases r <;> rfl

theorem endIn_enter_enter {α : Type} (r : EStateM.Result (Abort BridgeError) (World Arena) α)
    (m n m' n' : Nat) :
    Action.endIn (·.enter m' n') (Action.endIn (·.enter m n) r) =
      Action.endIn (·.enter (m + m') (n + n')) r := by
  cases r <;> simp [Action.endIn, World.enter_enter]

theorem borrowing_value {α : Type} (body : Operation Arena α) (w : World Arena) :
    borrowing .value body w = Action.endIn (·.enter 0 1) (body w) := by
  rw [borrowing]
  cases body w <;> rfl

/-- A dispatch takes no notice of the ledger. -/
theorem dispatch_enter (name : String) (values : List Value) (w : World Arena) (m n : Nat) :
    dispatch name values (w.enter m n) =
      Action.endIn (·.enter m n) (dispatch name values w) := by
  rw [dispatch_apply, dispatch_apply]
  rcases hcall : w.engine.callByName name values w.streams with ⟨outcome, engine, streams⟩
  have hentered : (w.enter m n).engine.callByName name values (w.enter m n).streams =
      (outcome, engine.enter m n, streams) := Engine.callByName_enter hcall m n
  rw [hentered]
  cases outcome <;> rfl

/-! ## Requests to the host -/

section Host

variable {α ε : Type} {see : ε → BridgeError} {action : Action Arena ε α} {w : World Arena}
  {host : Arena}

theorem onHost_of_ok {a : α} (h : action w.host = .ok a host) :
    onHost see action w = .ok a ⟨host, w.engine, w.streams⟩ := by
  simp only [onHost, h]

theorem onHost_of_error {e : Abort ε} (h : action w.host = .error e host) :
    onHost see action w = .error (e.map see) ⟨host, w.engine, w.streams⟩ := by
  simp only [onHost, h]

end Host

/-! ## Names -/

variable {limits : Limits} {w : World Arena} {nameHandle : Handle} {args : List Handle}
  {name : String}

theorem reserve_of_fits [Memory] {what : Subject} {octets : Nat} (h : Memory.grants octets) :
    (reserve what octets : Operation Arena Unit) w = .ok () w := by
  rw [reserve, if_pos h]
  rfl

theorem reserve_of_not [Memory] {what : Subject} {octets : Nat} (h : ¬ Memory.grants octets) :
    (reserve what octets : Operation Arena Unit) w = .error (.error (.allocation what)) w := by
  rw [reserve, if_neg h]
  rfl

/-- All the arguments there are have been announced. -/
theorem collect_ofList [Memory] (h : Memory.grants (args.length * handleWidth)) :
    (collect (.ofList args) : Operation Arena (List Handle)) w = .ok args w := by
  have hreserve : (reserve .argumentHandles ((CallInfo.ofList args).argc * handleWidth) :
      Operation Arena Unit) w = .ok () w := reserve_of_fits h
  rw [collect, Action.bind_of_ok hreserve]
  simp [CallInfo.ofList]

theorem utf8Len_of_text (h : w.host.stringOf nameHandle = .ok name) :
    (nameOnHost (HostRuntime.utf8Len nameHandle) : Operation Arena Nat) w =
      .ok (Utf8.size name) w :=
  onHost_of_ok (Arena.utf8Len_of_ok h)

theorem utf8Len_of_none {e : HostError} (h : w.host.stringOf nameHandle = .error e) :
    (nameOnHost (HostRuntime.utf8Len nameHandle) : Operation Arena Nat) w =
      .error (.error (.nameDecode (.host e))) w :=
  onHost_of_error (Arena.utf8Len_of_error h)

/-- A name is read whole into a buffer that has room for it. -/
theorem readUtf8_of_text (h : w.host.stringOf nameHandle = .ok name) {room : Nat}
    (hroom : Utf8.size name ≤ room) :
    (nameOnHost (HostRuntime.readUtf8 nameHandle (room + 1)) : Operation Arena _) w =
      .ok (Utf8.octets name) w :=
  onHost_of_ok (Arena.readUtf8_of_room h hroom)

theorem asName_octets (name : String) :
    (asName (Utf8.octets name) : Operation Arena String) w = .ok name w := by
  rw [asName, Utf8.decode_octets]
  rfl

theorem decodeName_of_error [Memory] {e : HostError} (h : w.host.stringOf nameHandle = .error e) :
    (decodeName nameHandle : Operation Arena String) w =
      .error (.error (.nameDecode (.host e))) w := by
  rw [decodeName, Action.bind_of_error (utf8Len_of_none h)]

theorem decodeName_empty [Memory] (h : w.host.stringOf nameHandle = .ok "") :
    (decodeName nameHandle : Operation Arena String) w =
      .error (.error (.nameDecode .emptyFunctionName)) w := by
  rw [decodeName, Action.bind_of_ok (utf8Len_of_text h)]
  rfl

/-- A name that is not empty is read if there is room for it. -/
theorem decodeName_nonempty [Memory] (h : w.host.stringOf nameHandle = .ok name)
    (hname : name ≠ "") :
    (decodeName nameHandle : Operation Arena String) w =
      (terminatedSize (Utf8.size name) >>= fun size => do
        reserve .functionName size
        asName (← nameOnHost (HostRuntime.readUtf8 nameHandle size)) :
          Operation Arena String) w := by
  have hsize : Utf8.size name ≠ 0 := fun hzero => hname (Utf8.size_eq_zero.mp hzero)
  rw [decodeName, Action.bind_of_ok (utf8Len_of_text h), if_neg hsize]

theorem terminatedSize_of_lt {length : Nat} (h : length + 1 < 2 ^ 64) :
    (terminatedSize length : Operation Arena Nat) w = .ok (length + 1) w := by
  rw [terminatedSize, Allocation.terminated?, if_pos h]
  rfl

theorem terminatedSize_of_le {length : Nat} (h : 2 ^ 64 ≤ length + 1) :
    (terminatedSize length : Operation Arena Nat) w =
      .error (.panic (some "attempt to add with overflow")) w := by
  rw [terminatedSize, Allocation.terminated?, if_neg (Nat.not_lt.mpr h)]
  rfl

theorem decodeName_of_fits [Memory] (h : w.host.stringOf nameHandle = .ok name) (hname : name ≠ "")
    (hfits : Memory.grants (Utf8.size name + 1)) :
    (decodeName nameHandle : Operation Arena String) w = .ok name w := by
  rw [decodeName_nonempty h hname,
    Action.bind_of_ok (terminatedSize_of_lt (Memory.lt_of_grants hfits)),
    Action.bind_of_ok (reserve_of_fits hfits),
    Action.bind_of_ok (readUtf8_of_text h (Nat.le_refl _)), asName_octets]

/-! ## Arguments -/

theorem toValue_frame {a b : Arena} {h : Handle} {v : Value.Canonical}
    (hv : Marshal.toValue limits h a = .ok v b) : b = a := by
  obtain ⟨_, _, _, hsame⟩ := (a.reads_importNode _ _ h 0).of_start_ok hv
  exact hsame

theorem toValue_frame_error {a b : Arena} {h : Handle} {e : Abort ConversionError}
    (hv : Marshal.toValue limits h a = .error e b) : b = a :=
  ((a.reads_importNode _ _ h 0).of_start_error hv).2

/-- Handles are converted, or there is a first one that is not. -/
theorem converts_or_first (limits : Limits) (a : Arena) (handles : List Handle) :
    (∃ values, Converts limits a handles values) ∨
      ∃ before h after values abort, handles = before ++ h :: after ∧
        Converts limits a before values ∧ Marshal.toValue limits h a = .error abort a := by
  induction handles with
  | nil => exact .inl ⟨[], .nil⟩
  | cons h rest ih =>
    cases hv : Marshal.toValue limits h a with
    | error abort b =>
      cases toValue_frame_error hv
      exact .inr ⟨[], h, rest, [], abort, rfl, .nil, hv⟩
    | ok v b =>
      cases toValue_frame hv
      rcases ih with ⟨values, hall⟩ | ⟨before, h', after, values, abort, rfl, hall, hfail⟩
      · exact .inl ⟨v :: values, .cons hv hall⟩
      · exact .inr ⟨h :: before, h', after, v :: values, abort, rfl, .cons hv hall, hfail⟩

/-- Arguments that are converted are held around all that follows. -/
theorem withValues_converts {α : Type} {a : Arena} {before : List Handle} {values : List Value}
    (h : Converts limits a before values) (body : List Value → Operation Arena α)
    (rest : List Handle) (hw : w.host = a) :
    withValues limits body (before ++ rest) w =
      Action.endIn (·.enter 0 before.length)
        (withValues limits (fun more => body (values ++ more)) rest (w.enter before.length 0)) := by
  induction h generalizing w body with
  | nil => exact (endIn_enter_zero _).symm
  | @cons handle v before values hv _ ih =>
    have hconvert : onHost .conversion (Marshal.toValue limits handle) w = .ok v w := by
      subst hw
      exact onHost_of_ok hv
    have hheld := ih (w := w.enter 1 0) (fun more => body (v :: more)) hw
    rw [List.cons_append, withValues, Action.bind_of_ok hconvert, holding]
    show borrowing .value _ (w.enter 1 0) = _
    rw [borrowing_value, hheld, endIn_enter_enter, World.enter_enter]
    simp [Nat.add_comm]

/-! ## Calls -/

/-- What is done with the engine's value. -/
def answer (limits : Limits) : Option Value → Operation Arena (Option Handle)
  | some v => some <$> borrowing .value (onHost .conversion (Marshal.toHost limits v))
  | none => return none

theorem argc_ne_zero (h : Handle) (rest : List Handle) : ¬ (CallInfo.ofList (h :: rest)).argc = 0 :=
  Nat.succ_ne_zero _

theorem invoke_cons [Memory] (h : Memory.grants ((args.length + 1) * handleWidth)) :
    invoke limits (.ofList (nameHandle :: args)) w =
      (decodeName nameHandle >>= fun name => reserve .argumentValues (args.length * valueWidth) >>=
        fun _ => withValues limits (dispatch name) args >>= answer limits) w := by
  have hcollect : (collect (.ofList (nameHandle :: args)) : Operation Arena (List Handle)) w =
      .ok (nameHandle :: args) w := collect_ofList h
  rw [invoke, if_neg (argc_ne_zero _ _), Action.bind_of_ok hcollect]
  rfl

theorem invoke_addressed [Memory] (h : Addressed w.host nameHandle args name) :
    invoke limits (.ofList (nameHandle :: args)) w =
      (withValues limits (dispatch name) args >>= answer limits) w := by
  rw [invoke_cons h.handlesFit, Action.bind_of_ok (decodeName_of_fits h.text h.nonempty h.nameFits),
    Action.bind_of_ok (reserve_of_fits h.valuesFit)]

theorem invoke_outOfMemory [Memory] {abort : Abort BridgeError}
    (h : OutOfMemory w.host nameHandle args abort) :
    invoke limits (.ofList (nameHandle :: args)) w = .error abort w := by
  cases h with
  | handles hfit =>
    have hcollect : (collect (.ofList (nameHandle :: args)) : Operation Arena (List Handle)) w =
        .error (.error (.allocation .argumentHandles)) w := by
      rw [collect]
      exact Action.bind_of_error (reserve_of_not hfit)
    rw [invoke, if_neg (argc_ne_zero _ _), Action.bind_of_error hcollect]
  | @size name hfit htext hlong =>
    have hname : name ≠ "" := by
      rintro rfl
      exact absurd hlong (by decide)
    have hdecode := decodeName_nonempty htext hname
    rw [Action.bind_of_error (terminatedSize_of_le hlong)] at hdecode
    rw [invoke_cons hfit, Action.bind_of_error hdecode]
  | name hfit htext hname hshort hroom =>
    have hdecode := decodeName_nonempty htext hname
    rw [Action.bind_of_ok (terminatedSize_of_lt hshort),
      Action.bind_of_error (reserve_of_not hroom)] at hdecode
    rw [invoke_cons hfit, Action.bind_of_error hdecode]
  | values hfit htext hname hroom hvalues =>
    rw [invoke_cons hfit, Action.bind_of_ok (decodeName_of_fits htext hname hroom),
      Action.bind_of_error (reserve_of_not hvalues)]

theorem invoke_argument [Memory] {h : Handle} {before after : List Handle} {values : List Value}
    {abort : Abort ConversionError}
    (haddressed : Addressed w.host nameHandle (before ++ h :: after) name)
    (hbefore : Converts limits w.host before values)
    (hfail : Marshal.toValue limits h w.host = .error abort w.host) :
    invoke limits (.ofList (nameHandle :: (before ++ h :: after))) w =
      .error (abort.map .conversion) (w.over w.host w.engine w.streams before.length) := by
  have hvalues := withValues_converts hbefore (dispatch name) (h :: after) rfl
  have hconvert : onHost .conversion (Marshal.toValue limits h) (w.enter before.length 0) =
      .error (abort.map .conversion) (w.enter before.length 0) := onHost_of_error hfail
  rw [withValues, Action.bind_of_error hconvert] at hvalues
  rw [invoke_addressed haddressed, Action.bind_of_error hvalues]
  simp [World.enter, Engine.enter, World.over]

/-- The values of a call that reaches the engine are held while it is dispatched. -/
theorem withValues_reaches [Memory] {values : List Value}
    (h : Reaches limits w.host nameHandle args name values) :
    withValues limits (dispatch name) args w =
      Action.endIn (·.enter args.length args.length) (dispatch name values w) := by
  have hvalues := withValues_converts h.converted (dispatch name) [] rfl
  rw [List.append_nil, withValues, List.append_nil, dispatch_enter, endIn_enter_enter, Nat.zero_add,
    Nat.add_zero] at hvalues
  exact hvalues

theorem over_of_ledger {host : Arena} {engine : Engine} {streams : Log.Streams}
    (h : engine.ledger = w.engine.ledger) (n : Nat) :
    (⟨host, engine, streams⟩ : World Arena).enter n n = w.over host engine streams n := by
  rw [World.enter, Engine.enter, World.over, h]

theorem over_of_acquired {host : Arena} {engine : Engine} {streams : Log.Streams}
    (h : engine.ledger = w.engine.ledger.acquire .value) (n : Nat) :
    ((⟨host, engine, streams⟩ : World Arena).enter n n).enter 0 1 =
      w.over host engine streams (n + 1) := by
  have hentered : engine.ledger = w.engine.ledger.enter 1 0 := h
  rw [World.enter_enter, World.enter, Engine.enter, World.over, hentered, Ledger.enter_enter]
  simp [Nat.add_comm]

section Answer

variable {host host' : Arena} {engine : Engine} {streams : Log.Streams} {v : Value}

theorem answer_of_ok {h : Handle} (hback : Marshal.toHost limits v host = .ok h host')
    (hledger : engine.ledger = w.engine.ledger.acquire .value) (n : Nat) :
    answer limits (some v) (World.enter ⟨host, engine, streams⟩ n n) =
      .ok (some h) (w.over host' engine streams (n + 1)) := by
  have hreturned : onHost .conversion (Marshal.toHost limits v)
      (World.enter ⟨host, engine, streams⟩ n n) =
        .ok h (World.enter ⟨host', engine, streams⟩ n n) :=
    onHost_of_ok hback
  refine Action.map_of_ok ?_
  rw [borrowing_value, hreturned, ← over_of_acquired hledger]
  rfl

theorem answer_of_error {abort : Abort ConversionError}
    (hback : Marshal.toHost limits v host = .error abort host')
    (hledger : engine.ledger = w.engine.ledger.acquire .value) (n : Nat) :
    answer limits (some v) (World.enter ⟨host, engine, streams⟩ n n) =
      .error (abort.map .conversion) (w.over host' engine streams (n + 1)) := by
  have hreturned : onHost .conversion (Marshal.toHost limits v)
      (World.enter ⟨host, engine, streams⟩ n n) =
        .error (abort.map .conversion) (World.enter ⟨host', engine, streams⟩ n n) :=
    onHost_of_error hback
  refine Action.map_of_error ?_
  rw [borrowing_value, hreturned, ← over_of_acquired hledger]
  rfl

end Answer

/-- A rule that applies says how the call ends. -/
theorem invoke_of_invocation [Memory]
    {r : EStateM.Result (Abort BridgeError) (World Arena) (Option Handle)}
    (h : Invocation limits w args r) : invoke limits (.ofList args) w = r := by
  cases h with
  | arity => rfl
  | outOfMemory h => exact invoke_outOfMemory h
  | noName hfit htext =>
    rw [invoke_cons hfit, Action.bind_of_error (decodeName_of_error htext)]
  | emptyName hfit htext =>
    rw [invoke_cons hfit, Action.bind_of_error (decodeName_empty htext)]
  | argument haddressed hbefore hfail => exact invoke_argument haddressed hbefore hfail
  | engineError hreaches hcall | enginePanic hreaches hcall =>
    have hvalues := withValues_reaches hreaches
    rw [dispatch_apply, hcall] at hvalues
    rw [invoke_addressed hreaches.toAddressed, Action.bind_of_error hvalues,
      ← over_of_ledger (ledger_of_callByName hcall)]
  | nothing hreaches hcall =>
    have hvalues := withValues_reaches hreaches
    rw [dispatch_apply, hcall] at hvalues
    rw [invoke_addressed hreaches.toAddressed, Action.bind_of_ok hvalues,
      ← over_of_ledger (ledger_of_callByName hcall)]
    rfl
  | value hreaches hcall hback =>
    have hvalues := withValues_reaches hreaches
    rw [dispatch_apply, hcall] at hvalues
    rw [invoke_addressed hreaches.toAddressed, Action.bind_of_ok hvalues]
    exact answer_of_ok hback (ledger_of_callByName hcall) _
  | unconvertible hreaches hcall hback =>
    have hvalues := withValues_reaches hreaches
    rw [dispatch_apply, hcall] at hvalues
    rw [invoke_addressed hreaches.toAddressed, Action.bind_of_ok hvalues]
    exact answer_of_error hback (ledger_of_callByName hcall) _

theorem invocation_addressed [Memory] (limits : Limits)
    (h : Addressed w.host nameHandle args name) :
    ∃ r, Invocation limits w (nameHandle :: args) r := by
  rcases converts_or_first limits w.host args with
    ⟨values, hall⟩ | ⟨before, h', after, values, abort, rfl, hall, hfail⟩
  · have hreaches : Reaches limits w.host nameHandle args name values := ⟨h, hall⟩
    rcases hcall : w.engine.callByName name values w.streams with ⟨outcome, engine, streams⟩
    cases outcome with
    | error e => exact ⟨_, .engineError hreaches hcall⟩
    | panic detail => exact ⟨_, .enginePanic hreaches hcall⟩
    | nothing => exact ⟨_, .nothing hreaches hcall⟩
    | value v =>
      cases hback : Marshal.toHost limits v w.host with
      | ok h' host => exact ⟨_, .value hreaches hcall hback⟩
      | error abort host => exact ⟨_, .unconvertible hreaches hcall hback⟩
  · exact ⟨_, .argument h hall hfail⟩

/-- Some rule applies to every call. -/
theorem invocation_total [Memory] (limits : Limits) (w : World Arena) (args : List Handle) :
    ∃ r, Invocation limits w args r := by
  cases args with
  | nil => exact ⟨_, .arity⟩
  | cons nameHandle args =>
    by_cases hfit : Memory.grants ((args.length + 1) * handleWidth)
    · cases htext : w.host.stringOf nameHandle with
      | error e => exact ⟨_, .noName hfit htext⟩
      | ok name =>
        by_cases hname : name = ""
        · subst hname
          exact ⟨_, .emptyName hfit htext⟩
        · by_cases hroom : Memory.grants (Utf8.size name + 1)
          · by_cases hvalues : Memory.grants (args.length * valueWidth)
            · exact invocation_addressed limits ⟨hfit, htext, hname, hroom, hvalues⟩
            · exact ⟨_, .outOfMemory (.values hfit htext hname hroom hvalues)⟩
          · by_cases hlong : Utf8.size name + 1 < 2 ^ 64
            · exact ⟨_, .outOfMemory (.name hfit htext hname hlong hroom)⟩
            · exact ⟨_, .outOfMemory (.size hfit htext (Nat.not_lt.mp hlong))⟩
    · exact ⟨_, .outOfMemory (.handles hfit)⟩

/-- **Calls end to end**: a call ends as one of the rules says. -/
theorem invoke_iff [Memory] (limits : Limits) (w : World Arena) (args : List Handle)
    (r : EStateM.Result (Abort BridgeError) (World Arena) (Option Handle)) :
    invoke limits (.ofList args) w = r ↔ Invocation limits w args r := by
  refine ⟨fun h => ?_, invoke_of_invocation⟩
  obtain ⟨r', hr'⟩ := invocation_total limits w args
  rw [← h, invoke_of_invocation hr']
  exact hr'

end Bridge

end ForeignCall
