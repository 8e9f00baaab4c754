import Mathlib.Data.List.TakeWhile
import ForeignCall.Proofs.Atomicity
import ForeignCall.Proofs.Decoding
import ForeignCall.Proofs.Export
import ForeignCall.Proofs.Loading

/-!
# ForeignCall.Proofs.Inspection

What the host is told of any description that an engine can give.

A buffer says what stands before its first NUL, or all that stands in it
(`Says`), and nothing behind that NUL matters.  The host gets that as a new
string if it is a text.  Otherwise it gets nothing but the refusal, which says
where the text breaks off (`Told`).

`inspect_exact` — so it is for every engine and every host.
-/

namespace ForeignCall

namespace Bridge

open Operation

/-- The world when the engine has been inspected: the host, and an allocator and perhaps a buffer
acquired and released. -/
def World.inspected (w : World Arena) (host : Arena) (buffers : Nat) : World Arena :=
  onLedger { w with host } fun ledger => (ledger.book .allocator 1 1).book .buffer buffers buffers

/-- What a buffer says: what stands before its first NUL, or all that stands in it. -/
def Says (buffer front : List UInt8) : Prop :=
  buffer ≠ [] ∧ 0 ∉ front ∧ (buffer = front ∨ ∃ rest, buffer = front ++ 0 :: rest)

theorem exists_front {buffer : List UInt8} (h : buffer ≠ []) : ∃ front, Says buffer front := by
  by_cases hnul : 0 ∈ buffer
  · obtain ⟨front, rest, rfl, hfront⟩ := List.eq_append_cons_of_mem hnul
    exact ⟨front, h, hfront, .inr ⟨rest, rfl⟩⟩
  · exact ⟨buffer, h, hnul, .inl rfl⟩

theorem Says.takeWhile {buffer front : List UInt8} (h : Says buffer front) :
    buffer.takeWhile (· ≠ 0) = front := by
  obtain ⟨-, hnul, hbuffer⟩ := h
  have hall : ∀ octet ∈ front, decide (octet ≠ 0) = true := by
    intro octet hoctet
    exact decide_eq_true fun hzero => hnul (hzero ▸ hoctet)
  rcases hbuffer with rfl | ⟨rest, rfl⟩
  · exact List.takeWhile_eq_self_iff.mpr (by simpa using hall)
  · rw [List.takeWhile_append_of_pos hall]
    simp

variable {w : World Arena} {buffer front : List UInt8}

/-- What a buffer says is read, and becomes a string if it is a text. -/
theorem describe_of_front (h : Says buffer front) (w : World Arena) :
    describe buffer w =
      match Utf8.decode front with
      | .ok text =>
        .ok (Arena.handleAt w.host.slots.size) { w with host := w.host.addAll [.string text] }
      | .error fault => .error (.error (.conversion (.invalidUtf8 fault))) w := by
  have hsome : buffer.isEmpty = false := by simpa using h.1
  unfold describe
  rw [hsome, h.takeWhile]
  cases hdecoded : Utf8.decode front with
  | ok text =>
    have hcreated : (onHost .host (HostRuntime.create (.string text)) : Operation Arena Handle) w =
        .ok (Arena.handleAt w.host.slots.size) { w with host := w.host.addAll [.string text] } :=
      onHost_eq_ok.mpr ⟨_, Arena.create_apply _ _, rfl⟩
    exact (Action.bind_of_ok rfl).trans hcreated
  | error fault => exact Action.bind_of_error rfl

/-- Whoever asks for the description gets it, and nothing else happens. -/
theorem ask_selfDescribe [Memory] (w : World Arena) :
    (onEngine fun engine streams => (engine.selfDescribe, engine, streams) :
      Operation Arena (Option (List UInt8))) w = .ok w.engine.selfDescribe w :=
  onEngine_apply _ w

theorem inspect_of_none [Memory] (h : w.engine.selfDescribe = none) :
    inspect w = .error (.error (.callFailure .noDescription)) (w.inspected w.host 0) := by
  have hheld : (onLedger w (·.acquire .allocator)).engine.selfDescribe = none := h
  unfold inspect
  rw [holding_apply, Action.bind_of_ok (ask_selfDescribe _), hheld]
  rfl

theorem inspect_of_some [Memory] (h : w.engine.selfDescribe = some buffer) :
    inspect w =
      Action.endIn (onLedger · (·.release .allocator))
        (Action.endIn (onLedger · (·.release .buffer))
          (describe buffer
            (onLedger (onLedger w (·.acquire .allocator)) (·.acquire .buffer)))) := by
  have hheld : (onLedger w (·.acquire .allocator)).engine.selfDescribe = some buffer := h
  unfold inspect
  rw [holding_apply, Action.bind_of_ok (ask_selfDescribe _), hheld]
  dsimp only
  rw [holding_apply]

theorem inspect_of_empty [Memory] (h : w.engine.selfDescribe = some []) :
    inspect w = .error (.error (.callFailure .noDescription)) (w.inspected w.host 1) :=
  inspect_of_some h

/-- What the buffer says is read, and becomes a string if it is a text. -/
theorem inspect_of_front [Memory] (h : w.engine.selfDescribe = some buffer)
    (hfront : Says buffer front) :
    inspect w =
      match Utf8.decode front with
      | .ok text =>
        .ok (Arena.handleAt w.host.slots.size) (w.inspected (w.host.addAll [.string text]) 1)
      | .error fault =>
        .error (.error (.conversion (.invalidUtf8 fault))) (w.inspected w.host 1) := by
  rw [inspect_of_some h, describe_of_front hfront]
  cases Utf8.decode front with
  | ok text => rfl
  | error fault => rfl

/-! ## What the host is told -/

/-- What the host is told of a description. -/
inductive Told (w : World Arena) (front : List UInt8) :
    EStateM.Result (Abort BridgeError) (World Arena) Handle → Prop where
  /-- It is a text, which becomes a string behind all other values. -/
  | text {text : String} : Utf8.octets text = front →
      Told w front
        (.ok (Arena.handleAt w.host.slots.size) (w.inspected (w.host.addAll [.string text]) 1))
  /-- It is none, and breaks off behind its longest beginning that is one. -/
  | fault {fault : Utf8.Malformed} : ¬ Utf8.WellFormed front →
      IsGreatest {n | n ≤ front.length ∧ Utf8.WellFormed (front.take n)} fault.validUpTo →
      Told w front (.error (.error (.conversion (.invalidUtf8 fault))) (w.inspected w.host 1))

/-- An engine that gives this buffer for its description. -/
def World.giving (w : World Arena) (buffer : List UInt8) : World Arena :=
  { w with engine := { w.engine with description := .fixed buffer } }

theorem told_inspect [Memory] (h : w.engine.selfDescribe = some buffer)
    (hfront : Says buffer front) : Told w front (inspect w) := by
  rw [inspect_of_front h hfront]
  by_cases hwell : Utf8.WellFormed front
  · obtain ⟨text, rfl⟩ := hwell
    rw [Utf8.decode_octets]
    exact .text rfl
  · obtain ⟨fault, hdecoded, hgreatest⟩ := Utf8.decode_of_not_wellFormed hwell
    rw [hdecoded]
    exact .fault hwell hgreatest

/-- **Descriptions of any kind**: without a description, or with an empty one, the host is told that
there is none.  Of any other it is told what stands before the first NUL, as one more string, or
where that stops being a text.  Behind the first NUL there may be anything, and it makes no
difference. -/
theorem inspect_exact [Memory] (w : World Arena) :
    (w.engine.selfDescribe = none →
      inspect w = .error (.error (.callFailure .noDescription)) (w.inspected w.host 0)) ∧
    (w.engine.selfDescribe = some [] →
      inspect w = .error (.error (.callFailure .noDescription)) (w.inspected w.host 1)) ∧
    (∀ buffer, w.engine.selfDescribe = some buffer → buffer ≠ [] →
      ∃ front, Says buffer front ∧ Told w front (inspect w) ∧
        ∀ buffer', Says buffer' front →
          inspect (w.giving buffer') = Action.endIn (·.giving buffer') (inspect w)) ∧
    ∀ text, w.host.slots.size < 2 ^ 32 →
      (w.host.addAll [.string text]).get (Arena.handleAt w.host.slots.size) =
        .ok (.string text) := by
  refine ⟨inspect_of_none, inspect_of_empty, fun buffer h hne => ?_, fun text hsize => ?_⟩
  · obtain ⟨front, hfront⟩ := exists_front hne
    refine ⟨front, hfront, told_inspect h hfront, fun buffer' hfront' => ?_⟩
    have hgiven : (w.giving buffer').engine.selfDescribe = some buffer' := rfl
    rw [inspect_of_front hgiven hfront', inspect_of_front h hfront]
    cases Utf8.decode front with
    | ok text => rfl
    | error fault => rfl
  · exact Arena.get_addAll_new (i := 0) rfl (by rw [Arena.size_addAll]; exact hsize)

/-- A surrogate breaks a text off before its own three octets, and what is behind the NUL is not
looked at. -/
example : Utf8.decode ([0x61, 0xED, 0xA0, 0x80, 0x00, 0xFF].takeWhile (· ≠ 0)) =
    .error ⟨1, some 1⟩ := by
  rfl

end Bridge

end ForeignCall
