import ForeignCall.Proofs.Loading
import ForeignCall.Proofs.Requests

/-!
# ForeignCall.Proofs.Limits

Loads under greater limits.

A limit only bounds what the host answers: what comes through under some limits
comes through under greater ones, one operation after the other (`Entails`).
The exception is the tag, which is read into a buffer for the longest tag
allowed, however short it is.  As long as there is memory for that buffer, the
tag is read all the same (`TagRead.raised`); if the buffer has no valid size, a
load breaks down before the array is looked at (`decodeTag_unsized`).

`bulkLoad_raised` — a load under greater limits.
-/

namespace ForeignCall

namespace Limits

variable {l l' : Limits}

theorem maxTagLen_mono (h : l ≤ l') : l.maxTagLen.toNat ≤ l'.maxTagLen.toNat :=
  UInt64.le_iff_toNat_le.mp h.1

theorem maxLoadPaths_mono (h : l ≤ l') : l.maxLoadPaths.toNat ≤ l'.maxLoadPaths.toNat :=
  UInt64.le_iff_toNat_le.mp h.2.1

theorem maxPathLen_mono (h : l ≤ l') : l.maxPathLen.toNat ≤ l'.maxPathLen.toNat :=
  UInt64.le_iff_toNat_le.mp h.2.2.1

end Limits

/-! ## What comes through -/

namespace Action

variable {σ ε α β : Type}

/-- What comes through as one action comes through as another, in the same way. -/
def Entails (x y : Action σ ε α) : Prop :=
  ∀ s a s', x s = .ok a s' → y s = .ok a s'

theorem Entails.refl (x : Action σ ε α) : Entails x x := fun _ _ _ => id

theorem Entails.bind {x y : Action σ ε α} {f g : α → Action σ ε β} (h : Entails x y)
    (hnext : ∀ a, Entails (f a) (g a)) : Entails (x >>= f) (y >>= g) := by
  intro s b s' hok
  obtain ⟨a, t, hx, hf⟩ := bind_eq_ok.mp hok
  exact bind_eq_ok.mpr ⟨a, t, h s a t hx, hnext a t b s' hf⟩

/-- A check that refuses less. -/
theorem Entails.unless {x y : Action σ ε α} (h : Entails x y) {c c' : Prop} [Decidable c]
    [Decidable c'] (hc : c' → c) (e e' : ε) :
    Entails (if c then fail e else x) (if c' then fail e' else y) := by
  intro s a s' hok
  obtain ⟨hnot, hx⟩ := ite_fail_eq_ok.mp hok
  exact ite_fail_eq_ok.mpr ⟨mt hc hnot, h s a s' hx⟩

theorem Entails.ite {x y x' y' : Action σ ε α} (c : Prop) [Decidable c] (h : Entails x y)
    (h' : Entails x' y') : Entails (if c then x else x') (if c then y else y') := by
  split
  · exact h
  · exact h'

end Action

namespace Bridge

open Operation
open ForeignCall.Action (Entails)

variable {σ : Type} {α : Type}

namespace Operation

theorem borrowing_eq_ok {r : Resource} {body : Operation σ α} {w w' : World σ} {a : α} :
    borrowing r body w = .ok a w' ↔ ∃ v, body w = .ok a v ∧ w' = onLedger v (·.release r) := by
  unfold borrowing
  cases body w <;> simp [and_assoc, eq_comm]

theorem entails_borrowing {x y : Operation σ α} (r : Resource) (h : Entails x y) :
    Entails (borrowing r x) (borrowing r y) := by
  intro w a w' hok
  obtain ⟨v, hx, hw'⟩ := borrowing_eq_ok.mp hok
  exact borrowing_eq_ok.mpr ⟨v, h w a v hx, hw'⟩

theorem entails_holding {x y : Operation σ α} (r : Resource) (h : Entails x y) :
    Entails (holding r x) (holding r y) :=
  fun w => entails_borrowing r h (onLedger w (·.acquire r))

end Operation

/-! ## Paths -/

section
variable [Memory] [HostRuntime σ] {limits l l' : Limits} {paths : Handle} {index : Nat} {s t t' : σ}

theorem PathRead.raised {bytes : List UInt8} (hle : l ≤ l')
    (h : PathRead l paths index s bytes t) : PathRead l' paths index s bytes t := by
  obtain ⟨item, text, len, size, s₁, s₂, s₃, hitem, hcoerce, hlen, hne, hmost, hrest⟩ := h
  exact ⟨item, text, len, size, s₁, s₂, s₃, hitem, hcoerce, hlen, hne,
    Nat.le_trans hmost (Limits.maxPathLen_mono hle), hrest⟩

theorem PathsRead.raised {natives : List (List UInt8)} (hle : l ≤ l')
    (h : PathsRead l paths index s natives t) : PathsRead l' paths index s natives t := by
  induction h with
  | nil => exact .nil
  | cons hfirst _ ih => exact .cons (hfirst.raised hle) ih

theorem PathRead.unique {bytes bytes' : List UInt8} (h : PathRead limits paths index s bytes t)
    (h' : PathRead limits paths index s bytes' t') : bytes' = bytes ∧ t' = t := by
  have hread := nativePath_eq_ok (w := ⟨s, {}, #[]⟩).mpr ⟨t, h, rfl⟩
  have hread' := nativePath_eq_ok (w := ⟨s, {}, #[]⟩).mpr ⟨t', h', rfl⟩
  cases hread.symm.trans hread'
  exact ⟨rfl, rfl⟩

theorem PathsRead.unique {natives natives' : List (List UInt8)}
    (h : PathsRead limits paths index s natives t) (h' : PathsRead limits paths index s natives' t')
    (hlength : natives'.length = natives.length) : natives' = natives := by
  induction h generalizing natives' with
  | nil => exact List.length_eq_zero_iff.mp hlength
  | cons hfirst _ ih =>
    cases h' with
    | nil => cases hlength
    | cons hfirst' hrest' =>
      obtain ⟨rfl, rfl⟩ := hfirst.unique hfirst'
      rw [ih hrest' (Nat.succ.inj hlength)]

theorem entails_nativePath (hle : l ≤ l') (paths : Handle) (index : Nat) :
    Entails (nativePath l paths index : Operation σ _) (nativePath l' paths index) := by
  intro w bytes w' hok
  obtain ⟨s, hread, hw'⟩ := nativePath_eq_ok.mp hok
  exact nativePath_eq_ok.mpr ⟨s, hread.raised hle, hw'⟩

theorem entails_withPaths (hle : l ≤ l') (paths : Handle) (index count : Nat)
    (body : List (List UInt8) → Operation σ α) :
    Entails (withPaths l paths index body count) (withPaths l' paths index body count) := by
  induction count generalizing index body with
  | zero => exact Entails.refl (body [])
  | succ count ih =>
    unfold withPaths
    exact (entails_nativePath hle paths index).bind fun bytes =>
      entails_holding .nativeString (ih (index + 1) fun natives => body (bytes :: natives))

/-- What comes through with paths has read them. -/
theorem pathsRead_of_withPaths {count : Nat} {body : List (List UInt8) → Operation σ α}
    {w w' : World σ} {a : α} (h : withPaths limits paths index body count w = .ok a w') :
    ∃ natives s, natives.length = count ∧ PathsRead limits paths index w.host natives s := by
  induction count generalizing index body w w' with
  | zero => exact ⟨[], w.host, rfl, .nil⟩
  | succ count ih =>
    unfold withPaths at h
    obtain ⟨bytes, _, hfirst, hrest⟩ := Action.bind_eq_ok.mp h
    obtain ⟨s, hread, rfl⟩ := nativePath_eq_ok.mp hfirst
    obtain ⟨v, hrest, -⟩ := borrowing_eq_ok.mp hrest
    obtain ⟨natives, t, hlength, hreads⟩ := ih hrest
    exact ⟨bytes :: natives, t, congrArg (· + 1) hlength, .cons hread hreads⟩

end

/-! ## Tags -/

variable {l l' : Limits} {a b : Arena} {w w' : World Arena} {tag paths : Handle} {name : String}

/-- In an arena a tag is read if it is one, and if the buffer for the longest one has a valid
size. -/
theorem tagRead_iff : TagRead l a tag name b ↔
    Tagged l a tag name ∧ l.maxTagLen.toNat < Allocation.maxSize ∧ b = a := by
  constructor
  · rintro ⟨len, size, bytes, s, hlen, hne, hmost, hsize, hvalid, hread, hdecode⟩
    obtain ⟨hword, rfl⟩ : l.maxTagLen.toNat + 1 < 2 ^ 64 ∧ l.maxTagLen.toNat + 1 = size := by
      simpa [Allocation.terminated?] using hsize
    obtain ⟨text, htext, rfl, rfl⟩ := Arena.stringOf_of_utf8Len hlen
    rw [Arena.readUtf8_of_room htext hmost] at hread
    cases hread
    rw [Utf8.decode_octets] at hdecode
    cases hdecode
    exact ⟨⟨htext, fun hempty => hne (Utf8.size_eq_zero.mpr hempty), hmost⟩, hvalid, rfl⟩
  · rintro ⟨htag, hvalid, rfl⟩
    have hword : l.maxTagLen.toNat + 1 < 2 ^ 64 := by
      rw [Allocation.maxSize] at hvalid
      omega
    exact ⟨_, _, _, b, Arena.utf8Len_of_ok htag.text, size_ne_zero htag.nonempty, htag.short,
      if_pos hword, hvalid, Arena.readUtf8_of_room htag.text htag.short, Utf8.decode_octets name⟩

theorem Tagged.raised (hle : l ≤ l') (h : Tagged l a tag name) : Tagged l' a tag name :=
  ⟨h.text, h.nonempty, Nat.le_trans h.short (Limits.maxTagLen_mono hle)⟩

theorem TagRead.raised [Memory] (hle : l ≤ l')
    (hroom : Memory.grants (l'.maxTagLen.toNat + 1)) (h : TagRead l a tag name b) :
    TagRead l' a tag name b := by
  obtain ⟨htag, -, hb⟩ := tagRead_iff.mp h
  exact tagRead_iff.mpr ⟨htag.raised hle, Memory.le_maxSize_of_grants hroom, hb⟩

theorem entails_decodeTag [Memory] (hle : l ≤ l')
    (hroom : Memory.grants (l'.maxTagLen.toNat + 1)) (tag : Handle) :
    Entails (decodeTag l tag : Operation Arena String) (decodeTag l' tag) := by
  intro w name w' hok
  obtain ⟨s, hread, hw'⟩ := decodeTag_eq_ok.mp hok
  exact decodeTag_eq_ok.mpr ⟨s, hread.raised hle hroom, hw'⟩

/-! ## Loads -/

theorem entails_bulkLoad [Memory] (hle : l ≤ l')
    (hroom : Memory.grants (l'.maxTagLen.toNat + 1)) (tag paths : Handle) :
    Entails (bulkLoad l tag paths : Operation Arena Unit) (bulkLoad l' tag paths) := by
  unfold bulkLoad
  refine (entails_decodeTag hle hroom tag).bind fun name => (Entails.refl _).bind fun len => ?_
  refine Entails.unless (.ite _ (.refl _) ?_)
    (Nat.lt_of_le_of_lt (Limits.maxLoadPaths_mono hle)) _ _
  refine (Entails.refl _).bind fun _ => ?_
  exact (entails_withPaths hle paths 0 len _).bind fun status => .refl _

theorem Forwarded.raised [Memory] {natives : List (List UInt8)} (hle : l ≤ l')
    (hroom : Memory.grants (l'.maxTagLen.toNat + 1))
    (h : Forwarded l a tag paths name natives) : Forwarded l' a tag paths name natives := by
  obtain ⟨s₁, htag, s₂, hlen, hmost, hne, hfits, s₃, hread⟩ := h
  exact ⟨s₁, htag.raised hle hroom, s₂, hlen, Nat.le_trans hmost (Limits.maxLoadPaths_mono hle),
    hne, hfits,
    s₃, hread.raised hle⟩

/-- One thing is forwarded at most. -/
theorem Forwarded.unique [Memory] {name' : String} {natives natives' : List (List UInt8)}
    (h : Forwarded l a tag paths name natives) (h' : Forwarded l a tag paths name' natives') :
    name' = name ∧ natives' = natives := by
  obtain ⟨s₁, htag, s₂, hlen, -, -, -, _, hread⟩ := h
  obtain ⟨s₁', htag', s₂', hlen', -, -, -, _, hread'⟩ := h'
  obtain ⟨htagged, -, rfl⟩ := tagRead_iff.mp htag
  obtain ⟨htagged', -, rfl⟩ := tagRead_iff.mp htag'
  cases htagged.text.symm.trans htagged'.text
  have hsame := hlen.symm.trans hlen'
  simp only [EStateM.Result.ok.injEq] at hsame
  obtain ⟨hlength, rfl⟩ := hsame
  exact ⟨rfl, hread.unique hread' hlength.symm⟩

/-- A load that comes through has forwarded something, or the array is empty. -/
theorem forwarded_or_empty [Memory] (h : bulkLoad l tag paths w = .ok () w') :
    (∃ name natives, Forwarded l w.host tag paths name natives) ∨
      ∃ s, HostRuntime.arrayLen paths w.host = .ok 0 s := by
  unfold bulkLoad at h
  obtain ⟨name, _, hdecode, h⟩ := Action.bind_eq_ok.mp h
  obtain ⟨s₁, htag, rfl⟩ := decodeTag_eq_ok.mp hdecode
  obtain ⟨len, _, harray, h⟩ := Action.bind_eq_ok.mp h
  obtain ⟨s₂, hlen, rfl⟩ := onHost_eq_ok.mp harray
  obtain ⟨hmost, h⟩ := Action.ite_fail_eq_ok.mp h
  by_cases hzero : len = 0
  · subst hzero
    obtain ⟨-, -, rfl⟩ := tagRead_iff.mp htag
    exact .inr ⟨s₂, hlen⟩
  · rw [if_neg hzero] at h
    obtain ⟨_, _, hreserve, h⟩ := Action.bind_eq_ok.mp h
    obtain ⟨hfits, rfl⟩ := reserve_eq_ok.mp hreserve
    obtain ⟨status, _, hpaths, -⟩ := Action.bind_eq_ok.mp h
    obtain ⟨natives, s₃, rfl, hread⟩ := pathsRead_of_withPaths hpaths
    exact .inl ⟨name, natives, s₁, htag, s₂, hlen, Nat.not_lt.mp hmost,
      fun hnil => hzero (congrArg List.length hnil), hfits, s₃, hread⟩

/-- Of a load that comes through, greater limits forward what was forwarded, and nothing else. -/
theorem forwarded_raised_iff [Memory] (hle : l ≤ l')
    (hroom : Memory.grants (l'.maxTagLen.toNat + 1))
    (h : bulkLoad l tag paths w = .ok () w') (name : String) (natives : List (List UInt8)) :
    Forwarded l' w.host tag paths name natives ↔ Forwarded l w.host tag paths name natives := by
  refine ⟨fun hraised => ?_, .raised hle hroom⟩
  obtain ⟨name₀, natives₀, hbefore⟩ | ⟨s, hempty⟩ := forwarded_or_empty h
  · obtain ⟨rfl, rfl⟩ := (hbefore.raised hle hroom).unique hraised
    exact hbefore
  · obtain ⟨s₁, htag, s₂, hlen, -, hne, -⟩ := hraised
    obtain ⟨-, -, rfl⟩ := tagRead_iff.mp htag
    have hsame := hempty.symm.trans hlen
    simp only [EStateM.Result.ok.injEq] at hsame
    exact absurd (List.length_eq_zero_iff.mp hsame.1.symm) hne

/-- A load that comes through has a tag. -/
theorem tagged_of_bulkLoad [Memory] (h : bulkLoad l tag paths w = .ok () w') :
    ∃ name, Tagged l w.host tag name := by
  unfold bulkLoad at h
  obtain ⟨name, _, hdecode, -⟩ := Action.bind_eq_ok.mp h
  obtain ⟨s, hread, -⟩ := decodeTag_eq_ok.mp hdecode
  exact ⟨name, (tagRead_iff.mp hread).1⟩

/-- **Loads under greater limits.**  If there is memory for the longest tag allowed now, a load that
came through comes through again: the engine is asked for the same, and the host, the engine and the
streams become the same.  If no buffer can be as long as that, the load breaks down, and everything
is as it was.  A length between the two is a valid size that memory does not grant; of it
nothing is said. -/
theorem bulkLoad_raised [Memory] (hle : l ≤ l') (hok : bulkLoad l tag paths w = .ok () w') :
    (Memory.grants (l'.maxTagLen.toNat + 1) →
      bulkLoad l' tag paths w = .ok () w' ∧ ∀ name natives,
        Forwarded l' w.host tag paths name natives ↔ Forwarded l w.host tag paths name natives) ∧
    (Allocation.maxSize ≤ l'.maxTagLen.toNat →
      bulkLoad l' tag paths w = .error (.panic (some l'.tagBreakdown)) w) := by
  refine ⟨fun hroom => ⟨entails_bulkLoad hle hroom tag paths _ _ _ hok,
    forwarded_raised_iff hle hroom hok⟩,
    fun hsize => ?_⟩
  obtain ⟨name, htag⟩ := tagged_of_bulkLoad hok
  exact Action.bind_of_error (decodeTag_unsized hsize (htag.raised hle))

/-- A tag and an array of one path. -/
def World.onePath : World Arena :=
  ⟨{ slots := #[.string "py", .string "a.py", .array [⟨1⟩]] }, {}, default⟩

/-- The world when the path has been loaded. -/
def World.onePathLoaded : World Arena :=
  World.onePath.spent World.onePath.host { loads := [⟨"py", ["a.py"]⟩] } default 1

theorem bulkLoad_onePath : bulkLoad {} ⟨0⟩ ⟨2⟩ World.onePath = .ok () World.onePathLoaded := by
  have hprepared : Prepared {} World.onePath.host ⟨0⟩ ⟨2⟩ "py" [⟨1⟩] :=
    ⟨⟨⟨rfl, by decide, by decide⟩, rfl, by decide⟩, by decide, by decide⟩
  have hpath : Takes {} World.onePath.host ⟨1⟩ "a.py" World.onePath.host :=
    ⟨rfl, by decide, by decide, by decide, by decide⟩
  refine bulkLoad_of_loading (by decide) ?_
    (.loaded hprepared (.cons hpath .nil) rfl rfl)
  rintro items ⟨⟩
  decide

theorem bulkLoad_raised_onePath :
    let l : Limits := { maxTagLen := 64, maxLoadPaths := 1024 }
    ({} : Limits) ≤ l ∧ bulkLoad {} ⟨0⟩ ⟨2⟩ World.onePath = .ok () World.onePathLoaded ∧
      Memory.grants (l.maxTagLen.toNat + 1) ∧
      bulkLoad l ⟨0⟩ ⟨2⟩ World.onePath = .ok () World.onePathLoaded := by
  intro l
  have hle : ({} : Limits) ≤ l := ⟨by decide, by decide, by decide, by decide⟩
  have hroom : Memory.grants (l.maxTagLen.toNat + 1) := by decide
  exact ⟨hle, bulkLoad_onePath, hroom, ((bulkLoad_raised hle bulkLoad_onePath).1 hroom).1⟩

/-- The load of two octets of tag comes through by default, and no more if the longest tag allowed
is as long as a number can say. -/
theorem bulkLoad_unsized :
    let l : Limits := { maxTagLen := 18446744073709551615 }
    ({} : Limits) ≤ l ∧ bulkLoad {} ⟨0⟩ ⟨2⟩ World.onePath = .ok () World.onePathLoaded ∧
      bulkLoad l ⟨0⟩ ⟨2⟩ World.onePath =
        .error (.panic (some "attempt to add with overflow")) World.onePath := by
  intro l
  have htag : Tagged l World.onePath.host ⟨0⟩ "py" := ⟨rfl, by decide, by decide⟩
  have hbreakdown : l.tagBreakdown = "attempt to add with overflow" := if_neg (by decide)
  refine ⟨⟨by decide, by decide, by decide, by decide⟩, bulkLoad_onePath, ?_⟩
  rw [← hbreakdown]
  exact Action.bind_of_error (decodeTag_unsized (by decide) htag)

end Bridge

end ForeignCall
