import Mathlib.Algebra.BigOperators.Group.List.Basic
import Mathlib.Algebra.Ring.Nat
import Mathlib.Data.List.TakeWhile
import ForeignCall.CommandLine.Request
import ForeignCall.Text.Utf8

/-!
# ForeignCall.Proofs.Words

What becomes of the words of a command line.

A text is split around its first equals sign, however many there are
(`splitEquals_append`).  Any list of texts can be given as preloads
(`ofWords?_preloads`), and the preloads of a request stand in its words, each
with some octets around it; so they are together shorter than these
(`weight_le_octets`).
-/

namespace ForeignCall

namespace CommandLine

/-! ## Around an equals sign -/

/-- A text is split around its first equals sign. -/
theorem splitEquals_append {name : List Char} (h : '=' ∉ name) (value : List Char) :
    splitEquals (name ++ '=' :: value) = (String.ofList name, some (String.ofList value)) := by
  have hname : ∀ c ∈ name, decide (c ≠ '=') = true :=
    fun c hc => decide_eq_true fun heq => h (heq ▸ hc)
  rw [splitEquals, List.takeWhile_append_of_pos hname, List.dropWhile_append_of_pos hname]
  simp

theorem splitEquals_of_not_mem {text : List Char} (h : '=' ∉ text) :
    splitEquals text = (String.ofList text, none) := by
  have htext : ∀ c ∈ text, decide (c ≠ '=') = true :=
    fun c hc => decide_eq_true fun heq => h (heq ▸ hc)
  rw [splitEquals, List.takeWhile_eq_self_iff.mpr htext, List.dropWhile_eq_nil_iff.mpr htext]

/-- What is split has an equals sign between its parts, and none before. -/
theorem splitEquals_eq_some {text : List Char} {name value : String} :
    splitEquals text = (name, some value) ↔
      text = name.toList ++ '=' :: value.toList ∧ '=' ∉ name.toList := by
  constructor
  · intro h
    by_cases hmem : '=' ∈ text
    · obtain ⟨before, after, rfl, hnot⟩ := List.eq_append_cons_of_mem hmem
      rw [splitEquals_append hnot] at h
      cases h
      simpa using hnot
    · rw [splitEquals_of_not_mem hmem] at h
      cases h
  · rintro ⟨rfl, hnot⟩
    rw [splitEquals_append hnot, String.ofList_toList, String.ofList_toList]

/-! ## Lengths -/

/-- The octets that the words of a command line take, each with a terminator. -/
def octets (words : List String) : Nat :=
  (words.map fun word => Utf8.size word + 1).sum

/-- The octets of preloads, each with those of the least that can stand around it. -/
def weight (preloads : List String) : Nat :=
  (preloads.map fun text => Utf8.size text + 3).sum

theorem octets_cons (word : String) (rest : List String) :
    octets (word :: rest) = Utf8.size word + 1 + octets rest := by
  rw [octets, List.map_cons, List.sum_cons, octets]

theorem weight_cons (text : String) (rest : List String) :
    weight (text :: rest) = Utf8.size text + 3 + weight rest := by
  rw [weight, List.map_cons, List.sum_cons, weight]

theorem weight_append (preloads more : List String) :
    weight (preloads ++ more) = weight preloads + weight more := by
  rw [weight, List.map_append, List.sum_append, weight, weight]

/-- An option has two dashes, and a value that is attached to it is shorter by these. -/
theorem size_of_option {word name : String} {attached : Option String}
    (h : Word.ofString word = .option name attached) :
    2 ≤ Utf8.size word ∧ ∀ value, attached = some value → Utf8.size value + 2 ≤ Utf8.size word := by
  unfold Word.ofString at h
  split at h
  · cases h
  · next text _ hword =>
    obtain ⟨hname, hattached⟩ := Word.option.inj h
    have hdash : String.utf8EncodeChar '-' = [45] := by decide
    have hsize : Utf8.size word = 2 + (text.flatMap String.utf8EncodeChar).length := by
      rw [Utf8.size, Utf8.octets, hword, List.flatMap_cons, List.flatMap_cons, hdash,
        List.length_append, List.length_append, List.length_singleton]
      omega
    refine ⟨by omega, fun value hvalue => ?_⟩
    have hsplit : splitEquals text = (name, some value) :=
      Prod.ext hname (hattached.trans hvalue)
    obtain ⟨rfl, -⟩ := splitEquals_eq_some.mp hsplit
    rw [hsize, List.flatMap_append, List.flatMap_cons, List.length_append, List.length_append,
      Utf8.size, Utf8.octets]
    omega
  · cases h
  · cases h

/-- What is lacking has been announced by an option. -/
def credit : Option Valued → Nat
  | some _ => 2
  | none => 0

theorem weight_give {options given : Options} {value : String} {option : Valued}
    (h : options.give value option = some given) :
    weight given.preloads ≤ weight options.preloads + Utf8.size value + 3 := by
  cases option with
  | config =>
    unfold Options.give at h
    dsimp only at h
    split at h
    · cases h
    · cases h
      dsimp only
      omega
  | preload =>
    cases h
    rw [weight_append]
    simp [weight, Nat.add_assoc]

theorem weight_valued {options begun : Options} {option : Valued} {attached : Option String}
    {pending : Option Valued} {room : Nat} (h : (match attached with
      | some value => (options.give value option).map fun options => (options, none)
      | none => some (options, some option)) = some (begun, pending)) (hroom : 2 ≤ room)
    (hvalue : ∀ value, attached = some value → Utf8.size value + 2 ≤ room) :
    weight begun.preloads + credit pending ≤ weight options.preloads + room + 1 := by
  cases attached with
  | none =>
    cases h
    simp only [credit]
    omega
  | some value =>
    obtain ⟨given, hgiven, heq⟩ := Option.map_eq_some_iff.mp h
    cases heq
    have hgive := weight_give hgiven
    have hshort := hvalue value rfl
    simp only [credit]
    omega

theorem weight_begin {options begun : Options} {word name : String} {attached : Option String}
    {pending : Option Valued} (hword : Word.ofString word = .option name attached)
    (h : options.begin name attached = some (begun, pending)) :
    weight begun.preloads + credit pending ≤ weight options.preloads + Utf8.size word + 1 := by
  obtain ⟨hsize, hvalue⟩ := size_of_option hword
  unfold Options.begin at h
  dsimp only at h
  split at h
  · exact weight_valued h hsize hvalue
  · exact weight_valued h hsize hvalue
  · split at h
    · cases h
    · cases h
      simp only [credit]
      omega
  · cases h

/-- The options before a command are in the words before it. -/
theorem weight_leading {options before : Options} {pending : Option Valued}
    {words rest : List String} (h : leading options pending words = some (before, rest)) :
    weight before.preloads + octets rest ≤
      weight options.preloads + credit pending + octets words := by
  induction words generalizing options pending with
  | nil => cases pending <;> cases h
  | cons word more ih =>
    rw [octets_cons]
    cases pending with
    | some option =>
      rw [leading] at h
      split at h
      · obtain ⟨given, hgiven, hrest⟩ := Option.bind_eq_some_iff.mp h
        have hgive := weight_give hgiven
        have hmore := ih hrest
        simp only [credit] at hmore ⊢
        omega
      · cases h
    | none =>
      rw [leading] at h
      split at h
      · cases h
        rw [octets_cons]
        omega
      · next name attached hword =>
        obtain ⟨⟨begun, pending⟩, hbegun, hrest⟩ := Option.bind_eq_some_iff.mp h
        have hbegin := weight_begin hword hbegun
        have hmore := ih hrest
        simp only [credit] at hmore hbegin ⊢
        omega
      · cases h

/-- The options behind a command are in the words behind it. -/
theorem weight_scattered {options after : Options} {pending : Option Valued}
    {words operands : List String} (h : scattered options pending words = some (after, operands)) :
    weight after.preloads ≤ weight options.preloads + credit pending + octets words := by
  induction words generalizing options pending operands with
  | nil =>
    cases pending with
    | none =>
      cases h
      omega
    | some option => cases h
  | cons word more ih =>
    rw [octets_cons]
    cases pending with
    | some option =>
      rw [scattered] at h
      split at h
      · obtain ⟨given, hgiven, hrest⟩ := Option.bind_eq_some_iff.mp h
        have hgive := weight_give hgiven
        have hmore := ih hrest
        simp only [credit] at hmore ⊢
        omega
      · cases h
    | none =>
      rw [scattered] at h
      split at h
      · obtain ⟨read, hread, heq⟩ := Option.map_eq_some_iff.mp h
        cases heq
        have hmore := ih hread
        omega
      · cases h
        omega
      · next name attached hword =>
        obtain ⟨⟨begun, pending⟩, hbegun, hrest⟩ := Option.bind_eq_some_iff.mp h
        have hbegin := weight_begin hword hbegun
        have hmore := ih hrest
        simp only [credit] at hmore hbegin ⊢
        omega
      · cases h

/-- **Preloads stand in the words**: they and what is around them take no more octets. -/
theorem weight_le_octets {words : List String} {request : Request}
    (h : Request.ofWords? words = some request) :
    weight request.options.preloads ≤ octets words := by
  unfold Request.ofWords? at h
  obtain ⟨⟨before, rest⟩, hleading, hrest⟩ := Option.bind_eq_some_iff.mp h
  have hbefore := weight_leading hleading
  cases rest with
  | nil => cases hrest
  | cons name rest =>
    obtain ⟨⟨after, operands⟩, hscattered, hcommand⟩ := Option.bind_eq_some_iff.mp hrest
    obtain ⟨command, -, heq⟩ := Option.bind_eq_some_iff.mp hcommand
    cases heq
    have hafter := weight_scattered hscattered
    rw [octets_cons] at hbefore
    simp only [weight, credit, List.map_nil, List.sum_nil] at hbefore hafter
    simp only [Options.over]
    split <;> simp only [weight] <;> omega

/-! ## Giving preloads -/

theorem ofString_preload (text : String) :
    Word.ofString ("--preload=" ++ text) = .option "preload" (some text) := by
  have hword : ("--preload=" ++ text).toList =
      '-' :: '-' :: ("preload".toList ++ '=' :: text.toList) := by
    rw [String.toList_append]
    rfl
  have hsplit := splitEquals_append (by decide : '=' ∉ "preload".toList) text.toList
  rw [String.ofList_toList, String.ofList_toList] at hsplit
  unfold Word.ofString
  rw [hword]
  show Word.option _ _ = _
  rw [hsplit]

theorem leading_preloads (options : Options) (preloads : List String) (rest : List String) :
    leading options none (preloads.map ("--preload=" ++ ·) ++ rest) =
      leading { options with preloads := options.preloads ++ preloads } none rest := by
  induction preloads generalizing options with
  | nil => simp
  | cons text more ih =>
    rw [List.map_cons, List.cons_append, leading, ofString_preload]
    simp [Options.begin, Options.give, ih]

/-- **Every list of texts** can be given as preloads. -/
theorem ofWords?_preloads (preloads : List String) :
    Request.ofWords? (preloads.map ("--preload=" ++ ·) ++ ["inspect"]) =
      some ⟨{ preloads }, .inspect⟩ := by
  have hleading : leading {} none (preloads.map ("--preload=" ++ ·) ++ ["inspect"]) =
      some ({ preloads }, ["inspect"]) := by
    rw [leading_preloads]
    rfl
  unfold Request.ofWords?
  rw [hleading]
  rfl

end CommandLine

end ForeignCall
