import ForeignCall.Proofs.Atomicity
import ForeignCall.Proofs.Export
import ForeignCall.Proofs.Inspection
import ForeignCall.Proofs.JsonText
import ForeignCall.Proofs.Loading

/-!
# ForeignCall.Proofs.Description

An engine describes itself without loss.

The description passes through JSON text, a buffer with a terminator, a search
for the first NUL and a check for UTF-8.  Nothing is lost on the way: the text
has no NUL in it, whatever the names, tags and paths are, because the printer
escapes it in strings (`Json.Spells.not_mem`); and the text is read as what was
written.

What has to be described is known from outside: which functions have been
registered, and which loads came through (`Site.Reachable`).  The engine keeps
the account of both (`Engine.Describes`), over any calls in any order.

`Reachable.inspect_lossless` — the description of every reachable engine, as
the host gets it, is read as exactly these.
-/

namespace ForeignCall

open Bridge Operation

/-! ## Strings of the host -/

namespace Arena

variable {a b c : Arena} {h : Handle}

/-- What is read from a string into a buffer for all of it is all of it. -/
theorem octets_of_readUtf8 {len size : Nat} {bytes : List UInt8}
    (hlen : HostRuntime.utf8Len h a = .ok len b) (hsize : Allocation.terminated? len = some size)
    (hread : HostRuntime.readUtf8 h size b = .ok bytes c) : ∃ text, bytes = Utf8.octets text := by
  obtain ⟨text, ht, rfl, rfl⟩ := stringOf_of_utf8Len hlen
  have hroom : size = Utf8.size text + 1 := by
    unfold Allocation.terminated? at hsize
    split at hsize
    · exact (Option.some.inj hsize).symm
    · cases hsize
  have hall := readUtf8_of_room ht (Nat.le_refl (Utf8.size text))
  rw [hroom, hall] at hread
  cases hread
  exact ⟨text, rfl⟩

end Arena

/-- Paths that are read are texts. -/
theorem Bridge.PathsRead.texts [Memory] {limits : Limits} {paths : Handle} {index : Nat}
    {a b : Arena} {natives : List (List UInt8)} (h : PathsRead limits paths index a natives b) :
    ∃ texts : List String, natives = texts.map Utf8.octets := by
  induction h with
  | nil => exact ⟨[], rfl⟩
  | cons hfirst _ ih =>
    obtain ⟨_, _, _, _, _, _, _, -, -, hlen, -, -, hsize, -, hread, -⟩ := hfirst
    obtain ⟨text, rfl⟩ := Arena.octets_of_readUtf8 hlen hsize hread
    obtain ⟨texts, rfl⟩ := ih
    exact ⟨text :: texts, rfl⟩

theorem Bridge.Forwarded.texts [Memory] {limits : Limits} {tag paths : Handle} {a : Arena}
    {name : String} {natives : List (List UInt8)} (h : Forwarded limits a tag paths name natives) :
    ∃ texts : List String, natives = texts.map Utf8.octets := by
  obtain ⟨_, -, _, -, -, -, -, _, hpaths⟩ := h
  exact hpaths.texts

/-! ## Accounts of functions and loads -/

namespace Engine

/-- The engine describes itself by itself, and knows these functions and loads. -/
structure Describes (e : Engine) (names : List String) (records : List LoadRecord) : Prop where
  own : e.description = .own
  sorted : Entries.Sorted e.functions
  names (name : String) : name ∈ e.functionNames ↔ name ∈ names
  loads : e.loads = records

namespace Describes

variable {e e' : Engine} {names : List String} {records : List LoadRecord}

theorem of_bare (h : Describes e names records) (hbare : e'.bare = e.bare) :
    Describes e' names records := by
  obtain ⟨ledger, rfl⟩ := eq_of_bare hbare
  exact ⟨h.own, h.sorted, h.names, h.loads⟩

theorem of_kept (h : Describes e names records) (hkept : e.Kept e') :
    Describes e' names records := by
  have hkeys : Entries.keys e'.functions = Entries.keys e.functions := hkept.names h.sorted
  have hown := congrArg description hkept.settings
  refine ⟨Eq.trans hown h.own, ?_, fun name => ?_, hkept.loads.trans h.loads⟩
  · rw [Entries.sorted_iff, hkeys]
    exact Entries.sorted_iff.mp h.sorted
  · rw [functionNames, hkeys]
    exact h.names name

theorem register (h : Describes e names records) (name : String)
    (behaviour : List (List Value) → List Value → Reply) :
    Describes (e.register name behaviour) (names ++ [name]) records where
  own := h.own
  sorted := Entries.sorted_insert _ _ h.sorted
  names other := by
    have hold : other ∈ Entries.keys e.functions ↔ other ∈ names := h.names other
    rw [functionNames, Engine.register, Entries.mem_keys_insert, hold, List.mem_append,
      List.mem_singleton, or_comm]
  loads := h.loads

theorem attachLog (h : Describes e names records) (policy : Log.Policy) (streams : Log.Streams) :
    Describes (e.attachLog policy streams).2.1 names records := by
  unfold Engine.attachLog
  split
  · exact h
  · split
    · exact ⟨h.own, h.sorted, h.names, h.loads⟩
    · exact h

/-- A load with status zero is recorded, behind those before it. -/
theorem loadFromFile (h : Describes e names records) (hstatus : e.loadStatus = 0)
    (record : LoadRecord) (streams : Log.Streams) :
    Describes (e.loadFromFile record.tag (record.paths.map Utf8.octets) streams).2.1 names
      (records ++ [record]) := by
  have hloaded : (e.loadFromFile record.tag (record.paths.map Utf8.octets) streams).2.1 =
      { e with loads := e.loads ++ [record] } := by
    simp only [Engine.loadFromFile, map_nativeText_octets, if_pos hstatus]
  rw [hloaded]
  exact ⟨h.own, h.sorted, h.names, by rw [h.loads]⟩

/-- Unless a load is recorded, a request changes neither functions nor loads. -/
theorem serve (h : Describes e names records) (streams : Log.Streams) {request : Request}
    (hload : ∀ tag natives, request = .load tag natives → e.loadStatus ≠ 0) :
    Describes (e.serve streams request).1 names records := by
  cases request with
  | call name values => exact h.of_kept (kept_callByName e name values streams)
  | load tag natives =>
    have hsame : (e.loadFromFile tag natives streams).2.1 = e :=
      loadFromFile_of_status (hload tag natives rfl) tag natives streams
    rw [Engine.serve, hsame]
    exact h
  | log registry stream =>
    rw [Engine.serve]
    split
    · exact h.attachLog _ _
    · exact h

end Describes

/-! ## Descriptions -/

theorem orderedItems_strings (texts : List String) : Json.OrderedItems (texts.map .string) := by
  induction texts with
  | nil => trivial
  | cons text rest ih => exact ⟨trivial, ih⟩

/-- What is to be read from the description of a load. -/
def describedLoad (r : LoadRecord) : Json.Canonical where
  json := .object [("paths", .array (r.paths.map .string)), ("tag", .string r.tag)]
  ordered := ⟨List.pairwise_pair.mpr (by decide : "paths" < "tag"),
    orderedItems_strings r.paths, trivial, trivial⟩

theorem orderedItems_loads (records : List LoadRecord) :
    Json.OrderedItems (records.map fun r => (describedLoad r).json) := by
  induction records with
  | nil => trivial
  | cons r rest ih => exact ⟨(describedLoad r).ordered, ih⟩

/-- What is to be read from a description. -/
def described (names : List String) (records : List LoadRecord) : Json.Canonical where
  json := .object [("functions", .array (names.map .string)),
    ("loaded", .array (records.map fun r => (describedLoad r).json))]
  ordered := ⟨List.pairwise_pair.mpr (by decide : "functions" < "loaded"),
    orderedItems_strings names, orderedItems_loads records, trivial⟩

theorem meant_strings {levels : Nat} (texts : List String) :
    Json.Meant (levels + 1) (.array (texts.map .string)) (.array (texts.map .string)) := by
  refine Json.meant_array ?_
  rw [List.forall₂_map_left_iff, List.forall₂_map_right_iff]
  exact List.forall₂_same.mpr fun s _ => Json.meant_string s

theorem meant_record {levels : Nat} (r : LoadRecord) :
    Json.Meant (levels + 2) (LoadRecord.toJson r) (describedLoad r) := by
  have hfields : Entries.Alike (Json.Meant (levels + 1))
      [("tag", .string r.tag), ("paths", .array (r.paths.map .string))]
      [("tag", .string r.tag), ("paths", .array (r.paths.map .string))] :=
    .cons ⟨rfl, Json.meant_string r.tag⟩ (.cons ⟨rfl, meant_strings r.paths⟩ .nil)
  have horder (tag paths : Json) :
      Entries.ofList [("tag", tag), ("paths", paths)] = [("paths", paths), ("tag", tag)] := by
    have hlt : "paths" < "tag" := by decide
    simp only [Entries.ofList, List.foldl, Entries.insert, if_pos hlt]
  have hobject := Json.meant_object hfields
  rw [horder] at hobject
  exact hobject

/-- What an engine writes about itself means its functions and loads. -/
theorem meant_toJson {levels : Nat} (e : Engine) :
    Json.Meant (levels + 4) e.toJson (described e.functionNames e.loads) := by
  have hrecords : List.Forall₂ (Json.Meant (levels + 2)) (e.loads.map LoadRecord.toJson)
      (e.loads.map fun r => (describedLoad r).json) := by
    rw [List.forall₂_map_left_iff, List.forall₂_map_right_iff]
    exact List.forall₂_same.mpr fun r _ => meant_record r
  have hfields : Entries.Alike (Json.Meant (levels + 3))
      [("functions", .array (e.functionNames.map .string)),
        ("loaded", .array (e.loads.map LoadRecord.toJson))]
      [("functions", .array (e.functionNames.map .string)),
        ("loaded", .array (e.loads.map fun r => (describedLoad r).json))] :=
    .cons ⟨rfl, meant_strings e.functionNames⟩ (.cons ⟨rfl, Json.meant_array hrecords⟩ .nil)
  have hsorted (functions loaded : Json) :
      Entries.Sorted [("functions", functions), ("loaded", loaded)] :=
    List.pairwise_pair.mpr (by decide : "functions" < "loaded")
  have hobject := Json.meant_object hfields
  rw [Entries.ofList_of_sorted (hsorted _ _)] at hobject
  exact hobject

end Engine

/-! ## From the buffer to the host -/

namespace Engine

/-- The buffer has room for the text and the terminator. -/
theorem selfDescribe_of_own [Memory] {e : Engine} (h : e.description = .own) :
    e.selfDescribe = if Memory.grants (Utf8.size e.toJson.compact + 1) then
      some (Utf8.octets e.toJson.compact ++ [0]) else none := by
  rw [selfDescribe, h, ownDescription, List.length_append, List.length_singleton, Utf8.size]

end Engine

namespace Bridge

/-- A text without a NUL comes out of a buffer with a terminator as it went in. -/
theorem inspect_of_text [Memory] {w : World Arena} {text : String}
    (hself : w.engine.selfDescribe = some (Utf8.octets text ++ [0])) (h : 0 ∉ Utf8.octets text) :
    ∃ v, inspect w = .ok (Arena.handleAt w.host.slots.size) v ∧
      v.host = w.host.addAll [.string text] := by
  have hfront : Says (Utf8.octets text ++ [0]) (Utf8.octets text) :=
    ⟨by simp, h, .inr ⟨[], rfl⟩⟩
  rw [inspect_of_front hself hfront, Utf8.decode_octets]
  exact ⟨_, rfl, rfl⟩

end Bridge

namespace Site

section Inspect

variable [Memory] {s : Site Arena} (hentry : s.module.entry? "inspect" = some .inspect)
  (hown : s.module.engine.description = .own)
include hentry hown

/-- A description for which there is memory becomes a string of the host. -/
theorem call_inspect (hgrants : Memory.grants (Utf8.size s.module.engine.toJson.compact + 1))
    (args : List Handle) :
    ∃ t, s.call "inspect" args = (some (Arena.handleAt s.host.slots.size), t) ∧
      t.host = s.host.addAll [.string s.module.engine.toJson.compact] := by
  have hmeant : Json.Meant (123 + 4) s.module.engine.toJson _ := Engine.meant_toJson s.module.engine
  have hself := (Engine.selfDescribe_of_own hown).trans (if_pos hgrants)
  obtain ⟨w, hinspect, hhost⟩ :=
    inspect_of_text (w := s.world) hself (Utf8.zero_not_mem_octets hmeant.not_mem)
  have hrun : s.module.run args .inspect s.world =
      .ok (some (Arena.handleAt s.host.slots.size)) w := Action.map_of_ok hinspect
  refine ⟨s.become w, ?_, hhost⟩
  rw [call_eq, hentry]
  simp only [hrun]

/-- Without memory for the description there is an error. -/
theorem call_inspect_of_not
    (hgrants : ¬ Memory.grants (Utf8.size s.module.engine.toJson.compact + 1))
    (args : List Handle) :
    ∃ t, s.call "inspect" args = (none, t) ∧
      t.host = s.host.raise (BridgeError.callFailure .noDescription).message := by
  have hself := (Engine.selfDescribe_of_own hown).trans (if_neg hgrants)
  have hrun : s.module.run args .inspect s.world =
      .error (.error (.callFailure .noDescription)) (s.world.inspected s.host 0) :=
    Action.map_of_error (inspect_of_none (w := s.world) hself)
  refine ⟨(s.become (s.world.inspected s.host 0)).raise _, ?_, rfl⟩
  rw [call_eq, hentry]
  simp only [hrun]
  rfl

end Inspect

/-! ## Reachable sites -/

/-- A call loads sources: they are forwarded to an engine whose status is zero. -/
def Loads [Memory] (s : Site Arena) (name : String) (args : List Handle) (record : LoadRecord) :
    Prop :=
  s.module.engine.loadStatus = 0 ∧
    s.Asks name args (.load record.tag (record.paths.map Utf8.octets))

/-- Change the engine. -/
def onEngine (s : Site Arena) (change : Engine → Engine) : Site Arena :=
  { s with module := { s.module with engine := change s.module.engine } }

/-- A module has been started and used, functions of these names have been registered, and these
loads came through. -/
inductive Reachable [Memory] : Site Arena → List String → List LoadRecord → Prop where
  | start {engine : Engine} {config : Config} {logStream : Nat} {m : Module} {host : Arena}
      {streams : Log.Streams} : engine.functions = [] → engine.loads = [] →
      engine.description = .own → Module.start engine config logStream = .ok m →
      Reachable ⟨m, host, streams⟩ [] []
  | register {s : Site Arena} {names : List String} {records : List LoadRecord} (name : String)
      (behaviour : List (List Value) → List Value → Reply) : Reachable s names records →
      Reachable (s.onEngine (·.register name behaviour)) (names ++ [name]) records
  | setLoadStatus {s : Site Arena} {names : List String} {records : List LoadRecord}
      (status : Int32) : Reachable s names records →
      Reachable (s.onEngine ({ · with loadStatus := status })) names records
  /-- The host does something to its values and streams. -/
  | elsewhere {s : Site Arena} {names : List String} {records : List LoadRecord} (host : Arena)
      (streams : Log.Streams) : Reachable s names records →
      Reachable { s with host, streams } names records
  | load {s : Site Arena} {names : List String} {records : List LoadRecord} {name : String}
      {args : List Handle} {record : LoadRecord} : Reachable s names records →
      s.Loads name args record → Reachable (s.call name args).2 names (records ++ [record])
  | call {s : Site Arena} {names : List String} {records : List LoadRecord} (name : String)
      (args : List Handle) : Reachable s names records → (∀ record, ¬ s.Loads name args record) →
      Reachable (s.call name args).2 names records

variable {s : Site Arena} {names : List String} {records : List LoadRecord}

/-- A call that loads nothing changes neither functions nor loads. -/
theorem describes_call [Memory] (h : s.module.engine.Describes names records) {name : String}
    {args : List Handle} (hnone : ∀ record, ¬ s.Loads name args record) :
    (s.call name args).2.module.engine.Describes names records := by
  by_cases hasks : ∃ request, s.Asks name args request
  · obtain ⟨request, hrequest⟩ := hasks
    refine (h.serve s.streams fun tag natives heq => ?_).of_bare (call_served hrequest).1
    subst heq
    intro hstatus
    obtain ⟨entry, hentry, hload⟩ := hrequest
    cases hload with
    | load hforwarded =>
      obtain ⟨texts, rfl⟩ := hforwarded.texts
      exact hnone ⟨tag, texts⟩ ⟨hstatus, .bulkLoad, hentry, .load hforwarded⟩
  · exact h.of_bare (call_quiet fun request hrequest => hasks ⟨request, hrequest⟩).1

/-- The engine of a reachable site knows what happened to it. -/
theorem Reachable.describes [Memory] (h : s.Reachable names records) :
    s.module.engine.Describes names records := by
  induction h with
  | @start engine config logStream m host streams hfunctions hloads hown hstart =>
    unfold Module.start Engine.start at hstart
    split at hstart
    · next hengine =>
      split at hengine
      · cases hengine
      · cases hengine
        cases hstart
        exact ⟨hown, by rw [hfunctions]; exact .nil, fun name => by simp [Engine.functionNames,
          hfunctions, Entries.keys], hloads⟩
    · cases hstart
  | register name behaviour _ ih => exact ih.register name behaviour
  | setLoadStatus status _ ih => exact ⟨ih.own, ih.sorted, ih.names, ih.loads⟩
  | elsewhere host streams _ ih => exact ih
  | load _ hloads ih =>
    exact (ih.loadFromFile hloads.1 _ _).of_bare (call_served hloads.2).1
  | call name args _ hnone ih => exact describes_call ih hnone

theorem Reachable.exports_eq [Memory] (h : s.Reachable names records) :
    s.module.exports = Export.all := by
  induction h with
  | @start engine config logStream m host streams _ _ _ hstart =>
    unfold Module.start at hstart
    split at hstart
    · cases hstart
      rfl
    · cases hstart
  | register name behaviour _ ih => exact ih
  | setLoadStatus status _ ih => exact ih
  | elsewhere host streams _ ih => exact ih
  | load _ _ ih =>
    rw [call_module]
    exact ih
  | call name args _ _ ih =>
    rw [call_module]
    exact ih

/-- **Nothing is lost**: the description of every reachable engine is read as the functions that
have been registered, each once and in the order of their octets, and the loads that came through,
in order, and there is no zero octet in its text.  If memory grants the buffer for it, it stands in
the buffer up to the terminator and arrives in the host as one more string.  Otherwise one error is
raised, and there is no value. -/
theorem Reachable.inspect_lossless [Memory] (h : s.Reachable names records) (args : List Handle) :
    let answer := s.call "inspect" args
    ∃ functions text, functions.Pairwise (Utf8.octets · < Utf8.octets ·) ∧
      (∀ name, name ∈ functions ↔ name ∈ names) ∧
      Json.read text = .ok (Engine.described functions records) ∧ 0 ∉ Utf8.octets text ∧
      s.module.engine.ownDescription = Utf8.octets text ++ [0] ∧
      (Memory.grants (Utf8.size text + 1) →
        s.module.engine.selfDescribe = some (Utf8.octets text ++ [0]) ∧
        answer.1 = some (Arena.handleAt s.host.slots.size) ∧
        answer.2.host = s.host.addAll [.string text] ∧
        (s.host.slots.size < 2 ^ 32 →
          answer.2.host.get (Arena.handleAt s.host.slots.size) = .ok (.string text))) ∧
      (¬ Memory.grants (Utf8.size text + 1) →
        s.module.engine.selfDescribe = none ∧ answer.1 = none ∧
        answer.2.host = s.host.raise (BridgeError.callFailure .noDescription).message) := by
  intro answer
  have hknown := h.describes
  let text := s.module.engine.toJson.compact
  have hmeant : Json.Meant (123 + 4) s.module.engine.toJson _ := Engine.meant_toJson s.module.engine
  have hread := Json.read_compact hmeant
  rw [hknown.loads] at hread
  have hsorted := Entries.sorted_iff.mp hknown.sorted
  have hentry : s.module.entry? "inspect" = some .inspect := by
    rw [Module.entry?, h.exports_eq]
    rfl
  have hself := Engine.selfDescribe_of_own hknown.own
  refine ⟨s.module.engine.functionNames, text, hsorted.imp fun hlt => Utf8.octets_lt_octets.mpr hlt,
    hknown.names, hread, Utf8.zero_not_mem_octets hmeant.not_mem, rfl, fun hgrants => ?_,
    fun hgrants => ?_⟩
  · obtain ⟨t, hcall, hadded⟩ := call_inspect hentry hknown.own hgrants args
    have hhost : answer.2.host = s.host.addAll [.string text] :=
      (congrArg (·.2.host) hcall).trans hadded
    refine ⟨hself.trans (if_pos hgrants), congrArg Prod.fst hcall, hhost, fun hsize => ?_⟩
    rw [hhost]
    exact Arena.get_addAll_new (i := 0) rfl (by rw [Arena.size_addAll]; exact hsize)
  · obtain ⟨t, hcall, hraised⟩ := call_inspect_of_not hentry hknown.own hgrants args
    exact ⟨hself.trans (if_neg hgrants), congrArg Prod.fst hcall,
      (congrArg (·.2.host) hcall).trans hraised⟩

/-- A module that has just been started, in a host with a tag that has a NUL in it and with a list
of one path. -/
def listed : Site Arena where
  module :=
    { engine := { initialized := true }
      config := {}
      registry := .withDefaults
      logStream := 0
      exports := Export.all }
  host := { slots := #[.string "p\x00y", .string "a.py", .array [⟨1⟩]] }
  streams := #[{}]

/-- A function and a tag with NULs in them are described. -/
theorem inspect_lossless_listed :
    let s := ((listed.onEngine (·.register "\x00" fun _ _ => .nothing)).call "bulk_load"
      [⟨0⟩, ⟨2⟩]).2
    s.Reachable ["\x00"] [⟨"p\x00y", ["a.py"]⟩] ∧
      ∃ functions text, (∀ name, name ∈ functions ↔ name ∈ ["\x00"]) ∧
        (s.call "inspect" []).2.host = s.host.addAll [.string text] ∧
        Json.read text = .ok (Engine.described functions [⟨"p\x00y", ["a.py"]⟩]) := by
  intro s
  let started := listed.onEngine (·.register "\x00" fun _ _ => .nothing)
  have hstarted : started.Reachable ["\x00"] [] :=
    .register "\x00" _ (@Reachable.start _ {} {} 0 _ _ _ rfl rfl rfl rfl)
  have htag : TagRead {} listed.host ⟨0⟩ "p\x00y" listed.host :=
    ⟨3, 18, [112, 0, 121], listed.host, rfl, by decide, by decide, rfl, by decide, rfl, rfl⟩
  have hpath : PathRead {} ⟨2⟩ 0 listed.host [97, 46, 112, 121] listed.host :=
    ⟨⟨1⟩, ⟨1⟩, 4, 5, listed.host, listed.host, listed.host, rfl, rfl, rfl, by decide,
      by decide, rfl, rfl, rfl, by decide⟩
  have hforwarded : Forwarded {} listed.host ⟨0⟩ ⟨2⟩ "p\x00y" [[97, 46, 112, 121]] :=
    ⟨listed.host, htag, listed.host, rfl, by decide, by decide, rfl, listed.host, .cons hpath .nil⟩
  have hloads : started.Loads "bulk_load" [⟨0⟩, ⟨2⟩] ⟨"p\x00y", ["a.py"]⟩ :=
    ⟨rfl, .bulkLoad, rfl, .load hforwarded⟩
  have hreachable : s.Reachable ["\x00"] [⟨"p\x00y", ["a.py"]⟩] := hstarted.load hloads
  obtain ⟨functions, text, -, hnames, hread, -, hown, hgranted, -⟩ :=
    Reachable.inspect_lossless hreachable []
  have hgrants : Memory.grants (Utf8.size text + 1) := by
    have hlength : Utf8.size text + 1 = s.module.engine.ownDescription.length := by
      rw [hown, List.length_append, List.length_singleton, Utf8.size]
    rw [hlength]
    decide
  exact ⟨hreachable, functions, text, hnames, (hgranted hgrants).2.2.1, hread⟩

end Site

end ForeignCall
