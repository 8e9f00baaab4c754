import ForeignCall.Proofs.Extent
import ForeignCall.Proofs.Words
import ForeignCall.Proofs.Indented
import ForeignCall.Proofs.Programs

/-!
# ForeignCall.Proofs.Preloads

What becomes of the preloads of a command line.

Each preload is split around its first equals sign into a tag and a path, and
loads the path if both can be loaded (`Preloads`).  One that does adds its
record to those before it and leaves a site that is as ready for the next one
(`preload_of_preloads`); one that does not is a failure, and what was loaded
before it stays all that was loaded (`preload_fails`).  So a list of preloads
goes as far as its first bad one (`forM_preload`, `forM_preload_first`).

`run_inspect` — a command line that asks for a description prints it, with one
record for each preload in order, if and only if all preloads load; otherwise
it prints nothing and has loaded what stands before the first bad preload.
-/

namespace ForeignCall

open Bridge

namespace CommandLine

/-! ## Good preloads -/

/-- A tag and a path that can be loaded: both within their limits, with a buffer for the longest
tag, and with one path at least allowed. -/
structure Loadable (limits : Limits) (tag path : String) : Prop where
  tag_nonempty : tag ≠ ""
  tag_short : Utf8.size tag ≤ limits.maxTagLen.toNat
  tag_buffer : limits.maxTagLen.toNat + 1 ≤ Allocation.maxSize
  one_path : 1 ≤ limits.maxLoadPaths.toNat
  path_nonempty : path ≠ ""
  path_short : Utf8.size path ≤ limits.maxPathLen.toNat
  path_noNul : 0 ∉ Utf8.octets path

/-- A text with a tag and a path that can be loaded around its first equals sign, and the record of
this load. -/
inductive Preloads (limits : Limits) : String → LoadRecord → Prop where
  | intro {tag path : String} : '=' ∉ tag.toList → Loadable limits tag path →
      Preloads limits (tag ++ "=" ++ path) ⟨tag, [path]⟩

/-- The most octets that are asked for at once on the way to a description of preloads: those of the
description itself, written out. -/
def need (preloads : List String) : Nat :=
  6 * weight preloads + 50

/-- Preloads for which there is room: there are handles for a tag, a path and a list of each, and
for a description, and memory for what is needed. -/
structure Fits [Memory] (preloads : List String) : Prop where
  handles : 3 * preloads.length + 1 ≤ 2 ^ 32
  memory : Memory.Spans (need preloads)

theorem weight_bounds (preloads : List String) : 3 * preloads.length ≤ weight preloads ∧
    ∀ text ∈ preloads, Utf8.size text + 3 ≤ weight preloads := by
  induction preloads with
  | nil => simp
  | cons first rest ih =>
    obtain ⟨hlength, hrest⟩ := ih
    have hweight := weight_cons first rest
    refine ⟨by rw [List.length_cons]; omega, fun text hmem => ?_⟩
    rcases List.mem_cons.mp hmem with rfl | hmore
    · omega
    · have htext := hrest text hmore
      omega

/-- There is room for the preloads of any command line below four gibibytes, if memory spans eight
times as much. -/
theorem fits_of_octets [Memory] {words : List String} {request : Request}
    (h : Request.ofWords? words = some request) (hoctets : octets words < 2 ^ 32)
    (hmemory : Memory.Spans (2 ^ 35)) : Fits request.options.preloads := by
  have hweight := weight_le_octets h
  obtain ⟨hlength, -⟩ := weight_bounds request.options.preloads
  refine ⟨by omega, hmemory.mono ?_⟩
  rw [need]
  omega

theorem nativeWidth_le_need (preloads : List String) : nativeWidth ≤ need preloads := by
  rw [need, nativeWidth]
  omega

theorem valueWidth_le_need (preloads : List String) : valueWidth ≤ need preloads := by
  rw [need, valueWidth]
  omega

theorem size_le_need {preloads : List String} {text : String} (h : text ∈ preloads) :
    Utf8.size text ≤ need preloads := by
  have htext := (weight_bounds preloads).2 text h
  rw [need]
  omega

theorem preloads_split {limits : Limits} {text tag path : String}
    (hsplit : splitEquals text.toList = (tag, some path)) {record : LoadRecord} :
    Preloads limits text record ↔ Loadable limits tag path ∧ record = ⟨tag, [path]⟩ := by
  constructor
  · rintro @⟨tag', path', hnot, hloadable⟩
    have htext : (tag' ++ "=" ++ path').toList = tag'.toList ++ '=' :: path'.toList := by simp
    rw [htext, splitEquals_append hnot, String.ofList_toList, String.ofList_toList] at hsplit
    cases hsplit
    exact ⟨hloadable, rfl⟩
  · rintro ⟨hloadable, rfl⟩
    obtain ⟨htext, hnot⟩ := splitEquals_eq_some.mp hsplit
    have hjoined : text = tag ++ "=" ++ path := by
      rw [← String.toList_inj, htext]
      simp
    rw [hjoined]
    exact .intro hnot hloadable

/-! ## One load -/

section Load

variable {limits : Limits} {tag path : String} {w : World Arena} {a : Arena}

/-- The host once a tag and a list of one path have been added. -/
def supplied (a : Arena) (tag path : String) : Arena :=
  a.addAll [.string tag, .string path, .array [Arena.handleAt (a.slots.size + 1)]]

theorem get_supplied (hsize : a.slots.size + 3 ≤ 2 ^ 32) (tag path : String) :
    (supplied a tag path).get (Arena.handleAt a.slots.size) = .ok (.string tag) ∧
      (supplied a tag path).get (Arena.handleAt (a.slots.size + 1)) = .ok (.string path) ∧
      (supplied a tag path).get (Arena.handleAt (a.slots.size + 2)) =
        .ok (.array [Arena.handleAt (a.slots.size + 1)]) := by
  have hroom : (supplied a tag path).slots.size ≤ 2 ^ 32 := by
    rw [supplied, Arena.size_addAll]
    exact hsize
  exact ⟨Arena.get_addAll_new (i := 0) rfl hroom, Arena.get_addAll_new (i := 1) rfl hroom,
    Arena.get_addAll_new (i := 2) rfl hroom⟩

theorem load_apply [Memory] (tag path : String) (s : Site Arena) :
    load tag [path] s =
      discard (call .bulkLoad
        [Arena.handleAt s.host.slots.size, Arena.handleAt (s.host.slots.size + 2)])
        { s with host := supplied s.host tag path } := by
  rw [load, onHost_bind, onHost_bind, onHost_bind]
  simp only [Arena.ofJsonItems, Arena.ofJson, Arena.alloc_eq, Arena.addAll_addAll,
    Arena.size_addAll, supplied, List.map_cons, List.map_nil]
  rfl

theorem stringOf_of_get {h : Handle} {text : String} (hget : a.get h = .ok (.string text)) :
    a.stringOf h = .ok text := by
  simp only [Arena.stringOf, hget, bind, Except.bind]
  rfl

theorem itemsOf_of_get {h : Handle} {items : List Handle} (hget : a.get h = .ok (.array items)) :
    a.itemsOf h = .ok items := by
  simp only [Arena.itemsOf, hget, bind, Except.bind]
  rfl

/-- A string is the text that it is coerced to. -/
theorem coerceText_of_get {h : Handle} {text : String} (hget : a.get h = .ok (.string text)) :
    a.coerceText h = (.ok text, a) := by
  have hcoerce : a.coerce h = .ok (h, a) := by
    simp only [Arena.coerce, hget, bind, Except.bind]
    rfl
  simp only [Arena.coerceText, hcoerce, stringOf_of_get hget]

theorem length_supplied {h item : Handle} (hget : a.get h = .ok (.array [item])) :
    ∀ items, a.itemsOf h = .ok items → items.length < 2 ^ 32 := by
  intro items hitems
  cases (itemsOf_of_get hget).symm.trans hitems
  exact (by decide : 1 < 2 ^ 32)

/-- The world when a load of one path has been recorded. -/
def World.recorded (w : World Arena) (record : LoadRecord) (streams : Log.Streams) : World Arena :=
  w.spent w.host { w.engine with loads := w.engine.loads ++ [record] } streams 1

/-- A load of a tag and a path that can be loaded is recorded by a willing engine. -/
theorem bulkLoad_of_loadable [Memory] (h : Loadable limits tag path)
    (hsize : a.slots.size + 3 ≤ 2 ^ 32) (hhost : w.host = supplied a tag path)
    (hstatus : w.engine.loadStatus = 0) (hlist : Memory.grants nativeWidth)
    (hpath : Memory.grants (Utf8.size path + 1)) :
    ∃ streams, bulkLoad limits (Arena.handleAt a.slots.size) (Arena.handleAt (a.slots.size + 2)) w =
      .ok () (World.recorded w ⟨tag, [path]⟩ streams) := by
  obtain ⟨htag, hitem, hpaths⟩ := get_supplied hsize tag path
  rw [← hhost] at htag hitem hpaths
  have hlisted : Listed limits w.host (Arena.handleAt a.slots.size)
      (Arena.handleAt (a.slots.size + 2)) tag [Arena.handleAt (a.slots.size + 1)] :=
    ⟨⟨stringOf_of_get htag, h.tag_nonempty, h.tag_short⟩, itemsOf_of_get hpaths, h.one_path⟩
  have htakes : Takes limits w.host (Arena.handleAt (a.slots.size + 1)) path w.host :=
    ⟨coerceText_of_get hitem, h.path_nonempty, h.path_short, hpath, h.path_noNul⟩
  have hload : w.engine.loadFromFile tag ([path].map Utf8.octets) w.streams =
      (0, { w.engine with loads := w.engine.loads ++ [⟨tag, [path]⟩] },
        (w.engine.loadFromFile tag ([path].map Utf8.octets) w.streams).2.2) := by
    simp [Engine.loadFromFile, nativeText_octets, hstatus]
  exact ⟨_, bulkLoad_of_loading h.tag_buffer (length_supplied hpaths)
    (.loaded ⟨hlisted, by simp, hlist⟩ (.cons htakes .nil) hload rfl)⟩

/-- A load that ends in an error is not recorded. -/
theorem loads_of_loading [Memory] {tagHandle paths : Handle} {abort : Abort BridgeError}
    {v : World Arena} (h : Loading limits w tagHandle paths (.error abort v)) :
    v.engine.loads = w.engine.loads := by
  cases h with
  | failed _ _ _ _ hloads => exact hloads
  | _ => rfl

/-- What has been loaded could be loaded. -/
theorem loadable_of_loading [Memory] (hsize : a.slots.size + 3 ≤ 2 ^ 32)
    (hhost : w.host = supplied a tag path)
    (hbuffer : limits.maxTagLen.toNat + 1 ≤ Allocation.maxSize)
    {v : World Arena} (h : Loading limits w (Arena.handleAt a.slots.size)
      (Arena.handleAt (a.slots.size + 2)) (.ok () v)) : Loadable limits tag path := by
  obtain ⟨htag, hitem, hpaths⟩ := get_supplied hsize tag path
  rw [← hhost] at htag hitem hpaths
  cases h with
  | nothing hlisted => cases (itemsOf_of_get hpaths).symm.trans hlisted.array
  | loaded hprepared hall _ _ =>
    have hlisted := hprepared.toListed
    cases (itemsOf_of_get hpaths).symm.trans hlisted.array
    cases (stringOf_of_get htag).symm.trans hlisted.text
    cases hall with
    | cons htakes _ =>
      cases (coerceText_of_get hitem).symm.trans htakes.coerced
      exact ⟨hlisted.nonempty, hlisted.short, hbuffer, hlisted.few, htakes.nonempty, htakes.short,
        htakes.noNul⟩

/-- A longest tag for which there is no buffer cannot be read for. -/
theorem bulkLoad_of_noBuffer [Memory] {tagHandle : Handle}
    (htag : w.host.stringOf tagHandle = .ok tag)
    (hbuffer : ¬ limits.maxTagLen.toNat + 1 ≤ Allocation.maxSize) (paths : Handle) :
    ∃ abort, bulkLoad limits tagHandle paths w = .error abort w := by
  obtain ⟨abort, hdecode⟩ :
      ∃ abort, (decodeTag limits tagHandle : Operation Arena String) w = .error abort w := by
    by_cases hempty : tag = ""
    · subst hempty
      exact ⟨_, decodeTag_empty htag⟩
    · by_cases hshort : Utf8.size tag ≤ limits.maxTagLen.toNat
      · exact ⟨_, decodeTag_unsized (Nat.le_of_lt_succ (Nat.not_le.mp hbuffer))
          ⟨htag, hempty, hshort⟩⟩
      · exact ⟨_, decodeTag_long htag (Nat.not_le.mp hshort)⟩
  exact ⟨abort, Action.bind_of_error hdecode⟩

/-- A load of a tag and a path that cannot both be loaded fails, and is not recorded. -/
theorem bulkLoad_of_not_loadable [Memory] (h : ¬ Loadable limits tag path)
    (hsize : a.slots.size + 3 ≤ 2 ^ 32) (hhost : w.host = supplied a tag path) :
    ∃ abort v, bulkLoad limits (Arena.handleAt a.slots.size) (Arena.handleAt (a.slots.size + 2)) w =
      .error abort v ∧ v.engine.loads = w.engine.loads := by
  obtain ⟨htag, -, hpaths⟩ := get_supplied hsize tag path
  rw [← hhost] at htag hpaths
  by_cases hbuffer : limits.maxTagLen.toNat + 1 ≤ Allocation.maxSize
  · obtain ⟨r, hloading⟩ := loading_total limits w (Arena.handleAt a.slots.size)
      (Arena.handleAt (a.slots.size + 2))
    rw [bulkLoad_of_loading hbuffer (length_supplied hpaths) hloading]
    cases r with
    | ok _ v => exact absurd (loadable_of_loading hsize hhost hbuffer hloading) h
    | error abort v => exact ⟨abort, v, rfl, loads_of_loading hloading⟩
  · obtain ⟨abort, hload⟩ := bulkLoad_of_noBuffer (stringOf_of_get htag) hbuffer
      (Arena.handleAt (a.slots.size + 2))
    exact ⟨abort, w, hload, rfl⟩

end Load

/-! ## One preload -/

section Preload

variable [Memory] {config : Config} {records : List LoadRecord} {s : Site Arena}
  {tag path text : String} {octets : Nat}

/-- A tag and a path that can be loaded are loaded behind those before, and the site is as ready as
before. -/
theorem load_of_loadable (hs : Stocked config records s) (h : Loadable config.limits tag path)
    (hsize : s.host.slots.size + 3 ≤ 2 ^ 32) (hlist : Memory.grants nativeWidth)
    (hpath : Memory.grants (Utf8.size path + 1)) :
    ∃ t, load tag [path] s = .ok () t ∧ Stocked config (records ++ [⟨tag, [path]⟩]) t ∧
      t.host.slots.size = s.host.slots.size + 3 := by
  let ready : Site Arena := { s with host := supplied s.host tag path }
  have hready : Stocked config records ready := hs.addAll _
  obtain ⟨streams, hload⟩ :=
    bulkLoad_of_loadable (w := ready.world) h hsize rfl hready.status hlist hpath
  rw [← hs.config] at hload
  let w := World.recorded ready.world ⟨tag, [path]⟩ streams
  let args := [Arena.handleAt s.host.slots.size, Arena.handleAt (s.host.slots.size + 2)]
  have hrun : ready.module.run args .bulkLoad ready.world = .ok none w := Action.bind_of_ok hload
  have hcalled : ready.call Export.bulkLoad.name args = (none, ready.become w) := by
    rw [Site.call_eq, hready.entry? .bulkLoad]
    simp only [hrun]
  refine ⟨ready.become w, ?_, ?_, ?_⟩
  · rw [load_apply]
    exact discard_of_ok (call_of_value hcalled hready.settled)
  · have hloads : w.engine.loads = records ++ [⟨tag, [path]⟩] :=
      congrArg (fun earlier => earlier ++ [(⟨tag, [path]⟩ : LoadRecord)]) hs.loads
    exact ⟨hs.config, hs.exports, hs.functions, hloads, hs.own, hs.status, hs.settled⟩
  · exact Arena.size_addAll s.host _

/-- A tag and a path that cannot both be loaded are a failure, and are not recorded. -/
theorem load_of_not_loadable (hs : Stocked config records s)
    (h : ¬ Loadable config.limits tag path) (hsize : s.host.slots.size + 3 ≤ 2 ^ 32) :
    ∃ failure t, load tag [path] s = .error failure t ∧ t.module.engine.loads = records := by
  let ready : Site Arena := { s with host := supplied s.host tag path }
  have hready : Stocked config records ready := hs.addAll _
  obtain ⟨abort, w, hload, hloads⟩ :=
    bulkLoad_of_not_loadable (w := ready.world) h hsize rfl
  rw [← hs.config] at hload
  have hrun : ready.module.run [Arena.handleAt s.host.slots.size,
      Arena.handleAt (s.host.slots.size + 2)] .bulkLoad ready.world = .error abort w :=
    Action.bind_of_error hload
  refine ⟨.call .bulkLoad (Module.abortMessage abort), ready.become w, ?_, hloads.trans hs.loads⟩
  rw [load_apply]
  exact discard_of_error (call_of_abort (hready.entry? .bulkLoad) hrun)

theorem preload_of_split (hsplit : splitEquals text.toList = (tag, some path)) :
    preload text = load tag [path] := by
  simp only [preload, hsplit]

theorem preload_of_noEquals (hsplit : splitEquals text.toList = (tag, none)) :
    preload text = throw (.badPreload text) := by
  simp only [preload, hsplit]

/-- A good preload is one more record. -/
theorem preload_of_preloads (hs : Stocked config records s) {record : LoadRecord}
    (h : Preloads config.limits text record) (hsize : s.host.slots.size + 3 ≤ 2 ^ 32)
    (hmemory : Memory.Spans octets) (hlist : nativeWidth ≤ octets)
    (htext : Utf8.size text ≤ octets) :
    ∃ t, preload text s = .ok () t ∧ Stocked config (records ++ [record]) t ∧
      t.host.slots.size = s.host.slots.size + 3 := by
  obtain @⟨tag, path, hnot, hloadable⟩ := h
  have hsplit : splitEquals (tag ++ "=" ++ path).toList = (tag, some path) :=
    splitEquals_eq_some.mpr ⟨by simp, hnot⟩
  have hpath : Utf8.size path + 1 ≤ octets := by
    have hequals : Utf8.size "=" = 1 := by decide
    rw [Utf8.size_append, Utf8.size_append, hequals] at htext
    omega
  rw [preload_of_split hsplit]
  exact load_of_loadable hs hloadable hsize (hmemory _ hlist) (hmemory _ hpath)

/-- A preload that is none is a failure, and nothing more has been loaded. -/
theorem preload_fails (hs : Stocked config records s)
    (h : ∀ record, ¬ Preloads config.limits text record) (hsize : s.host.slots.size + 3 ≤ 2 ^ 32) :
    ∃ failure t, preload text s = .error failure t ∧ t.module.engine.loads = records := by
  rcases hsplit : splitEquals text.toList with ⟨tag, _ | path⟩
  · rw [preload_of_noEquals hsplit]
    exact ⟨_, s, rfl, hs.loads⟩
  · rw [preload_of_split hsplit]
    exact load_of_not_loadable hs
      (fun hloadable => h _ ((preloads_split hsplit).mpr ⟨hloadable, rfl⟩)) hsize

/-! ## All preloads -/

/-- Good preloads are loaded, in order. -/
theorem forM_preload {texts : List String} {added : List LoadRecord}
    (h : List.Forall₂ (Preloads config.limits) texts added) (hs : Stocked config records s)
    (hmemory : Memory.Spans octets) (hlist : nativeWidth ≤ octets)
    (htexts : ∀ text ∈ texts, Utf8.size text ≤ octets)
    (hsize : s.host.slots.size + 3 * texts.length ≤ 2 ^ 32) :
    ∃ t, texts.forM preload s = .ok ⟨⟩ t ∧ Stocked config (records ++ added) t ∧
      t.host.slots.size = s.host.slots.size + 3 * texts.length := by
  induction h generalizing s records with
  | nil => exact ⟨s, rfl, by rwa [List.append_nil], rfl⟩
  | @cons text record texts added hfirst _ ih =>
    rw [List.length_cons] at hsize
    obtain ⟨t, hload, ht, hsizeT⟩ :=
      preload_of_preloads hs hfirst (by omega) hmemory hlist (htexts text List.mem_cons_self)
    obtain ⟨u, hrest, hu, hsizeU⟩ :=
      ih ht (fun text hmem => htexts text (List.mem_cons_of_mem _ hmem)) (by omega)
    refine ⟨u, ?_, ?_, by rw [hsizeU, hsizeT, List.length_cons]; omega⟩
    · exact (bind_of_ok hload).trans hrest
    · rwa [List.append_assoc, List.singleton_append] at hu

/-- Behind the first bad preload nothing is loaded. -/
theorem forM_preload_first {before : List String} {bad : String} (after : List String)
    {added : List LoadRecord} (h : List.Forall₂ (Preloads config.limits) before added)
    (hbad : ∀ record, ¬ Preloads config.limits bad record) (hs : Stocked config records s)
    (hmemory : Memory.Spans octets) (hlist : nativeWidth ≤ octets)
    (htexts : ∀ text ∈ before, Utf8.size text ≤ octets)
    (hsize : s.host.slots.size + 3 * (before ++ bad :: after).length ≤ 2 ^ 32) :
    ∃ failure t, (before ++ bad :: after).forM preload s = .error failure t ∧
      t.module.engine.loads = records ++ added := by
  rw [List.length_append, List.length_cons] at hsize
  obtain ⟨t, hgood, ht, hsizeT⟩ := forM_preload h hs hmemory hlist htexts (by omega)
  obtain ⟨failure, u, hfails, hloads⟩ := preload_fails ht hbad (by omega)
  refine ⟨failure, u, ?_, hloads⟩
  rw [List.forM_eq_forM, List.forM_append]
  exact (bind_of_ok hgood).trans (bind_of_error hfails)

end Preload

/-- All preloads are good, or there is a first bad one. -/
theorem all_or_first (limits : Limits) (texts : List String) :
    (∃ records, List.Forall₂ (Preloads limits) texts records) ∨
      ∃ before bad after records, texts = before ++ bad :: after ∧
        List.Forall₂ (Preloads limits) before records ∧ ∀ record, ¬ Preloads limits bad record := by
  induction texts with
  | nil => exact .inl ⟨[], .nil⟩
  | cons text rest ih =>
    by_cases hgood : ∃ record, Preloads limits text record
    · obtain ⟨record, hrecord⟩ := hgood
      rcases ih with ⟨records, hrest⟩ | ⟨before, bad, after, records, rfl, hbefore, hbad⟩
      · exact .inl ⟨record :: records, .cons hrecord hrest⟩
      · exact .inr ⟨text :: before, bad, after, record :: records, rfl, .cons hrecord hbefore, hbad⟩
    · exact .inr ⟨[], text, rest, [], rfl, .nil, fun record hrecord => hgood ⟨record, hrecord⟩⟩

theorem forall₂_of_forall {limits : Limits} {texts : List String}
    (h : ∀ text ∈ texts, ∃ record, Preloads limits text record) :
    ∃ records, List.Forall₂ (Preloads limits) texts records := by
  rcases all_or_first limits texts with hall | ⟨before, bad, after, records, rfl, -, hbad⟩
  · exact hall
  · obtain ⟨record, hrecord⟩ := h bad (by simp)
    exact absurd hrecord (hbad record)

/-! ## The description -/

theorem size_records_le {limits : Limits} {preloads : List String} {records : List LoadRecord}
    (h : List.Forall₂ (Preloads limits) preloads records) :
    (records.map fun r => Utf8.size (Engine.LoadRecord.toJson r).compact + 1).sum ≤
      6 * weight preloads := by
  induction h with
  | nil => exact Nat.zero_le _
  | @cons text record preloads records hfirst _ ih =>
    obtain @⟨tag, path, -, -⟩ := hfirst
    have hrecord := Engine.size_record_le tag path
    have hequals : Utf8.size "=" = 1 := by decide
    rw [weight_cons, Utf8.size_append, Utf8.size_append, hequals, List.map_cons, List.sum_cons]
    omega

/-- A description of preloads that have been loaded takes no more than is needed. -/
theorem size_description_le {config : Config} {preloads : List String} {records : List LoadRecord}
    {s : Site Arena} (hs : Stocked config records s)
    (h : List.Forall₂ (Preloads config.limits) preloads records) :
    Utf8.size s.module.engine.toJson.compact + 1 ≤ need preloads := by
  have hrecords := size_records_le h
  have hnames : (["add", "concat", "echo"].map fun name =>
      Utf8.size (Json.Printer.string name) + 1).sum = 22 := by decide
  rw [Engine.size_toJson, hs.loads, Engine.functionNames, hs.functions, functionNames_withBuiltins,
    hnames, need]
  omega

/-! ## Whole command lines -/

section Run

variable {fileText : String → Except String String} {words : List String} {options : Options}
  {config : Config} {command : Command}

/-- Before the command of a request comes what its options ask for: the log and the preloads. -/
theorem prepared [Memory] (hconfig : configure fileText options = .ok config)
    (hfits : Fits options.preloads) (command : Command) : ∃ s, prepare fileText options = .ok s ∧
      (∀ records, List.Forall₂ (Preloads config.limits) options.preloads records →
        ∃ t, Stocked config records t ∧ t.host.slots.size = 3 * options.preloads.length ∧
          carryOut ⟨options, command⟩ s = perform command t) ∧
      ∀ before bad after records, options.preloads = before ++ bad :: after →
        List.Forall₂ (Preloads config.limits) before records →
        (∀ record, ¬ Preloads config.limits bad record) →
        ∃ failure t, carryOut ⟨options, command⟩ s = .error failure t ∧
          t.module.engine.loads = records := by
  obtain ⟨s, hprepare, hstocked, htakes, hsize⟩ := stocked_of_prepare hconfig
  obtain ⟨logged, hlogs, hready, hhost⟩ := enableIf_apply options.logs hstocked htakes
  have hempty : logged.host.slots.size = 0 := by rw [hhost, hsize]
  have hhandles := hfits.handles
  have hlist := nativeWidth_le_need options.preloads
  refine ⟨s, hprepare, fun records hall => ?_, fun before bad after records heq hbefore hbad => ?_⟩
  · obtain ⟨t, hloaded, ht, hsizeT⟩ :=
      forM_preload hall hready hfits.memory hlist (fun _ => size_le_need) (by omega)
    refine ⟨t, ht, by omega, ?_⟩
    rw [carryOut_eq, bind_of_ok hlogs, bind_of_ok hloaded]
  · obtain ⟨failure, t, hfails, hloads⟩ := forM_preload_first after hbefore hbad hready hfits.memory
      hlist (fun text hmem => size_le_need (by rw [heq]; exact List.mem_append_left _ hmem))
      (by rw [← heq]; omega)
    refine ⟨failure, t, ?_, hloads⟩
    rw [carryOut_eq, bind_of_ok hlogs, heq, bind_of_error hfails]

theorem run_of_error [Memory] {s t : Site Arena} {failure : Failure}
    (hwords : Request.ofWords? words = some ⟨options, command⟩)
    (hprepare : prepare fileText options = .ok s)
    (h : carryOut ⟨options, command⟩ s = .error failure t) :
    (run fileText words).status ≠ 0 ∧ (run fileText words).output = "" := by
  have hrun : run fileText words = .ofFailure failure (logged t) := by
    simp only [run, hwords, hprepare, h]
  rw [hrun]
  refine ⟨?_, rfl⟩
  cases failure <;> exact Nat.succ_ne_zero _

theorem run_of_ok [Memory] {s t : Site Arena} {output : String}
    (hwords : Request.ofWords? words = some ⟨options, command⟩)
    (hprepare : prepare fileText options = .ok s)
    (h : carryOut ⟨options, command⟩ s = .ok output t) :
    (run fileText words).status = 0 ∧ (run fileText words).output = output := by
  have hrun : run fileText words = ⟨0, output, logged t⟩ := by
    simp only [run, hwords, hprepare, h]
  rw [hrun]
  exact ⟨rfl, rfl⟩

/-- **Preloads are replayed**: a command line that asks for a description, and for whose preloads
there is room, succeeds if and only if all of them are good, and prints the description with their
records in order.  If a preload is bad, nothing is printed, and what has been loaded in the end are
the preloads before the first such. -/
theorem run_inspect [Memory] (hwords : Request.ofWords? words = some ⟨options, .inspect⟩)
    (hconfig : configure fileText options = .ok config) (hfits : Fits options.preloads) :
    let outcome := run fileText words
    (outcome.status = 0 ↔
      ∀ text ∈ options.preloads, ∃ record, Preloads config.limits text record) ∧
    (∀ records, List.Forall₂ (Preloads config.limits) options.preloads records →
      outcome.output = (Engine.described ["add", "concat", "echo"] records).json.pretty ++ "\n" ∧
      Json.read outcome.output = .ok (Engine.described ["add", "concat", "echo"] records)) ∧
    ∀ before bad after records, options.preloads = before ++ bad :: after →
      List.Forall₂ (Preloads config.limits) before records →
      (∀ record, ¬ Preloads config.limits bad record) →
      outcome.status ≠ 0 ∧ outcome.output = "" ∧
      ∃ s failure t, prepare fileText options = .ok s ∧
        carryOut ⟨options, .inspect⟩ s = .error failure t ∧ t.module.engine.loads = records := by
  intro outcome
  obtain ⟨s, hprepare, hgood, hbad⟩ := prepared hconfig hfits .inspect
  have hdone : ∀ records, List.Forall₂ (Preloads config.limits) options.preloads records →
      outcome.status = 0 ∧
      outcome.output =
        (Engine.described ["add", "concat", "echo"] records).json.pretty ++ "\n" := by
    intro records hall
    obtain ⟨t, ht, hsize, hcarried⟩ := hgood records hall
    have hhandles := hfits.handles
    have hgrants := hfits.memory _ (size_description_le ht hall)
    obtain ⟨u, hinspect⟩ := inspect_of_stocked ht (by omega) hgrants
    exact run_of_ok hwords hprepare (hcarried.trans (bind_of_ok hinspect))
  have hfailed : ∀ before bad after records, options.preloads = before ++ bad :: after →
      List.Forall₂ (Preloads config.limits) before records →
      (∀ record, ¬ Preloads config.limits bad record) →
      outcome.status ≠ 0 ∧ outcome.output = "" ∧
      ∃ s failure t, prepare fileText options = .ok s ∧
        carryOut ⟨options, .inspect⟩ s = .error failure t ∧ t.module.engine.loads = records := by
    intro before bad after records heq hbefore hfirst
    obtain ⟨failure, t, hcarried, hloads⟩ := hbad before bad after records heq hbefore hfirst
    obtain ⟨hstatus, houtput⟩ := run_of_error hwords hprepare hcarried
    exact ⟨hstatus, houtput, s, failure, t, hprepare, hcarried, hloads⟩
  refine ⟨⟨fun hstatus text hmem => ?_, fun hall => ?_⟩, fun records hall => ?_, hfailed⟩
  · rcases all_or_first config.limits options.preloads with ⟨records, hall⟩ |
      ⟨before, bad, after, records, heq, hbefore, hfirst⟩
    · obtain ⟨i, hi, rfl⟩ := List.getElem_of_mem hmem
      exact ⟨_, hall.get hi (hall.length_eq ▸ hi)⟩
    · exact absurd hstatus (hfailed before bad after records heq hbefore hfirst).1
  · obtain ⟨records, hrecords⟩ := forall₂_of_forall hall
    exact (hdone records hrecords).1
  · obtain ⟨-, houtput⟩ := hdone records hall
    exact ⟨houtput, by rw [houtput]; exact Json.read_described _ records⟩

/-- Of three preloads the second has no path: the first, with an equals sign in its path, stays what
was loaded.  Without the second both others are described. -/
theorem run_inspect_three :
    let noFiles : String → Except String String := fun path => .error path
    let words := ["--preload=py=a=b.py", "--preload=js=", "--preload=py=c.py", "inspect"]
    let good := ["--preload=py=a=b.py", "--preload=py=c.py", "inspect"]
    ((run noFiles words).status ≠ 0 ∧ (run noFiles words).output = "" ∧
      ∃ s failure t, prepare noFiles ⟨none, ["py=a=b.py", "js=", "py=c.py"], false⟩ = .ok s ∧
        carryOut ⟨⟨none, ["py=a=b.py", "js=", "py=c.py"], false⟩, .inspect⟩ s = .error failure t ∧
        t.module.engine.loads = [⟨"py", ["a=b.py"]⟩]) ∧
    (run noFiles good).status = 0 ∧
      Json.read (run noFiles good).output = .ok (Engine.described ["add", "concat", "echo"]
        [⟨"py", ["a=b.py"]⟩, ⟨"py", ["c.py"]⟩]) := by
  intro noFiles words good
  have hfirst : Preloads {} "py=a=b.py" ⟨"py", ["a=b.py"]⟩ :=
    @Preloads.intro {} "py" "a=b.py" (by decide)
      ⟨by decide, by decide, by decide, by decide, by decide, by decide, by decide⟩
  have hthird : Preloads {} "py=c.py" ⟨"py", ["c.py"]⟩ :=
    @Preloads.intro {} "py" "c.py" (by decide)
      ⟨by decide, by decide, by decide, by decide, by decide, by decide, by decide⟩
  have hempty : splitEquals "js=".toList = ("js", some "") := by decide
  have hsecond : ∀ record, ¬ Preloads {} "js=" record := fun record h =>
    ((preloads_split hempty).mp h).1.path_nonempty rfl
  have hwords : Request.ofWords? words =
      some ⟨⟨none, ["py=a=b.py", "js=", "py=c.py"], false⟩, .inspect⟩ :=
    ofWords?_preloads ["py=a=b.py", "js=", "py=c.py"]
  have hgood : Request.ofWords? good = some ⟨⟨none, ["py=a=b.py", "py=c.py"], false⟩, .inspect⟩ :=
    ofWords?_preloads ["py=a=b.py", "py=c.py"]
  have hmemory : Memory.Spans (2 ^ 35) := Memory.addressSpace_spans (by decide)
  have hfits := fits_of_octets hwords (by decide) hmemory
  have hfitsGood := fits_of_octets hgood (by decide) hmemory
  have hconfig (preloads : List String) : configure noFiles ⟨none, preloads, false⟩ = .ok {} := rfl
  obtain ⟨-, -, hfailed⟩ := run_inspect hwords (hconfig _) hfits
  obtain ⟨hstatus, hprinted, -⟩ := run_inspect hgood (hconfig _) hfitsGood
  refine ⟨hfailed ["py=a=b.py"] "js=" ["py=c.py"] _ rfl (.cons hfirst .nil) hsecond, ?_,
    (hprinted _ (.cons hfirst (.cons hthird .nil))).2⟩
  refine hstatus.mpr fun text hmem => ?_
  rcases List.mem_cons.mp hmem with rfl | hlast
  · exact ⟨_, hfirst⟩
  · rw [List.mem_singleton.mp hlast]
    exact ⟨_, hthird⟩

end Run

end CommandLine

end ForeignCall
