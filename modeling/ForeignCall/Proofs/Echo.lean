import ForeignCall.Proofs.JsonTrees
import ForeignCall.Proofs.Acyclicity
import ForeignCall.Proofs.Nearest
import ForeignCall.Proofs.Preloads

/-!
# ForeignCall.Proofs.Echo

JSON that is sent through `echo`.

It is built in the host, read into a value, answered as it came, built again
and viewed.  All four steps keep its shape, so it comes back as it was, but for
its integers: the host has doubles only, and each integer becomes the nearest
of them (`Json.Rounds`).  Of the bounds on the way only those of marshaling
count, since nodes and levels of the JSON are nodes and levels of what is
built: at most 64 levels below the root, and at most as many nodes as the
configuration allows.

* `Site.call_echo` — the call, in any host in which the JSON has been built;
* `CommandLine.run_echo` — the command line, with any good preloads before it;
* `echo_json` — both.
-/

namespace ForeignCall

open Bridge Marshal

/-! ## Integers as doubles -/

namespace Json

mutual

/-- The second JSON is the first with the nearest double for each integer, and nothing else
changed. -/
inductive Rounds : Json → Json → Prop where
  | null : Rounds .null .null
  | bool (b : Bool) : Rounds (.bool b) (.bool b)
  | integer {n : Int} {lower : -2 ^ 63 ≤ n} {upper : n < 2 ^ 64} {x : Binary64}
      {finite : x.isFinite = true} : x.Nearest n →
      Rounds (.number (.integer n lower upper)) (.number (.real x finite))
  | real (x : Binary64) (finite : x.isFinite = true) :
      Rounds (.number (.real x finite)) (.number (.real x finite))
  | string (s : String) : Rounds (.string s) (.string s)
  | array {items items' : List Json} : RoundsItems items items' →
      Rounds (.array items) (.array items')
  | object {fields fields' : List (String × Json)} : RoundsFields fields fields' →
      Rounds (.object fields) (.object fields')

/-- The same for the items of an array, in order. -/
inductive RoundsItems : List Json → List Json → Prop where
  | nil : RoundsItems [] []
  | cons {item item' : Json} {rest rest' : List Json} : Rounds item item' →
      RoundsItems rest rest' → RoundsItems (item :: rest) (item' :: rest')

/-- The same for the fields of an object, with the same keys. -/
inductive RoundsFields : List (String × Json) → List (String × Json) → Prop where
  | nil : RoundsFields [] []
  | cons {key : String} {item item' : Json} {rest rest' : List (String × Json)} :
      Rounds item item' → RoundsFields rest rest' →
      RoundsFields ((key, item) :: rest) ((key, item') :: rest')

end

theorem rounds_number (n : Number) :
    Rounds (.number n) (.ofBinary64 n.toBinary64) := by
  cases n with
  | integer n lower upper =>
    have hnearest : (Binary64.ofInt n).Nearest n := Binary64.ofInt_nearest (by omega)
    have hfinite : (Binary64.ofInt n).isFinite = true := hnearest.isFinite
    rw [Number.toBinary64, ofBinary64, dif_pos hfinite]
    exact .integer hnearest
  | real x finite =>
    rw [Number.toBinary64, ofBinary64, dif_pos finite]
    exact .real x finite

mutual

/-- In doubles means: with the nearest ones. -/
theorem rounds_inDoubles : ∀ j : Json, j.Rounds j.inDoubles
  | .null => .null
  | .bool b => .bool b
  | .number n => rounds_number n
  | .string s => .string s
  | .array items => .array (roundsItems_inDoubles items)
  | .object fields => .object (roundsFields_inDoubles fields)

theorem roundsItems_inDoubles : ∀ items : List Json, RoundsItems items (inDoublesItems items)
  | [] => .nil
  | item :: rest => .cons (rounds_inDoubles item) (roundsItems_inDoubles rest)

theorem roundsFields_inDoubles : ∀ fields : List (String × Json),
    RoundsFields fields (inDoublesFields fields)
  | [] => .nil
  | (_, item) :: rest => .cons (rounds_inDoubles item) (roundsFields_inDoubles rest)

end

end Json

/-! ## The call -/

namespace Site

/-- A site whose module can be asked for `echo`. -/
structure Echoes (s : Site Arena) : Prop where
  entry : s.module.entry? Export.invoke.name = some .invoke
  echo : ∃ f, Entries.find? "echo" s.module.engine.functions = some f ∧
    ∀ history args, f.behaviour history args = Builtin.echo args

/-- A module that has been started over the built-in functions can be asked, in any host. -/
theorem echoes_of_start {config : Config} {logStream : Nat} {m : Module}
    (h : Module.start .withBuiltins config logStream = .ok m) (host : Arena)
    (streams : Log.Streams) : Echoes ⟨m, host, streams⟩ := by
  cases h
  exact ⟨rfl, _, rfl, fun _ _ => rfl⟩

variable {s : Site Arena} {name h : Handle}

/-- The engine answers with the value that it was asked with. -/
theorem Echoes.callByName (hs : s.Echoes) (v : Value) : ∃ engine streams,
    s.module.engine.callByName "echo" [v] s.streams = (.value v, engine, streams) := by
  obtain ⟨f, hfind, hbehaviour⟩ := hs.echo
  unfold Engine.callByName
  simp only [hfind, hbehaviour, Builtin.echo]
  exact ⟨_, _, rfl⟩

section Run

variable [Memory] (hmemory : Memory.Spans valueWidth)
include hmemory

/-- The name, the handles and the argument each need no more than a value. -/
theorem addressed_echo (hname : s.host.stringOf name = .ok "echo") (h : Handle) :
    Addressed s.world.host name [h] "echo" where
  handlesFit := hmemory (2 * handleWidth) (by decide)
  text := hname
  nonempty := by decide
  nameFits := hmemory _ (by decide)
  valuesFit := hmemory (1 * valueWidth) (by decide)

/-- What can be read is built again, and that is the value of the call. -/
theorem run_echo_of_read (hs : s.Echoes) (hname : s.host.stringOf name = .ok "echo")
    {v : Value.Canonical} (hv : toValue s.module.config.limits h s.host = .ok v s.host)
    {h' : Handle} {b : Arena} (hback : toHost s.module.config.limits v s.host = .ok h' b) :
    ∃ w, s.module.run [name, h] .invoke s.world = .ok (some h') w ∧ w.host = b := by
  obtain ⟨engine, streams, hanswer⟩ := hs.callByName v
  have hreaches : Reaches s.module.config.limits s.world.host name [h] "echo" [v] :=
    ⟨addressed_echo hmemory hname h, .cons hv .nil⟩
  exact ⟨s.world.over b engine streams 2, invoke_of_invocation (.value hreaches hanswer hback), rfl⟩

/-- What cannot be read is an error, and nothing is built. -/
theorem run_echo_of_unread (hname : s.host.stringOf name = .ok "echo")
    {abort : Abort ConversionError}
    (hv : toValue s.module.config.limits h s.host = .error abort s.host) :
    ∃ w, s.module.run [name, h] .invoke s.world = .error (abort.map .conversion) w ∧
      w.host = s.host := by
  have hargument : Invocation s.module.config.limits s.world (name :: ([] ++ h :: [])) _ :=
    .argument (addressed_echo hmemory hname h) .nil hv
  exact ⟨_, invoke_of_invocation hargument, rfl⟩

end Run

end Site

/-- A value that has been built has a slot for each of its nodes. -/
theorem Arena.size_of_toHost {limits : Limits} {a b : Arena} {v : Value} {h : Handle} {k : Nat}
    (hh : toHost limits v a = .ok h b)
    (hk : Survey.Counts Value.parts Value.fault? (maxDepth + 1) v k)
    (hle : k ≤ limits.maxNodes.toNat) : b.slots.size = a.slots.size + k := by
  have hword : limits.maxNodes.toNat < 2 ^ 64 := limits.maxNodes.toNat_lt
  obtain ⟨m, hm, below, w, ⟨hhost, hvisited, -, -⟩, -, -⟩ :=
    (made_exportNode v (Nat.zero_le _)).of_start_ok hh
  have hsurvey : Survey.survey Value.parts Value.fault? limits.maxNodes.toNat (maxDepth + 1) v 0 =
      .ok (0 + k) := Survey.survey_of_counts hk (by omega) (by omega)
  have hcount : m = 0 + k := Except.ok.inj (hm.symm.trans hsurvey)
  simp only at hhost hvisited
  rw [hhost, size_addAll]
  omega

/-- JSON that a handle stands for can be read within the bounds, and then rebuilt as what it is. -/
theorem Arena.reads_json {limits : Limits} {a : Arena} {h : Handle} {j : Json}
    (hu : a.Unfolds h j.tree) :
    ((j.depth ≤ maxDepth ∧ j.size ≤ limits.maxNodes.toNat) ∧ ∃ v h' b,
      toValue limits h a = .ok v a ∧ Rebuilt limits v j.tree.tidy a h' b ∧
      b.slots.size ≤ a.slots.size + j.size) ∨
    (¬ (j.depth ≤ maxDepth ∧ j.size ≤ limits.maxNodes.toNat) ∧ ∃ abort,
      toValue limits h a = .error abort a) := by
  by_cases hfits : j.depth ≤ maxDepth ∧ j.size ≤ limits.maxNodes.toNat
  · obtain ⟨value, hvalue⟩ := j.value?_tree
    let v : Value.Canonical := ⟨value, HostTree.ordered_of_value? hvalue⟩
    have hmeans : a.Means h v := ⟨j.tree, hu, hvalue⟩
    have hcounts : Survey.Counts a.partsOf a.fault? (maxDepth + 1) h j.size :=
      (counts_of_unfolds hu).mpr ⟨Nat.lt_succ_of_le hfits.1, rfl⟩
    obtain ⟨k, hk, hcountsV⟩ := counts_of_means hmeans hcounts
    obtain ⟨h', b, hrebuilt⟩ := exists_rebuilt (v := v) hvalue hcountsV (Nat.le_trans hk hfits.2) a
    have hsize := size_of_toHost hrebuilt.built hcountsV (Nat.le_trans hk hfits.2)
    exact .inl ⟨hfits, v, h', b, toValue_of_counts hcounts hfits.2 hmeans, hrebuilt, by omega⟩
  · refine .inr ⟨hfits, ?_⟩
    cases hv : toValue limits h a with
    | ok v b =>
      obtain ⟨⟨k, hk, hcounts⟩, -⟩ := counts_of_toValue hv
      obtain ⟨hdepth, rfl⟩ := (counts_of_unfolds hu).mp hcounts
      exact absurd ⟨Nat.le_of_lt_succ hdepth, hk⟩ hfits
    | error abort b =>
      cases toValue_frame_error hv
      exact ⟨abort, rfl⟩

namespace Site

variable [Memory] {s : Site Arena} {name h : Handle} {j : Json.Canonical}
  (hmemory : Memory.Spans valueWidth)
include hmemory

/-- What becomes of JSON that has been built, when `echo` is asked for it. -/
theorem run_echo (hs : s.Echoes) (hname : s.host.stringOf name = .ok "echo")
    (hu : s.host.Unfolds h j.json.tree) :
    let fits := j.json.depth ≤ maxDepth ∧ j.json.size ≤ s.module.config.limits.maxNodes.toNat
    (fits ∧ ∃ h' w, s.module.run [name, h] .invoke s.world = .ok (some h') w ∧
      s.host.Grows w.host ∧ w.host.slots.size ≤ s.host.slots.size + j.json.size ∧
      (w.host.slots.size ≤ 2 ^ 32 → w.host.toJson? h' = some j.json.inDoubles)) ∨
    (¬ fits ∧ ∃ abort w, s.module.run [name, h] .invoke s.world = .error abort w ∧
      w.host = s.host) := by
  intro fits
  rcases Arena.reads_json hu with ⟨hfits, v, h', b, hv, hrebuilt, hsize⟩ | ⟨hfits, abort, hv⟩
  · obtain ⟨w, hrun, rfl⟩ := run_echo_of_read hmemory hs hname hv hrebuilt.built
    refine .inl ⟨hfits, h', w, hrun, hrebuilt.kept, hsize, fun hroom => ?_⟩
    have hview := (hrebuilt.unfolds hroom).view
    rwa [Json.tidy_tree j.ordered, Json.json_tree j.ordered] at hview
  · obtain ⟨w, hrun, hhost⟩ := run_echo_of_unread hmemory hname hv
    exact .inr ⟨hfits, _, w, hrun, hhost⟩

/-- No more slots are added than there are nodes. -/
theorem size_call_echo (hs : s.Echoes) (hname : s.host.stringOf name = .ok "echo")
    (hu : s.host.Unfolds h j.json.tree) :
    (s.call Export.invoke.name [name, h]).2.host.slots.size ≤ s.host.slots.size + j.json.size := by
  rcases run_echo hmemory hs hname hu with
    ⟨-, h', w, hrun, -, hsize, -⟩ | ⟨-, abort, w, hrun, hhost⟩
  · simp only [call_eq, hs.entry, hrun]
    exact hsize
  · simp only [call_eq, hs.entry, hrun]
    exact Nat.le_trans (Nat.le_of_eq (congrArg (·.slots.size) hhost)) (Nat.le_add_right _ _)

/-- **Echo through the bridge**: JSON that has been built in the host comes back with the nearest
double for each integer, if it has few enough levels and nodes; otherwise one error is raised, and
there is no value. -/
theorem call_echo (hs : s.Echoes) {a : Arena}
    (hbuilt : (a.ofJson j).2.Extends s.host) (hname : s.host.stringOf name = .ok "echo") :
    let answer := s.call Export.invoke.name [name, (a.ofJson j).1]
    answer.2.host.slots.size ≤ 2 ^ 32 →
    (answer.1.isSome ↔
      j.json.depth ≤ maxDepth ∧ j.json.size ≤ s.module.config.limits.maxNodes.toNat) ∧
    (∀ h, answer.1 = some h → answer.2.host.errors = s.host.errors ∧
      answer.2.host.toJson? h = some j.json.inDoubles) ∧
    (answer.1 = none → ∃ message, answer.2.host.errors = s.host.errors ++ [message]) := by
  intro answer hsize
  have hlater : s.host.slots.size ≤ answer.2.host.slots.size := (rises_call s _ _).size_le
  have hu : s.host.Unfolds (a.ofJson j).1 j.json.tree := by
    have hfirst := hbuilt.size_le
    cases (a.planted_ofJson j).unfolds (by omega) with
    | cons hunfolds _ => exact hunfolds.extend hbuilt
  rcases run_echo hmemory hs hname hu with ⟨hfits, h', w, hrun, hgrows, -, hview⟩ |
    ⟨hfits, abort, w, hrun, hhost⟩
  · have hcall : answer = (some h', s.become w) := by
      simp only [answer, call_eq, hs.entry, hrun]
    rw [hcall] at hsize ⊢
    refine ⟨⟨fun _ => hfits, fun _ => rfl⟩, ?_, fun hnone => by cases hnone⟩
    rintro _ ⟨⟩
    exact ⟨hgrows.errors_eq, hview hsize⟩
  · have hcall : answer = (none, (s.become w).raise (Module.abortMessage abort)) := by
      simp only [answer, call_eq, hs.entry, hrun]
    rw [hcall]
    refine ⟨⟨fun hsome => (by cases hsome), fun hfits' => absurd hfits' hfits⟩, ?_, fun _ => ?_⟩
    · rintro _ ⟨⟩
    · have hraised :=
        congrArg (fun host : Arena => host.errors ++ [Module.abortMessage abort]) hhost
      exact ⟨_, hraised⟩

end Site

/-! ## The command line -/

theorem Arena.get_alloc {a : Arena} (hsize : a.slots.size < 2 ^ 32) (v : HostValue) :
    (a.alloc v).2.get (handleAt a.slots.size) = .ok v := by
  rw [alloc_eq]
  exact get_addAll_new (i := 0) rfl (by rw [size_addAll]; exact hsize)

namespace CommandLine

variable {config : Config} {records : List LoadRecord} {s : Site Arena} {text : String}
  {j : Json.Canonical}

theorem Stocked.echoes (hs : Stocked config records s) : s.Echoes where
  entry := hs.entry? .invoke
  echo := by
    rw [hs.functions]
    exact ⟨_, rfl, fun _ _ => rfl⟩

/-- The site with the name of `echo` and its argument in the host. -/
def asked (s : Site Arena) (j : Json) : Site Arena :=
  { s with host := ((s.host.alloc (.string "echo")).2.ofJson j).2 }

theorem Stocked.asked (hs : Stocked config records s) (j : Json) :
    Stocked config records (asked s j) := by
  have hgrows : s.host.Grows (CommandLine.asked s j).host :=
    (s.host.grows_alloc (.string "echo")).trans (Arena.planted_ofJson _ j).grows
  exact ⟨hs.config, hs.exports, hs.functions, hs.loads, hs.own, hs.status,
    hgrows.errors_eq.trans hs.settled⟩

theorem invoke_apply [Memory] (hj : Json.read text = .ok j) (s : Site Arena) :
    invoke "echo" [text] s =
      (call .invoke [Arena.handleAt s.host.slots.size,
        ((s.host.alloc (.string "echo")).2.ofJson j).1] >>= view) (asked s j) := by
  have hread : (invoke.ofExcept (readArguments [text]) : Program (List Json)) s = .ok [j] s := by
    simp only [readArguments, hj]
    rfl
  rw [invoke, bind_of_ok hread, onHost_bind, onHost_bind]
  rfl

/-- What comes of asking for `echo` between the steps of a command line. -/
theorem invoke_echo [Memory] (hs : Stocked config records s) (hj : Json.read text = .ok j)
    (hroom : s.host.slots.size + 1 + 2 * j.json.size ≤ 2 ^ 32)
    (hmemory : Memory.Spans valueWidth) :
    let fits := j.json.depth ≤ maxDepth ∧ j.json.size ≤ config.limits.maxNodes.toNat
    (fits ∧ ∃ t, invoke "echo" [text] s = .ok j.json.inDoubles t) ∨
    (¬ fits ∧ ∃ failure t, invoke "echo" [text] s = .error failure t) := by
  let named := (s.host.alloc (.string "echo")).2
  let name := Arena.handleAt s.host.slots.size
  let h := (named.ofJson j).1
  let t := asked s j
  have ht : Stocked config records t := hs.asked j
  have hnamed : named.slots.size = s.host.slots.size + 1 := Array.size_push _
  have hbuilt : t.host.slots.size = named.slots.size + j.json.size := named.size_ofJson j
  have hname : t.host.stringOf name = .ok "echo" := by
    have hget : named.get name = .ok (.string "echo") :=
      Arena.get_alloc (by omega) (.string "echo")
    exact stringOf_of_get ((named.planted_ofJson j).grows.extends.get hget)
  have hu : t.host.Unfolds h j.json.tree := by
    have hsize : t.host.slots.size ≤ 2 ^ 32 := by omega
    cases (named.planted_ofJson j).unfolds hsize with
    | cons hunfolds _ => exact hunfolds
  rw [invoke_apply hj, ← hs.config]
  rcases Site.run_echo hmemory ht.echoes hname hu with
    ⟨hfits, h', w, hrun, hgrows, hsize, hview⟩ | ⟨hfits, abort, w, hrun, -⟩
  · have hcalled : t.call Export.invoke.name [name, h] = (some h', t.become w) := by
      rw [Site.call_eq, ht.entry? .invoke]
      simp only [hrun]
    have herrors : w.host.errors = [] := hgrows.errors_eq.trans ht.settled
    refine .inl ⟨hfits, t.become w, ?_⟩
    exact (bind_of_ok (call_of_value hcalled herrors)).trans (view_of_some (hview (by omega)))
  · exact .inr ⟨hfits, _, _, bind_of_error (call_of_abort (ht.entry? .invoke) hrun)⟩

/-- **Echo on the command line**: behind good preloads, JSON is printed with the nearest double for
each integer, if it has few enough levels and nodes; otherwise nothing is printed. -/
theorem run_echo [Memory] {fileText : String → Except String String} {words : List String}
    {options : Options} (hwords : Request.ofWords? words = some ⟨options, .invoke "echo" [text]⟩)
    (hconfig : configure fileText options = .ok config) (hfits : Fits options.preloads)
    (hgood : ∀ text ∈ options.preloads, ∃ record, Preloads config.limits text record)
    (hj : Json.read text = .ok j)
    (hroom : 3 * options.preloads.length + 1 + 2 * j.json.size ≤ 2 ^ 32) :
    let fits := j.json.depth ≤ maxDepth ∧ j.json.size ≤ config.limits.maxNodes.toNat
    let outcome := run fileText words
    (fits → outcome.status = 0 ∧ outcome.output = j.json.inDoubles.pretty ++ "\n") ∧
    (¬ fits → outcome.status ≠ 0 ∧ outcome.output = "") := by
  intro fits outcome
  obtain ⟨s, hprepare, hcarry, -⟩ := prepared hconfig hfits (.invoke "echo" [text])
  obtain ⟨records, hrecords⟩ := forall₂_of_forall hgood
  obtain ⟨t, ht, hsize, hcarried⟩ := hcarry records hrecords
  have hmemory := hfits.memory.mono (valueWidth_le_need options.preloads)
  rcases invoke_echo ht hj (by omega) hmemory with ⟨hyes, u, hinvoke⟩ | ⟨hno, failure, u, hinvoke⟩
  · have hdone := hcarried.trans (bind_of_ok hinvoke)
    exact ⟨fun _ => run_of_ok hwords hprepare hdone, fun hno => absurd hyes hno⟩
  · have hfailed := hcarried.trans (bind_of_error hinvoke)
    exact ⟨fun hyes => absurd hyes hno, fun _ => run_of_error hwords hprepare hfailed⟩

end CommandLine

/-! ## Both -/

/-- **Echo keeps JSON**, but for its integers, of which each becomes the nearest double.  It does if
no node is more than 64 levels below the root and there are no more nodes than the configuration
allows.  So it is where the JSON has been built in a host, whatever else is there, and a module is
called; otherwise one error is raised and there is no value.  And so it is on the command line,
behind good preloads, where the JSON is printed; otherwise nothing is printed.  Assumed is that
there are handles for all slots, and memory for the 48 octets of a value, or for what the preloads
need. -/
theorem echo_json [Memory] (j : Json.Canonical) :
    j.json.Rounds j.json.inDoubles ∧
    (∀ {s : Site Arena} {a : Arena} {name : Handle}, Memory.Spans 48 → s.Echoes →
      (a.ofJson j).2.Extends s.host → s.host.stringOf name = .ok "echo" →
      let answer := s.call Export.invoke.name [name, (a.ofJson j).1]
      answer.2.host.slots.size ≤ 2 ^ 32 →
      (answer.1.isSome ↔ j.json.depth ≤ 64 ∧ j.json.size ≤ s.module.config.limits.maxNodes.toNat) ∧
      (∀ h, answer.1 = some h → answer.2.host.errors = s.host.errors ∧
        answer.2.host.toJson? h = some j.json.inDoubles) ∧
      (answer.1 = none → ∃ message, answer.2.host.errors = s.host.errors ++ [message])) ∧
    (∀ {fileText : String → Except String String} {words : List String}
      {options : CommandLine.Options} {config : Config} {text : String},
      CommandLine.Request.ofWords? words = some ⟨options, .invoke "echo" [text]⟩ →
      CommandLine.configure fileText options = .ok config → CommandLine.Fits options.preloads →
      (∀ preload ∈ options.preloads, ∃ record, CommandLine.Preloads config.limits preload record) →
      Json.read text = .ok j → 3 * options.preloads.length + 1 + 2 * j.json.size ≤ 2 ^ 32 →
      let fits := j.json.depth ≤ 64 ∧ j.json.size ≤ config.limits.maxNodes.toNat
      let outcome := CommandLine.run fileText words
      (fits → outcome.status = 0 ∧ outcome.output = j.json.inDoubles.pretty ++ "\n") ∧
      (¬ fits → outcome.status ≠ 0 ∧ outcome.output = "")) :=
  ⟨j.json.rounds_inDoubles, fun hmemory hs hbuilt hname => Site.call_echo hmemory hs hbuilt hname,
    fun hwords hconfig hfits hgood hread => CommandLine.run_echo hwords hconfig hfits hgood hread⟩

/-- An integer in an array, in a host with the name and on the command line. -/
theorem echo_json_one :
    let j : Json.Canonical :=
      ⟨.array [.number (.integer 1 (by decide) (by decide))], trivial, trivial⟩
    let a : Arena := { slots := #[.string "echo"] }
    let s : Site Arena := ⟨⟨{ Engine.withBuiltins with initialized := true }, {}, .withDefaults, 0,
      Export.all⟩, (a.ofJson j).2, #[{}]⟩
    let outcome := CommandLine.run .error ["invoke", "echo", "[1]"]
    j.json.Rounds j.json.inDoubles ∧
      (∃ h, (s.call "invoke" [⟨0⟩, (a.ofJson j).1]).1 = some h ∧
        (s.call "invoke" [⟨0⟩, (a.ofJson j).1]).2.host.toJson? h = some j.json.inDoubles) ∧
      outcome.status = 0 ∧ outcome.output = j.json.inDoubles.pretty ++ "\n" := by
  intro j a s outcome
  have hs : s.Echoes := @Site.echoes_of_start {} 0 _ rfl _ _
  have hmemory : Memory.Spans 48 := Memory.addressSpace_spans (by decide)
  have hread : Json.read "[1]" = .ok j := by rfl
  have hu : s.host.Unfolds (a.ofJson j).1 j.json.tree := by
    cases (a.planted_ofJson j).unfolds (by rw [Arena.size_ofJson]; decide) with
    | cons hunfolds _ => exact hunfolds
  have hsize := Site.size_call_echo hmemory hs (rfl : s.host.stringOf ⟨0⟩ = .ok "echo") hu
  have hroom : s.host.slots.size + j.json.size ≤ 2 ^ 32 := by
    rw [a.size_ofJson j]
    decide
  obtain ⟨hrounds, hcall, hrun⟩ := echo_json j
  obtain ⟨hiff, hvalue, -⟩ := hcall hmemory hs (.refl _) rfl (Nat.le_trans hsize hroom)
  obtain ⟨h, hh⟩ := Option.isSome_iff_exists.mp (hiff.mpr (by decide))
  have hwords : CommandLine.Request.ofWords? ["invoke", "echo", "[1]"] =
      some ⟨{}, .invoke "echo" ["[1]"]⟩ := by decide
  have hfits : CommandLine.Fits [] := ⟨by decide, Memory.addressSpace_spans (by decide)⟩
  have hprinted : outcome.status = 0 ∧ outcome.output = j.json.inDoubles.pretty ++ "\n" :=
    (hrun hwords rfl hfits nofun hread (by decide)).1 (by decide)
  exact ⟨hrounds, ⟨h, hh, (hvalue h hh).2⟩, hprinted⟩

end ForeignCall
