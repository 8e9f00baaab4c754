import ForeignCall.Proofs.Lifecycle

/-!
# ForeignCall.Proofs.Registrations

Which factory makes a policy, and what registering another one changes.

A policy is made by the factory that was registered last under its tag.  That
is read off the steps that were taken (`latest?`):

```
register f₁  …  register f₂  …  create tag      f₂.tag = tag: f₂ decides
register f₁  …  register f₂  …  create tag      f₁.tag = tag ≠ f₂.tag: f₁ decides
register f₁  …  register f₂  …  create tag      none has the tag: it is unknown
```

Registering is seen by those steps only that ask for the tag, so a run that
does not ask for it goes on as it would have without it.  A policy that is
there keeps its backend through all steps but those that move or release it.

`Bench.registered_run` — all of this, after any run.
-/

namespace ForeignCall

namespace Log

namespace Registry

/-! ## Registries that differ in one tag -/

/-- Registries that hold the same under all tags but one. -/
def AgreeBut (tag : String) (r r' : Registry) : Prop :=
  ∀ other, other ≠ tag → Entries.find? other r.factories = Entries.find? other r'.factories

theorem agreeBut_register (r : Registry) (factory : Factory) :
    r.AgreeBut factory.tag (r.register factory) :=
  fun _ hother => (Entries.find?_insert_ne hother factory r.factories).symm

theorem AgreeBut.register {tag : String} {r r' : Registry} (h : r.AgreeBut tag r')
    (factory : Factory) : (r.register factory).AgreeBut tag (r'.register factory) := by
  intro other hother
  by_cases hown : other = factory.tag
  · simp [Registry.register, hown]
  · simp only [Registry.register, Entries.find?_insert_ne hown]
    exact h other hother

end Registry

namespace Bench

/-! ## Registered factories -/

/-- What a step registers. -/
def Step.factory? : Step → Option Factory
  | .register factory => some factory
  | _ => none

theorem Step.factory?_eq_some_iff {s : Step} {factory : Factory} :
    s.factory? = some factory ↔ s = .register factory := by
  cases s <;> simp [factory?]

/-- The factory that was registered last under a tag. -/
def latest? (tag : String) (steps : List Step) : Option Factory :=
  (steps.filterMap Step.factory?).reverse.find? (·.tag = tag)

theorem latest?_cons (tag : String) (s : Step) (rest : List Step) :
    latest? tag (s :: rest) = (latest? tag rest).or (s.factory?.filter (·.tag = tag)) := by
  cases hs : s.factory? with
  | none => simp [latest?, hs]
  | some factory =>
    by_cases htag : factory.tag = tag
    · simp [latest?, hs, htag, Option.filter]
    · simp [latest?, hs, htag, Option.filter]

theorem latest?_eq_none_iff {tag : String} {steps : List Step} :
    latest? tag steps = none ↔ ∀ factory, .register factory ∈ steps → factory.tag ≠ tag := by
  simp only [latest?, List.find?_eq_none, List.mem_reverse, List.mem_filterMap,
    Step.factory?_eq_some_iff, decide_eq_true_eq]
  constructor
  · exact fun h factory hmem => h factory ⟨_, hmem, rfl⟩
  · rintro h factory ⟨_, hmem, rfl⟩
    exact h factory hmem

theorem tag_of_latest? {tag : String} {steps : List Step} {factory : Factory}
    (h : latest? tag steps = some factory) : factory.tag = tag := by
  simpa using List.find?_some h

/-! ## Steps and the registry -/

/-- A step that has nothing to do with the registry. -/
def Step.Aloof : Step → Prop
  | .register _ | .contains _ | .registry | .create .. => False
  | _ => True

/-- Such a step does the same with any registry, and leaves it as it is. -/
theorem step_of_aloof (b : Bench) (registry : Registry) {s : Step} (h : s.Aloof) :
    ({ b with registry } : Bench).step s = ((b.step s).1, { (b.step s).2 with registry }) := by
  have hpolicy (n : Nat) : ({ b with registry } : Bench).policy? n = b.policy? n := rfl
  cases s with
  | register | contains | registry | create => exact h.elim
  | wrap | poison | logger | setMinLevel => rfl
  | write n | flush n =>
    simp only [step, onPolicy, hpolicy]
    cases b.policy? n <;> rfl
  | destroy n | drop n | policy n =>
    simp only [step, hpolicy]
    cases b.policy? n <;> rfl
  | attach l n =>
    simp only [step, hpolicy]
    cases b.policy? n with
    | none => rfl
    | some p => cases b.loggers[l]? <;> rfl
  | log l | flushLogger l =>
    simp only [step, onLogger]
    cases b.loggers[l]? <;> rfl
  | clear l | state l =>
    simp only [step]
    cases b.loggers[l]? <;> rfl

/-- Only registering changes the registry. -/
theorem registry_step (b : Bench) (s : Step) :
    (b.step s).2.registry = (s.factory?.map b.registry.register).getD b.registry := by
  by_cases h : s.Aloof
  · have hsame := congrArg (·.2.registry) (b.step_of_aloof b.registry h)
    cases s <;> first | exact hsame | exact h.elim
  · cases s with
    | register | contains | registry => rfl
    | create tag data =>
      rcases b.step_create_cases tag data with ⟨_, -, hstep⟩ | ⟨_, -, hstep⟩
      · rw [hstep]
        rfl
      · rw [hstep]
        rfl
    | _ => exact absurd trivial h

/-- **The last registration counts.** -/
theorem find?_after (b : Bench) (tag : String) (steps : List Step) :
    Entries.find? tag (b.after steps).registry.factories =
      (latest? tag steps).or (Entries.find? tag b.registry.factories) := by
  induction steps generalizing b with
  | nil => rfl
  | cons s rest ih =>
    rw [after, Run.after_cons, ih, latest?_cons,
      Option.or_assoc, registry_step]
    congr 1
    cases s.factory? with
    | none => rfl
    | some factory =>
      by_cases htag : factory.tag = tag
      · subst htag
        simp [Registry.register, Option.filter]
      · simp [Registry.register, Entries.find?_insert_ne (Ne.symm htag), Option.filter, htag]

/-! ## Registering under other tags -/

/-- A step whose answer depends on what is registered under a tag. -/
def Step.Consults (tag : String) : Step → Prop
  | .create t _ | .contains t => t = tag
  | .registry => True
  | _ => False

/-- A step that does not ask for the tag in which two registries differ has the same answer and
does the same with both. -/
theorem step_of_agreeBut (b : Bench) {tag : String} {r : Registry} {s : Step}
    (h : b.registry.AgreeBut tag r) (hs : ¬ s.Consults tag) :
    ∃ r' : Registry, (b.step s).2.registry.AgreeBut tag r' ∧
      ({ b with registry := r } : Bench).step s =
        ((b.step s).1, { (b.step s).2 with registry := r' }) := by
  by_cases haloof : s.Aloof
  · have hsame := congrArg (·.2.registry) (b.step_of_aloof b.registry haloof)
    exact ⟨r, hsame ▸ h, b.step_of_aloof r haloof⟩
  · cases s with
    | register factory => exact ⟨_, h.register factory, rfl⟩
    | registry => exact absurd trivial hs
    | contains t => exact ⟨r, h, by simp only [step, Registry.contains, Entries.contains, h t hs]⟩
    | create t data =>
      have hcreate : r.create t data b.streams = b.registry.create t data b.streams := by
        simp only [Registry.create, h t hs]
      refine ⟨r, ?_, ?_⟩
      · rw [registry_step]
        exact h
      · simp only [step, hcreate]
        split <;> rfl
    | _ => exact absurd trivial haloof

/-- A run that does not ask for the tag shows the same with both. -/
theorem run_of_agreeBut (b : Bench) {tag : String} {r : Registry} {steps : List Step}
    (h : b.registry.AgreeBut tag r) (hsteps : ∀ s ∈ steps, ¬ s.Consults tag) :
    ({ b with registry := r } : Bench).run steps = b.run steps := by
  induction steps generalizing b r with
  | nil => rfl
  | cons s rest ih =>
    obtain ⟨r', hagree, hstep⟩ := b.step_of_agreeBut h (hsteps s List.mem_cons_self)
    rw [run, run, Run.run_cons, Run.run_cons, hstep]
    exact congrArg _ (ih _ hagree fun t ht => hsteps t (List.mem_cons_of_mem _ ht))

/-! ## Policies that are there -/

/-- A step that takes the policy from under a number, or its backend. -/
def Step.Moves (n : Nat) : Step → Prop
  | .destroy m | .drop m | .attach _ m => m = n
  | _ => False

theorem policy?_setIfInBounds {b : Bench} {m n : Nat} {p : Policy} (h : b.policy? n = some p)
    (hm : m ≠ n) (slot : Option Policy) :
    ((b.policies.setIfInBounds m slot)[n]?).join = some p := by
  rw [Array.getElem?_setIfInBounds_ne hm]
  exact h

theorem policy?_push {b : Bench} {n : Nat} {p : Policy} (h : b.policy? n = some p)
    (slot : Option Policy) : ((b.policies.push slot)[n]?).join = some p := by
  have hlt : n < b.policies.size := lt_size_of_policy? h
  rw [Array.getElem?_push_lt hlt, ← Array.getElem?_eq_getElem hlt]
  exact h

/-- Every other step leaves the policy under a number as it is. -/
theorem policy?_step {b : Bench} {n : Nat} {p : Policy} {s : Step} (h : b.policy? n = some p)
    (hs : ¬ s.Moves n) : (b.step s).2.policy? n = some p := by
  cases s with
  | register | contains | registry | poison | logger | setMinLevel => exact h
  | create tag data =>
    rcases b.step_create_cases tag data with ⟨_, -, hstep⟩ | ⟨_, -, hstep⟩
    · rwa [hstep]
    · rw [hstep]
      exact policy?_push h _
  | wrap => exact policy?_push h _
  | write m | flush m =>
    simp only [step, onPolicy]
    cases b.policy? m <;> exact h
  | destroy m | drop m =>
    simp only [step]
    cases b.policy? m with
    | none => exact h
    | some _ => exact policy?_setIfInBounds h hs _
  | policy m =>
    simp only [step]
    cases b.policy? m <;> exact h
  | attach l m =>
    simp only [step]
    cases b.policy? m with
    | none => exact h
    | some _ =>
      cases b.loggers[l]? with
      | none => exact h
      | some _ => exact policy?_setIfInBounds h hs _
  | log l | flushLogger l =>
    simp only [step, onLogger]
    cases b.loggers[l]? <;> exact h
  | clear l | state l =>
    simp only [step]
    cases b.loggers[l]? <;> exact h

theorem policy?_after {b : Bench} {n : Nat} {p : Policy} {steps : List Step}
    (h : b.policy? n = some p) (hsteps : ∀ s ∈ steps, ¬ s.Moves n) :
    (b.after steps).policy? n = some p :=
  Run.after_induction (motive := (Bench.policy? · n = some p)) h fun _ s hs hp =>
    policy?_step hp (hsteps s hs)

theorem attachedTo_attach {b : Bench} {l n : Nat} {p : Policy} (h : b.policy? n = some p)
    (hl : l < b.loggers.size) (k : Nat) :
    (b.step (.attach l n)).2.attachedTo k = b.attachedTo k ++ if k = l then [p] else [] := by
  simp only [step, h, Array.getElem?_eq_getElem hl, attachedTo, Array.getElem?_setIfInBounds]
  by_cases hk : l = k
  · subst hk
    simp [hl, Logger.attach]
  · simp [hk, Ne.symm hk]

/-- A policy of a logger stays with it until the logger is cleared. -/
theorem mem_attachedTo_step {b : Bench} {l : Nat} {p : Policy} {s : Step}
    (h : p ∈ b.attachedTo l) (hs : s ≠ .clear l) : p ∈ (b.step s).2.attachedTo l := by
  have hl : l < b.loggers.size := by
    by_contra hge
    simp [attachedTo, Array.getElem?_eq_none (Nat.le_of_not_lt hge)] at h
  cases s with
  | register | contains | registry | poison | wrap => exact h
  | create tag data =>
    rcases b.step_create_cases tag data with ⟨_, -, hstep⟩ | ⟨_, -, hstep⟩
    · rwa [hstep]
    · rw [hstep]
      exact h
  | write m | flush m =>
    simp only [step, onPolicy]
    cases b.policy? m <;> exact h
  | destroy m | drop m | policy m =>
    simp only [step]
    cases b.policy? m <;> exact h
  | logger level =>
    simp only [step, attachedTo, Array.getElem?_push_lt hl, ← Array.getElem?_eq_getElem hl]
    exact h
  | setMinLevel k level =>
    simp only [step, attachedTo, Array.getElem?_modify, Array.getElem?_eq_getElem hl] at h ⊢
    split_ifs <;> exact h
  | attach k m =>
    by_cases hk : k < b.loggers.size
    · cases hm : b.policy? m with
      | none =>
        simp only [step, hm]
        exact h
      | some q =>
        rw [attachedTo_attach hm hk]
        exact List.mem_append_left _ h
    · simp only [step, Array.getElem?_eq_none (Nat.le_of_not_lt hk)]
      cases b.policy? m <;> exact h
  | log k | flushLogger k =>
    simp only [step, onLogger]
    cases b.loggers[k]? <;> exact h
  | state k =>
    simp only [step]
    cases b.loggers[k]? <;> exact h
  | clear k =>
    have hk : k ≠ l := fun heq => hs (heq ▸ rfl)
    simp only [step]
    cases b.loggers[k]? with
    | none => exact h
    | some logger =>
      simp only [attachedTo, Array.getElem?_setIfInBounds_ne hk]
      exact h

theorem mem_attachedTo_after {b : Bench} {l : Nat} {p : Policy} {steps : List Step}
    (h : p ∈ b.attachedTo l) (hsteps : .clear l ∉ steps) : p ∈ (b.after steps).attachedTo l :=
  Run.after_induction (motive := (p ∈ Bench.attachedTo · l)) h fun _ _ hs hp =>
    mem_attachedTo_step hp fun hclear => hsteps (hclear ▸ hs)

/-! ## Creating -/

theorem step_create_of_build {b : Bench} {tag : String} {data : Construction} {factory : Factory}
    {backend : Backend} (h : Entries.find? tag b.registry.factories = some factory)
    (hbuild : factory.build data = .ok backend) :
    b.step (.create tag data) = b.enroll ⟨tag, some backend⟩ (b.streams.hold backend.stream) := by
  simp only [step, Registry.create, h, hbuild, Policy.ofBackend]

theorem step_create_of_refused {b : Bench} {tag : String} {data : Construction} {factory : Factory}
    (h : Entries.find? tag b.registry.factories = some factory)
    (hbuild : ∀ backend, factory.build data ≠ .ok backend) :
    b.step (.create tag data) = (.failed (.invalidCtor factory.tag), b) := by
  rcases factory.build_cases data with herror | ⟨backend, -, hok⟩
  · simp only [step, Registry.create, h, herror]
  · exact absurd hok (hbuild backend)

/-- Nothing else makes a tag unknown. -/
theorem step_create_eq_unknown_iff {b : Bench} {tag : String} {data : Construction} :
    b.step (.create tag data) = (.failed (.unknownTag tag), b) ↔
      Entries.find? tag b.registry.factories = none := by
  constructor
  · intro hunknown
    cases h : Entries.find? tag b.registry.factories with
    | none => rfl
    | some factory =>
      rcases factory.build_cases data with herror | ⟨backend, -, hok⟩
      · cases (step_create_of_refused h (by simp [herror])).symm.trans hunknown
      · cases (step_create_of_build h hok).symm.trans hunknown
  · intro h
    simp only [step, Registry.create, h]

/-! ## After a run -/

/-- What is written and flushed under a number goes through a backend, and is answered by it. -/
def Serves (b : Bench) (n : Nat) (backend : Backend) : Prop :=
  (∀ bytes, b.step (.write n bytes) =
    (.ofResult (backend.write b.streams bytes).1,
      { b with streams := (backend.write b.streams bytes).2 })) ∧
  b.step (.flush n) =
    (.ofResult (backend.flush b.streams).1, { b with streams := (backend.flush b.streams).2 })

theorem serves_of_policy? {b : Bench} {n : Nat} {tag : String} {backend : Backend}
    (h : b.policy? n = some ⟨tag, some backend⟩) : b.Serves n backend :=
  ⟨fun _ => by simp only [step, onPolicy, h, Policy.write],
    by simp only [step, onPolicy, h, Policy.flush]⟩

/-- Whatever happens, a policy that is under a number stays there until it is moved or released, its
backend serves it, and once it is moved to a logger it stays with that one until it is cleared. -/
structure Keeps (b : Bench) (n : Nat) (tag : String) (backend : Backend) (more : List Step) :
    Prop where
  policy : (b.after more).policy? n = some ⟨tag, some backend⟩
  serves : (b.after more).Serves n backend
  attached : ∀ l further, l < (b.after more).loggers.size → .clear l ∉ further →
    ⟨tag, some backend⟩ ∈ (((b.after more).step (.attach l n)).2.after further).attachedTo l

theorem keeps_of_policy? {b : Bench} {n : Nat} {tag : String} {backend : Backend} {more : List Step}
    (h : b.policy? n = some ⟨tag, some backend⟩) (hmore : ∀ s ∈ more, ¬ s.Moves n) :
    b.Keeps n tag backend more where
  policy := policy?_after h hmore
  serves := serves_of_policy? (policy?_after h hmore)
  attached l further hl hfurther := by
    refine mem_attachedTo_after ?_ hfurther
    rw [attachedTo_attach (policy?_after h hmore) hl, if_pos rfl]
    exact List.mem_append_right _ List.mem_cons_self

/-- What comes of the registrations among the steps that led to a bench. -/
structure Registered (b : Bench) (steps : List Step) : Prop where
  /-- A tag is unknown just if nothing was ever registered under it. -/
  unknown : ∀ tag data, b.step (.create tag data) = (.failed (.unknownTag tag), b) ↔
    ∀ factory, .register factory ∈ steps → factory.tag ≠ tag
  /-- Otherwise the factory registered last decides: it refuses the data, -/
  refused : ∀ tag data factory, latest? tag steps = some factory →
    (∀ backend, factory.build data ≠ .ok backend) →
      b.step (.create tag data) = (.failed (.invalidCtor tag), b)
  /-- or there is a new policy over what it builds, -/
  created : ∀ tag data factory backend, latest? tag steps = some factory →
    factory.build data = .ok backend →
      b.step (.create tag data) = (.created b.policies.size,
        { b with
          policies := b.policies.push (some ⟨tag, some backend⟩)
          streams := b.streams.hold backend.stream })
  /-- which keeps it, whatever else is registered. -/
  kept : ∀ tag data factory backend more, latest? tag steps = some factory →
    factory.build data = .ok backend → (∀ s ∈ more, ¬ s.Moves b.policies.size) →
      (b.step (.create tag data)).2.Keeps b.policies.size tag backend more
  /-- A registration is seen by those only who ask for its tag. -/
  elsewhere : ∀ factory more, (∀ s ∈ more, ¬ s.Consults factory.tag) →
    (b.step (.register factory)).2.run more = b.run more

/-- **Registrations.**  Whatever steps are taken from a bench where nothing is registered, policies
are made by the factory that was registered last under their tag, and neither registrations under
other tags nor later ones make a difference to them. -/
theorem registered_run (streams : Streams) (steps : List Step) :
    (({ streams } : Bench).after steps).Registered steps := by
  have hfind (tag : String) := find?_after { streams } tag steps
  simp only [Entries.find?, Option.or_none] at hfind
  generalize ({ streams } : Bench).after steps = b at hfind ⊢
  refine ⟨fun tag data => ?_, fun tag data factory hlatest hbuild => ?_,
    fun tag data factory backend hlatest hbuild =>
      step_create_of_build (hfind tag ▸ hlatest) hbuild,
    fun tag data factory backend more hlatest hbuild hmore => ?_, fun factory more hmore => ?_⟩
  · rw [← latest?_eq_none_iff, ← hfind]
    exact step_create_eq_unknown_iff
  · have hrefused := step_create_of_refused (hfind tag ▸ hlatest) hbuild
    rwa [tag_of_latest? hlatest] at hrefused
  · rw [step_create_of_build (hfind tag ▸ hlatest) hbuild]
    exact keeps_of_policy? (by simp [enroll, policy?]) hmore
  · exact run_of_agreeBut b (b.registry.agreeBut_register factory) hmore

/-- A bench with the default registry is one where the stdio factory was registered first. -/
example (streams : Streams) :
    ({ registry := .withDefaults, streams } : Bench) =
      ({ streams } : Bench).after [.register .stdio] :=
  rfl

/-- After the tag of the stdio backend has been taken over, an older policy writes as before. -/
example :
    let start : Bench := { streams := #[{}] }
    let steps : List Step := [.register .stdio, .create stdioTag (.stdio 0),
      .register (.prefixed stdioTag [62]), .create stdioTag (.stdio 0),
      .create stdioTag (.prefixed 0), .write 0 [104, 105], .write 1 [104, 105]]
    (start.after steps).streams[0]?.map (·.content) = some #[104, 105, 62, 104, 105] := by
  rfl

end Bench

end Log

end ForeignCall
