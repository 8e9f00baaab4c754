import ForeignCall.Ledger.Holdings
import ForeignCall.Proofs.Counting

/-!
# ForeignCall.Proofs.Accounting

What a ledger reports, read off the steps that were taken.

An `Inventory` lists the things that were created, in order, each with its
token, and strikes off what is given up.  It also knows to which ledger each
handle leads.  It looks at steps and answers only.  Holdings that went through
the same steps agree with it (`Holdings.Accounts`): what stands under a number
is what the inventory has there, and for each token

```
acquired  =  entries          released  =  entries struck off
```

Every step keeps the agreement (`Holdings.Accounts.step`), and so does every
run (`Holdings.Accounts.run`).  What follows of the numbers that the handles
report is `Holdings.Audited`.
-/

namespace ForeignCall

namespace Ledger

/-! ## The inventory -/

/-- A thing that was created. -/
structure Entry where
  token : Token
  held : Bool := true
deriving DecidableEq, Repr

namespace Entry

/-- The thing is given up; its token stays on record. -/
def strike (e : Entry) : Entry :=
  { e with held := false }

/-- The token, while the thing is held. -/
def token? (e : Entry) : Option Token :=
  if e.held then some e.token else none

end Entry

/-- The ledgers, the handles to them, and the things that were created. -/
structure Inventory where
  ledgers : Nat := 1
  /-- The ledger of each handle. -/
  handles : List Nat := [0]
  entries : List Entry := []
deriving DecidableEq, Repr

namespace Inventory

/-- A new thing, in a ledger. -/
def enter (inv : Inventory) (ledger : Nat) (r : Resource) : Inventory :=
  { inv with entries := inv.entries ++ [{ token := ⟨ledger, r⟩ }] }

/-- A new thing, in the ledger of a handle. -/
def enterThrough (inv : Inventory) (handle : Nat) (r : Resource) : Inventory :=
  match inv.handles[handle]? with
  | some ledger => inv.enter ledger r
  | none => inv

/-- A new thing, in the ledger of another. -/
def enterBeside (inv : Inventory) (n : Nat) (r : Resource) : Inventory :=
  match inv.entries[n]? with
  | some e => inv.enter e.token.ledger r
  | none => inv

/-- A thing is given up. -/
def strike (inv : Inventory) (n : Nat) : Inventory :=
  { inv with entries := inv.entries.modify n Entry.strike }

/-- What a step and its answer tell. -/
def record (inv : Inventory) : Holdings.Step → Holdings.Answer → Inventory
  | .acquire r handle, .created _ => inv.enterThrough handle r
  | .value _ handle, .created _ => inv.enterThrough handle .value
  | .native _ handle, .created _ => inv.enterThrough handle .nativeString
  | .allocator handle, .created _ => inv.enterThrough handle .allocator
  | .alloc a _, .created _ => inv.enterBeside a .buffer
  | .free b _, .nothing => inv.strike b
  | .drop n, _ => inv.strike n
  | .destroy n, .nothing => inv.strike n
  | .intoValue n, .value _ => inv.strike n
  | .ledger, _ =>
    { inv with ledgers := inv.ledgers + 1, handles := inv.handles ++ [inv.ledgers] }
  | .clone handle, _ =>
    match inv.handles[handle]? with
    | some ledger => { inv with handles := inv.handles ++ [ledger] }
    | none => inv
  | _, _ => inv

/-- The inventory of a history of steps and their answers. -/
def ofHistory (history : List (Holdings.Step × Holdings.Answer)) : Inventory :=
  history.foldl (fun inv entry => inv.record entry.1 entry.2) {}

/-- The things that were created under a token. -/
def acquired (inv : Inventory) (t : Token) : Nat :=
  inv.entries.countP fun e => e.token = t

/-- Those of them that were given up. -/
def released (inv : Inventory) (t : Token) : Nat :=
  inv.entries.countP fun e => e.token = t && !e.held

/-- Those of them that are held. -/
def live (inv : Inventory) (t : Token) : Nat :=
  inv.entries.countP fun e => e.token = t && e.held

/-- The things that are held and were created in a ledger. -/
def outstanding (inv : Inventory) (ledger : Nat) : Nat :=
  inv.entries.countP fun e => e.token.ledger = ledger && e.held

/-! ### Counting -/

variable (inv : Inventory)

/-- What was created was given up or is held. -/
theorem acquired_eq (t : Token) : inv.acquired t = inv.released t + inv.live t := by
  rw [acquired, List.countP_eq_countP_filter_add _ _ (fun e => !e.held), released, live,
    List.countP_filter, List.countP_filter]
  simp

/-- What is held in a ledger is held under one of its tokens. -/
theorem outstanding_eq (k : Nat) :
    inv.outstanding k = (Resource.all.map fun r => inv.live ⟨k, r⟩).foldr (· + ·) 0 := by
  simp only [outstanding, live, Resource.all, List.map, List.foldr]
  induction inv.entries with
  | nil => rfl
  | cons e entries ih =>
    obtain ⟨⟨ledger, r⟩, held⟩ := e
    simp only [List.countP_cons, ih, Token.mk.injEq]
    cases r <;> simp <;> omega

/-- Nothing is given up that was not created. -/
theorem released_le (t : Token) : inv.released t ≤ inv.acquired t := by
  rw [inv.acquired_eq t]
  exact Nat.le_add_right _ _

theorem acquired_le (t : Token) : inv.acquired t ≤ inv.entries.length :=
  List.countP_le_length

theorem outstanding_le (k : Nat) : inv.outstanding k ≤ inv.entries.length :=
  List.countP_le_length

theorem acquired_enter (k : Nat) (r : Resource) (t : Token) :
    (inv.enter k r).acquired t = inv.acquired t + if ⟨k, r⟩ = t then 1 else 0 := by
  simp [acquired, enter, List.countP_append, List.countP_singleton]

theorem released_enter (k : Nat) (r : Resource) (t : Token) :
    (inv.enter k r).released t = inv.released t := by
  simp [released, enter, List.countP_append]

variable {inv} {n : Nat} {e : Entry}

theorem acquired_strike (he : inv.entries[n]? = some e) (t : Token) :
    (inv.strike n).acquired t = inv.acquired t :=
  Nat.add_right_cancel (countP_modify (fun e : Entry => decide (e.token = t)) he)

theorem released_strike (he : inv.entries[n]? = some e) (hheld : e.held = true) (t : Token) :
    (inv.strike n).released t = inv.released t + if e.token = t then 1 else 0 := by
  have hcount := countP_modify (f := Entry.strike)
    (fun e : Entry => decide (e.token = t) && !e.held) he
  by_cases ht : e.token = t <;> simpa [released, strike, Entry.strike, hheld, ht] using hcount

/-- What was given up before is not given up again. -/
theorem strike_of_gone (h : ∀ e, inv.entries[n]? = some e → e.held = false) :
    inv.strike n = inv := by
  rw [strike, modify_of_fixed fun e he => ?_]
  rw [Entry.strike, ← h e he]

/-! ### Handles -/

@[simp] theorem handles_enterThrough (inv : Inventory) (l : Nat) (r : Resource) :
    (inv.enterThrough l r).handles = inv.handles := by
  rw [enterThrough]
  split <;> rfl

@[simp] theorem handles_enterBeside (inv : Inventory) (n : Nat) (r : Resource) :
    (inv.enterBeside n r).handles = inv.handles := by
  rw [enterBeside]
  split <;> rfl

/-- A handle keeps its ledger. -/
theorem handles_record {l k : Nat} (hl : inv.handles[l]? = some k) (s : Holdings.Step)
    (answer : Holdings.Answer) : (inv.record s answer).handles[l]? = some k := by
  have happend (new : List Nat) : (inv.handles ++ new)[l]? = some k := by
    rw [List.getElem?_append_left (List.getElem?_eq_some_iff.mp hl).1, hl]
  unfold record
  split
  case h_10 => exact happend _
  case h_11 =>
    split
    · exact happend _
    · exact hl
  all_goals simpa [strike] using hl

theorem handles_foldl {l k : Nat} (hl : inv.handles[l]? = some k)
    (history : List (Holdings.Step × Holdings.Answer)) :
    (history.foldl (fun inv entry => inv.record entry.1 entry.2) inv).handles[l]? = some k := by
  induction history generalizing inv with
  | nil => exact hl
  | cons entry rest ih => exact ih (handles_record hl entry.1 entry.2)

end Inventory

/-! ## Agreement of holdings with their inventory -/

namespace Holdings

/-- The holdings after a run of steps. -/
abbrev after [Memory] (h : Holdings) (steps : List Step) : Holdings :=
  Run.after step h steps

/-- The steps of a run, each with its answer. -/
abbrev history [Memory] (h : Holdings) (steps : List Step) : List (Step × Answer) :=
  Run.history step h steps

/-- The holdings and the inventory tell the same story. -/
structure Accounts (h : Holdings) (inv : Inventory) : Prop where
  ledgers : h.ledgers.size = inv.ledgers
  handles : h.handles.toList = inv.handles
  size : h.items.size = inv.entries.length
  /-- Each handle leads to a ledger. -/
  leads : ∀ k ∈ inv.handles, k < inv.ledgers
  /-- Each thing was entered in a ledger. -/
  entered : ∀ e ∈ inv.entries, e.token.ledger < inv.ledgers
  /-- The token that is held under a number. -/
  tokens : ∀ n : Nat, (h.held? n).map Held.token = inv.entries[n]?.bind Entry.token?
  counts : ∀ (k : Nat) (ledger : Ledger), h.ledgers[k]? = some ledger → ∀ r,
    ledger.account r = { acquired := inv.acquired ⟨k, r⟩, released := inv.released ⟨k, r⟩ }

namespace Accounts

variable {h h' : Holdings} {inv : Inventory} {n k : Nat} {held : Held}

theorem handle (a : h.Accounts inv) (l : Nat) : h.handles[l]? = inv.handles[l]? := by
  rw [← a.handles, Array.getElem?_toList]

/-- The thing under a number is the one the inventory has under it. -/
theorem entry (a : h.Accounts inv) (hn : h.held? n = some held) :
    ∃ e, inv.entries[n]? = some e ∧ e.held = true ∧ e.token = held.token := by
  have htoken := a.tokens n
  rw [hn, Option.map_some] at htoken
  obtain ⟨e, he, htoken⟩ := Option.bind_eq_some_iff.mp htoken.symm
  rw [Entry.token?, Option.ite_none_right_eq_some] at htoken
  exact ⟨e, he, htoken.1, Option.some.inj htoken.2⟩

/-- A thing that is gone is not struck off again. -/
theorem strike_of_none (a : h.Accounts inv) (hn : h.held? n = none) : inv.strike n = inv := by
  refine Inventory.strike_of_gone fun e he => ?_
  have htoken := a.tokens n
  rw [hn, he, Option.map_none, Option.bind_some, Entry.token?] at htoken
  by_contra hheld
  rw [if_pos (Bool.of_not_eq_false hheld)] at htoken
  cases htoken

/-! ### Things come -/

theorem create (a : h.Accounts inv) (hk : k < inv.ledgers) (item : Item) :
    (h.create k item).2.Accounts (inv.enter k item.resource) where
  ledgers := Array.size_modify.trans a.ledgers
  handles := a.handles
  size := by simp [Holdings.create, Inventory.enter, a.size]
  leads := a.leads
  entered e he := by
    rcases List.mem_append.mp he with he | he
    · exact a.entered e he
    · rw [List.mem_singleton.mp he]
      exact hk
  tokens m := by
    have htoken := a.tokens m
    simp only [Holdings.create, held?, Array.getElem?_push, Inventory.enter,
      List.getElem?_append] at htoken ⊢
    rw [a.size]
    split_ifs with hm hlt
    · omega
    · rw [hm, Nat.sub_self]
      rfl
    · exact htoken
    · rw [Array.getElem?_eq_none (by rw [a.size]; omega), List.getElem?_eq_none (by simp; omega)]
      rfl
  counts j ledger hledger r := by
    simp only [Holdings.create, Array.getElem?_modify] at hledger
    rw [Inventory.acquired_enter, Inventory.released_enter]
    split_ifs at hledger with hj
    · obtain ⟨before, hbefore, rfl⟩ := Option.map_eq_some_iff.mp hledger
      rw [account_acquire, a.counts j before hbefore r]
      by_cases hr : item.resource = r
      · simp [hj, hr]
      · simp [hj, hr, Ne.symm hr]
    · rw [a.counts j ledger hledger r]
      simp [hj]

theorem createThrough (a : h.Accounts inv) (l : Nat) (item : Item) :
    (h.createThrough l item).2.Accounts (inv.enterThrough l item.resource) := by
  rw [Holdings.createThrough, Inventory.enterThrough, a.handle]
  cases hl : inv.handles[l]? with
  | none => exact a
  | some k => exact a.create (a.leads k (List.mem_of_getElem? hl)) item

/-- A thing comes beside another that is held. -/
theorem createBeside (a : h.Accounts inv) (hn : h.held? n = some held) (item : Item) :
    (h.create held.ledger item).2.Accounts (inv.enterBeside n item.resource) := by
  obtain ⟨e, he, -, htoken⟩ := a.entry hn
  have hledger : e.token.ledger = held.ledger := by rw [htoken]; rfl
  rw [Inventory.enterBeside, he, ← hledger]
  exact a.create (a.entered e (List.mem_of_getElem? he)) item

/-! ### Things go -/

theorem giveUp (a : h.Accounts inv) (hn : h.held? n = some held) :
    (h.giveUp n held.token).Accounts (inv.strike n) := by
  obtain ⟨e, he, hheld, htoken⟩ := a.entry hn
  refine ⟨Array.size_modify.trans a.ledgers, a.handles, ?_, a.leads, fun d hd => ?_, fun m => ?_,
    fun j ledger hledger r => ?_⟩
  · simpa [Holdings.giveUp, Inventory.strike] using a.size
  · obtain ⟨m, hm⟩ := List.getElem?_of_mem hd
    simp only [Inventory.strike, List.getElem?_modify] at hm
    obtain ⟨c, hc, rfl⟩ := Option.map_eq_some_iff.mp hm
    have hentered := a.entered c (List.mem_of_getElem? hc)
    split_ifs
    · exact hentered
    · exact hentered
  · have hbefore := a.tokens m
    simp only [Holdings.giveUp, held?, Array.getElem?_setIfInBounds, Inventory.strike,
      List.getElem?_modify] at hbefore ⊢
    by_cases hm : n = m
    · subst hm
      simp only [if_true, he]
      split_ifs <;> rfl
    · simpa only [hm, if_false, id_map'] using hbefore
  · simp only [Holdings.giveUp, Array.getElem?_modify] at hledger
    rw [Inventory.acquired_strike he, Inventory.released_strike he hheld, htoken]
    split_ifs at hledger with hj
    · obtain ⟨before, hbefore, rfl⟩ := Option.map_eq_some_iff.mp hledger
      rw [account_release, a.counts j before hbefore r, ← hj]
      by_cases hr : held.token.resource = r
      · subst hr
        simp
      · have hne : held.token ≠ ⟨held.token.ledger, r⟩ := fun heq => hr (by rw [heq])
        simp [hne, Ne.symm hr]
    · have hne : held.token ≠ ⟨j, r⟩ := fun heq => hj (by rw [heq])
      rw [a.counts j ledger hledger r, if_neg hne, Nat.add_zero]

/-! ### Ledgers and handles come -/

theorem addLedger (a : h.Accounts inv) :
    h.addLedger.Accounts (inv.record .ledger .nothing) where
  ledgers := by simp [Holdings.addLedger, Inventory.record, a.ledgers]
  handles := by simp [Holdings.addLedger, Inventory.record, a.handles, a.ledgers]
  size := a.size
  leads k hk := by
    rcases List.mem_append.mp hk with hk | hk
    · exact Nat.lt_succ_of_lt (a.leads k hk)
    · rw [List.mem_singleton.mp hk]
      exact Nat.lt_succ_self _
  entered e he := Nat.lt_succ_of_lt (a.entered e he)
  tokens := a.tokens
  counts k ledger hledger r := by
    simp only [Holdings.addLedger, Array.getElem?_push] at hledger
    split_ifs at hledger with hk
    · obtain rfl := Option.some.inj hledger
      have hother : ∀ e ∈ inv.entries, e.token ≠ ⟨k, r⟩ := fun e he heq => by
        have hlt := a.entered e he
        rw [heq, hk, a.ledgers] at hlt
        exact Nat.lt_irrefl _ hlt
      have hacquired : inv.acquired ⟨k, r⟩ = 0 := by
        simpa [Inventory.acquired, List.countP_eq_zero] using hother
      have hsplit := inv.acquired_eq ⟨k, r⟩
      have hreleased : inv.released ⟨k, r⟩ = 0 := by omega
      show account {} r = { acquired := inv.acquired ⟨k, r⟩, released := inv.released ⟨k, r⟩ }
      rw [hacquired, hreleased]
      cases r <;> rfl
    · exact a.counts k ledger hledger r

/-- What leaves ledgers and handles as they are, and each token where it is, keeps the agreement. -/
theorem unmoved (a : h.Accounts inv) (hledgers : h'.ledgers = h.ledgers)
    (hhandles : h'.handles = h.handles) (hsize : h'.items.size = h.items.size)
    (htokens : ∀ m, (h'.held? m).map Held.token = (h.held? m).map Held.token) :
    h'.Accounts inv where
  ledgers := hledgers ▸ a.ledgers
  handles := hhandles ▸ a.handles
  size := hsize.trans a.size
  leads := a.leads
  entered := a.entered
  tokens m := (htokens m).trans (a.tokens m)
  counts := hledgers ▸ a.counts

theorem clone (a : h.Accounts inv) (l : Nat) :
    (h.clone l).2.Accounts (inv.record (.clone l) (h.clone l).1) := by
  simp only [Holdings.clone, Inventory.record, a.handle]
  cases hl : inv.handles[l]? with
  | none => exact a
  | some k =>
    refine ⟨a.ledgers, by simp [a.handles], a.size, fun j hj => ?_, a.entered, a.tokens, a.counts⟩
    rcases List.mem_append.mp hj with hj | hj
    · exact a.leads j hj
    · rw [List.mem_singleton.mp hj]
      exact a.leads k (List.mem_of_getElem? hl)

/-! ### Every step -/

/-- A creation through a handle, recorded as one. -/
theorem recordThrough (a : h.Accounts inv) {s : Step} {l : Nat} {item : Item}
    (hnone : inv.record s .noItem = inv)
    (hcreated : ∀ m, inv.record s (.created m) = inv.enterThrough l item.resource) :
    (h.createThrough l item).2.Accounts (inv.record s (h.createThrough l item).1) := by
  have hafter := a.createThrough l item
  cases hl : h.handles[l]? with
  | none =>
    simp only [Holdings.createThrough, hl, hnone]
    exact a
  | some k =>
    simp only [Holdings.createThrough, hl] at hafter ⊢
    rw [← hcreated h.items.size] at hafter
    exact hafter

theorem native (a : h.Accounts inv) (bytes : List UInt8) (l : Nat) :
    (h.native bytes l).2.Accounts (inv.record (.native bytes l) (h.native bytes l).1) := by
  rw [Holdings.native]
  split
  · exact a
  · exact a.recordThrough rfl fun _ => rfl

theorem alloc [Memory] (a : h.Accounts inv) (n length : Nat) :
    (h.alloc n length).2.Accounts (inv.record (.alloc n length) (h.alloc n length).1) := by
  rw [Holdings.alloc]
  split
  · next ledger hn =>
    split_ifs
    · exact a.createBeside hn (.buffer _)
    · exact a
  · exact a

theorem free (a : h.Accounts inv) (b n : Nat) :
    (h.free b n).2.Accounts (inv.record (.free b n) (h.free b n).1) := by
  rw [Holdings.free]
  split
  · next hb _ => exact a.giveUp hb
  · exact a

theorem drop (a : h.Accounts inv) (n : Nat) : (h.drop n).Accounts (inv.strike n) := by
  rw [Holdings.drop]
  split
  · next hn => exact a.giveUp hn
  · next hn =>
    rw [a.strike_of_none hn]
    exact a

theorem destroy (a : h.Accounts inv) (n : Nat) :
    (h.destroy n).2.Accounts (inv.record (.destroy n) (h.destroy n).1) := by
  rw [Holdings.destroy]
  split
  · next hn => exact a.giveUp hn
  · exact a

theorem intoValue (a : h.Accounts inv) (n : Nat) :
    (h.intoValue n).2.Accounts (inv.record (.intoValue n) (h.intoValue n).1) := by
  rw [Holdings.intoValue]
  split
  · next hn => exact a.giveUp hn
  · exact a

theorem set (a : h.Accounts inv) (b i : Nat) (octet : UInt8) :
    (h.set b i octet).2.Accounts inv := by
  rw [Holdings.set]
  split
  · next bytes ledger hb =>
    refine a.unmoved rfl rfl Array.size_setIfInBounds fun m => ?_
    simp only [held?, Array.getElem?_setIfInBounds] at hb ⊢
    by_cases hm : b = m
    · subst hm
      have hlt : b < h.items.size := by
        by_contra hge
        simp [Array.getElem?_eq_none (Nat.le_of_not_lt hge)] at hb
      simp only [hlt, if_true, hb]
      rfl
    · rw [if_neg hm]
  · exact a

/-- **Agreement, step by step**: holdings that agree with an inventory still do after a step is
taken here and recorded there. -/
theorem step [Memory] (a : h.Accounts inv) (s : Step) :
    (h.step s).2.Accounts (inv.record s (h.step s).1) := by
  cases s with
  | acquire | value | allocator => exact a.recordThrough rfl fun _ => rfl
  | native bytes l => exact a.native bytes l
  | alloc n length => exact a.alloc n length
  | free b n => exact a.free b n
  | set b i octet => exact a.set b i octet
  | drop n => exact a.drop n
  | destroy n => exact a.destroy n
  | intoValue n => exact a.intoValue n
  | read | live => exact a
  | describe n l => cases n <;> exact a
  | ledger => exact a.addLedger
  | clone l => exact a.clone l

/-- **Agreement along a run.** -/
theorem run [Memory] (a : h.Accounts inv) (steps : List Step) :
    (h.after steps).Accounts
      ((h.history steps).foldl (fun inv entry => inv.record entry.1 entry.2) inv) :=
  Run.agrees_after (fun _ _ s hagrees => hagrees.step s) a steps

/-- There is one ledger with one handle, and nothing has been created. -/
theorem fresh : ({} : Holdings).Accounts {} where
  ledgers := rfl
  handles := rfl
  size := rfl
  leads k hk := by
    rw [List.mem_singleton.mp hk]
    exact Nat.zero_lt_one
  entered e he := nomatch he
  tokens n := rfl
  counts k ledger hledger r := by
    rw [Array.getElem?_singleton] at hledger
    split_ifs at hledger
    obtain rfl := Option.some.inj hledger
    cases r <;> rfl

/-! ### What is read through a handle -/

variable {l : Nat}

theorem account_report (a : h.Accounts inv) (hl : inv.handles[l]? = some k) (r : Resource) :
    (h.report l).account r =
      { acquired := inv.acquired ⟨k, r⟩, released := inv.released ⟨k, r⟩ } := by
  have hlt : k < h.ledgers.size := by
    rw [a.ledgers]
    exact a.leads k (List.mem_of_getElem? hl)
  have hledger := Array.getElem?_eq_getElem hlt
  have hreport : h.report l = h.ledgers[k] := by
    rw [report, ledger?, a.handle, hl, Option.bind_some, hledger, Option.getD_some]
  rw [hreport]
  exact a.counts k _ hledger r

theorem live_report (a : h.Accounts inv) (hl : inv.handles[l]? = some k) (r : Resource) :
    (h.report l).live r = inv.live ⟨k, r⟩ := by
  rw [Ledger.live, a.account_report hl, Account.live, inv.acquired_eq, Nat.add_sub_cancel_left]

theorem outstanding_report (a : h.Accounts inv) (hl : inv.handles[l]? = some k) :
    (h.report l).outstanding = inv.outstanding k := by
  rw [Ledger.outstanding, inv.outstanding_eq, funext (a.live_report hl)]

end Accounts

/-! ## Creating -/

/-- Something was refused, or what was asked for is not there. -/
def Answer.Fails : Answer → Prop
  | .noItem | .interiorNul _ | .allocationFailed => True
  | _ => False

def Answer.isCreated : Answer → Bool
  | .created _ => true
  | _ => false

/-- The things that were created in a history. -/
def creations (history : List (Step × Answer)) : Nat :=
  history.countP (·.2.isCreated)

/-- The ledger that a creation enters a thing in: that of its handle, or of its allocator. -/
def home? (h : Holdings) : Step → Option Nat
  | .acquire _ l | .value _ l | .native _ l | .allocator l => h.handles[l]?
  | .alloc a _ =>
    match h.held? a with
    | some ⟨.allocator, ledger⟩ => some ledger
    | _ => none
  | _ => none

/-- Why a creation fails although it has a ledger. -/
def Step.refusal? [Memory] : Step → Option Answer
  | .native bytes _ => (bytes.findIdx? (· = 0)).map .interiorNul
  | .alloc _ length =>
    if Memory.grants length then none else some .allocationFailed
  | _ => none

/-- One thing was created, or none; where something fails, nothing was done. -/
def Yields (h : Holdings) (outcome : Answer × Holdings) : Prop :=
  (∃ ledger item, outcome = h.create ledger item) ∨
    outcome.1.isCreated = false ∧ outcome.2.items.size = h.items.size ∧
      (outcome.1.Fails → outcome.2 = h)

section Yields

variable (h : Holdings)

theorem yields_same {answer : Answer} (hnone : answer.isCreated = false) :
    h.Yields (answer, h) :=
  .inr ⟨hnone, rfl, fun _ => rfl⟩

theorem yields_createThrough (l : Nat) (item : Item) : h.Yields (h.createThrough l item) := by
  rw [createThrough]
  cases h.handles[l]? with
  | none => exact h.yields_same rfl
  | some k => exact .inl ⟨k, item, rfl⟩

theorem yields_giveUp {answer : Answer} (hnone : answer.isCreated = false)
    (hdone : ¬answer.Fails) (n : Nat) (t : Token) : h.Yields (answer, h.giveUp n t) :=
  .inr ⟨hnone, Array.size_setIfInBounds, fun hfails => absurd hfails hdone⟩

theorem yields_native (bytes : List UInt8) (l : Nat) : h.Yields (h.native bytes l) := by
  rw [native]
  split
  · exact h.yields_same rfl
  · exact h.yields_createThrough l _

theorem yields_alloc [Memory] (a length : Nat) : h.Yields (h.alloc a length) := by
  rw [alloc]
  split
  · split_ifs
    · exact .inl ⟨_, _, rfl⟩
    · exact h.yields_same rfl
  · exact h.yields_same rfl

theorem yields_free (b a : Nat) : h.Yields (h.free b a) := by
  rw [free]
  split
  · exact h.yields_giveUp rfl id _ _
  · exact h.yields_same rfl

theorem yields_set (b i : Nat) (octet : UInt8) : h.Yields (h.set b i octet) := by
  rw [set]
  split
  · exact .inr ⟨rfl, Array.size_setIfInBounds, False.elim⟩
  · exact h.yields_same rfl

theorem isCreated_read (n : Nat) : (h.read n).isCreated = false := by
  rw [read]
  split
  · next held _ => cases held.item <;> rfl
  · rfl

theorem yields_drop (n : Nat) : h.Yields (.nothing, h.drop n) := by
  rw [drop]
  split
  · exact h.yields_giveUp rfl id _ _
  · exact h.yields_same rfl

theorem yields_destroy (n : Nat) : h.Yields (h.destroy n) := by
  rw [destroy]
  split
  · exact h.yields_giveUp rfl id _ _
  · exact h.yields_same rfl

theorem yields_intoValue (n : Nat) : h.Yields (h.intoValue n) := by
  rw [intoValue]
  split
  · exact h.yields_giveUp rfl id _ _
  · exact h.yields_same rfl

theorem isCreated_ofLedger (l : Nat) {answer : Ledger → Answer}
    (hanswer : ∀ ledger, (answer ledger).isCreated = false) :
    (h.ofLedger l answer).isCreated = false := by
  rw [ofLedger]
  split
  · exact hanswer _
  · rfl

theorem isCreated_describeItem (n : Nat) : (h.describeItem n).isCreated = false := by
  rw [describeItem]
  split <;> rfl

theorem yields_clone (l : Nat) : h.Yields (h.clone l) := by
  rw [clone]
  split
  · exact .inr ⟨rfl, rfl, False.elim⟩
  · exact h.yields_same rfl

theorem yields_step [Memory] (s : Step) : h.Yields (h.step s) := by
  cases s with
  | acquire r l => exact h.yields_createThrough l (.token r)
  | value v l => exact h.yields_createThrough l (.value v)
  | native bytes l => exact h.yields_native bytes l
  | allocator l => exact h.yields_createThrough l .allocator
  | alloc a length => exact h.yields_alloc a length
  | free b a => exact h.yields_free b a
  | set b i octet => exact h.yields_set b i octet
  | read n => exact h.yields_same (h.isCreated_read n)
  | drop n => exact h.yields_drop n
  | destroy n => exact h.yields_destroy n
  | intoValue n => exact h.yields_intoValue n
  | live r l => exact h.yields_same (h.isCreated_ofLedger l fun _ => rfl)
  | describe n l =>
    cases n with
    | none => exact h.yields_same (h.isCreated_ofLedger l fun _ => rfl)
    | some n => exact h.yields_same (h.isCreated_describeItem n)
  | ledger => exact .inr ⟨rfl, rfl, False.elim⟩
  | clone l => exact h.yields_clone l

theorem size_step [Memory] (s : Step) :
    (h.step s).2.items.size = h.items.size + (h.step s).1.isCreated.toNat := by
  rcases h.yields_step s with ⟨k, item, hstep⟩ | ⟨hnone, hsize, -⟩
  · rw [hstep]
    exact Array.size_push _
  · rw [hnone, hsize]
    rfl

/-- What fails does nothing. -/
theorem step_of_fails [Memory] {s : Step} (hfails : (h.step s).1.Fails) : (h.step s).2 = h := by
  rcases h.yields_step s with ⟨k, item, hstep⟩ | ⟨-, -, hsame⟩
  · rw [hstep] at hfails
    exact hfails.elim
  · exact hsame hfails

/-- Each thing has a number of its own. -/
theorem size_after [Memory] (steps : List Step) :
    (h.after steps).items.size = h.items.size + creations (h.history steps) := by
  induction steps generalizing h with
  | nil => rfl
  | cons s rest ih =>
    have hrest := ih (h.step s).2
    have hcreations : creations (h.history (s :: rest)) =
        creations ((h.step s).2.history rest) + (h.step s).1.isCreated.toNat := by
      rw [creations, history, Run.history_cons, List.countP_cons]
      cases (h.step s).1.isCreated <;> rfl
    rw [hcreations, ← Nat.add_assoc, Nat.add_right_comm, ← h.size_step s]
    exact hrest

end Yields

section Creations

variable {h : Holdings} {k : Nat}

theorem createThrough_of_handle {l : Nat} (hl : h.handles[l]? = some k) (item : Item) :
    h.createThrough l item = h.create k item := by
  simp only [createThrough, hl]

/-- A creation that has a ledger succeeds, unless it is refused; then it does nothing. -/
theorem step_of_home [Memory] {s : Step} (hhome : h.home? s = some k) :
    (s.refusal? = none → (h.step s).1 = .created h.items.size) ∧
      ∀ answer, s.refusal? = some answer → h.step s = (answer, h) := by
  cases s with
  | acquire | value | allocator =>
    exact ⟨fun _ => congrArg Prod.fst (createThrough_of_handle hhome _), nofun⟩
  | native bytes l =>
    have hthrough := createThrough_of_handle (l := l) hhome (.native bytes)
    rw [Step.refusal?]
    cases hnul : bytes.findIdx? (· = 0) with
    | some i =>
      have hstep : h.native bytes l = (.interiorNul i, h) := by simp only [native, hnul]
      exact ⟨nofun, fun answer hanswer => by cases hanswer; exact hstep⟩
    | none =>
      have hstep : h.native bytes l = h.create k (.native bytes) := by
        simp only [native, hnul, hthrough]
      exact ⟨fun _ => congrArg Prod.fst hstep, nofun⟩
  | alloc a length =>
    rw [home?] at hhome
    split at hhome
    · next ledger ha =>
      rw [Step.refusal?]
      split_ifs with hroom
      · have hstep : (h.alloc a length).1 = .created h.items.size := by
          simp only [alloc, ha, if_pos hroom, create]
        exact ⟨fun _ => hstep, nofun⟩
      · have hstep : h.alloc a length = (.allocationFailed, h) := by
          simp only [alloc, ha, if_neg hroom]
        exact ⟨nofun, fun answer hanswer => by cases hanswer; exact hstep⟩
    · cases hhome
  | free | set | read | drop | destroy | intoValue | live | describe | ledger | clone => cases hhome

end Creations

/-! ## Giving up -/

section GivingUp

variable {h : Holdings} {n m k : Nat} {v : Value} {bytes : Array UInt8}

/-- What is dropped is gone, and nothing else, whatever it is. -/
theorem held?_drop (h : Holdings) (n m : Nat) :
    (h.drop n).held? m = if m = n then none else h.held? m := by
  rw [drop]
  cases hn : h.held? n with
  | none =>
    split_ifs with hm
    · exact hm ▸ hn
    · rfl
  | some held =>
    simp only [giveUp, held?, Array.getElem?_setIfInBounds]
    by_cases hm : n = m
    · subst hm
      simp only [if_true]
      split_ifs <;> rfl
    · rw [if_neg hm, if_neg (Ne.symm hm)]

/-- Freeing a buffer through any allocator is dropping it. -/
theorem free_eq_drop {j : Nat} (hn : h.held? n = some ⟨.buffer bytes, k⟩)
    (hm : h.held? m = some ⟨.allocator, j⟩) : h.free n m = (.nothing, h.drop n) := by
  simp only [free, drop, hn, hm]

/-- Destroying a value is dropping it. -/
theorem destroy_eq_drop (hn : h.held? n = some ⟨.value v, k⟩) :
    h.destroy n = (.nothing, h.drop n) := by
  simp only [destroy, drop, hn]

/-- Unwrapping a value is dropping it, but for the answer. -/
theorem intoValue_eq_drop (hn : h.held? n = some ⟨.value v, k⟩) :
    h.intoValue n = (.value v, h.drop n) := by
  simp only [intoValue, drop, hn]

end GivingUp

/-! ## Audits -/

/-- What holds of the numbers that are reported after a history that left such an inventory. -/
structure Audited [Memory] (h : Holdings) (inv : Inventory) : Prop where
  /-- What was created and what was given up is counted once, in the ledger it was created in. -/
  account : ∀ l k, inv.handles[l]? = some k → ∀ r, (h.report l).account r =
    { acquired := inv.acquired ⟨k, r⟩, released := inv.released ⟨k, r⟩ }
  live : ∀ l k, inv.handles[l]? = some k → ∀ r, (h.report l).live r = inv.live ⟨k, r⟩
  outstanding : ∀ l k, inv.handles[l]? = some k → (h.report l).outstanding = inv.outstanding k
  covered : ∀ l k, inv.handles[l]? = some k → ∀ r,
    ((h.report l).account r).released ≤ ((h.report l).account r).acquired
  /-- No counter leaves the 64-bit numbers, nor does the sum of what is held. -/
  narrow : ∀ l k, inv.handles[l]? = some k →
    (∀ r, ((h.report l).account r).Fits) ∧ (h.report l).outstanding < 2 ^ 64
  /-- Handles to one ledger report the same. -/
  shared : ∀ l m, inv.handles[l]? = inv.handles[m]? → h.report l = h.report m
  /-- What is held is what was created and not given up. -/
  held : ∀ n, (h.held? n).map Held.token = inv.entries[n]?.bind Entry.token?
  /-- A creation through a handle, or through an allocator that is held, succeeds or is refused. -/
  created : ∀ s k, h.home? s = some k →
    (s.refusal? = none → (h.step s).1 = .created inv.entries.length) ∧
      ∀ answer, s.refusal? = some answer → h.step s = (answer, h)
  failed : ∀ s, (h.step s).1.Fails → (h.step s).2 = h
  /-- A thing is dropped without others: an allocator without its buffers. -/
  dropped : ∀ n m, (h.step (.drop n)).2.held? m = if m = n then none else h.held? m
  /-- A buffer is freed through whichever allocator. -/
  freed : ∀ n m bytes k j, h.held? n = some ⟨.buffer bytes, k⟩ →
    h.held? m = some ⟨.allocator, j⟩ → h.step (.free n m) = h.step (.drop n)
  destroyed : ∀ n v k, h.held? n = some ⟨.value v, k⟩ →
    h.step (.destroy n) = h.step (.drop n) ∧
      h.step (.intoValue n) = (.value v, (h.step (.drop n)).2)

theorem Accounts.audited [Memory] {h : Holdings} {inv : Inventory} (a : h.Accounts inv)
    (hfew : inv.entries.length < 2 ^ 64) : h.Audited inv where
  account _ _ hl := a.account_report hl
  live _ _ hl := a.live_report hl
  outstanding _ _ hl := a.outstanding_report hl
  covered _ k hl r := by
    rw [a.account_report hl]
    exact inv.released_le ⟨k, r⟩
  narrow _ k hl := by
    refine ⟨fun r => ?_, ?_⟩
    · have hacquired := Nat.lt_of_le_of_lt (inv.acquired_le ⟨k, r⟩) hfew
      rw [a.account_report hl]
      exact ⟨hacquired, Nat.lt_of_le_of_lt (inv.released_le ⟨k, r⟩) hacquired⟩
    · rw [a.outstanding_report hl]
      exact Nat.lt_of_le_of_lt (inv.outstanding_le k) hfew
  shared l m hlm := by rw [report, report, ledger?, ledger?, a.handle, a.handle, hlm]
  held := a.tokens
  created s k hhome := a.size ▸ step_of_home hhome
  failed _ := h.step_of_fails
  dropped := h.held?_drop
  freed _ _ _ _ _ := free_eq_drop
  destroyed _ _ _ hn := ⟨destroy_eq_drop hn, intoValue_eq_drop hn⟩

/-- **Accounting over any run**: whatever is created and given up, in whatever order and through
whichever handles and allocators, after each step the numbers that a handle reports are those of
the things that were created in its ledger so far. -/
theorem audited_run [Memory] (steps : List Step)
    (hfew : creations (({} : Holdings).history steps) < 2 ^ 64) :
    let start : Holdings := {}
    let inventory (i : Nat) : Inventory := .ofHistory ((start.history steps).take i)
    (∀ i, (start.after (steps.take i)).Audited (inventory i)) ∧
      ∀ (i : Nat) (answer : Answer) (ledger : Ledger),
        (start.run steps)[i]? = some (answer, ledger) → ∀ r, ledger.account r =
          { acquired := (inventory (i + 1)).acquired ⟨0, r⟩
            released := (inventory (i + 1)).released ⟨0, r⟩ } := by
  intro start inventory
  have haccounts (i : Nat) : (start.after (steps.take i)).Accounts (inventory i) := by
    have hrun := Accounts.fresh.run (steps.take i)
    rwa [history, Run.history_take] at hrun
  have hlength (i : Nat) : (inventory i).entries.length ≤ creations (start.history steps) := by
    rw [← (haccounts i).size, start.size_after, history, Run.history_take]
    have hsub := (List.take_sublist i (start.history steps)).countP_le (p := (·.2.isCreated))
    exact (Nat.zero_add _).symm ▸ hsub
  refine ⟨fun i => (haccounts i).audited (Nat.lt_of_le_of_lt (hlength i) hfew),
    fun i answer ledger hi r => ?_⟩
  rw [Run.getElem?_run, Option.map_eq_some_iff] at hi
  obtain ⟨_, -, hledger⟩ := hi
  obtain ⟨-, rfl⟩ := Prod.mk.inj hledger
  exact (haccounts _).account_report (Inventory.handles_foldl rfl _) r

/-- An allocator made through a clone is given up before its buffer, which is still held. -/
theorem audited_run_allocator_first :
    let start : Holdings := {}
    let steps : List Step := [.clone 0, .allocator 1, .alloc 0 8, .native [97, 0], .value .null 1,
      .drop 0, .intoValue 2]
    creations (start.history steps) < 2 ^ 64 ∧
      ((start.after steps).report 1).account .buffer = ⟨1, 0⟩ ∧
      ((start.after steps).report 1).account .allocator = ⟨1, 1⟩ ∧
      ((start.after steps).report 0).outstanding = 1 := by
  intro start steps
  have hfew : creations (start.history steps) < 2 ^ 64 := by decide
  have haudited := (audited_run steps hfew).1 7
  have hbuffer := haudited.account 1 0 rfl .buffer
  have hallocator := haudited.account 1 0 rfl .allocator
  have houtstanding := haudited.outstanding 0 0 rfl
  exact ⟨hfew, hbuffer.trans (by decide), hallocator.trans (by decide),
    houtstanding.trans (by decide)⟩

end Holdings

end Ledger

end ForeignCall
