/-!
# ForeignCall.Ledger

The account of everything that crosses a call: owned values, native copies of
host strings, buffers and allocators.

Each thing is entered when it is acquired and again when it is released.  A
ledger is balanced when the two counts agree for every kind of resource; what
is outstanding is the difference.  All handles to one ledger see one account,
so a single value stands for them.

Counts are natural numbers here.  Counters have 64 bits, and show these counts
as long as they are 64-bit numbers (`Account.Fits`).
-/

namespace ForeignCall

/-- What is accounted for. -/
inductive Resource where
  | value
  | nativeString
  | buffer
  | allocator
deriving DecidableEq, Repr

namespace Resource

/-- The name of a resource. -/
def name : Resource → String
  | .value => "Value"
  | .nativeString => "NativeString"
  | .buffer => "Buffer"
  | .allocator => "Allocator"

/-- All resources, in the order of reports. -/
def all : List Resource :=
  [.value, .nativeString, .buffer, .allocator]

end Resource

/-- How often one kind of resource was acquired and released. -/
structure Account where
  acquired : Nat := 0
  released : Nat := 0
deriving DecidableEq, Repr, Inhabited

/-- How many are held. -/
def Account.live (account : Account) : Nat :=
  account.acquired - account.released

/-- Both counts are 64-bit numbers. -/
def Account.Fits (account : Account) : Prop :=
  account.acquired < 2 ^ 64 ∧ account.released < 2 ^ 64

/-- An account for each resource. -/
structure Ledger where
  values : Account := {}
  strings : Account := {}
  buffers : Account := {}
  allocators : Account := {}
deriving DecidableEq, Repr, Inhabited

namespace Ledger

/-- The account of a resource. -/
def account (ledger : Ledger) : Resource → Account
  | .value => ledger.values
  | .nativeString => ledger.strings
  | .buffer => ledger.buffers
  | .allocator => ledger.allocators

/-- Change the account of a resource. -/
def modify (ledger : Ledger) (change : Account → Account) : Resource → Ledger
  | .value => { ledger with values := change ledger.values }
  | .nativeString => { ledger with strings := change ledger.strings }
  | .buffer => { ledger with buffers := change ledger.buffers }
  | .allocator => { ledger with allocators := change ledger.allocators }

/-- Enter an acquisition. -/
def acquire (ledger : Ledger) (r : Resource) : Ledger :=
  ledger.modify (fun a => { a with acquired := a.acquired + 1 }) r

/-- Enter a release. -/
def release (ledger : Ledger) (r : Resource) : Ledger :=
  ledger.modify (fun a => { a with released := a.released + 1 }) r

/-- How many of a resource are held. -/
def live (ledger : Ledger) (r : Resource) : Nat :=
  (ledger.account r).live

/-- How many are held of all resources. -/
def outstanding (ledger : Ledger) : Nat :=
  (Resource.all.map ledger.live).foldr (· + ·) 0

/-- Everything acquired has been released. -/
def Balanced (ledger : Ledger) : Prop :=
  ∀ r, (ledger.account r).acquired = (ledger.account r).released

/-- What is held of each resource, written out. -/
def describe (ledger : Ledger) : String :=
  "Ledger \x7b values: " ++ toString (ledger.live .value) ++
    ", strings: " ++ toString (ledger.live .nativeString) ++
    ", buffers: " ++ toString (ledger.live .buffer) ++
    ", allocators: " ++ toString (ledger.live .allocator) ++ " \x7d"

/-! ## Accounts after an entry -/

theorem account_modify (ledger : Ledger) (change : Account → Account) (r s : Resource) :
    (ledger.modify change r).account s =
      if s = r then change (ledger.account s) else ledger.account s := by
  cases r <;> cases s <;> rfl

theorem account_acquire (ledger : Ledger) (r s : Resource) :
    (ledger.acquire r).account s =
      if s = r then { ledger.account s with acquired := (ledger.account s).acquired + 1 }
      else ledger.account s :=
  account_modify ..

theorem account_release (ledger : Ledger) (r s : Resource) :
    (ledger.release r).account s =
      if s = r then { ledger.account s with released := (ledger.account s).released + 1 }
      else ledger.account s :=
  account_modify ..

end Ledger

end ForeignCall
