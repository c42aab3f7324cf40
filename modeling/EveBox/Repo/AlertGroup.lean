import EveBox.Eve.Event

/-!
# Groups of alerts

Reference: `AlertGroupSpec` of `src/server/api/mod.rs`, and the history of `src/elastic/mod.rs`.

The rule of membership is what the operations on a group are for. It sees an event through what a store can tell of
it.
-/

namespace EveBox.Repo

open Rust Eve

/-- `AlertGroupSpec`. -/
structure AlertGroupSpec where
  signatureId : ℕ
  srcIp : Option String
  destIp : Option String
  sensor : Option String
  dnsRrname : Option String
  tlsSni : Option String
  minTimestamp : String
  maxTimestamp : String
deriving DecidableEq, Repr

/-! ## The history -/

/-- `HistoryType`. -/
inductive HistoryType
  | archived
  | autoArchived
  | escalated
  | deescalated
  | comment
deriving DecidableEq, Repr

/-- `HistoryType::to_string`. -/
def HistoryType.text : HistoryType → String
  | archived => "archived"
  | autoArchived => "auto-archived"
  | escalated => "escalated"
  | deescalated => "de-escalated"
  | comment => "comment"

/-- `HistoryEntry`, as JSON; the entries of the models have neither a cause nor a comment. -/
def historyEntry (lib : TimeLib) (action : HistoryType) (now : DateTime) (username : Option String) : Json :=
  .object ([("action", .string action.text), ("timestamp", .string (now.toRfc3339Utc lib))] ++
    match username with
    | some username => [("username", .string username)]
    | none => [])

/-! ## Membership -/

/-- What is done to a group. -/
inductive GroupOperation
  | archive
  | escalate
  | deescalate
deriving DecidableEq, Repr

/-- The history that an operation leaves. -/
def GroupOperation.history : GroupOperation → HistoryType
  | archive => .archived
  | escalate => .escalated
  | deescalate => .deescalated

/-- What a store can tell of an event: whether it is an alert, and whether its fields have given values. An address
may also be missing; an empty one counts as such. -/
structure AlertView where
  isAlert : Bool
  hasSignatureId : ℕ → Bool
  hasSrcIp : String → Bool
  noSrcIp : Bool
  hasDestIp : String → Bool
  noDestIp : Bool
  hasSensor : String → Bool
  hasDnsRrname : String → Bool
  hasTlsSni : String → Bool
  archived : Bool
  escalated : Bool

/-- An address is the given one, or is missing if none is given. -/
def hasAddress (isGiven : String → Bool) (missing : Bool) : Option String → Bool
  | none => missing
  | some ip => if ip = "" then missing else isGiven ip

/-- The event is in the group, but for its time. -/
def AlertView.member (e : AlertView) (spec : AlertGroupSpec) : Bool :=
  e.isAlert && e.hasSignatureId spec.signatureId &&
    hasAddress e.hasSrcIp e.noSrcIp spec.srcIp && hasAddress e.hasDestIp e.noDestIp spec.destIp &&
    spec.sensor.all e.hasSensor && spec.dnsRrname.all e.hasDnsRrname && spec.tlsSni.all e.hasTlsSni

/-- The event does not have the state yet that the operation brings about. -/
def AlertView.open (e : AlertView) : GroupOperation → Bool
  | .archive => !e.archived
  | .escalate => !e.escalated
  | .deescalate => e.escalated

/-- The address is given. -/
def Given (ip : Option String) : Prop := ∃ s, ip = some s ∧ s ≠ ""

theorem hasAddress_of_given {isGiven : String → Bool} {missing : Bool} {s : String} (h : s ≠ "") :
    hasAddress isGiven missing (some s) = isGiven s := if_neg h

/-- Without an address it is the missing ones that are meant. -/
theorem hasAddress_of_not_given {isGiven : String → Bool} {missing : Bool} {ip : Option String} (h : ¬ Given ip) :
    hasAddress isGiven missing ip = missing := by
  cases ip with
  | none => rfl
  | some s =>
      have hs : s = "" := not_not.mp fun hs => h ⟨s, rfl, hs⟩
      exact if_pos hs

end EveBox.Repo
