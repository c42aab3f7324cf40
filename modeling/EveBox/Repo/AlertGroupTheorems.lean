import EveBox.Elastic.AlertGroupTheorems
import EveBox.Sqlite.AlertGroupTheorems

/-!
# The rule of membership over both repositories

Reference: `src/eventrepo/mod.rs`, which sends an operation to the repository there is.
-/

namespace EveBox.Repo

open Rust Eve

/-- `EventRepo`. -/
inductive EventRepo
  | elastic (repo : Elastic.ElasticEventRepo)
  | sqlite
deriving DecidableEq, Repr

namespace EventRepo

section

variable (date : String → Option ℤ) (lib : TimeLib) (now : DateTime) (username : Option String)
variable (op : GroupOperation) (spec : AlertGroupSpec)

/-- An operation follows the rule, whatever is stored. -/
def FollowsRule : EventRepo → Prop
  | elastic repo => ∀ docs, Elastic.Follows date repo op spec lib now username docs
  | sqlite => ∀ store, Sqlite.runGroupOperation lib now store spec op = Sqlite.ruleOperation lib now store spec op

/-- There is a time in the range of the group. -/
def HasTime : EventRepo → Prop
  | elastic _ => ∃ low high, date spec.minTimestamp = some low ∧ date spec.maxTimestamp = some high ∧ low ≤ high
  | sqlite => ∃ range, Sqlite.timeRange lib spec = some (.ok range) ∧ range.1 ≤ range.2

/-- The groups that the code selects by the rule. -/
def Covers : EventRepo → Prop
  | elastic _ => Given spec.srcIp ∧ Given spec.destIp
  | sqlite => Sqlite.Covers op spec

end

section

variable {date : String → Option ℤ} {lib : TimeLib} {now : DateTime} {username : Option String}
variable {op : GroupOperation} {spec : AlertGroupSpec}

end

/-! ## Groups that are not covered -/

/-- A group of a second. -/
def sampleSpec : AlertGroupSpec where
  signatureId := 1
  srcIp := some "12.0.0.1"
  destIp := some "10.0.0.9"
  sensor := none
  dnsRrname := none
  tlsSni := none
  minTimestamp := "2026-06-28T12:00:00.000000+0000"
  maxTimestamp := "2026-06-28T12:00:01.000000+0000"

/-- The dates of Elasticsearch, on the times of the table. -/
def sampleDate (text : String) : Option ℤ := (Sqlite.sampleLib.parse text.toList).map (·.nanos)

/-- An alert of a host, from an address that may be missing. -/
def hostRow (srcIp : Json) : Sqlite.EventRow :=
  Sqlite.sampleRow 1 1782648000000000000 (.object [
    ("alert", .object [("signature_id", .number (.int 1))]), ("dest_ip", .string "10.0.0.9"),
    ("event_type", .string "alert"), ("host", .string "other"), ("src_ip", srcIp),
    ("timestamp", .string "2026-06-28T12:00:00.000000+0000")])

theorem sqlite_not_follows {lib : TimeLib} {now : DateTime} {op : GroupOperation} {spec : AlertGroupSpec}
    {range : ℤ × ℤ} (hrange : Sqlite.timeRange lib spec = some (.ok range)) (row : Sqlite.EventRow)
    (hrow : row.opSelects spec range op ≠ row.ruleSelects op spec range) :
    ¬ sqlite.FollowsRule sampleDate lib now none op spec :=
  fun h => hrow (Sqlite.follows_iff_selects.mp h range hrange row)

end EventRepo

end EveBox.Repo
