import EveBox.Sqlite.Store

/-!
# Values of SQLite

What `json_extract` gives, how such values compare, and what `sqlx` makes of them.
-/

namespace EveBox.Sqlite

open Rust

/-- A value of SQLite; there are no blobs. -/
inductive SqlValue
  | null
  | int (n : ℤ)
  | real (value : ℚ)
  | text (s : String)
deriving DecidableEq

/-- The double that is nearest to an integer from `2 ^ 63` on, below `2 ^ 64`. -/
def nearestDouble (n : ℤ) : ℚ :=
  let q := n / 2048
  let r := n % 2048
  ((if r < 1024 ∨ r = 1024 ∧ q % 2 = 0 then q else q + 1) * 2048 : ℤ)

namespace SqlValue

/-- The value of SQLite for a JSON value. -/
def ofJson : Json → SqlValue
  | .null => null
  | .bool b => int (if b then 1 else 0)
  | .number (.int n) => if -2 ^ 63 ≤ n ∧ n < 2 ^ 63 then int n else real (nearestDouble n)
  | .number (.float value _) => real value
  | .string s => text s
  | j => text j.text

/-- Whether `a = b` is true. -/
def eq : SqlValue → SqlValue → Bool
  | int a, int b => a = b
  | int a, real b => (a : ℚ) = b
  | real a, int b => a = b
  | real a, real b => a = b
  | text a, text b => a = b
  | _, _ => false

/-- The value that stands for all that `GROUP BY` puts together with this one. -/
def norm : SqlValue → SqlValue
  | real q => if q.den = 1 ∧ -2 ^ 63 ≤ q.num ∧ q.num < 2 ^ 63 then int q.num else real q
  | value => value

/-! ## Decoding -/

/-- `try_get::<u64>`. -/
def getU64 : SqlValue → Option ℕ
  | null => some 0
  | int n => u64TryFrom n
  | _ => none

/-- `try_get::<String>`. -/
def getString : SqlValue → Option String
  | null => some ""
  | text s => some s
  | _ => none

/-- `try_get::<Option<String>>`. -/
def getOptionString : SqlValue → Option (Option String)
  | null => some none
  | text s => some (some s)
  | _ => none

/-- `try_get::<serde_json::Value>(..).unwrap_or(Value::Null)`; `fromStr` is `serde_json::from_str`. -/
def getJson (fromStr : String → Option Json) : SqlValue → Json
  | text s => (fromStr s).getD .null
  | _ => .null

end SqlValue

/-- `json_extract(events.source, '$.…')`. -/
def EventRow.extract (row : EventRow) (path : List String) : SqlValue := .ofJson (row.source.getPath path)

end EveBox.Sqlite
