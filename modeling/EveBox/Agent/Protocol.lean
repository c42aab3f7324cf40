import Mathlib.Data.Nat.Notation

/-!
# Messages of the agent control channel

Reference: `src/agent/protocol.rs`, as far as packet-capture jobs use it.
-/

namespace EveBox.Agent

/-- `WireStats`. -/
structure WireStats where
  packets : ℕ := 0
  bytes : ℕ := 0
  filesScanned : ℕ := 0
  filesVanished : ℕ := 0
  truncated : Bool := false
deriving DecidableEq, Repr

/-- `PcapResultCode`. -/
inductive PcapResultCode
  | complete
  | noCandidateFiles
  | noMatch
  | cancelled
  | error
deriving DecidableEq, Repr

/-- `PcapUploadStatus`. -/
inductive PcapUploadStatus
  | none
  | complete
  | failed
deriving DecidableEq, Repr

/-- `PcapResult`. -/
structure PcapResult where
  code : PcapResultCode
  upload : PcapUploadStatus
  message : Option String
  stats : Option WireStats
deriving DecidableEq, Repr

/-- `PcapResult::error`. -/
def PcapResult.error (message : String) : PcapResult := ⟨.error, .none, some message, none⟩

/-- `PcapResult::cancelled`. -/
def PcapResult.cancelled (upload : PcapUploadStatus) (stats : Option WireStats) : PcapResult :=
  ⟨.cancelled, upload, none, stats⟩

end EveBox.Agent
