import EveBox.Pcap.Fetch
import Mathlib.Data.List.Sort
import Mathlib.Data.String.Basic

/-!
# Spool files

Reference: `src/pcap/spool.rs`, and the choice of candidate files in `src/pcap/fetch.rs`.

The directory scan is an argument here: what `collect_files` found, and what `walk_files` would find.
-/

namespace EveBox.Pcap

open Rust

/-- The key of a rotation sequence: directory, base name, thread id. -/
abbrev GroupId (Path : Type*) := Path ×ₗ String ×ₗ ℕ

/-- `SortedFiles`: the files of each rotation sequence, with the second each is named by. -/
abbrev SortedFiles (Path : Type*) := List (GroupId Path × List (ℕ × Path))

/-- `SpoolConfig`, without the directory and the prefix that `collect_files` reads; the margin in
microseconds. -/
structure SpoolConfig where
  margin : ℕ
deriving DecidableEq, Repr

section

variable {Path : Type*} [LinearOrder Path]

/-- `files.sort()`, on `(u64, PathBuf)`. -/
def sortFiles (files : List (ℕ × Path)) : List (ℕ × Path) :=
  files.insertionSort fun a b => toLex a ≤ toLex b

/-- The `files.retain(..)` of `load_files`; the iterator it peeks at runs over the unpruned files. -/
def pruneFiles (startTime endTime : ℕ) : List (ℕ × Path) → List (ℕ × Path)
  | [] => []
  | e :: rest =>
      let timestamp := saturatingMul e.1 1000000
      if endTime < timestamp then pruneFiles startTime endTime rest
      else
        match rest.head? with
        | some next =>
            if saturatingMul next.1 1000000 < startTime then pruneFiles startTime endTime rest
            else e :: pruneFiles startTime endTime rest
        | none => e :: pruneFiles startTime endTime rest

/-- What `load_files` leaves of the files of one rotation sequence. -/
def prunedFiles (spool : SpoolConfig) (start stop : ℕ) (files : List (ℕ × Path)) :
    List (ℕ × Path) :=
  let margin := min spool.margin u64Max
  let startTime := start - margin
  let endTime := saturatingAdd stop margin
  pruneFiles startTime endTime (sortFiles files)

/-- `load_files`, from what `collect_files` found. -/
def loadFiles (spool : SpoolConfig) (collected : Except IoError (Option (SortedFiles Path)))
    (start stop : ℕ) : Except IoError (Option (SortedFiles Path)) :=
  match collected with
  | .error err => .error err
  | .ok none => .ok none
  | .ok (some sorted) => .ok (some (sorted.map fun g => (g.1, prunedFiles spool start stop g.2)))

/-- The groups `fetch` makes of sorted files. -/
def groupsOf (sorted : SortedFiles Path) : List (List Path) :=
  (sorted.insertionSort fun a b => a.1 ≤ b.1).map fun g => g.2.map (·.2)

/-- The candidate files of `fetch` for a spool, given what `load_files` and `walk_files` return. -/
def candidateGroups (loaded : Except IoError (Option (SortedFiles Path)))
    (walked : Except IoError (List Path)) : Except IoError (List (List Path)) :=
  match loaded with
  | .error err => .error err
  | .ok (some sorted) => .ok (groupsOf sorted)
  | .ok none => walked.map fun files => [files]

/-- `request.start.unwrap_or(0)`. -/
def PcapRequest.startMicros (request : PcapRequest) : ℕ := request.start.getD 0

/-- `request.end.unwrap_or(u64::MAX)`. -/
def PcapRequest.stopMicros (request : PcapRequest) : ℕ := request.stop.getD u64Max

/-- `fetch` over a spool. -/
def fetchSpool [ToString Path] {ω : Type*} [Write ω] (env : Env) (lib : Libpcap Path)
    (spool : SpoolConfig) (collected : Except IoError (Option (SortedFiles Path)))
    (walked : Except IoError (List Path)) (request : PcapRequest) (out : ω) :
    Except Fault FetchStats × MergeState Path ω :=
  let loaded := loadFiles spool collected request.startMicros request.stopMicros
  fetch env lib (candidateGroups loaded walked) request out

end

end EveBox.Pcap
