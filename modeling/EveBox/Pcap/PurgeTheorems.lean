import EveBox.Pcap.Purge

/-!
# What a purge removes

* `le_keepCount_iff` — what is kept is the longest run of the newest files that the retention allows.
* `purge_law` — whatever is removed was a capture file that the retention did not allow, with all that are newer.
* `purge_round` — a round that nothing disturbs leaves the files that are kept, and the next one removes nothing.
-/

namespace EveBox.Pcap

open Rust Transition

/-! ## The order -/

instance : Std.Total FileInfo.Before where
  total a b := by
    rcases lt_trichotomy a.modified b.modified with h | h | h
    · exact .inr (.inl h)
    · exact (le_total a.path b.path).imp (fun hle => .inr ⟨h, hle⟩) (fun hle => .inr ⟨h.symm, hle⟩)
    · exact .inl (.inl h)

instance : IsTrans FileInfo FileInfo.Before where
  trans a b c hab hbc := by
    rcases hab with hab | ⟨hab, hpath⟩
    · rcases hbc with hbc | ⟨hbc, -⟩
      · exact .inl (hbc.trans hab)
      · exact .inl (hbc ▸ hab)
    · rcases hbc with hbc | ⟨hbc, hpath'⟩
      · exact .inl (hab ▸ hbc)
      · exact .inr ⟨hab.trans hbc, hpath.trans hpath'⟩

theorem FileInfo.Before.modified_le {a b : FileInfo} (h : a.Before b) : b.modified ≤ a.modified := by
  rcases h with h | ⟨h, -⟩
  · exact h.le
  · exact h.ge

/-! ## Candidates -/

theorem candidate_eq_some {args : PurgeArgs} {entry : DirEntry} {file : FileInfo}
    (h : args.candidate entry = some file) :
    entry.kind = .file ∧ entry.name = .utf8 file.path ∧ isPcapFilename file.path = true ∧
      (∀ p, args.namePrefix = some p → p.toList <+: file.path.toList) ∧ file.size = entry.size ∧
      file.modified = entry.modified := by
  unfold PurgeArgs.candidate at h
  split at h
  · cases h
  rename_i hkind
  split at h
  · cases h
  rename_i filename hname
  split at h
  · cases h
  rename_i hcapture
  split at h
  · cases h
  rename_i hprefix
  obtain rfl := Option.some.inj h
  refine ⟨not_not.1 hkind, ?_, not_not.1 hcapture, fun p hp => ?_, rfl, rfl⟩
  · cases hentry : entry.name with
    | utf8 name =>
        rw [hentry] at hname
        rw [Option.some.inj hname]
    | other bytes =>
        rw [hentry] at hname
        cases hname
  · rw [hp] at hprefix
    simpa using hprefix

theorem mem_collectPcapFiles {args : PurgeArgs} {d : Directory} {file : FileInfo} :
    file ∈ args.collectPcapFiles d ↔ ∃ entry ∈ d.entries, args.candidate entry = some file := by
  unfold PurgeArgs.collectPcapFiles
  rw [List.mem_insertionSort, List.mem_filterMap]

theorem sorted_collectPcapFiles (args : PurgeArgs) (d : Directory) :
    (args.collectPcapFiles d).Pairwise FileInfo.Before :=
  List.pairwise_insertionSort _ _

/-- No two of the files have one name. -/
theorem nodup_collectPcapFiles (args : PurgeArgs) (d : Directory) :
    ((args.collectPcapFiles d).map (·.path)).Nodup := by
  have hperm : ((args.collectPcapFiles d).map (·.path)).Perm ((d.entries.filterMap args.candidate).map (·.path)) :=
    (List.perm_insertionSort _ _).map _
  rw [hperm.nodup_iff]
  have hnames : ∀ entries : List DirEntry, (entries.map (·.name)).Nodup →
      ((entries.filterMap args.candidate).map (·.path)).Nodup := by
    intro entries hnodup
    induction entries with
    | nil => exact List.nodup_nil
    | cons entry entries ih =>
        obtain ⟨hentry, hnodup⟩ := List.nodup_cons.1 (List.map_cons ▸ hnodup)
        cases hcandidate : args.candidate entry with
        | none =>
            rw [List.filterMap_cons_none hcandidate]
            exact ih hnodup
        | some file =>
            rw [List.filterMap_cons_some hcandidate, List.map_cons]
            refine List.nodup_cons.2 ⟨fun hmem => hentry ?_, ih hnodup⟩
            obtain ⟨file', hfile', hpath⟩ := List.mem_map.1 hmem
            obtain ⟨entry', hentry', hcandidate'⟩ := List.mem_filterMap.1 hfile'
            refine List.mem_map.2 ⟨entry', hentry', ?_⟩
            rw [(candidate_eq_some hcandidate').2.1, (candidate_eq_some hcandidate).2.1, hpath]
  exact hnames d.entries d.nodup

/-! ## What is kept -/

/-- The retention allows all of the files. -/
def Retention.Allows (files : List FileInfo) : Retention → Prop
  | .keepFiles count => files.length ≤ count
  | .maxSize bytes => min (files.map (·.size)).sum u64Max ≤ bytes

theorem le_keepBySize_iff {maxSizeBytes totalSize k : ℕ} {files : List FileInfo} (hk : k ≤ files.length)
    (htotal : min totalSize u64Max ≤ maxSizeBytes) :
    k ≤ keepBySize maxSizeBytes (min totalSize u64Max) files ↔
      min (totalSize + ((files.take k).map (·.size)).sum) u64Max ≤ maxSizeBytes := by
  induction files generalizing totalSize k with
  | nil =>
      obtain rfl : k = 0 := Nat.le_zero.1 hk
      simpa using htotal
  | cons file files ih =>
      cases k with
      | zero => simpa using htotal
      | succ k =>
          have hnext : saturatingAdd (min totalSize u64Max) file.size = min (totalSize + file.size) u64Max := by
            unfold saturatingAdd
            omega
          have hsum : totalSize + (((file :: files).take (k + 1)).map (·.size)).sum =
              totalSize + file.size + ((files.take k).map (·.size)).sum := by
            rw [List.take_succ_cons, List.map_cons, List.sum_cons, Nat.add_assoc]
          unfold keepBySize
          simp only [hnext, hsum]
          split
          · omega
          · rw [Nat.add_le_add_iff_right]
            exact ih (Nat.le_of_succ_le_succ hk) (by omega)

/-- The files that are kept are as many of the newest as the retention allows. -/
theorem le_keepCount_iff {retention : Retention} {files : List FileInfo} {k : ℕ} (hk : k ≤ files.length) :
    k ≤ retention.keepCount files ↔ retention.Allows (files.take k) := by
  cases retention with
  | keepFiles count =>
      unfold Retention.keepCount Retention.Allows
      rw [List.length_take_of_le hk]
  | maxSize bytes =>
      have h : k ≤ keepBySize bytes (min 0 u64Max) files ↔
          min (0 + ((files.take k).map (·.size)).sum) u64Max ≤ bytes := le_keepBySize_iff hk (Nat.zero_le _)
      rw [Nat.zero_add] at h
      exact h

/-! ## Every run -/

/-- A file that is to be deleted, for a round that has seen `d`: it is a capture file, and the retention does not
allow it with all files before it, which are not older. -/
structure PurgeArgs.Doomed (args : PurgeArgs) (d : Directory) (file : FileInfo) : Prop where
  force : args.force = true
  entry : ∃ entry ∈ d.entries, entry.kind = .file ∧ entry.name = .utf8 file.path
  name : isPcapFilename file.path = true ∧ ∀ p, args.namePrefix = some p → p.toList <+: file.path.toList
  position : ∃ before after, args.collectPcapFiles d = before ++ file :: after ∧
    (∀ f ∈ before, file.modified ≤ f.modified) ∧ (∀ f ∈ after, f.modified ≤ file.modified) ∧
    ¬ args.retention.Allows (before ++ [file])

theorem exists_of_mem_drop {α : Type*} {l : List α} {k : ℕ} {x : α} (h : x ∈ l.drop k) :
    ∃ before after, l = before ++ x :: after ∧ k ≤ before.length := by
  obtain ⟨skipped, after, hdrop⟩ := List.append_of_mem h
  refine ⟨l.take k ++ skipped, after, ?_, ?_⟩
  · rw [List.append_assoc, ← hdrop, List.take_append_drop]
  · have hlength : (l.drop k).length = skipped.length + (after.length + 1) := by
      rw [hdrop, List.length_append, List.length_cons]
    rw [List.length_drop] at hlength
    rw [List.length_append, List.length_take]
    omega

theorem doomed_of_mem {args : PurgeArgs} {d : Directory} {file : FileInfo} (hforce : args.force = true)
    (h : file ∈ args.filesToDelete (args.collectPcapFiles d)) : args.Doomed d file := by
  unfold PurgeArgs.filesToDelete at h
  obtain ⟨entry, hentry, hcandidate⟩ := mem_collectPcapFiles.1 (List.mem_of_mem_drop h)
  obtain ⟨hkind, hname, hcapture, hprefix, -, -⟩ := candidate_eq_some hcandidate
  refine ⟨hforce, ⟨entry, hentry, hkind, hname⟩, ⟨hcapture, hprefix⟩, ?_⟩
  obtain ⟨before, after, hsplit, hkept⟩ := exists_of_mem_drop h
  have hsorted := sorted_collectPcapFiles args d
  rw [hsplit] at hsorted
  obtain ⟨-, htail, hcross⟩ := List.pairwise_append.1 hsorted
  refine ⟨before, after, hsplit, fun f hf => ?_, fun f hf => ?_, fun hallows => ?_⟩
  · exact (hcross f hf file List.mem_cons_self).modified_le
  · exact ((List.pairwise_cons.1 htail).1 f hf).modified_le
  · -- the file would have been kept
    have hlength : before.length + 1 ≤ (args.collectPcapFiles d).length := by
      rw [hsplit, List.length_append, List.length_cons]
      omega
    have htake : (args.collectPcapFiles d).take (before.length + 1) = before ++ [file] := by
      rw [hsplit, List.take_length_add_append, List.take_succ_cons, List.take_zero]
    have hkeep := (le_keepCount_iff hlength).2 (htake.symm ▸ hallows)
    omega

/-- What holds in every state. -/
structure PurgeInv (args : PurgeArgs) (s : Purge) : Prop where
  queue : ∀ file ∈ s.queue, args.Doomed s.seen file
  removed : ∀ r ∈ s.removed, args.Doomed r.2 r.1

theorem PurgeInv.step {args : PurgeArgs} {s s' : Purge} {a : PurgeOp} (inv : PurgeInv args s)
    (h : s.step args a = some s') : PurgeInv args s' := by
  cases a with
  | collect ok =>
      simp only [Purge.step] at h
      split at h
      · cases h
      split at h
      · obtain rfl := Option.some.inj h
        refine ⟨fun file hfile => ?_, inv.removed⟩
        simp only at hfile
        split at hfile
        · rename_i hforce
          exact doomed_of_mem hforce hfile
        · cases hfile
      · obtain rfl := Option.some.inj h
        exact inv
  | remove ok =>
      simp only [Purge.step] at h
      split at h
      · cases h
      rename_i file queue hqueue
      have hrest : ∀ f ∈ queue, args.Doomed s.seen f := fun f hf =>
        inv.queue f (hqueue ▸ List.mem_cons_of_mem _ hf)
      split at h
      · obtain rfl := Option.some.inj h
        refine ⟨hrest, fun r hr => ?_⟩
        rcases List.mem_cons.1 hr with rfl | hr
        · exact inv.queue file (hqueue ▸ List.mem_cons_self)
        · exact inv.removed r hr
      · obtain rfl := Option.some.inj h
        exact ⟨hrest, inv.removed⟩
  | change dir =>
      obtain rfl := Option.some.inj h
      exact ⟨inv.queue, inv.removed⟩

/-- Whatever a purge removes, in rounds that others disturb and whose removals fail at will, was in the directory its
round saw a capture file with the prefix that the retention did not allow. Without `--force` it removes nothing. -/
theorem purge_law {args : PurgeArgs} {dir : Directory} {as : List PurgeOp} {s : Purge}
    (h : exec (Purge.step args) (.start dir) as = some s) : ∀ r ∈ s.removed, args.Doomed r.2 r.1 :=
  have start : PurgeInv args (.start dir) := ⟨fun _ h => (by cases h), fun _ h => (by cases h)⟩
  (invariant (P := PurgeInv args) (fun _ _ _ inv h => inv.step h) start h).removed

/-! ## A round that nothing disturbs -/

/-- The directory without some files. -/
def Directory.without (d : Directory) (files : List FileInfo) : Directory where
  entries := d.entries.filter fun entry =>
    ¬ (entry.kind ≠ .directory ∧ ∃ file ∈ files, entry.name = .utf8 file.path)
  nodup := d.nodup.sublist (List.filter_sublist.map _)

theorem Directory.without_cons (d : Directory) (file : FileInfo) (files : List FileInfo) :
    (d.removeFile (.utf8 file.path)).without files = d.without (file :: files) := by
  unfold without removeFile
  simp only [List.filter_filter, Directory.mk.injEq]
  refine List.filter_congr fun entry _ => ?_
  rw [← Bool.decide_and]
  refine decide_eq_decide.2 ?_
  rw [← not_or, ← and_or_left, or_comm]
  simp only [List.mem_cons, exists_eq_or_imp]

/-- Removals that all succeed take the queue out of the directory. -/
theorem exec_remove (args : PurgeArgs) {s : Purge} (hnodup : (s.queue.map (·.path)).Nodup)
    (hfiles : ∀ file ∈ s.queue, s.dir.hasFile (.utf8 file.path) = true) :
    ∃ removed, exec (Purge.step args) s (List.replicate s.queue.length (.remove true)) =
      some { s with dir := s.dir.without s.queue, queue := [], removed := removed } := by
  obtain ⟨dir, queue, deleteErrors, seen, removed⟩ := s
  induction queue generalizing dir removed with
  | nil =>
      refine ⟨removed, ?_⟩
      have hall : dir.without [] = dir := by
        unfold Directory.without
        simp
      rw [hall]
      rfl
  | cons file queue ih =>
      obtain ⟨hfile, hnodup⟩ := List.nodup_cons.1 (List.map_cons ▸ hnodup)
      have hthere : dir.hasFile (.utf8 file.path) = true := hfiles file List.mem_cons_self
      obtain ⟨removed', hrun⟩ := ih (dir.removeFile (.utf8 file.path)) ((file, seen) :: removed) hnodup fun f hf => by
        have hother := hfiles f (List.mem_cons_of_mem _ hf)
        obtain ⟨entry, hentry, hf'⟩ := List.any_eq_true.1 hother
        obtain ⟨hkind, hname⟩ := of_decide_eq_true hf'
        refine List.any_eq_true.2 ⟨entry, List.mem_filter.2 ⟨hentry, decide_eq_true ?_⟩, hf'⟩
        rintro ⟨-, hsame⟩
        rw [hname, EntryName.utf8.injEq] at hsame
        exact hfile (hsame ▸ List.mem_map_of_mem hf)
      refine ⟨removed', ?_⟩
      rw [List.length_cons, List.replicate_succ, exec_cons]
      simp only [Purge.step, hthere, Bool.and_self, if_true, Option.bind_some]
      rw [hrun, Directory.without_cons]

/-- What a later round finds: the files that were not removed, in the order they had. -/
theorem collectPcapFiles_without {args : PurgeArgs} {d : Directory} {files : List FileInfo} :
    args.collectPcapFiles (d.without files) =
      (args.collectPcapFiles d).filter fun file => file.path ∉ files.map (·.path) := by
  have hfilter : ∀ entries : List DirEntry,
      (entries.filter fun entry => ¬ (entry.kind ≠ .directory ∧ ∃ file ∈ files, entry.name = .utf8 file.path)).filterMap
        args.candidate = (entries.filterMap args.candidate).filter fun file => file.path ∉ files.map (·.path) := by
    intro entries
    induction entries with
    | nil => rfl
    | cons entry entries ih =>
        cases hcandidate : args.candidate entry with
        | none =>
            rw [List.filterMap_cons_none hcandidate, List.filter_cons]
            split
            · rw [List.filterMap_cons_none hcandidate, ih]
            · exact ih
        | some file =>
            obtain ⟨hkind, hname, -⟩ := candidate_eq_some hcandidate
            have hiff : (¬ (entry.kind ≠ .directory ∧ ∃ f ∈ files, entry.name = .utf8 f.path)) ↔
                file.path ∉ files.map (·.path) := by
              rw [hname, hkind, List.mem_map]
              refine not_congr ⟨?_, ?_⟩
              · rintro ⟨-, f, hf, hpath⟩
                exact ⟨f, hf, (EntryName.utf8.inj hpath).symm⟩
              · rintro ⟨f, hf, hpath⟩
                exact ⟨by decide, f, hf, congrArg _ hpath.symm⟩
            rw [List.filterMap_cons_some hcandidate, List.filter_cons, List.filter_cons]
            simp only [decide_eq_decide.2 hiff]
            split
            · rw [List.filterMap_cons_some hcandidate, ih]
            · exact ih
  have hperm : (args.collectPcapFiles (d.without files)).Perm
      ((args.collectPcapFiles d).filter fun file => file.path ∉ files.map (·.path)) := by
    refine (List.perm_insertionSort _ _).trans ?_
    rw [Directory.without, hfilter]
    exact (List.perm_insertionSort _ _).symm.filter _
  refine hperm.eq_of_pairwise (fun a b ha hb hab hba => ?_) (sorted_collectPcapFiles _ _)
    ((sorted_collectPcapFiles _ _).sublist List.filter_sublist)
  have ha' : a ∈ args.collectPcapFiles d := List.mem_of_mem_filter (hperm.mem_iff.1 ha)
  refine List.inj_on_of_nodup_map (nodup_collectPcapFiles args d) ha' (List.mem_of_mem_filter hb) ?_
  rcases hab with hab | ⟨hmodified, hpath⟩
  · exact absurd hba.modified_le (not_le.2 hab)
  · rcases hba with hba | ⟨-, hpath'⟩
    · exact absurd hmodified hba.ne
    · exact le_antisymm hpath hpath'

/-- What is left of a list without the last part of it. -/
theorem filter_append_of_nodup {α β : Type*} [DecidableEq β] {f : α → β} {kept dropped : List α}
    (h : ((kept ++ dropped).map f).Nodup) :
    ((kept ++ dropped).filter fun x => f x ∉ dropped.map f) = kept := by
  rw [List.map_append] at h
  obtain ⟨-, -, hdisjoint⟩ := List.nodup_append.1 h
  rw [List.filter_append, List.filter_eq_self.2, List.filter_eq_nil_iff.2, List.append_nil]
  · intro x hx
    simpa using ⟨x, hx, rfl⟩
  · intro x hx
    exact decide_eq_true fun hmem => hdisjoint _ (List.mem_map_of_mem hx) _ hmem rfl

/-- A round with `--force` that nothing disturbs and whose removals succeed: of the files it has seen the newest ones
are left, as many as the retention allows; entries that are no candidates stay; and a round after it removes
nothing. -/
theorem purge_round (args : PurgeArgs) (hforce : args.force = true) {s : Purge} (hidle : s.queue = []) :
    ∃ s', exec (Purge.step args) s (.collect true ::
        List.replicate (args.filesToDelete (args.collectPcapFiles s.dir)).length (.remove true)) = some s' ∧
      s'.queue = [] ∧ s'.deleteErrors = 0 ∧
      args.collectPcapFiles s'.dir =
        (args.collectPcapFiles s.dir).take (args.retention.keepCount (args.collectPcapFiles s.dir)) ∧
      args.retention.Allows (args.collectPcapFiles s'.dir) ∧
      args.filesToDelete (args.collectPcapFiles s'.dir) = [] ∧
      ∀ entry, args.candidate entry = none → (entry ∈ s'.dir.entries ↔ entry ∈ s.dir.entries) := by
  set files := args.collectPcapFiles s.dir with hfiles
  have hnodup : ((files.take (args.retention.keepCount files) ++ args.filesToDelete files).map (·.path)).Nodup := by
    unfold PurgeArgs.filesToDelete
    rw [List.take_append_drop]
    exact nodup_collectPcapFiles args s.dir
  have hcandidate : ∀ file ∈ args.filesToDelete files, ∃ entry ∈ s.dir.entries, args.candidate entry = some file :=
    fun file hfile => mem_collectPcapFiles.1 (List.mem_of_mem_drop hfile)
  have hcollect : s.step args (.collect true) =
      some { s with queue := args.filesToDelete files, deleteErrors := 0, seen := s.dir } := by
    simp only [Purge.step, hidle, hforce, ne_eq, not_true_eq_false, if_false, if_true]
    rfl
  obtain ⟨removed, hrun⟩ := exec_remove args
      (s := { s with queue := args.filesToDelete files, deleteErrors := 0, seen := s.dir })
      ((List.map_append ▸ hnodup).of_append_right) fun file hfile => by
    obtain ⟨entry, hentry, heq⟩ := hcandidate file hfile
    obtain ⟨hkind, hname, -⟩ := candidate_eq_some heq
    refine List.any_eq_true.2 ⟨entry, hentry, decide_eq_true ⟨?_, hname⟩⟩
    rw [hkind]
    decide
  have hleft : args.collectPcapFiles (s.dir.without (args.filesToDelete files)) =
      files.take (args.retention.keepCount files) := by
    have hsplit : files.take (args.retention.keepCount files) ++ args.filesToDelete files = files :=
      List.take_append_drop _ _
    have hfilter := filter_append_of_nodup hnodup
    rw [hsplit] at hfilter
    rw [collectPcapFiles_without]
    exact hfilter
  have hallows : args.retention.Allows (files.take (args.retention.keepCount files)) := by
    rw [List.take_eq_take_min]
    exact (le_keepCount_iff (min_le_right _ _)).1 (min_le_left _ _)
  refine ⟨_, by rw [exec_cons, hcollect]; exact hrun, rfl, rfl, hleft, hleft ▸ hallows, ?_, fun entry hentry => ?_⟩
  · rw [hleft]
    refine List.drop_eq_nil_of_le ((le_keepCount_iff le_rfl).2 ?_)
    rw [List.take_length]
    exact hallows
  · refine ⟨List.mem_of_mem_filter, fun hmem => List.mem_filter.2 ⟨hmem, decide_eq_true ?_⟩⟩
    rintro ⟨-, file, hfile, hname⟩
    obtain ⟨entry', hentry', heq⟩ := hcandidate file hfile
    have hsame : entry = entry' :=
      List.inj_on_of_nodup_map s.dir.nodup hmem hentry' (hname.trans (candidate_eq_some heq).2.1.symm)
    rw [hsame, heq] at hentry
    cases hentry

/-- Two captures and a note. -/
def captures : Directory where
  entries := [⟨.utf8 "log.pcap.1", .file, 10, 1⟩, ⟨.utf8 "log.pcap.2", .file, 10, 2⟩, ⟨.utf8 "README", .file, 1, 0⟩]
  nodup := by decide

/-- The older capture does not fit. -/
def purgeToSize : PurgeArgs := ⟨.maxSize 15, some "log", true⟩

theorem purge_law_captures :
    ∃ s, exec (Purge.step purgeToSize) (.start captures) [.collect true, .remove true] = some s ∧
      s.removed.map (·.1.path) = ["log.pcap.1"] ∧ ∀ r ∈ s.removed, purgeToSize.Doomed r.2 r.1 := by
  have hremoved : (exec (Purge.step purgeToSize) (.start captures) [.collect true, .remove true]).map
      (fun s => s.removed.map (·.1.path)) = some ["log.pcap.1"] := by
    decide +kernel
  obtain ⟨s, hs, hremoved⟩ := Option.map_eq_some_iff.1 hremoved
  exact ⟨s, hs, hremoved, purge_law hs⟩

theorem purge_round_captures :
    ∃ s, exec (Purge.step purgeToSize) (.start captures) [.collect true, .remove true] = some s ∧
      purgeToSize.retention.Allows (purgeToSize.collectPcapFiles s.dir) := by
  have hlength : (purgeToSize.filesToDelete (purgeToSize.collectPcapFiles captures)).length = 1 := by
    decide +kernel
  obtain ⟨s, hs, -, -, -, hallows, -⟩ := purge_round purgeToSize rfl (s := .start captures) rfl
  refine ⟨s, ?_, hallows⟩
  rw [show (Purge.start captures).dir = captures from rfl, hlength] at hs
  exact hs

end EveBox.Pcap
