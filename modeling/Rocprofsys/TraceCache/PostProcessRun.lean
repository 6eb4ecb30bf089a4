import Rocprofsys.TraceCache.PostProcess
import Mathlib.Data.List.Perm.Basic

namespace Rocprofsys
namespace TraceCache

open Base

namespace PostProcess

/-! ## What a process does -/

/-- What is in the files of a process. -/
def contentOf (work : Work) : Phase → CacheFileKind → Option Bytes
  | .fresh, _ => none
  | .storing written, .buffStorage => some (work.storage.take written)
  | .storing _, .metadata => none
  | .stopped, .buffStorage => some work.storage
  | .stopped, .metadata => none
  | .saving _, .buffStorage => some work.storage
  | .saving written, .metadata => work.metadata.map (·.take written)
  | .exited, .buffStorage => some work.storage
  | .exited, .metadata => work.metadata

/-- The process has made this file, which may be gone by now. -/
def Opened (work : Work) (phase : Phase) (kind : CacheFileKind) : Prop :=
  (contentOf work phase kind).isSome = true

section Advances

variable {settings : Settings} {work : Int32 → Work} {s s' : Processes} {a : Action} {pid : Int32}

/-- One step of a process: nothing of another one changes, its files follow it, and what is
removed does not come back. -/
structure Advances (settings : Settings) (work : Int32 → Work) (pid : Int32) (s s' : Processes) :
    Prop where
  bulk : s'.bulk = s.bulk
  others : ∀ q, q ≠ pid → s'.phase q = s.phase q
  active : s.phase pid ≠ .exited
  root : pid = settings.root → s.phase pid ≠ .stopped ∧
    (s'.phase pid = .stopped ∨ ∃ written, s'.phase pid = .storing written)
  unrelated : ∀ path, (∀ kind : CacheFileKind, path ≠ kind.filepath settings.root pid) →
    s'.files.read path = s.files.read path
  opened : ∀ kind, Opened (work pid) (s.phase pid) kind → Opened (work pid) (s'.phase pid) kind
  follows : ∀ kind : CacheFileKind,
    s.files.read (kind.filepath settings.root pid) = contentOf (work pid) (s.phase pid) kind →
      s'.files.read (kind.filepath settings.root pid) = contentOf (work pid) (s'.phase pid) kind
  gone : ∀ kind : CacheFileKind, Opened (work pid) (s.phase pid) kind →
    s.files.read (kind.filepath settings.root pid) = none →
      s'.files.read (kind.filepath settings.root pid) = none

/-- The phases follow each other. -/
structure Goes (settings : Settings) (work : Int32 → Work) (pid : Int32) (phase phase' : Phase) :
    Prop where
  active : phase ≠ .exited
  root : pid = settings.root → phase ≠ .stopped ∧
    (phase' = .stopped ∨ ∃ written, phase' = .storing written)

theorem filepath_ne_of_kind (hpid : 0 ≤ pid) {kind kind' : CacheFileKind} (h : kind ≠ kind') :
    kind.filepath settings.root pid ≠ kind'.filepath settings.root pid := by
  intro heq
  exact h ((filepath_inj settings.root_nonneg hpid hpid).mp heq).1

/-- Opening one file. -/
theorem advances_write (hpid : 0 ≤ pid) (kind : CacheFileKind) {phase : Phase}
    (hgoes : Goes settings work pid (s.phase pid) phase)
    (hfresh : contentOf (work pid) (s.phase pid) kind = none)
    (hopened : contentOf (work pid) phase kind = some [])
    (hother : ∀ other, other ≠ kind →
      contentOf (work pid) phase other = contentOf (work pid) (s.phase pid) other) :
    Advances settings work pid s
      (s.setPhase pid phase (s.files.write (kind.filepath settings.root pid) [])) := by
  have hphase : (s.setPhase pid phase
      (s.files.write (kind.filepath settings.root pid) [])).phase pid = phase :=
    Function.update_self ..
  constructor
  · rfl
  · exact fun q hq => Function.update_of_ne hq ..
  · exact hgoes.active
  · rw [hphase]
    exact hgoes.root
  · intro path hpath
    exact (s.files.read_write _ _ _).trans (if_neg (hpath kind))
  · intro other hbefore
    rw [hphase]
    by_cases heq : other = kind
    · rw [heq, Opened, hopened]
      rfl
    · rw [Opened, hother other heq]
      exact hbefore
  · intro other hread
    rw [hphase]
    refine (s.files.read_write _ _ _).trans ?_
    by_cases heq : other = kind
    · rw [heq, if_pos rfl, hopened]
    · rw [if_neg (filepath_ne_of_kind hpid heq), hread, hother other heq]
  · intro other hbefore hnone
    by_cases heq : other = kind
    · rw [heq, Opened, hfresh] at hbefore
      cases hbefore
    · exact (s.files.read_write _ _ _).trans
        ((if_neg (filepath_ne_of_kind hpid heq)).trans hnone)

/-- Writing to one file. -/
theorem advances_append (hpid : 0 ≤ pid) (kind : CacheFileKind) (bytes : Bytes) {phase : Phase}
    (hgoes : Goes settings work pid (s.phase pid) phase)
    (hgrows : contentOf (work pid) phase kind =
      (contentOf (work pid) (s.phase pid) kind).map (· ++ bytes))
    (hother : ∀ other, other ≠ kind →
      contentOf (work pid) phase other = contentOf (work pid) (s.phase pid) other) :
    Advances settings work pid s
      (s.setPhase pid phase (s.files.append (kind.filepath settings.root pid) bytes)) := by
  have hphase : (s.setPhase pid phase
      (s.files.append (kind.filepath settings.root pid) bytes)).phase pid = phase :=
    Function.update_self ..
  constructor
  · rfl
  · exact fun q hq => Function.update_of_ne hq ..
  · exact hgoes.active
  · rw [hphase]
    exact hgoes.root
  · intro path hpath
    exact (s.files.read_append _ _ _).trans (if_neg (hpath kind))
  · intro other hbefore
    rw [hphase]
    by_cases heq : other = kind
    · rw [heq, Opened, hgrows, Option.isSome_map]
      rw [heq] at hbefore
      exact hbefore
    · rw [Opened, hother other heq]
      exact hbefore
  · intro other hread
    rw [hphase]
    refine (s.files.read_append _ _ _).trans ?_
    by_cases heq : other = kind
    · rw [heq] at hread
      rw [heq, if_pos rfl, hgrows, hread]
    · rw [if_neg (filepath_ne_of_kind hpid heq), hread, hother other heq]
  · intro other _ hnone
    refine (s.files.read_append _ _ _).trans ?_
    by_cases heq : other = kind
    · rw [heq] at hnone
      rw [heq, if_pos rfl, hnone]
      rfl
    · rw [if_neg (filepath_ne_of_kind hpid heq), hnone]

/-- Closing. -/
theorem advances_same {phase : Phase} (hgoes : Goes settings work pid (s.phase pid) phase)
    (hsame : ∀ kind, contentOf (work pid) phase kind = contentOf (work pid) (s.phase pid) kind) :
    Advances settings work pid s (s.setPhase pid phase s.files) := by
  have hphase : (s.setPhase pid phase s.files).phase pid = phase := Function.update_self ..
  constructor
  · rfl
  · exact fun q hq => Function.update_of_ne hq ..
  · exact hgoes.active
  · rw [hphase]
    exact hgoes.root
  · exact fun path _ => rfl
  · intro kind hbefore
    rw [hphase, Opened, hsame]
    exact hbefore
  · intro kind hread
    rw [hphase, hsame]
    exact hread
  · exact fun kind _ hnone => hnone

theorem take_append_take_drop (bytes : Bytes) (n k : Nat) :
    bytes.take n ++ (bytes.drop n).take k = bytes.take (n + k) := by
  rw [List.take_add]

/-- Whatever a step does outside the post-processing, one process advances. -/
theorem advances_of_stepProcess (hnonneg : ∀ pid, s.phase pid ≠ .fresh → 0 ≤ pid)
    (hroot : ∀ written, s.phase settings.root ≠ .saving written)
    (h : stepProcess settings work s a = some s') :
    ∃ pid, 0 ≤ pid ∧ Advances settings work pid s s' := by
  cases a with
  | start pid =>
    obtain ⟨hguard, h⟩ := Option.ite_none_right_eq_some.mp h
    cases h
    refine ⟨pid, hguard.1, advances_write hguard.1 .buffStorage ⟨?_, fun _ => ⟨?_, Or.inr ⟨0, rfl⟩⟩⟩
      ?_ ?_ ?_⟩
    · rw [hguard.2]
      exact Phase.noConfusion
    · rw [hguard.2]
      exact Phase.noConfusion
    · rw [hguard.2]
      rfl
    · rfl
    · intro other hother
      rw [hguard.2]
      cases other with
      | buffStorage => exact absurd rfl hother
      | metadata => rfl
  | flush pid length =>
    dsimp only [stepProcess] at h
    split at h
    · next written hphase =>
      obtain ⟨hguard, h⟩ := Option.ite_none_right_eq_some.mp h
      cases h
      have hpid : 0 ≤ pid := hnonneg pid (by rw [hphase]; exact Phase.noConfusion)
      refine ⟨pid, hpid, advances_append hpid .buffStorage _ ⟨?_, fun _ => ⟨?_, Or.inr ⟨_, rfl⟩⟩⟩
        ?_ ?_⟩
      · rw [hphase]
        exact Phase.noConfusion
      · rw [hphase]
        exact Phase.noConfusion
      · rw [hphase]
        exact congrArg some (take_append_take_drop _ _ _).symm
      · intro other hother
        rw [hphase]
        cases other with
        | buffStorage => exact absurd rfl hother
        | metadata => rfl
    · cases h
  | shutdown pid =>
    dsimp only [stepProcess] at h
    split at h
    · next written hphase =>
      cases h
      have hpid : 0 ≤ pid := hnonneg pid (by rw [hphase]; exact Phase.noConfusion)
      refine ⟨pid, hpid, advances_append hpid .buffStorage _ ⟨?_, fun _ => ⟨?_, Or.inl rfl⟩⟩ ?_ ?_⟩
      · rw [hphase]
        exact Phase.noConfusion
      · rw [hphase]
        exact Phase.noConfusion
      · rw [hphase]
        exact congrArg some (List.take_append_drop _ _).symm
      · intro other hother
        rw [hphase]
        cases other with
        | buffStorage => exact absurd rfl hother
        | metadata => rfl
    · cases h
  | openMetadata pid =>
    obtain ⟨hguard, h⟩ := Option.ite_none_right_eq_some.mp h
    have hpid : 0 ≤ pid := hnonneg pid (by rw [hguard.2]; exact Phase.noConfusion)
    cases hmetadata : (work pid).metadata with
    | some text =>
      rw [hmetadata] at h
      cases h
      refine ⟨pid, hpid, advances_write hpid .metadata ⟨?_, fun heq => absurd heq hguard.1⟩
        ?_ ?_ ?_⟩
      · rw [hguard.2]
        exact Phase.noConfusion
      · rw [hguard.2]
        rfl
      · rw [contentOf, hmetadata]
        rfl
      · intro other hother
        rw [hguard.2]
        cases other with
        | buffStorage => rfl
        | metadata => exact absurd rfl hother
    | none =>
      rw [hmetadata] at h
      cases h
      refine ⟨pid, hpid, advances_same ⟨?_, fun heq => absurd heq hguard.1⟩ fun kind => ?_⟩
      · rw [hguard.2]
        exact Phase.noConfusion
      · rw [hguard.2]
        cases kind with
        | buffStorage => rfl
        | metadata => exact hmetadata
  | writeMetadata pid length =>
    dsimp only [stepProcess] at h
    split at h
    · next written text hphase hmetadata =>
      obtain ⟨hguard, h⟩ := Option.ite_none_right_eq_some.mp h
      cases h
      have hpid : 0 ≤ pid := hnonneg pid (by rw [hphase]; exact Phase.noConfusion)
      have hchild : pid ≠ settings.root := by
        intro heq
        rw [heq] at hphase
        exact hroot _ hphase
      refine ⟨pid, hpid, advances_append hpid .metadata _ ⟨?_, fun heq => absurd heq hchild⟩ ?_ ?_⟩
      · rw [hphase]
        exact Phase.noConfusion
      · rw [hphase, contentOf, contentOf, hmetadata]
        exact congrArg some (take_append_take_drop _ _ _).symm
      · intro other hother
        rw [hphase]
        cases other with
        | buffStorage => rfl
        | metadata => exact absurd rfl hother
    · cases h
  | exit pid =>
    dsimp only [stepProcess] at h
    split at h
    · next written text hphase hmetadata =>
      obtain ⟨hguard, h⟩ := Option.ite_none_right_eq_some.mp h
      cases h
      have hpid : 0 ≤ pid := hnonneg pid (by rw [hphase]; exact Phase.noConfusion)
      have hchild : pid ≠ settings.root := by
        intro heq
        rw [heq] at hphase
        exact hroot _ hphase
      refine ⟨pid, hpid, advances_same ⟨?_, fun heq => absurd heq hchild⟩ fun kind => ?_⟩
      · rw [hphase]
        exact Phase.noConfusion
      · rw [hphase]
        cases kind with
        | buffStorage => rfl
        | metadata =>
          rw [contentOf, contentOf, hmetadata, hguard, Option.map_some, List.take_length]
    · cases h
  | list names => cases h
  | load => cases h
  | dispatch => cases h
  | processNext => cases h
  | processThread i => cases h
  | clear => cases h
  | remove => cases h

end Advances

/-! ## Files and phases agree -/

namespace BulkPhase

def removed : BulkPhase → List Bytes
  | clearing removed _ _ => removed
  | completed removed _ => removed
  | _ => []

/-- The paths that are removed or going to be. -/
def mentioned : BulkPhase → List Bytes
  | running => []
  | loading entries _ _ => clearedPaths entries
  | processing entries _ _ _ => clearedPaths entries
  | clearing removed remaining _ => removed ++ remaining
  | completed removed _ => removed

theorem removed_cleared (removed remaining : List Bytes) (processed : List Processed) :
    (cleared removed remaining processed).removed = removed := by
  unfold cleared
  split <;> rfl

theorem mentioned_cleared (removed remaining : List Bytes) (processed : List Processed) :
    (cleared removed remaining processed).mentioned = removed ++ remaining := by
  unfold cleared
  split
  · next hnil =>
    rw [hnil, List.append_nil]
    rfl
  · rfl

end BulkPhase

/-- The files of each process are what it wrote, or removed; and no other file has a name of this
root. -/
structure Consistent (settings : Settings) (work : Int32 → Work) (s : Processes) : Prop where
  nonneg : ∀ pid, s.phase pid ≠ .fresh → 0 ≤ pid
  root : s.phase settings.root = .fresh ∨ s.phase settings.root = .stopped ∨
    ∃ written, s.phase settings.root = .storing written
  content : ∀ (kind : CacheFileKind) pid, 0 ≤ pid →
    kind.filepath settings.root pid ∉ s.bulk.removed →
      s.files.read (kind.filepath settings.root pid) = contentOf (work pid) (s.phase pid) kind
  gone : ∀ path ∈ s.bulk.removed, path ≠ [] → s.files.read path = none
  mentioned : ∀ path ∈ s.bulk.mentioned, path ≠ [] → ∃ (kind : CacheFileKind) (pid : Int32),
    0 ≤ pid ∧ path = kind.filepath settings.root pid ∧ Opened (work pid) (s.phase pid) kind
  canonical : ∀ kind pid filename, Names kind settings.root pid filename →
    (s.files.read (tmpDirectory ++ filename)).isSome = true →
      tmpDirectory ++ filename = kind.filepath settings.root pid

section Consistent

variable {settings : Settings} {work : Int32 → Work} {s s' : Processes} {a : Action} {pid : Int32}

theorem names_filepath_iff {kind kind' : CacheFileKind} {p q : Int32} {filename : Bytes}
    (hp : 0 ≤ p) (hnames : Names kind settings.root q filename)
    (hpath : tmpDirectory ++ filename = kind'.filepath settings.root p) : kind = kind' ∧ q = p := by
  rw [filepath_eq settings.root_nonneg hp] at hpath
  obtain ⟨parent, child, hname, _, hchild⟩ := hnames
  have heq := (List.append_cancel_left hpath).symm.trans hname
  obtain ⟨hkind, _, hvalue⟩ := name_inj heq
  rw [value_digitsOf] at hvalue
  have hp' := toInt_nonneg hp
  refine ⟨hkind.symm, Int32.toInt_inj.mp ?_⟩
  omega

theorem filepath_ne_nil (kind : CacheFileKind) (ppid pid : Int32) :
    kind.filepath ppid pid ≠ [] := append_ne_nil _

theorem filepath_eq_or (hpid : 0 ≤ pid) {kind : CacheFileKind} {q : Int32} (hq : 0 ≤ q) :
    q = pid ∨ ∀ kind' : CacheFileKind,
      kind.filepath settings.root q ≠ kind'.filepath settings.root pid := by
  by_cases h : q = pid
  · exact Or.inl h
  · exact Or.inr fun kind' heq =>
      h ((filepath_inj settings.root_nonneg hq hpid).mp heq).2

theorem Consistent.mem_mentioned_of_removed (path : Bytes) (bulk : BulkPhase)
    (h : path ∈ bulk.removed) : path ∈ bulk.mentioned := by
  cases bulk with
  | clearing removed remaining processed => exact List.mem_append_left _ h
  | completed removed processed => exact h
  | running => cases h
  | loading entries remaining configs => cases h
  | processing entries sequential parallel processed => cases h

theorem Consistent.advances (h : Consistent settings work s) (hpid : 0 ≤ pid)
    (hadvances : Advances settings work pid s s') : Consistent settings work s' := by
  have hphase (q : Int32) : s'.phase q = s.phase q ∨ q = pid := by
    by_cases hq : q = pid
    · exact Or.inr hq
    · exact Or.inl (hadvances.others q hq)
  have hopened (kind : CacheFileKind) (q : Int32) (hbefore : Opened (work q) (s.phase q) kind) :
      Opened (work q) (s'.phase q) kind := by
    rcases hphase q with heq | rfl
    · rw [heq]
      exact hbefore
    · exact hadvances.opened kind hbefore
  constructor
  · intro q hq
    rcases hphase q with heq | rfl
    · rw [heq] at hq
      exact h.nonneg q hq
    · exact hpid
  · rcases hphase settings.root with heq | heq
    · rw [heq]
      exact h.root
    · have hroot := (hadvances.root heq.symm).2
      rw [heq]
      exact Or.inr hroot
  · intro kind q hq hkept
    rw [hadvances.bulk] at hkept
    have hread := h.content kind q hq hkept
    rcases filepath_eq_or hpid hq with rfl | hother
    · exact hadvances.follows kind hread
    · rw [hadvances.unrelated _ hother, hread]
      rcases hphase q with heq | rfl
      · rw [heq]
      · exact absurd rfl (hother kind)
  · intro path hpath hne
    rw [hadvances.bulk] at hpath
    have hnone := h.gone path hpath hne
    obtain ⟨kind, q, hq, heq, hbefore⟩ :=
      h.mentioned path (Consistent.mem_mentioned_of_removed path s.bulk hpath) hne
    rw [heq] at hnone ⊢
    rcases filepath_eq_or hpid hq with rfl | hother
    · exact hadvances.gone kind hbefore hnone
    · rw [hadvances.unrelated _ hother, hnone]
  · intro path hpath hne
    rw [hadvances.bulk] at hpath
    obtain ⟨kind, q, hq, heq, hbefore⟩ := h.mentioned path hpath hne
    exact ⟨kind, q, hq, heq, hopened kind q hbefore⟩
  · intro kind q filename hnames hread
    by_cases hours : ∃ kind' : CacheFileKind,
        tmpDirectory ++ filename = kind'.filepath settings.root pid
    · obtain ⟨kind', hpath⟩ := hours
      obtain ⟨rfl, rfl⟩ := names_filepath_iff hpid hnames hpath
      exact hpath
    · have hsame := hadvances.unrelated (tmpDirectory ++ filename) fun kind' hpath =>
        hours ⟨kind', hpath⟩
      rw [hsame] at hread
      exact h.canonical kind q filename hnames hread

/-- What a step of the post-processing does. -/
inductive BulkStep (settings : Settings) (s : Processes) : Processes → Prop
  | list {names : List Bytes} {cacheMap : MappedCacheFiles} (hbulk : s.bulk = .running)
      (hroot : s.phase settings.root = .stopped) (hlists : Lists s.files names)
      (hfiles : getCacheFiles settings.root names = .ok cacheMap) :
      BulkStep settings s
        { s with bulk := .loading (mapEntries names cacheMap) (mapEntries names cacheMap) [] }
  | load {entries remaining : List (Int32 × CacheFiles)} {entry : Int32 × CacheFiles}
      {configs : List Config} (hbulk : s.bulk = .loading entries (entry :: remaining) configs) :
      BulkStep settings s
        { s with bulk := .loading entries remaining (configs ++ s.configOf entry) }
  | dispatch {entries : List (Int32 × CacheFiles)} {configs : List Config}
      (hbulk : s.bulk = .loading entries [] configs) :
      BulkStep settings s
        { s with
          bulk := .processing entries (settings.sequentialJobs (configs ++ [settings.ownConfig]))
            (settings.parallelJobs (configs ++ [settings.ownConfig])) [] }
  | processNext {entries : List (Int32 × CacheFiles)} {job : Job} {sequential parallel : List Job}
      {processed : List Processed}
      (hbulk : s.bulk = .processing entries (job :: sequential) parallel processed) :
      BulkStep settings s
        { s with
          bulk := .processing entries sequential parallel
            (processed ++ [s.processBufferedStorage settings job]) }
  | processThread {entries : List (Int32 × CacheFiles)} {parallel : List Job}
      {processed : List Processed} {i : Nat} {job : Job}
      (hbulk : s.bulk = .processing entries [] parallel processed) (hjob : parallel[i]? = some job) :
      BulkStep settings s
        { s with
          bulk := .processing entries [] (parallel.eraseIdx i)
            (processed ++ [s.processBufferedStorage settings job]) }
  | clear {entries : List (Int32 × CacheFiles)} {processed : List Processed}
      (hbulk : s.bulk = .processing entries [] [] processed) :
      BulkStep settings s { s with bulk := .cleared [] (clearedPaths entries) processed }
  | remove {removed remaining : List Bytes} {fname : Bytes} {processed : List Processed}
      (hbulk : s.bulk = .clearing removed (fname :: remaining) processed) :
      BulkStep settings s
        { s with
          files := Processes.removeIfExists s.files fname
          bulk := .cleared (removed ++ [fname]) remaining processed }

theorem bulkStep_of_stepBulk (h : stepBulk settings s a = some s') : BulkStep settings s s' := by
  cases a with
  | list names =>
    dsimp only [stepBulk] at h
    split at h
    · next hbulk =>
      obtain ⟨hguard, h⟩ := Option.ite_none_right_eq_some.mp h
      obtain ⟨cacheMap, hmap, heq⟩ := Option.map_eq_some_iff.mp h
      cases heq
      cases hfiles : getCacheFiles settings.root names with
      | error e =>
        rw [hfiles] at hmap
        cases hmap
      | ok map =>
        rw [hfiles] at hmap
        cases hmap
        exact .list hbulk hguard.1 hguard.2 hfiles
    · cases h
  | load =>
    dsimp only [stepBulk] at h
    split at h
    · next hbulk =>
      cases h
      exact .load hbulk
    · cases h
  | dispatch =>
    dsimp only [stepBulk] at h
    split at h
    · next hbulk =>
      cases h
      exact .dispatch hbulk
    · cases h
  | processNext =>
    dsimp only [stepBulk] at h
    split at h
    · next hbulk =>
      cases h
      exact .processNext hbulk
    · cases h
  | processThread i =>
    dsimp only [stepBulk] at h
    split at h
    · next hbulk =>
      obtain ⟨job, hjob, heq⟩ := Option.map_eq_some_iff.mp h
      cases heq
      exact .processThread hbulk hjob
    · cases h
  | clear =>
    dsimp only [stepBulk] at h
    split at h
    · next hbulk =>
      cases h
      exact .clear hbulk
    · cases h
  | remove =>
    dsimp only [stepBulk] at h
    split at h
    · next hbulk =>
      cases h
      exact .remove hbulk
    · cases h
  | start pid => cases h
  | flush pid length => cases h
  | shutdown pid => cases h
  | openMetadata pid => cases h
  | writeMetadata pid length => cases h
  | exit pid => cases h

theorem mem_clearedPaths {entries : List (Int32 × CacheFiles)} {path : Bytes} :
    path ∈ clearedPaths entries ↔ ∃ entry ∈ entries, ∃ kind, path = entry.2.path kind := by
  rw [clearedPaths, List.mem_flatMap]
  refine exists_congr fun entry => and_congr_right fun _ => ?_
  rw [List.mem_cons, List.mem_singleton]
  constructor
  · intro h
    rcases h with h | h
    · exact ⟨.buffStorage, h⟩
    · exact ⟨.metadata, h⟩
  · intro h
    obtain ⟨kind, h⟩ := h
    cases kind with
    | buffStorage => exact Or.inl h
    | metadata => exact Or.inr h

/-- What is listed belongs to a process that has opened it. -/
theorem Consistent.opened_of_entry (h : Consistent settings work s) (hbulk : s.bulk = .running)
    {names : List Bytes} (hlists : Lists s.files names) {cacheMap : MappedCacheFiles}
    (hfiles : getCacheFiles settings.root names = .ok cacheMap) {entry : Int32 × CacheFiles}
    (hentry : entry ∈ mapEntries names cacheMap) {kind : CacheFileKind}
    (hpath : entry.2.path kind ≠ []) :
    0 ≤ entry.1 ∧ entry.2.path kind = kind.filepath settings.root entry.1 ∧
      Opened (work entry.1) (s.phase entry.1) kind := by
  obtain ⟨filename, hmem, hnames, heq⟩ := listed_of_entry hfiles hentry hpath
  have hread : (s.files.read (tmpDirectory ++ filename)).isSome = true :=
    (s.files.mem_paths_iff _).mp (hlists.mem_iff.mp (List.mem_map_of_mem hmem))
  have hcanonical := h.canonical kind entry.1 filename hnames hread
  have hnonneg := nonneg_of_names hnames
  refine ⟨hnonneg, heq.trans hcanonical, ?_⟩
  have hkept : kind.filepath settings.root entry.1 ∉ s.bulk.removed := by
    rw [hbulk]
    exact List.not_mem_nil
  rw [Opened, ← h.content kind entry.1 hnonneg hkept, ← hcanonical]
  exact hread

/-- Where only the phase of the post-processing changes. -/
theorem Consistent.setBulk (h : Consistent settings work s) {bulk : BulkPhase}
    (hremoved : bulk.removed = s.bulk.removed) (hmentioned : ∀ path ∈ bulk.mentioned, path ≠ [] →
      ∃ (kind : CacheFileKind) (pid : Int32), 0 ≤ pid ∧ path = kind.filepath settings.root pid ∧
        Opened (work pid) (s.phase pid) kind) :
    Consistent settings work { s with bulk } := by
  refine ⟨h.nonneg, h.root, ?_, ?_, hmentioned, h.canonical⟩
  · intro kind pid hpid hkept
    exact h.content kind pid hpid (hremoved ▸ hkept)
  · intro path hpath
    exact h.gone path (hremoved ▸ hpath)

theorem read_removeIfExists (files : Files Bytes UInt8) {fname path : Bytes} (hpath : path ≠ []) :
    (Processes.removeIfExists files fname).read path =
      if path = fname then none else files.read path := by
  unfold Processes.removeIfExists
  split
  · next hnil =>
    rw [hnil, if_neg hpath]
  · exact files.read_remove fname path

theorem Consistent.bulkStep (h : Consistent settings work s) (hstep : BulkStep settings s s') :
    Consistent settings work s' := by
  cases hstep with
  | list hbulk hroot hlists hfiles =>
    refine h.setBulk (by rw [hbulk]; rfl) fun path hpath hne => ?_
    obtain ⟨entry, hentry, kind, rfl⟩ := mem_clearedPaths.mp hpath
    exact ⟨kind, entry.1, h.opened_of_entry hbulk hlists hfiles hentry hne⟩
  | load hbulk =>
    refine h.setBulk (by rw [hbulk]; rfl) fun path hpath => h.mentioned path ?_
    rw [hbulk]
    exact hpath
  | dispatch hbulk =>
    refine h.setBulk (by rw [hbulk]; rfl) fun path hpath => h.mentioned path ?_
    rw [hbulk]
    exact hpath
  | processNext hbulk =>
    refine h.setBulk (by rw [hbulk]; rfl) fun path hpath => h.mentioned path ?_
    rw [hbulk]
    exact hpath
  | processThread hbulk hjob =>
    refine h.setBulk (by rw [hbulk]; rfl) fun path hpath => h.mentioned path ?_
    rw [hbulk]
    exact hpath
  | clear hbulk =>
    refine h.setBulk ?_ fun path hpath => h.mentioned path ?_
    · rw [BulkPhase.removed_cleared, hbulk]
      rfl
    · rw [BulkPhase.mentioned_cleared] at hpath
      rw [hbulk]
      exact hpath
  | @remove removed remaining fname processed hbulk =>
    have hremoved := h.gone
    have hmentioned := h.mentioned
    rw [hbulk] at hremoved hmentioned
    refine ⟨h.nonneg, h.root, ?_, ?_, ?_, ?_⟩
    · intro kind pid hpid hkept
      rw [BulkPhase.removed_cleared, List.mem_append, not_or, List.mem_singleton] at hkept
      refine (read_removeIfExists _ (filepath_ne_nil _ _ _)).trans ?_
      rw [if_neg hkept.2]
      refine h.content kind pid hpid ?_
      rw [hbulk]
      exact hkept.1
    · intro path hpath hne
      rw [BulkPhase.removed_cleared, List.mem_append, List.mem_singleton] at hpath
      refine (read_removeIfExists _ hne).trans ?_
      rcases hpath with hpath | rfl
      · rw [hremoved path hpath hne, ite_self]
      · exact if_pos rfl
    · intro path hpath
      rw [BulkPhase.mentioned_cleared, List.append_assoc] at hpath
      exact hmentioned path hpath
    · intro kind pid filename hnames hread
      refine h.canonical kind pid filename hnames ?_
      rw [read_removeIfExists s.files (append_ne_nil filename)] at hread
      split at hread
      · cases hread
      · exact hread

end Consistent

/-! ## What the root handles -/

section Handling

variable {settings : Settings} {work : Int32 → Work} {listed s s' : Processes} {a : Action}
  {entries : List (Int32 × CacheFiles)}

/-- Processes have gone on since the listing. -/
structure Later (settings : Settings) (work : Int32 → Work) (listed s : Processes) : Prop where
  opened : ∀ pid kind, Opened (work pid) (listed.phase pid) kind →
    Opened (work pid) (s.phase pid) kind
  exited : ∀ pid, listed.phase pid = .exited → s.phase pid = .exited
  root : s.phase settings.root = .stopped

theorem Later.advances {pid : Int32} (h : Later settings work listed s)
    (hadvances : Advances settings work pid s s') : Later settings work listed s' := by
  constructor
  · intro q kind hopened
    have hbefore := h.opened q kind hopened
    by_cases hq : q = pid
    · rw [hq] at hbefore ⊢
      exact hadvances.opened kind hbefore
    · rw [hadvances.others q hq]
      exact hbefore
  · intro q hexited
    have hbefore := h.exited q hexited
    have hq : q ≠ pid := by
      intro heq
      rw [heq] at hbefore
      exact hadvances.active hbefore
    rw [hadvances.others q hq]
    exact hbefore
  · have hroot : settings.root ≠ pid := by
      intro heq
      refine (hadvances.root heq.symm).1 ?_
      rw [← heq]
      exact h.root
    rw [hadvances.others _ hroot]
    exact h.root

theorem Later.bulkStep (h : Later settings work listed s) (hstep : BulkStep settings s s') :
    Later settings work listed s' := by
  have hphase : s'.phase = s.phase := by cases hstep <;> rfl
  constructor
  · rw [hphase]
    exact h.opened
  · rw [hphase]
    exact h.exited
  · rw [hphase]
    exact h.root

/-- No file with another name has changed. -/
def Untouched (settings : Settings) (files : Files Bytes UInt8) (s : Processes) : Prop :=
  ∀ path, path ≠ [] → (∀ (kind : CacheFileKind) (pid : Int32), 0 ≤ pid →
    path ≠ kind.filepath settings.root pid) → s.files.read path = files.read path

theorem Untouched.bulkStep {files : Files Bytes UInt8} (hconsistent : Consistent settings work s)
    (h : Untouched settings files s) (hstep : BulkStep settings s s') :
    Untouched settings files s' := by
  intro path hne hpath
  cases hstep with
  | @remove removed remaining fname processed hbulk =>
    refine (read_removeIfExists s.files hne).trans ?_
    rw [if_neg]
    · exact h path hne hpath
    · intro heq
      have hmentioned : path ∈ s.bulk.mentioned := by
        rw [hbulk, heq]
        exact List.mem_append_right _ List.mem_cons_self
      obtain ⟨kind, pid, hpid, hfilepath, _⟩ := hconsistent.mentioned path hmentioned hne
      exact hpath kind pid hpid hfilepath
  | list => exact h path hne hpath
  | load => exact h path hne hpath
  | dispatch => exact h path hne hpath
  | processNext => exact h path hne hpath
  | processThread => exact h path hne hpath
  | clear => exact h path hne hpath

/-- Metadata is open: what is read of it is where its text begins, and the storage is whole. -/
theorem contentOf_of_opened {work : Work} {phase : Phase} (h : Opened work phase .metadata) :
    contentOf work phase .buffStorage = some work.storage ∧
      ∃ text n, work.metadata = some text ∧
        contentOf work phase .metadata = some (text.take n) ∧
          (phase = .exited → text.take n = text) := by
  cases phase with
  | fresh => cases h
  | storing written => cases h
  | stopped => cases h
  | saving written =>
    have hsome : (work.metadata.map (·.take written)).isSome = true := h
    rw [Option.isSome_map] at hsome
    obtain ⟨text, htext⟩ := Option.isSome_iff_exists.mp hsome
    refine ⟨rfl, text, written, htext, ?_, Phase.noConfusion⟩
    rw [contentOf, htext]
    rfl
  | exited =>
    have hsome : work.metadata.isSome = true := h
    obtain ⟨text, htext⟩ := Option.isSome_iff_exists.mp hsome
    refine ⟨rfl, text, text.length, htext, ?_, fun _ => List.take_length⟩
    rw [contentOf, htext, List.take_length]

/-- The entries whose two files were there. -/
def chosen (entries : List (Int32 × CacheFiles)) : List (Int32 × CacheFiles) :=
  entries.filter fun entry => !isEmpty entry.2

/-- The text of a configuration is where the metadata of its process begins, and all of it if the
process had ended before the listing. -/
def ReadsMetadata (work : Int32 → Work) (listed : Processes) (config : Config) : Prop :=
  ∃ text n, (work config.pid).metadata = some text ∧
    config.metadata = .file (some (text.take n)) ∧
      (listed.phase config.pid = .exited → text.take n = text)

/-- The configurations of the entries. -/
structure Loaded (work : Int32 → Work) (listed : Processes)
    (entries : List (Int32 × CacheFiles)) (configs : List Config) : Prop where
  pids : configs.map Config.pid = (chosen entries).map Prod.fst
  metadata : ∀ config ∈ configs, ReadsMetadata work listed config

theorem Loaded.append {more : List (Int32 × CacheFiles)} {configs moreConfigs : List Config}
    (h : Loaded work listed entries configs) (hmore : Loaded work listed more moreConfigs) :
    Loaded work listed (entries ++ more) (configs ++ moreConfigs) := by
  constructor
  · rw [chosen, List.filter_append, List.map_append, List.map_append, h.pids, hmore.pids]
    rfl
  · intro config hconfig
    rcases List.mem_append.mp hconfig with hold | hnew
    · exact h.metadata config hold
    · exact hmore.metadata config hnew

/-- What a call hands on of a process whose storage is whole. -/
def outcome (work : Int32 → Work) (job : Job) : Processed :=
  ⟨job.config, configureProcessors job.formats, some (work job.config.pid).storage⟩

/-- The sequential calls so far, in order, and then the threads so far, in any. -/
def InProgress (settings : Settings) (work : Int32 → Work) (configs : List Config)
    (sequential parallel : List Job) (processed : List Processed) : Prop :=
  ∃ first threads, settings.sequentialJobs configs = first ++ sequential ∧
    (threads ++ parallel).Perm (settings.parallelJobs configs) ∧
      (sequential ≠ [] → threads = []) ∧ processed = (first ++ threads).map (outcome work)

/-- How far the post-processing is with the listed entries. -/
def Stage (settings : Settings) (work : Int32 → Work) (listed : Processes)
    (entries : List (Int32 × CacheFiles)) : BulkPhase → Prop
  | .running => False
  | .loading entries' remaining configs => entries' = entries ∧ ∃ loaded,
    entries = loaded ++ remaining ∧ Loaded work listed loaded configs
  | .processing entries' sequential parallel processed => entries' = entries ∧ ∃ configs,
    Loaded work listed entries configs ∧
      InProgress settings work (configs ++ [settings.ownConfig]) sequential parallel processed
  | .clearing removed remaining processed => removed ++ remaining = clearedPaths entries ∧
    ∃ configs, Loaded work listed entries configs ∧
      InProgress settings work (configs ++ [settings.ownConfig]) [] [] processed
  | .completed removed processed => removed = clearedPaths entries ∧
    ∃ configs, Loaded work listed entries configs ∧
      InProgress settings work (configs ++ [settings.ownConfig]) [] [] processed

theorem stage_cleared {removed remaining : List Bytes} {processed : List Processed}
    (hpaths : removed ++ remaining = clearedPaths entries) {configs : List Config}
    (hloaded : Loaded work listed entries configs)
    (hprogress : InProgress settings work (configs ++ [settings.ownConfig]) [] [] processed) :
    Stage settings work listed entries (.cleared removed remaining processed) := by
  unfold BulkPhase.cleared
  split
  · next hnil =>
    rw [hnil, List.append_nil] at hpaths
    exact ⟨hpaths, configs, hloaded, hprogress⟩
  · exact ⟨hpaths, configs, hloaded, hprogress⟩

/-- The listed files are those of processes that had opened them. -/
def EntriesOpened (settings : Settings) (work : Int32 → Work) (listed : Processes)
    (entries : List (Int32 × CacheFiles)) : Prop :=
  ∀ entry ∈ entries, ∀ kind, entry.2.path kind ≠ [] → 0 ≤ entry.1 ∧
    entry.2.path kind = kind.filepath settings.root entry.1 ∧
      Opened (work entry.1) (listed.phase entry.1) kind

theorem path_ne_nil_of_chosen {entry : Int32 × CacheFiles} (h : isEmpty entry.2 = false)
    (kind : CacheFileKind) : entry.2.path kind ≠ [] := by
  rw [isEmpty, Bool.or_eq_false_iff, List.isEmpty_eq_false_iff, List.isEmpty_eq_false_iff] at h
  cases kind with
  | buffStorage => exact h.1
  | metadata => exact h.2

/-- One iteration of `create_processor_configs`. -/
theorem loaded_configOf (hentries : EntriesOpened settings work listed entries)
    (hconsistent : Consistent settings work s) (hlater : Later settings work listed s)
    (hkept : s.bulk.removed = []) {entry : Int32 × CacheFiles} (hentry : entry ∈ entries) :
    Loaded work listed [entry] (s.configOf entry) := by
  unfold Processes.configOf
  cases hempty : isEmpty entry.2 with
  | true =>
    rw [if_pos rfl]
    refine ⟨?_, fun config hconfig => absurd hconfig List.not_mem_nil⟩
    rw [chosen, List.filter_cons_of_neg (by simp [hempty])]
    rfl
  | false =>
    rw [if_neg Bool.false_ne_true]
    refine ⟨?_, List.forall_mem_singleton.mpr ?_⟩
    · rw [chosen, List.filter_cons_of_pos (by simp [hempty])]
      rfl
    obtain ⟨hpid, hpath, hopened⟩ := hentries entry hentry .metadata
      (path_ne_nil_of_chosen hempty .metadata)
    obtain ⟨_, text, n, htext, hcontent, hwhole⟩ :=
      contentOf_of_opened (hlater.opened entry.1 .metadata hopened)
    refine ⟨text, n, htext, ?_, fun hexited => hwhole (hlater.exited _ hexited)⟩
    have hread := hconsistent.content .metadata entry.1 hpid (by rw [hkept]; exact List.not_mem_nil)
    show Metadata.file (s.files.read (entry.2.path .metadata)) = _
    rw [hpath, hread, hcontent]

/-- One call of `process_buffered_storage`. -/
theorem processBufferedStorage_eq (hentries : EntriesOpened settings work listed entries)
    (hconsistent : Consistent settings work s) (hlater : Later settings work listed s)
    (hkept : s.bulk.removed = []) {configs : List Config}
    (hloaded : Loaded work listed entries configs) {job : Job}
    (hjob : job.config ∈ configs ++ [settings.ownConfig]) :
    s.processBufferedStorage settings job = outcome work job := by
  have hwhole : 0 ≤ job.config.pid ∧
      contentOf (work job.config.pid) (s.phase job.config.pid) .buffStorage =
        some (work job.config.pid).storage := by
    rcases List.mem_append.mp hjob with hchild | hown
    · have hpid := List.mem_map_of_mem (f := Config.pid) hchild
      rw [hloaded.pids] at hpid
      obtain ⟨entry, hentry, heq⟩ := List.mem_map.mp hpid
      rw [← heq]
      have hmem := List.mem_filter.mp hentry
      have hne := path_ne_nil_of_chosen (by simpa using hmem.2) .metadata
      obtain ⟨hnonneg, _, hopened⟩ := hentries entry hmem.1 .metadata hne
      exact ⟨hnonneg, (contentOf_of_opened (hlater.opened entry.1 .metadata hopened)).1⟩
    · rw [List.mem_singleton.mp hown]
      refine ⟨settings.root_nonneg, ?_⟩
      show contentOf _ (s.phase settings.root) _ = _
      rw [hlater.root]
      rfl
  unfold Processes.processBufferedStorage outcome getBufferedStorageFilename
  rw [hconsistent.content .buffStorage _ hwhole.1 (by rw [hkept]; exact List.not_mem_nil), hwhole.2]

theorem config_mem_of_sequentialJobs {configs : List Config} {job : Job}
    (h : job ∈ settings.sequentialJobs configs) : job.config ∈ configs := by
  unfold Settings.sequentialJobs at h
  split at h
  · obtain ⟨config, hconfig, rfl⟩ := List.mem_map.mp h
    exact hconfig
  · cases h

theorem config_mem_of_parallelJobs {configs : List Config} {job : Job}
    (h : job ∈ settings.parallelJobs configs) : job.config ∈ configs := by
  unfold Settings.parallelJobs at h
  split at h
  · obtain ⟨config, hconfig, rfl⟩ := List.mem_map.mp h
    exact hconfig
  · cases h

theorem InProgress.next {configs : List Config} {job : Job} {sequential parallel : List Job}
    {processed : List Processed}
    (h : InProgress settings work configs (job :: sequential) parallel processed) :
    InProgress settings work configs sequential parallel (processed ++ [outcome work job]) := by
  obtain ⟨first, threads, hfirst, hthreads, hnone, rfl⟩ := h
  have hnil := hnone (List.cons_ne_nil _ _)
  refine ⟨first ++ [job], threads, ?_, hthreads, fun _ => hnil, ?_⟩
  · rw [hfirst, List.append_assoc]
    rfl
  · rw [hnil, List.append_nil, List.append_nil, List.map_append]
    rfl

theorem InProgress.thread {configs : List Config} {job : Job} {parallel : List Job} {i : Nat}
    {processed : List Processed} (h : InProgress settings work configs [] parallel processed)
    (hjob : parallel[i]? = some job) :
    InProgress settings work configs [] (parallel.eraseIdx i)
      (processed ++ [outcome work job]) := by
  obtain ⟨first, threads, hfirst, hthreads, hnone, rfl⟩ := h
  obtain ⟨hi, rfl⟩ := List.getElem?_eq_some_iff.mp hjob
  refine ⟨first, threads ++ [parallel[i]], hfirst, ?_, fun hne => absurd rfl hne, ?_⟩
  · rw [List.append_assoc]
    exact ((List.getElem_cons_eraseIdx_perm hi).append_left threads).trans hthreads
  · rw [List.map_append, List.map_append, List.map_append, List.append_assoc]
    rfl

theorem Stage.bulkStep (hentries : EntriesOpened settings work listed entries)
    (hconsistent : Consistent settings work s) (hlater : Later settings work listed s)
    (h : Stage settings work listed entries s.bulk) (hstep : BulkStep settings s s') :
    Stage settings work listed entries s'.bulk := by
  cases hstep with
  | list hbulk =>
    rw [hbulk] at h
    cases h
  | @load _ remaining entry configs hbulk =>
    have hkept : s.bulk.removed = [] := by
      rw [hbulk]
      rfl
    rw [hbulk] at h
    obtain ⟨rfl, loaded, hsplit, hloaded⟩ := h
    have hentry : entry ∈ loaded ++ entry :: remaining :=
      List.mem_append_right _ List.mem_cons_self
    rw [← hsplit] at hentry
    refine ⟨rfl, loaded ++ [entry], ?_, hloaded.append
      (loaded_configOf hentries hconsistent hlater hkept hentry)⟩
    rw [List.append_assoc]
    exact hsplit
  | @dispatch _ configs hbulk =>
    rw [hbulk] at h
    obtain ⟨rfl, loaded, hsplit, hloaded⟩ := h
    rw [List.append_nil] at hsplit
    rw [← hsplit] at hloaded
    exact ⟨rfl, configs, hloaded, [], [], rfl, List.Perm.refl _, fun _ => rfl, rfl⟩
  | @processNext _ job sequential parallel processed hbulk =>
    have hkept : s.bulk.removed = [] := by
      rw [hbulk]
      rfl
    rw [hbulk] at h
    obtain ⟨rfl, configs, hloaded, hprogress⟩ := h
    have hjob : job.config ∈ configs ++ [settings.ownConfig] := by
      obtain ⟨first, threads, hfirst, _⟩ := hprogress
      apply @config_mem_of_sequentialJobs settings
      rw [hfirst]
      exact List.mem_append_right _ List.mem_cons_self
    rw [processBufferedStorage_eq hentries hconsistent hlater hkept hloaded hjob]
    exact ⟨rfl, configs, hloaded, hprogress.next⟩
  | @processThread _ parallel processed i job hbulk hget =>
    have hkept : s.bulk.removed = [] := by
      rw [hbulk]
      rfl
    rw [hbulk] at h
    obtain ⟨rfl, configs, hloaded, hprogress⟩ := h
    have hjob : job.config ∈ configs ++ [settings.ownConfig] := by
      obtain ⟨first, threads, _, hthreads, _⟩ := hprogress
      apply @config_mem_of_parallelJobs settings
      exact hthreads.mem_iff.mp (List.mem_append_right _ (List.mem_of_getElem? hget))
    rw [processBufferedStorage_eq hentries hconsistent hlater hkept hloaded hjob]
    exact ⟨rfl, configs, hloaded, hprogress.thread hget⟩
  | clear hbulk =>
    rw [hbulk] at h
    obtain ⟨rfl, configs, hloaded, hprogress⟩ := h
    exact stage_cleared rfl hloaded hprogress
  | remove hbulk =>
    rw [hbulk] at h
    obtain ⟨hpaths, configs, hloaded, hprogress⟩ := h
    refine stage_cleared ?_ hloaded hprogress
    rw [List.append_assoc]
    exact hpaths

/-- What holds in every state. -/
structure Keeps (settings : Settings) (work : Int32 → Work) (files : Files Bytes UInt8)
    (s : Processes) : Prop where
  consistent : Consistent settings work s
  untouched : Untouched settings files s

/-- What holds since the listing. -/
structure Since (settings : Settings) (work : Int32 → Work) (listed : Processes)
    (entries : List (Int32 × CacheFiles)) (s : Processes) : Prop where
  consistent : Consistent settings work s
  later : Later settings work listed s
  stage : Stage settings work listed entries s.bulk

theorem Consistent.not_saving (h : Consistent settings work s) (written : Nat) :
    s.phase settings.root ≠ .saving written := by
  intro heq
  rcases h.root with hroot | hroot | ⟨_, hroot⟩
  · rw [heq] at hroot
    cases hroot
  · rw [heq] at hroot
    cases hroot
  · rw [heq] at hroot
    cases hroot

/-- A step is one of a process, or one of the post-processing. -/
theorem step_cases (hconsistent : Consistent settings work s)
    (hstep : step settings work s a = some s') :
    (∃ pid, 0 ≤ pid ∧ Advances settings work pid s s') ∨ BulkStep settings s s' := by
  unfold step at hstep
  cases hprocess : stepProcess settings work s a with
  | some t =>
    rw [hprocess, Option.some_or] at hstep
    cases hstep
    exact Or.inl (advances_of_stepProcess hconsistent.nonneg hconsistent.not_saving hprocess)
  | none =>
    rw [hprocess, Option.none_or] at hstep
    exact Or.inr (bulkStep_of_stepBulk hstep)

theorem Keeps.step {files : Files Bytes UInt8} (h : Keeps settings work files s)
    (hstep : step settings work s a = some s') : Keeps settings work files s' := by
  rcases step_cases h.consistent hstep with ⟨pid, hpid, hadvances⟩ | hbulk
  · refine ⟨h.consistent.advances hpid hadvances, fun path hne hpath => ?_⟩
    rw [hadvances.unrelated path fun kind => hpath kind pid hpid]
    exact h.untouched path hne hpath
  · exact ⟨h.consistent.bulkStep hbulk, h.untouched.bulkStep h.consistent hbulk⟩

theorem Since.step (hentries : EntriesOpened settings work listed entries)
    (h : Since settings work listed entries s) (hstep : step settings work s a = some s') :
    Since settings work listed entries s' := by
  rcases step_cases h.consistent hstep with ⟨pid, hpid, hadvances⟩ | hbulk
  · refine ⟨h.consistent.advances hpid hadvances, h.later.advances hadvances, ?_⟩
    rw [hadvances.bulk]
    exact h.stage
  · exact ⟨h.consistent.bulkStep hbulk, h.later.bulkStep hbulk,
      h.stage.bulkStep hentries h.consistent h.later hbulk⟩

end Handling

/-! ## Every run -/

section Runs

variable {settings : Settings} {work : Int32 → Work} {s listed t : Processes}
  {names : List Bytes} {processed : List Processed}

/-- What one processor gets of a process. -/
def handled (work : Int32 → Work) (processor : Processor) (config : Config) : Processed :=
  ⟨config, [processor], some (work config.pid).storage⟩

/-- What the root has handled: every child whose metadata was open at the listing once, and itself
last; first all of them for one format, and then for the other in any order. -/
structure HandlesOnce (settings : Settings) (work : Int32 → Work) (listed : Processes)
    (configs : List Config) (processed : List Processed) : Prop where
  ordered : (configs.map Config.pid).Pairwise (· < ·)
  children : ∀ pid, pid ∈ configs.map Config.pid ↔
    Opened (work pid) (listed.phase pid) .metadata
  metadata : ∀ config ∈ configs, ReadsMetadata work listed config
  processed : ∃ threads,
    processed = (if settings.cachingPerfetto then
      (configs ++ [settings.ownConfig]).map (handled work .perfetto) else []) ++ threads ∧
    threads.Perm (if settings.useRocpd then
      (configs ++ [settings.ownConfig]).map (handled work .rocpd) else [])

theorem outcome_sequentialJobs (configs : List Config) :
    (settings.sequentialJobs configs).map (outcome work) =
      if settings.cachingPerfetto then configs.map (handled work .perfetto) else [] := by
  obtain ⟨root, hroot, useRocpd, cachingPerfetto⟩ := settings
  cases useRocpd <;> cases cachingPerfetto <;>
    simp [Settings.sequentialJobs, Settings.formats, enabledFormats, hasSequentialFormats,
      getSequentialFormats, outcome, handled, configureProcessors, isRocpdEnabled,
      isPerfettoEnabled, isEnabled]

theorem outcome_parallelJobs (configs : List Config) :
    (settings.parallelJobs configs).map (outcome work) =
      if settings.useRocpd then configs.map (handled work .rocpd) else [] := by
  obtain ⟨root, hroot, useRocpd, cachingPerfetto⟩ := settings
  cases useRocpd <;> cases cachingPerfetto <;>
    simp [Settings.parallelJobs, Settings.formats, enabledFormats, hasParallelFormats,
      getParallelFormats, outcome, handled, configureProcessors, isRocpdEnabled,
      isPerfettoEnabled, isEnabled]

/-- Every file that a process has opened is listed. -/
theorem Consistent.entry_of_opened (h : Consistent settings work s) (hbulk : s.bulk = .running)
    (hlists : Lists s.files names) {cacheMap : MappedCacheFiles}
    (hfiles : getCacheFiles settings.root names = .ok cacheMap) {pid : Int32}
    {kind : CacheFileKind} (hopened : Opened (work pid) (s.phase pid) kind) :
    ∃ files, (pid, files) ∈ mapEntries names cacheMap ∧
      files.path kind = kind.filepath settings.root pid := by
  have hpid : 0 ≤ pid := by
    refine h.nonneg pid fun hfresh => ?_
    rw [hfresh] at hopened
    cases hopened
  have hkept : kind.filepath settings.root pid ∉ s.bulk.removed := by
    rw [hbulk]
    exact List.not_mem_nil
  have hmem : kind.filepath settings.root pid ∈ s.files.paths := by
    rw [Files.mem_paths_iff, h.content kind pid hpid hkept]
    exact hopened
  obtain ⟨filename, hfilename, heq⟩ := List.mem_map.mp (hlists.mem_iff.mpr hmem)
  have hname := heq
  rw [filepath_eq settings.root_nonneg hpid] at hname
  have hnames : Names kind settings.root pid filename := by
    rw [List.append_cancel_left hname]
    exact names_filepath settings.root_nonneg hpid
  obtain ⟨files, hentry, hne⟩ := entry_of_listed hfiles hfilename hnames
  exact ⟨files, hentry, (h.opened_of_entry hbulk hlists hfiles hentry hne).2.1⟩

theorem opened_buffStorage {work : Work} {phase : Phase} (h : Opened work phase .metadata) :
    Opened work phase .buffStorage := by
  rw [Opened, (contentOf_of_opened h).1]
  rfl

/-- The entries with two files are those of the processes whose metadata is open. -/
theorem Consistent.mem_chosen_iff (h : Consistent settings work s) (hbulk : s.bulk = .running)
    (hlists : Lists s.files names) {cacheMap : MappedCacheFiles}
    (hfiles : getCacheFiles settings.root names = .ok cacheMap) (pid : Int32) :
    pid ∈ (chosen (mapEntries names cacheMap)).map Prod.fst ↔
      Opened (work pid) (s.phase pid) .metadata := by
  rw [List.mem_map]
  constructor
  · intro hex
    obtain ⟨entry, hentry, rfl⟩ := hex
    have hmem := List.mem_filter.mp hentry
    have hne := path_ne_nil_of_chosen (by simpa using hmem.2) .metadata
    exact (h.opened_of_entry hbulk hlists hfiles hmem.1 hne).2.2
  · intro hopened
    obtain ⟨files, hentry, hpath⟩ := h.entry_of_opened hbulk hlists hfiles hopened
    obtain ⟨files', hentry', hpath'⟩ :=
      h.entry_of_opened hbulk hlists hfiles (opened_buffStorage hopened)
    have hsame : files = files' := Option.some.inj
      ((mem_mapEntries.mp hentry).2.symm.trans (mem_mapEntries.mp hentry').2)
    rw [← hsame] at hpath'
    refine ⟨(pid, files), List.mem_filter.mpr ⟨hentry, ?_⟩, rfl⟩
    have hmetadata : files.metadata ≠ [] := by
      intro hnil
      exact filepath_ne_nil _ _ _ (hpath.symm.trans hnil)
    have hstorage : files.buffStorage ≠ [] := by
      intro hnil
      exact filepath_ne_nil _ _ _ (hpath'.symm.trans hnil)
    simp [isEmpty, hmetadata, hstorage]

/-- No process runs yet, and the directory has no file with a name of this root. -/
def Processes.initial (files : Files Bytes UInt8) : Processes := ⟨fun _ => .fresh, files, .running⟩

theorem consistent_initial {files : Files Bytes UInt8}
    (hclean : ∀ kind pid filename, Names kind settings.root pid filename →
      files.read (tmpDirectory ++ filename) = none) :
    Consistent settings work (.initial files) := by
  constructor
  · exact fun pid hpid => absurd rfl hpid
  · exact Or.inl rfl
  · intro kind pid hpid _
    rw [filepath_eq settings.root_nonneg hpid]
    exact hclean kind pid _ (names_filepath settings.root_nonneg hpid)
  · exact fun path hpath => absurd hpath List.not_mem_nil
  · exact fun path hpath => absurd hpath List.not_mem_nil
  · intro kind pid filename hnames hread
    have hnone := hclean kind pid filename hnames
    rw [show Processes.files (.initial files) = files from rfl, hnone] at hread
    cases hread

theorem keeps_of_run {files : Files Bytes UInt8} (h : Keeps settings work files s)
    {actions : List Action} (hrun : runFrom (step settings work) s actions = some t) :
    Keeps settings work files t :=
  invariant_of_run (fun _ _ _ hinv _ hstep => hinv.step hstep) h
    (along_of_forall (fun _ _ => trivial) s actions) hrun

theorem since_of_run {entries : List (Int32 × CacheFiles)}
    (hentries : EntriesOpened settings work listed entries)
    (h : Since settings work listed entries s) {actions : List Action}
    (hrun : runFrom (step settings work) s actions = some t) :
    Since settings work listed entries t :=
  invariant_of_run (fun _ _ _ hinv _ hstep => hinv.step hentries hstep) h
    (along_of_forall (fun _ _ => trivial) s actions) hrun

/-- The listing itself. -/
theorem since_of_list (h : Consistent settings work listed)
    (hlist : step settings work listed (.list names) = some s) :
    ∃ cacheMap, listed.bulk = .running ∧ Lists listed.files names ∧
      getCacheFiles settings.root names = .ok cacheMap ∧
        EntriesOpened settings work listed (mapEntries names cacheMap) ∧
          Since settings work listed (mapEntries names cacheMap) s := by
  have hstep : stepBulk settings listed (.list names) = some s := hlist
  have hbulkStep := bulkStep_of_stepBulk hstep
  dsimp only [stepBulk] at hstep
  split at hstep
  · next hbulk =>
    obtain ⟨hguard, hstep⟩ := Option.ite_none_right_eq_some.mp hstep
    obtain ⟨cacheMap, hmap, heq⟩ := Option.map_eq_some_iff.mp hstep
    cases hfiles : getCacheFiles settings.root names with
    | error e =>
      rw [hfiles] at hmap
      cases hmap
    | ok map =>
      rw [hfiles] at hmap
      cases hmap
      cases heq
      refine ⟨cacheMap, hbulk, hguard.2, rfl, ?_, h.bulkStep hbulkStep, ?_, ?_⟩
      · exact fun entry hentry kind => h.opened_of_entry hbulk hguard.2 hfiles hentry
      · exact ⟨fun _ _ hopened => hopened, fun _ hexited => hexited, hguard.1⟩
      · exact ⟨rfl, [], rfl, rfl, fun config hconfig => absurd hconfig List.not_mem_nil⟩
  · cases hstep

/-- In every interleaving of the processes with the root: each child whose metadata was open when
the root listed the directory is handled exactly once for each format, in the order of the process
numbers and before the root itself, with its whole storage, and with its whole metadata if it had
exited by then; and no other child is.  When the root is through, the files that were listed are
gone, those opened later are left as their processes wrote them, and no other file has changed. -/
theorem handlesOnce_of_run {files : Files Bytes UInt8}
    (hclean : ∀ kind pid filename, Names kind settings.root pid filename →
      files.read (tmpDirectory ++ filename) = none)
    {before after : List Action}
    (hbefore : runFrom (step settings work) (.initial files) before = some listed)
    (hafter : runFrom (step settings work) listed (.list names :: after) = some t)
    {removed : List Bytes} (hcompleted : t.bulk = .completed removed processed) :
    (∃ configs, HandlesOnce settings work listed configs processed) ∧
      (∀ (kind : CacheFileKind) (pid : Int32), 0 ≤ pid →
        t.files.read (kind.filepath settings.root pid) =
          if (contentOf (work pid) (listed.phase pid) kind).isSome then none
          else contentOf (work pid) (t.phase pid) kind) ∧
      ∀ path, path ≠ [] → (∀ (kind : CacheFileKind) (pid : Int32), 0 ≤ pid →
        path ≠ kind.filepath settings.root pid) → t.files.read path = files.read path := by
  have hlisted : Keeps settings work files listed :=
    keeps_of_run ⟨consistent_initial hclean, fun _ _ _ => rfl⟩ hbefore
  have hkeeps := keeps_of_run hlisted hafter
  obtain ⟨s, hlist, hrun⟩ := Option.bind_eq_some_iff.mp hafter
  obtain ⟨cacheMap, hbulk, hlists, hfiles, hentries, hsince⟩ :=
    since_of_list hlisted.consistent hlist
  have hend := since_of_run hentries hsince hrun
  have hstage := hend.stage
  rw [hcompleted] at hstage
  obtain ⟨hremoved, configs, hloaded, first, threads, hfirst, hthreads, _, hprocessed⟩ := hstage
  refine ⟨⟨configs, ?_, ?_, hloaded.metadata, threads.map (outcome work), ?_, ?_⟩, ?_,
    hkeeps.untouched⟩
  · rw [hloaded.pids]
    exact (mapEntries_pairwise names cacheMap).sublist (List.filter_sublist.map _)
  · intro pid
    rw [hloaded.pids]
    exact hlisted.consistent.mem_chosen_iff hbulk hlists hfiles pid
  · rw [List.append_nil] at hfirst
    rw [hprocessed, List.map_append, ← hfirst, outcome_sequentialJobs]
  · rw [List.append_nil] at hthreads
    rw [← outcome_parallelJobs]
    exact hthreads.map _
  · intro kind pid hpid
    split
    · next hopened =>
      obtain ⟨entryFiles, hentry, hpath⟩ :=
        hlisted.consistent.entry_of_opened hbulk hlists hfiles hopened
      refine hend.consistent.gone _ ?_ (filepath_ne_nil _ _ _)
      rw [hcompleted]
      show _ ∈ removed
      rw [hremoved]
      exact mem_clearedPaths.mpr ⟨_, hentry, kind, hpath.symm⟩
    · next hnot =>
      refine hend.consistent.content kind pid hpid fun hmem => hnot ?_
      rw [hcompleted] at hmem
      have hcleared : _ ∈ removed := hmem
      rw [hremoved] at hcleared
      obtain ⟨entry, hentry, kind', heq⟩ := mem_clearedPaths.mp hcleared
      have hne : entry.2.path kind' ≠ [] := by
        rw [← heq]
        exact filepath_ne_nil _ _ _
      obtain ⟨hnonneg, hpath, hopened⟩ := hentries entry hentry kind' hne
      obtain ⟨rfl, rfl⟩ :=
        (filepath_inj settings.root_nonneg hpid hnonneg).mp (heq.trans hpath)
      exact hopened

end Runs

/-! A root and one child. -/

def oneChild : Settings := ⟨7, by decide, true, false⟩

/-- A storage of one byte, and the metadata `{}`. -/
def oneChildWork : Int32 → Work := fun _ => ⟨[1], some [123, 125]⟩

/-- The child exits before the root shuts its own storage down. -/
def childActions : List Action :=
  [.start 7, .start 8, .flush 8 1, .shutdown 8, .openMetadata 8, .writeMetadata 8 1,
    .writeMetadata 8 1, .exit 8, .shutdown 7]

def listedNames : List Bytes :=
  ["buffered_storage_7_8.bin".toUTF8.toList, "metadata_7_8.json".toUTF8.toList,
    "buffered_storage_7_7.bin".toUTF8.toList]

/-- Then the root does its work; the thread for itself is the first to end. -/
def rootActions : List Action :=
  [.list listedNames, .load, .load, .dispatch, .processThread 1, .processThread 0, .clear, .remove,
    .remove, .remove, .remove]

def BulkPhase.isCompleted : BulkPhase → Bool
  | .completed _ _ => true
  | _ => false

theorem BulkPhase.exists_of_isCompleted (bulk : BulkPhase) (h : bulk.isCompleted = true) :
    ∃ removed processed, bulk = .completed removed processed := by
  cases bulk with
  | completed removed processed => exact ⟨removed, processed, rfl⟩
  | _ => cases h

theorem run_oneChild : ∃ listed t removed processed,
    runFrom (step oneChild oneChildWork) (.initial ∅) childActions = some listed ∧
      listed.phase 8 = .exited ∧
      runFrom (step oneChild oneChildWork) listed rootActions = some t ∧
      t.bulk = .completed removed processed := by
  have hrun : ((runFrom (step oneChild oneChildWork) (.initial ∅) childActions).bind
      fun listed => if listed.phase 8 = .exited then
        runFrom (step oneChild oneChildWork) listed rootActions
      else none).any (fun t => t.bulk.isCompleted) = true := by
    decide +kernel
  obtain ⟨t, ht, hcompleted⟩ := (Option.any_eq_true _ _).mp hrun
  obtain ⟨listed, hbefore, hguard⟩ := Option.bind_eq_some_iff.mp ht
  obtain ⟨hexited, hafter⟩ := Option.ite_none_right_eq_some.mp hguard
  obtain ⟨removed, processed, hbulk⟩ := t.bulk.exists_of_isCompleted hcompleted
  exact ⟨listed, t, removed, processed, hbefore, hexited, hafter, hbulk⟩

/-- The root handles the child, with all of its metadata. -/
theorem handlesOnce_oneChild : ∃ listed configs processed,
    HandlesOnce oneChild oneChildWork listed configs processed ∧
      ∃ config ∈ configs, config.pid = 8 ∧ config.metadata = .file (some [123, 125]) := by
  obtain ⟨listed, t, removed, processed, hbefore, hexited, hafter, hcompleted⟩ := run_oneChild
  obtain ⟨⟨configs, hhandles⟩, _⟩ := handlesOnce_of_run (fun _ _ _ _ => rfl) hbefore hafter
    hcompleted
  have hopened : Opened (oneChildWork 8) (listed.phase 8) .metadata := by
    rw [hexited]
    rfl
  obtain ⟨config, hconfig, hpid⟩ := List.mem_map.mp ((hhandles.children 8).mpr hopened)
  obtain ⟨text, n, htext, hmetadata, hwhole⟩ := hhandles.metadata config hconfig
  rw [hpid] at hwhole
  cases htext
  refine ⟨listed, configs, processed, hhandles, config, hconfig, hpid, ?_⟩
  rw [hmetadata, hwhole hexited]

end PostProcess

end TraceCache
end Rocprofsys
