import Rocprofsys.Base.Files
import Rocprofsys.Base.Run
import Rocprofsys.TraceCache.CacheFiles
import Mathlib.Data.List.Dedup
import Mathlib.Data.List.Sort

namespace Rocprofsys
namespace TraceCache

open Base

/-! ## Paths of the files of a process -/

/-- `std::to_string`. -/
def toDecimal (n : Int32) : Bytes := (if n < 0 then [45] else []) ++ decimal n.toInt.natAbs

def CacheFileKind.filepath (kind : CacheFileKind) (ppid pid : Int32) : Bytes :=
  tmpDirectory ++ (kind.stem ++ (toDecimal ppid ++ 95 :: (toDecimal pid ++ kind.extension)))

def getBufferedStorageFilename (ppid pid : Int32) : Bytes :=
  CacheFileKind.buffStorage.filepath ppid pid

def getMetadataFilepath (ppid pid : Int32) : Bytes := CacheFileKind.metadata.filepath ppid pid

namespace PostProcess

/-! ## Formats -/

/-- `format_t`. -/
structure Format where
  processParallel : Bool
  enabled : Bool
  name : String

/-- `enabled_formats_t`, for what the two settings say. -/
def enabledFormats (useRocpd cachingPerfetto : Bool) : List Format :=
  [⟨true, useRocpd, "rocpd"⟩, ⟨false, cachingPerfetto, "perfetto"⟩]

def hasParallelFormats (formats : List Format) : Bool :=
  formats.any fun f => f.enabled && f.processParallel

def hasSequentialFormats (formats : List Format) : Bool :=
  formats.any fun f => f.enabled && !f.processParallel

def getParallelFormats (formats : List Format) : List Format :=
  formats.map fun fmt => ⟨true, fmt.enabled && fmt.processParallel, fmt.name⟩

def getSequentialFormats (formats : List Format) : List Format :=
  formats.map fun fmt => ⟨false, fmt.enabled && !fmt.processParallel, fmt.name⟩

def isEnabled (formats : List Format) (name : String) : Bool :=
  (formats.find? fun f => f.name == name).any Format.enabled

def isRocpdEnabled (formats : List Format) : Bool := isEnabled formats "rocpd"

def isPerfettoEnabled (formats : List Format) : Bool := isEnabled formats "perfetto"

inductive Processor where
  | rocpd
  | perfetto
  deriving DecidableEq

def configureProcessors (formats : List Format) : List Processor :=
  (if isRocpdEnabled formats then [.rocpd] else []) ++
    if isPerfettoEnabled formats then [.perfetto] else []

/-! ## Processor configurations -/

/-- `cache_files_t::empty`. -/
def isEmpty (files : CacheFiles) : Bool := files.buffStorage.isEmpty || files.metadata.isEmpty

/-- The process number of a name that `get_cache_files` captures. -/
def capturedPid (filename : Bytes) : Option Int32 :=
  ((CacheFileKind.buffStorage.regexMatch filename).or
    (CacheFileKind.metadata.regexMatch filename)).bind fun captures =>
      (Utility.stoi captures.2).toOption

/-- The map in the order of its keys, which are captured from the names. -/
def mapEntries (names : List Bytes) (cacheMap : MappedCacheFiles) : List (Int32 × CacheFiles) :=
  ((names.filterMap capturedPid).dedup.insertionSort (· ≤ ·)).filterMap fun pid =>
    (cacheMap pid).map (Prod.mk pid)

/-- Where the metadata of a configuration comes from: the process itself, or the text of a file
if there is one. -/
inductive Metadata where
  | inMemory
  | file (text : Option Bytes)

/-- `processor_config_t`; its parent is always the root. -/
structure Config where
  pid : Int32
  metadata : Metadata

/-- One call of `process_buffered_storage`. -/
structure Job where
  config : Config
  formats : List Format

/-- What a call has read, for these processors. -/
structure Processed where
  config : Config
  processors : List Processor
  storage : Option Bytes

/-! ## Processes and the root -/

/-- How far a process is, with the bytes of the open file that are written. -/
inductive Phase where
  | fresh
  | storing (written : Nat)
  | stopped
  | saving (written : Nat)
  | exited
  deriving DecidableEq

/-- What a process writes: the storage up to its final flush, and the text of its metadata unless
`dump` throws. -/
structure Work where
  storage : Bytes
  metadata : Option Bytes

/-- How far `post_process_bulk` is. -/
inductive BulkPhase where
  | running
  | loading (entries remaining : List (Int32 × CacheFiles)) (configs : List Config)
  | processing (entries : List (Int32 × CacheFiles)) (sequential parallel : List Job)
      (processed : List Processed)
  | clearing (removed remaining : List Bytes) (processed : List Processed)
  | completed (removed : List Bytes) (processed : List Processed)

/-- After a removal, or where there is nothing to remove. -/
def BulkPhase.cleared (removed remaining : List Bytes) (processed : List Processed) : BulkPhase :=
  if remaining = [] then .completed removed processed else .clearing removed remaining processed

structure Processes where
  phase : Int32 → Phase
  files : Files Bytes UInt8
  bulk : BulkPhase

inductive Action where
  /-- `start` of the buffer storage of a process. -/
  | start (pid : Int32)
  /-- A part of what the flush worker writes. -/
  | flush (pid : Int32) (length : Nat)
  /-- `shutdown`, which returns after the final flush. -/
  | shutdown (pid : Int32)
  /-- `save_to_file` of a child, up to where its file is open. -/
  | openMetadata (pid : Int32)
  | writeMetadata (pid : Int32) (length : Nat)
  | exit (pid : Int32)
  /-- `list_dir_files` and `get_cache_files` of the root, with the names that `readdir` returns. -/
  | list (names : List Bytes)
  /-- One iteration of `create_processor_configs`. -/
  | load
  /-- The configuration of the root itself, and the calls of `dispatch_processing`. -/
  | dispatch
  /-- The next call for the sequential formats. -/
  | processNext
  /-- One of the threads for the parallel formats. -/
  | processThread (i : Nat)
  | clear
  /-- One `remove_if_exists`. -/
  | remove

structure Settings where
  root : Int32
  root_nonneg : 0 ≤ root
  useRocpd : Bool
  cachingPerfetto : Bool

namespace Settings

def formats (settings : Settings) : List Format :=
  enabledFormats settings.useRocpd settings.cachingPerfetto

/-- The calls that `sequential_processing` makes, if it is called. -/
def sequentialJobs (settings : Settings) (configs : List Config) : List Job :=
  if hasSequentialFormats settings.formats then
    configs.map fun config => ⟨config, getSequentialFormats settings.formats⟩
  else []

/-- The threads that `multithreaded_processing` spawns, if it is called. -/
def parallelJobs (settings : Settings) (configs : List Config) : List Job :=
  if hasParallelFormats settings.formats then
    configs.map fun config => ⟨config, getParallelFormats settings.formats⟩
  else []

/-- The configuration of the root. -/
def ownConfig (settings : Settings) : Config := ⟨settings.root, .inMemory⟩

end Settings

/-- What `clear_cache_files` removes, in this order. -/
def clearedPaths (entries : List (Int32 × CacheFiles)) : List Bytes :=
  entries.flatMap fun entry => [entry.2.buffStorage, entry.2.metadata]

namespace Processes

def setPhase (s : Processes) (pid : Int32) (phase : Phase) (files : Files Bytes UInt8) :
    Processes :=
  { s with phase := Function.update s.phase pid phase, files }

/-- What one iteration pushes. -/
def configOf (s : Processes) (entry : Int32 × CacheFiles) : List Config :=
  if isEmpty entry.2 then [] else [⟨entry.1, .file (s.files.read entry.2.metadata)⟩]

def processBufferedStorage (settings : Settings) (s : Processes) (job : Job) : Processed :=
  ⟨job.config, configureProcessors job.formats,
    s.files.read (getBufferedStorageFilename settings.root job.config.pid)⟩

def removeIfExists (files : Files Bytes UInt8) (fname : Bytes) : Files Bytes UInt8 :=
  if fname = [] then files else files.remove fname

end Processes

/-- `list_dir_files` of these files, all of them in the directory. -/
def Lists (files : Files Bytes UInt8) (names : List Bytes) : Prop :=
  (names.map (tmpDirectory ++ ·)).Perm files.paths

instance (files : Files Bytes UInt8) (names : List Bytes) : Decidable (Lists files names) :=
  inferInstanceAs (Decidable (List.Perm _ _))

section Steps

variable (settings : Settings) (work : Int32 → Work)

/-- Processes have numbers that are not negative; the root saves no metadata. -/
def stepProcess (s : Processes) : Action → Option Processes
  | .start pid =>
    if 0 ≤ pid ∧ s.phase pid = .fresh then
      some (s.setPhase pid (.storing 0)
        (s.files.write (getBufferedStorageFilename settings.root pid) []))
    else none
  | .flush pid length =>
    match s.phase pid with
    | .storing written =>
      if written + length ≤ (work pid).storage.length then
        some (s.setPhase pid (.storing (written + length))
          (s.files.append (getBufferedStorageFilename settings.root pid)
            (((work pid).storage.drop written).take length)))
      else none
    | _ => none
  | .shutdown pid =>
    match s.phase pid with
    | .storing written =>
      some (s.setPhase pid .stopped
        (s.files.append (getBufferedStorageFilename settings.root pid)
          ((work pid).storage.drop written)))
    | _ => none
  | .openMetadata pid =>
    if pid ≠ settings.root ∧ s.phase pid = .stopped then
      match (work pid).metadata with
      | some _ => some (s.setPhase pid (.saving 0)
          (s.files.write (getMetadataFilepath settings.root pid) []))
      | none => some (s.setPhase pid .exited s.files)
    else none
  | .writeMetadata pid length =>
    match s.phase pid, (work pid).metadata with
    | .saving written, some text =>
      if written + length ≤ text.length then
        some (s.setPhase pid (.saving (written + length))
          (s.files.append (getMetadataFilepath settings.root pid)
            ((text.drop written).take length)))
      else none
    | _, _ => none
  | .exit pid =>
    match s.phase pid, (work pid).metadata with
    | .saving written, some text =>
      if written = text.length then some (s.setPhase pid .exited s.files) else none
    | _, _ => none
  | _ => none

/-- `post_process_bulk`, after its own storage is shut down. -/
def stepBulk (s : Processes) : Action → Option Processes
  | .list names =>
    match s.bulk with
    | .running =>
      if s.phase settings.root = .stopped ∧ Lists s.files names then
        (getCacheFiles settings.root names).toOption.map fun cacheMap =>
          { s with bulk := .loading (mapEntries names cacheMap) (mapEntries names cacheMap) [] }
      else none
    | _ => none
  | .load =>
    match s.bulk with
    | .loading entries (entry :: remaining) configs =>
      some { s with bulk := .loading entries remaining (configs ++ s.configOf entry) }
    | _ => none
  | .dispatch =>
    match s.bulk with
    | .loading entries [] configs =>
      let configs := configs ++ [settings.ownConfig]
      some { s with
        bulk := .processing entries (settings.sequentialJobs configs)
          (settings.parallelJobs configs) [] }
    | _ => none
  | .processNext =>
    match s.bulk with
    | .processing entries (job :: sequential) parallel processed =>
      some { s with
        bulk := .processing entries sequential parallel
          (processed ++ [s.processBufferedStorage settings job]) }
    | _ => none
  | .processThread i =>
    match s.bulk with
    | .processing entries [] parallel processed =>
      parallel[i]?.map fun job => { s with
        bulk := .processing entries [] (parallel.eraseIdx i)
          (processed ++ [s.processBufferedStorage settings job]) }
    | _ => none
  | .clear =>
    match s.bulk with
    | .processing entries [] [] processed =>
      some { s with bulk := .cleared [] (clearedPaths entries) processed }
    | _ => none
  | .remove =>
    match s.bulk with
    | .clearing removed (fname :: remaining) processed =>
      some { s with
        files := Processes.removeIfExists s.files fname
        bulk := .cleared (removed ++ [fname]) remaining processed }
    | _ => none
  | _ => none

def step (s : Processes) (a : Action) : Option Processes :=
  (stepProcess settings work s a).or (stepBulk settings s a)

end Steps

/-! ## Names and paths -/

section Paths

variable {settings : Settings} {kind kind' : CacheFileKind} {p q ppid pid : Int32}

theorem toInt_nonneg (h : 0 ≤ p) : 0 ≤ p.toInt := by
  have hle := Int32.le_iff_toInt_le.mp h
  exact hle

/-- The decimal digits of a number that is not negative. -/
def digitsOf (n : Int32) : Utility.Digits :=
  ⟨decimal n.toInt.natAbs, decimal_ne_nil _, fun _ hb => isDigit_of_mem_decimal hb⟩

theorem value_digitsOf (n : Int32) : (digitsOf n).value = n.toInt.natAbs := digitsValue_decimal _

theorem toDecimal_eq (h : 0 ≤ p) : toDecimal p = (digitsOf p).bytes := by
  have hnot : ¬ p < 0 := by
    rw [Int32.not_lt]
    exact h
  rw [toDecimal, if_neg hnot]
  rfl

theorem filepath_eq (hppid : 0 ≤ ppid) (hpid : 0 ≤ pid) :
    kind.filepath ppid pid = tmpDirectory ++ kind.name (digitsOf ppid) (digitsOf pid) := by
  rw [CacheFileKind.filepath, toDecimal_eq hppid, toDecimal_eq hpid]
  rfl

theorem filepath_inj (hppid : 0 ≤ ppid) (hp : 0 ≤ p) (hq : 0 ≤ q) :
    kind.filepath ppid p = kind'.filepath ppid q ↔ kind = kind' ∧ p = q := by
  constructor
  · intro h
    rw [filepath_eq hppid hp, filepath_eq hppid hq] at h
    obtain ⟨hkind, _, hvalue⟩ := name_inj (List.append_cancel_left h)
    rw [value_digitsOf, value_digitsOf] at hvalue
    have hp' := toInt_nonneg hp
    have hq' := toInt_nonneg hq
    refine ⟨hkind, Int32.toInt_inj.mp ?_⟩
    omega
  · intro h
    rw [h.1, h.2]

theorem names_filepath (hppid : 0 ≤ ppid) (hpid : 0 ≤ pid) :
    Names kind ppid pid (kind.name (digitsOf ppid) (digitsOf pid)) := by
  have hppid' := toInt_nonneg hppid
  have hpid' := toInt_nonneg hpid
  refine ⟨_, _, rfl, ?_, ?_⟩
  · rw [value_digitsOf]
    omega
  · rw [value_digitsOf]
    omega

theorem nonneg_of_names {filename : Bytes} (h : Names kind ppid pid filename) : 0 ≤ pid := by
  obtain ⟨_, child, _, _, hchild⟩ := h
  refine Int32.le_iff_toInt_le.mpr ?_
  show (0 : ℤ) ≤ _
  omega

end Paths

/-! ## The entries of the map -/

section Entries

variable {rootPid pid : Int32} {names : List Bytes} {filename : Bytes} {kind : CacheFileKind}
  {cacheMap : MappedCacheFiles} {files : CacheFiles}

theorem collects_of_getCacheFiles (h : getCacheFiles rootPid names = .ok cacheMap) :
    Collects rootPid names cacheMap := by
  obtain ⟨_, hextends⟩ := foldlM_parseAndFillCache rootPid names fun _ => none
  refine (hextends cacheMap ?_).collects
  unfold getCacheFiles at h
  split at h
  · rename_i hnil
    rw [hnil]
    exact h
  · exact h

theorem capturedPid_of_names (hnames : Names kind rootPid pid filename) :
    capturedPid filename = some pid := by
  obtain ⟨parent, child, hname, _, hchild⟩ := hnames
  have hcapture : (CacheFileKind.buffStorage.regexMatch filename).or
      (CacheFileKind.metadata.regexMatch filename) = some (parent.bytes, child.bytes) := by
    have hown : kind.regexMatch filename = some (parent.bytes, child.bytes) := by
      rw [hname]
      exact regexMatch_name kind parent child
    cases kind with
    | buffStorage => rw [hown, Option.some_or]
    | metadata =>
      have hother : CacheFileKind.buffStorage.regexMatch filename = none := by
        rw [Option.eq_none_iff_forall_not_mem]
        intro captures hcaptures
        obtain ⟨_, _, _, _, hbuff⟩ := @eq_name_of_regexMatch _ _ captures.1 captures.2 hcaptures
        cases kind_eq_of_name (hname.symm.trans hbuff)
      rw [hother, hown, Option.none_or]
  have hbound := pid.toInt_lt
  have hlt : child.value < 2 ^ 31 := by omega
  rw [capturedPid, hcapture, Option.bind_some, Utility.stoi_digits, if_pos hlt]
  exact congrArg some ((toInt_ofNat_eq_iff hlt pid).mpr hchild)

theorem mem_mapEntries :
    (pid, files) ∈ mapEntries names cacheMap ↔
      pid ∈ names.filterMap capturedPid ∧ cacheMap pid = some files := by
  unfold mapEntries
  rw [List.mem_filterMap]
  constructor
  · intro h
    obtain ⟨q, hq, hmap⟩ := h
    obtain ⟨files', hfiles, heq⟩ := Option.map_eq_some_iff.mp hmap
    cases heq
    rw [List.mem_insertionSort, List.mem_dedup] at hq
    exact ⟨hq, hfiles⟩
  · intro h
    refine ⟨pid, ?_, ?_⟩
    · rw [List.mem_insertionSort, List.mem_dedup]
      exact h.1
    · rw [h.2]
      rfl

/-- Every process comes once, in the order of the map. -/
theorem mapEntries_pairwise (names : List Bytes) (cacheMap : MappedCacheFiles) :
    ((mapEntries names cacheMap).map Prod.fst).Pairwise (· < ·) := by
  let keys := (names.filterMap capturedPid).dedup.insertionSort (· ≤ ·)
  have hsorted : keys.Pairwise (· < ·) := by
    have htotal : Std.Total (α := Int32) (· ≤ ·) := ⟨Int32.le_total⟩
    have htrans : IsTrans Int32 (· ≤ ·) := ⟨fun _ _ _ => Int32.le_trans⟩
    have hle : keys.Pairwise (· ≤ ·) := List.pairwise_insertionSort _ _
    have hnodup : keys.Nodup :=
      (List.perm_insertionSort _ _).nodup_iff.mpr (List.nodup_dedup _)
    exact (hle.and hnodup).imp fun h => Int32.lt_of_le_of_ne h.1 h.2
  have hsub : ((mapEntries names cacheMap).map Prod.fst).Sublist keys := by
    have hfilter : (mapEntries names cacheMap).map Prod.fst =
        keys.filter fun pid => (cacheMap pid).isSome := by
      show (keys.filterMap fun pid => (cacheMap pid).map (Prod.mk pid)).map Prod.fst = _
      rw [List.map_filterMap, ← List.filterMap_eq_filter]
      congr
      funext pid
      cases hfiles : cacheMap pid with
      | none => simp [Option.guard, hfiles]
      | some files => simp [Option.guard, hfiles]
    rw [hfilter]
    exact List.filter_sublist
  exact hsorted.sublist hsub

theorem path_eq_some_iff (hfiles : cacheMap pid = some files) {path : Bytes} :
    cacheMap.path kind pid = some path ↔ files.path kind = path ∧ path ≠ [] := by
  rw [MappedCacheFiles.path, hfiles, Option.map_some, Option.filter_eq_some_iff,
    Option.some_inj, decide_eq_true_eq]

/-- The paths of an entry are those of listed names. -/
theorem listed_of_entry (h : getCacheFiles rootPid names = .ok cacheMap)
    (hentry : (pid, files) ∈ mapEntries names cacheMap) (hpath : files.path kind ≠ []) :
    ∃ filename ∈ names, Names kind rootPid pid filename ∧
      files.path kind = tmpDirectory ++ filename := by
  have hmap := (path_eq_some_iff (mem_mapEntries.mp hentry).2).mpr ⟨rfl, hpath⟩
  exact (collects_of_getCacheFiles h).listed kind pid _ hmap

/-- Every listed name of the root is in an entry. -/
theorem entry_of_listed (h : getCacheFiles rootPid names = .ok cacheMap)
    (hfilename : filename ∈ names) (hnames : Names kind rootPid pid filename) :
    ∃ files, (pid, files) ∈ mapEntries names cacheMap ∧ files.path kind ≠ [] := by
  obtain ⟨path, hpath⟩ :=
    ((collects_of_getCacheFiles h).mapped kind pid).mpr ⟨filename, hfilename, hnames⟩
  cases hfiles : cacheMap pid with
  | none =>
    rw [MappedCacheFiles.path, hfiles] at hpath
    cases hpath
  | some files =>
    obtain ⟨heq, hne⟩ := (path_eq_some_iff hfiles).mp hpath
    rw [← heq] at hne
    refine ⟨files, mem_mapEntries.mpr ⟨?_, hfiles⟩, hne⟩
    exact List.mem_filterMap.mpr ⟨filename, hfilename, capturedPid_of_names hnames⟩

end Entries

end PostProcess

end TraceCache
end Rocprofsys
