import Mathlib.Data.Nat.Log
import Mathlib.Data.String.Basic
import Rocprofsys.Base.Combinations
import Rocprofsys.Base.Decimal
import Rocprofsys.Base.OrderedSet

namespace Rocprofsys
namespace Causal

open Base

/-! ## Options -/

/-- The environment of a run. -/
abbrev RunEnv := OrderedMap String String

/-- What the arguments set.  In end-to-end mode `virtualSpeedups` has the single speedups of the
groups. -/
structure CausalOptions where
  iterations : ℤ := 1
  virtualSpeedups : List String := []
  functionScopes : List String := []
  binaryScopes : List String := []
  sourceScopes : List String := []
  functionExcludes : List String := []
  binaryExcludes : List String := []
  sourceExcludes : List String := []
  generateConfigs : Bool := false
  reset : Bool := false
  configFile : String := ""
  configFolder : String := "rocprof-sys-causal-config"
  /-- The environment of the process, with the defaults in it. -/
  env : List String := []

/-- A file with the settings of a run, after those of the process. -/
structure ConfigFile where
  fname : String
  omniEnv : List (String × String)
  data : RunEnv
  deriving DecidableEq

/-- `_causal_envs`, what is written for them, and the environment that they share. -/
structure CausalRuns where
  envs : List RunEnv
  files : List ConfigFile
  env : List String
  deriving DecidableEq

/-- The name of the reset request. -/
def fileReset : String := "ROCPROFSYS_CAUSAL_FILE_RESET"

def configFileVar : String := "ROCPROFSYS_CONFIG_FILE"

def fixedSpeedup : String := "ROCPROFSYS_CAUSAL_FIXED_SPEEDUP"

/-! ## The matrix -/

/-- `_fill`: an empty list of environments stands for one empty environment. -/
def fill (tmp : List RunEnv) (envVar : String) (data : List String) (quote : Bool) : List RunEnv :=
  if data = [] then tmp
  else
    let tmp := if tmp = [] then [∅] else tmp
    data.flatMap fun ditr =>
      let ditr := if quote then "\"" ++ ditr ++ "\"" else ditr
      tmp.map fun itr => OrderedMap.set itr envVar ditr

/-- `_causal_envs` before configurations are generated. -/
def causalEnvs (opts : CausalOptions) : List RunEnv :=
  let niterations := if opts.iterations < 1 then 1 else opts.iterations
  let quote := opts.generateConfigs
  let tmp : List RunEnv := []
  let tmp := fill tmp "ROCPROFSYS_CAUSAL_BINARY_EXCLUDE" opts.binaryExcludes quote
  let tmp := fill tmp "ROCPROFSYS_CAUSAL_SOURCE_EXCLUDE" opts.sourceExcludes quote
  let tmp := fill tmp "ROCPROFSYS_CAUSAL_FUNCTION_EXCLUDE" opts.functionExcludes quote
  let tmp := fill tmp "ROCPROFSYS_CAUSAL_BINARY_SCOPE" opts.binaryScopes quote
  let tmp := fill tmp "ROCPROFSYS_CAUSAL_SOURCE_SCOPE" opts.sourceScopes quote
  let tmp := fill tmp "ROCPROFSYS_CAUSAL_FUNCTION_SCOPE" opts.functionScopes quote
  let tmp := fill tmp fixedSpeedup opts.virtualSpeedups false
  let tmp := if tmp = [] then [∅] else tmp
  (List.replicate niterations.toNat tmp).flatten

/-! ## Generated configurations -/

/-- Whether an entry of the environment is an official setting. -/
def isOmniCfg (itr : String) : Bool :=
  "ROCPROFSYS".toList.isPrefixOf itr.toList && !"ROCPROFSYS_MODE".toList.isPrefixOf itr.toList &&
    !"ROCPROFSYS_DEBUG_".toList.isPrefixOf itr.toList && itr.toList.contains '='

/-- The name and the value of an entry. -/
def splitEntry (itr : String) : String × String :=
  let chars := itr.toList
  (String.ofList (chars.takeWhile (· ≠ '=')), String.ofList ((chars.dropWhile (· ≠ '=')).drop 1))

/-- The settings of the process, `ROCPROFSYS_CONFIG_FILE` first. -/
def omniEnv (env : List String) : List (String × String) :=
  let omniEnvM : OrderedMap String String :=
    (∅ : RunEnv).insertAll ((env.filter isOmniCfg).map splitEntry)
  match omniEnvM.get? configFileVar with
  | some value => (configFileVar, value) :: (OrderedMap.erase omniEnvM configFileVar).items
  | none => omniEnvM.items

/-- `setw`, `left`. -/
def padRight (width : ℕ) (text : String) : String :=
  text ++ String.ofList (List.replicate (width - text.length) ' ')

/-- `_write_config`. -/
def ConfigFile.text (file : ConfigFile) : String :=
  let width := (file.omniEnv ++ file.data.items).foldl (fun width itr => max width itr.1.length) 0
  let line (itr : String × String) : String := padRight (width + 1) itr.1 ++ " = " ++ itr.2 ++ "\n"
  "# rocprofsys common settings\n" ++ String.join (file.omniEnv.map line) ++
    "\n# rocprofsys causal settings\n" ++ String.join (file.data.items.map line)

/-- `setw` with `fill('0')`. -/
def zeroPadded (width i : ℕ) : List Char :=
  let digits := Nat.toDigits 10 i
  List.replicate (width - digits.length) '0' ++ digits

def configName (opts : CausalOptions) (size i : ℕ) : String :=
  opts.configFolder ++ "/causal-" ++ String.ofList (zeroPadded (Nat.log 10 size + 1) i) ++ ".cfg"

/-- `_cfg_name`. -/
def cfgName (opts : CausalOptions) (fname : String) : String :=
  if opts.configFile = "" then fname else opts.configFile ++ ":" ++ fname

/-- Each environment goes to a file of its own, and its run is told the file. -/
def generate (opts : CausalOptions) (envs : List RunEnv) : CausalRuns where
  envs := envs.zipIdx.map fun itr =>
    OrderedMap.set ∅ configFileVar (cfgName opts (configName opts envs.length itr.2))
  files := envs.zipIdx.map fun itr =>
    ⟨configName opts envs.length itr.2, omniEnv opts.env, itr.1⟩
  env := opts.env.filter fun itr => !isOmniCfg itr

/-- `_causal_envs.front().emplace`. -/
def requestReset (reset : Bool) : List RunEnv → List RunEnv
  | [] => []
  | front :: rest => (if reset then front.insert (fileReset, "true") else front) :: rest

def parseArgs (opts : CausalOptions) : CausalRuns :=
  let envs := causalEnvs opts
  let runs := if opts.generateConfigs then generate opts envs else ⟨envs, [], opts.env⟩
  { runs with envs := requestReset opts.reset runs.envs }

/-! ## What is asked for -/

/-- The lists that multiply the runs, by the variables that they set. -/
def CausalOptions.lists (opts : CausalOptions) : List (String × List String) :=
  [("ROCPROFSYS_CAUSAL_BINARY_EXCLUDE", opts.binaryExcludes),
    ("ROCPROFSYS_CAUSAL_SOURCE_EXCLUDE", opts.sourceExcludes),
    ("ROCPROFSYS_CAUSAL_FUNCTION_EXCLUDE", opts.functionExcludes),
    ("ROCPROFSYS_CAUSAL_BINARY_SCOPE", opts.binaryScopes),
    ("ROCPROFSYS_CAUSAL_SOURCE_SCOPE", opts.sourceScopes),
    ("ROCPROFSYS_CAUSAL_FUNCTION_SCOPE", opts.functionScopes),
    (fixedSpeedup, opts.virtualSpeedups)]

/-- The variables of the lists. -/
def listVariables : List String := ({} : CausalOptions).lists.map Prod.fst

theorem map_fst_lists (opts : CausalOptions) : opts.lists.map Prod.fst = listVariables := rfl

def CausalOptions.copies (opts : CausalOptions) : ℕ := (max opts.iterations 1).toNat

/-- An element as it stands in the environment, or in a configuration file. -/
def value (opts : CausalOptions) (envVar element : String) : String :=
  if opts.generateConfigs ∧ envVar ≠ fixedSpeedup then "\"" ++ element ++ "\"" else element

def setChoice (opts : CausalOptions) (env : RunEnv) (choice : String × String) : RunEnv :=
  OrderedMap.set env choice.1 (value opts choice.1 choice.2)

/-- The environment of one element of each of some lists. -/
def environmentOf (opts : CausalOptions) (c : List (String × String)) : RunEnv :=
  build (setChoice opts) ∅ c

/-- What a run sets besides the reset request: in the file that it is told, where there is one. -/
def CausalRuns.settingsOf (runs : CausalRuns) (opts : CausalOptions) (run : RunEnv) : RunEnv :=
  match runs.files.find? fun file =>
    OrderedMap.get? run configFileVar = some (cfgName opts file.fname) with
  | some file => file.data
  | none => OrderedMap.erase run fileReset

def CausalRuns.settings (runs : CausalRuns) (opts : CausalOptions) : List RunEnv :=
  runs.envs.map (runs.settingsOf opts)

/-! ## Every combination -/

variable {opts : CausalOptions}

theorem fill_eq_expand (tmp : List RunEnv) {envVar : String} (data : List String) {quote : Bool}
    (h : quote = true ↔ opts.generateConfigs = true ∧ envVar ≠ fixedSpeedup) :
    fill tmp envVar data quote = expand (setChoice opts) ∅ tmp (envVar, data) := by
  have hvalue : ∀ ditr : String,
      (if quote then "\"" ++ ditr ++ "\"" else ditr) = value opts envVar ditr := by
    intro ditr
    unfold value
    by_cases hquote : quote = true
    · rw [if_pos hquote, if_pos (h.mp hquote)]
    · rw [if_neg hquote, if_neg fun hv => hquote (h.mpr hv)]
  unfold fill expand
  simp only [hvalue]
  rfl

theorem causalEnvs_eq (opts : CausalOptions) :
    causalEnvs opts = (List.replicate opts.copies
      (started ∅ (opts.lists.foldl (expand (setChoice opts) ∅) []))).flatten := by
  have hquote : ∀ {envVar : String}, envVar ≠ fixedSpeedup →
      (opts.generateConfigs = true ↔ opts.generateConfigs = true ∧ envVar ≠ fixedSpeedup) :=
    fun h => (and_iff_left h).symm
  have hplain : false = true ↔ opts.generateConfigs = true ∧ fixedSpeedup ≠ fixedSpeedup := by
    simp
  have hcopies : (if opts.iterations < 1 then 1 else opts.iterations).toNat = opts.copies := by
    unfold CausalOptions.copies
    split_ifs <;> omega
  unfold causalEnvs
  simp only [hcopies]
  rw [fill_eq_expand [] opts.binaryExcludes (hquote (by decide)),
    fill_eq_expand _ opts.sourceExcludes (hquote (by decide)),
    fill_eq_expand _ opts.functionExcludes (hquote (by decide)),
    fill_eq_expand _ opts.binaryScopes (hquote (by decide)),
    fill_eq_expand _ opts.sourceScopes (hquote (by decide)),
    fill_eq_expand _ opts.functionScopes (hquote (by decide)),
    fill_eq_expand _ opts.virtualSpeedups hplain]
  rfl

/-- The environments of the combinations, `copies` times. -/
def matrix (opts : CausalOptions) : List RunEnv :=
  (List.replicate opts.copies ((combinations opts.lists).map (environmentOf opts))).flatten

theorem causalEnvs_perm (opts : CausalOptions) : (causalEnvs opts).Perm (matrix opts) := by
  rw [causalEnvs_eq, matrix]
  have hperm := started_foldl_expand (setChoice opts) ∅ opts.lists
  induction opts.copies with
  | zero => exact List.Perm.refl _
  | succ n ih =>
    rw [List.replicate_succ, List.replicate_succ, List.flatten_cons, List.flatten_cons]
    exact hperm.append ih

theorem count_matrix (env : RunEnv) : (matrix opts).count env =
    opts.copies * ((combinations opts.lists).map (environmentOf opts)).count env := by
  rw [matrix, List.count_flatten, List.map_replicate, List.sum_replicate_nat]

/-! ## What a combination sets -/

theorem get?_environmentOf (c : List (String × String)) (envVar : String) :
    OrderedMap.get? (environmentOf opts c) envVar = (c.lookup envVar).map (value opts envVar) := by
  induction c with
  | nil => rfl
  | cons choice c ih =>
    show OrderedMap.get? (OrderedMap.set (environmentOf opts c) _ _) envVar = _
    rw [OrderedMap.get?_set, ih, OrderedMap.lookup_cons_eq]
    split_ifs with h
    · rw [h, Option.map_some]
    · rfl

theorem value_injective (opts : CausalOptions) (envVar : String) :
    Function.Injective (value opts envVar) := by
  intro a b h
  unfold value at h
  split_ifs at h
  · have hlist := congrArg String.toList h
    simp only [String.toList_append, List.append_assoc] at hlist
    exact String.toList_inj.mp (List.append_cancel_right (List.append_cancel_left hlist))
  · exact h

theorem nodup_chosenKeys (opts : CausalOptions) : (chosenKeys opts.lists).Nodup := by
  have hnames : (opts.lists.map Prod.fst).Nodup := by
    rw [map_fst_lists]
    decide
  unfold chosenKeys
  rw [List.map_reverse, List.nodup_reverse]
  exact hnames.sublist (List.filter_sublist.map _)

/-- Different combinations make different environments. -/
theorem environmentOf_injOn {c c' : List (String × String)} (hc : c ∈ combinations opts.lists)
    (hc' : c' ∈ combinations opts.lists) (h : environmentOf opts c = environmentOf opts c') :
    c = c' := by
  have hkeys := map_fst_of_mem_combinations hc
  have hkeys' := map_fst_of_mem_combinations hc'
  refine eq_of_lookup_eq (hkeys.trans hkeys'.symm) (hkeys ▸ nodup_chosenKeys opts) fun k => ?_
  have hget := congrArg (fun env => OrderedMap.get? env k) h
  simp only [get?_environmentOf] at hget
  exact Option.map_injective (value_injective opts k) hget

theorem count_environmentOf (hnodup : ∀ axis ∈ opts.lists, axis.2.Nodup)
    {c : List (String × String)} (hc : c ∈ combinations opts.lists) :
    (matrix opts).count (environmentOf opts c) = opts.copies := by
  have hmap : ((combinations opts.lists).map (environmentOf opts)).Nodup :=
    (nodup_combinations hnodup).map_on fun _ hd _ hd' h => environmentOf_injOn hd hd' h
  rw [count_matrix, List.count_eq_one_of_mem hmap (List.mem_map_of_mem hc), mul_one]

theorem exists_of_mem_matrix {env : RunEnv} (h : env ∈ matrix opts) :
    ∃ c ∈ combinations opts.lists, env = environmentOf opts c := by
  obtain ⟨l, hl, henv⟩ := List.mem_flatten.mp h
  rw [List.eq_of_mem_replicate hl] at henv
  obtain ⟨c, hc, rfl⟩ := List.mem_map.mp henv
  exact ⟨c, hc, rfl⟩

/-- Only an option with a list sets its variable. -/
theorem exists_of_get?_matrix {env : RunEnv} {envVar : String} (h : env ∈ matrix opts)
    (hget : OrderedMap.get? env envVar ≠ none) : ∃ data, (envVar, data) ∈ opts.lists ∧ data ≠ [] := by
  obtain ⟨c, hc, rfl⟩ := exists_of_mem_matrix h
  rw [get?_environmentOf, ne_eq, Option.map_eq_none_iff] at hget
  have hmem : envVar ∈ c.map Prod.fst := by
    by_contra hnot
    refine hget (List.lookup_eq_none_iff.mpr fun choice hchoice => ?_)
    rw [bne_iff_ne]
    exact fun heq => hnot (heq ▸ List.mem_map_of_mem hchoice)
  rw [map_fst_of_mem_combinations hc, chosenKeys, List.mem_map] at hmem
  obtain ⟨axis, haxis, rfl⟩ := hmem
  have hfilter := List.mem_filter.mp (List.mem_reverse.mp haxis)
  exact ⟨axis.2, hfilter.1, of_decide_eq_true hfilter.2⟩

/-! ## The runs -/

theorem causalEnvs_ne_nil (opts : CausalOptions) : causalEnvs opts ≠ [] := by
  have hcopies : opts.copies ≠ 0 := by
    unfold CausalOptions.copies
    omega
  rw [causalEnvs_eq]
  obtain ⟨n, hn⟩ := Nat.exists_eq_succ_of_ne_zero hcopies
  rw [hn, List.replicate_succ, List.flatten_cons]
  exact List.append_ne_nil_of_left_ne_nil (started_ne_nil _ _) _

theorem not_mem_keys_fileReset {env : RunEnv} (h : env ∈ causalEnvs opts) :
    fileReset ∉ env.keys := by
  rw [← OrderedMap.get?_eq_none_iff]
  by_contra hget
  obtain ⟨data, hdata, _⟩ := exists_of_get?_matrix ((causalEnvs_perm opts).subset h) hget
  have hmem : fileReset ∈ opts.lists.map Prod.fst := List.mem_map_of_mem hdata
  rw [map_fst_lists] at hmem
  exact absurd hmem (by decide)

theorem digitsValue_zeros (k : ℕ) : digitsValue (List.replicate k 48) = 0 := by
  induction k with
  | zero => rfl
  | succ k ih => exact ih

theorem zeroPadded_injective (width : ℕ) : Function.Injective (zeroPadded width) := by
  have hvalue : ∀ i, digitsValue ((zeroPadded width i).map fun c => UInt8.ofNat c.toNat) = i := by
    intro i
    rw [zeroPadded, List.map_append, digitsValue_append, List.map_replicate]
    show digitsValue (List.replicate _ 48) * _ + digitsValue (decimal i) = i
    rw [digitsValue_zeros, digitsValue_decimal, zero_mul, zero_add]
  intro i j h
  rw [← hvalue i, h, hvalue j]

theorem configName_injective (opts : CausalOptions) (size : ℕ) :
    Function.Injective (configName opts size) := by
  intro i j h
  have hlist := congrArg String.toList h
  simp only [configName, String.toList_append, List.append_assoc, String.toList_ofList] at hlist
  exact zeroPadded_injective _
    (List.append_cancel_right (List.append_cancel_left (List.append_cancel_left hlist)))

theorem cfgName_injective (opts : CausalOptions) : Function.Injective (cfgName opts) := by
  intro a b h
  unfold cfgName at h
  split_ifs at h
  · exact h
  · have hlist := congrArg String.toList h
    simp only [String.toList_append, List.append_assoc] at hlist
    exact String.toList_inj.mp (List.append_cancel_left (List.append_cancel_left hlist))

theorem map_requestReset {γ : Type} {reset : Bool} {envs : List RunEnv} {g : RunEnv → γ}
    (h : ∀ env ∈ envs, g (env.insert (fileReset, "true")) = g env) :
    (requestReset reset envs).map g = envs.map g := by
  cases envs with
  | nil => rfl
  | cons front rest =>
    rw [requestReset, List.map_cons, List.map_cons]
    cases reset with
    | false => rfl
    | true => rw [if_pos rfl, h front List.mem_cons_self]

theorem erase_fileReset {env : RunEnv} (h : env ∈ causalEnvs opts) :
    OrderedMap.erase env fileReset = env := by
  apply OrderedSet.eq_of_items_eq
  refine List.filter_eq_self.mpr fun e he => decide_eq_true fun hkey => ?_
  exact not_mem_keys_fileReset h (hkey ▸ List.mem_map_of_mem he)

/-- A run that is told a file is found that file's settings. -/
theorem settingsOf_generate {envs : List RunEnv} {itr : RunEnv × ℕ} {run : RunEnv}
    (hitr : itr ∈ envs.zipIdx)
    (hrun : OrderedMap.get? run configFileVar =
      some (cfgName opts (configName opts envs.length itr.2))) (runEnvs : List RunEnv) :
    ({ generate opts envs with envs := runEnvs } : CausalRuns).settingsOf opts run = itr.1 := by
  have hfind : (generate opts envs).files.find? (fun file =>
      OrderedMap.get? run configFileVar = some (cfgName opts file.fname)) =
      some ⟨configName opts envs.length itr.2, omniEnv opts.env, itr.1⟩ := by
    cases hfound : (generate opts envs).files.find? (fun file =>
        OrderedMap.get? run configFileVar = some (cfgName opts file.fname)) with
    | none =>
      have hnone := List.find?_eq_none.mp hfound _ (List.mem_map_of_mem hitr)
      rw [decide_eq_true_eq] at hnone
      exact absurd hrun hnone
    | some file =>
      obtain ⟨other, hother, rfl⟩ := List.mem_map.mp (List.mem_of_find?_eq_some hfound)
      have hsame := List.find?_some hfound
      rw [decide_eq_true_eq, hrun] at hsame
      have hindex := configName_injective opts _
        (cfgName_injective opts (Option.some.inj hsame))
      have hget := List.mem_zipIdx_iff_getElem?.mp hitr
      have hget' := List.mem_zipIdx_iff_getElem?.mp hother
      rw [← hindex, hget] at hget'
      rw [← hindex, Option.some.inj hget']
  unfold CausalRuns.settingsOf
  rw [hfind]

/-- What takes effect in the runs is what was put together for them. -/
theorem settings_parseArgs (opts : CausalOptions) :
    (parseArgs opts).settings opts = causalEnvs opts := by
  unfold CausalRuns.settings parseArgs
  by_cases hgenerate : opts.generateConfigs = true
  · simp only [if_pos hgenerate]
    rw [map_requestReset]
    · show ((causalEnvs opts).zipIdx.map _).map _ = _
      rw [List.map_map]
      refine Eq.trans (List.map_congr_left fun itr hitr => ?_) (List.zipIdx_map_fst 0 _)
      refine settingsOf_generate hitr ?_ _
      rw [OrderedMap.get?_set, if_pos rfl]
    · intro env henv
      obtain ⟨itr, hitr, rfl⟩ := List.mem_map.mp henv
      have hname : OrderedMap.get? (OrderedMap.set (∅ : RunEnv) configFileVar
          (cfgName opts (configName opts (causalEnvs opts).length itr.2))) configFileVar =
          some (cfgName opts (configName opts (causalEnvs opts).length itr.2)) := by
        rw [OrderedMap.get?_set, if_pos rfl]
      have hne : configFileVar ≠ fileReset := by decide
      rw [settingsOf_generate hitr ((OrderedMap.get?_insert_of_ne hne).trans hname),
        settingsOf_generate hitr hname]
  · simp only [if_neg hgenerate]
    have hplain : ∀ run : RunEnv,
        (⟨requestReset opts.reset (causalEnvs opts), [], opts.env⟩ : CausalRuns).settingsOf opts
          run = OrderedMap.erase run fileReset := fun _ => rfl
    rw [map_requestReset]
    · refine Eq.trans (List.map_congr_left fun env henv => ?_) (List.map_id _)
      rw [hplain, erase_fileReset henv, id]
    · intro env henv
      rw [hplain, hplain, OrderedMap.erase_insert (not_mem_keys_fileReset henv),
        erase_fileReset henv]

theorem getElem?_requestReset {envs : List RunEnv} {reset : Bool} {i : ℕ} {run : RunEnv}
    (h : (requestReset reset envs)[i]? = some run)
    (henvs : ∀ env ∈ envs, fileReset ∉ env.keys) :
    fileReset ∈ run.keys ↔ i = 0 ∧ reset = true := by
  cases envs with
  | nil => cases h
  | cons front rest =>
    obtain ⟨hfront, hrest⟩ := List.forall_mem_cons.mp henvs
    cases i with
    | zero =>
      cases h
      cases reset with
      | false => exact iff_of_false hfront (by simp)
      | true => exact iff_of_true (OrderedSet.mem_keys_insert.mpr (Or.inl rfl)) ⟨rfl, rfl⟩
    | succ i =>
      have hmem : run ∈ rest := List.mem_of_getElem? h
      exact iff_of_false (hrest run hmem) (by simp)

/-- The first run alone is told to reset, if that is asked for. -/
theorem fileReset_mem_keys_iff {i : ℕ} {run : RunEnv} (h : (parseArgs opts).envs[i]? = some run) :
    fileReset ∈ run.keys ↔ i = 0 ∧ opts.reset = true := by
  unfold parseArgs at h
  by_cases hgenerate : opts.generateConfigs = true
  · simp only [if_pos hgenerate] at h
    refine getElem?_requestReset h fun env henv => ?_
    obtain ⟨itr, _, rfl⟩ := List.mem_map.mp henv
    have hne : fileReset ≠ configFileVar := by decide
    rw [← OrderedMap.get?_eq_none_iff, OrderedMap.get?_set, if_neg hne]
    rfl
  · simp only [if_neg hgenerate] at h
    exact getElem?_requestReset h fun env henv => not_mem_keys_fileReset henv

/-- The runs are `copies` times the combinations of one element of each list that has some: each
as often as it is asked for, no other one, with no variable of an empty list; and the first run
alone resets. -/
theorem parseArgs_runs (opts : CausalOptions) :
    ((parseArgs opts).settings opts).Perm (matrix opts) ∧
    (∀ env, ((parseArgs opts).settings opts).count env =
      opts.copies * ((combinations opts.lists).map (environmentOf opts)).count env) ∧
    ((∀ axis ∈ opts.lists, axis.2.Nodup) → ∀ c ∈ combinations opts.lists,
      ((parseArgs opts).settings opts).count (environmentOf opts c) = opts.copies) ∧
    (∀ env ∈ (parseArgs opts).settings opts, ∀ envVar, OrderedMap.get? env envVar ≠ none →
      ∃ data, (envVar, data) ∈ opts.lists ∧ data ≠ []) ∧
    (∀ i run, (parseArgs opts).envs[i]? = some run →
      (fileReset ∈ run.keys ↔ i = 0 ∧ opts.reset = true)) := by
  have hperm : ((parseArgs opts).settings opts).Perm (matrix opts) :=
    (settings_parseArgs opts).symm ▸ causalEnvs_perm opts
  refine ⟨hperm, ?_, ?_, ?_, fun i run h => fileReset_mem_keys_iff h⟩
  · intro env
    rw [hperm.count_eq, count_matrix]
  · intro hnodup c hc
    rw [hperm.count_eq, count_environmentOf hnodup hc]
  · intro env henv envVar hget
    exact exists_of_get?_matrix (hperm.subset henv) hget

/-- Two iterations of one binary scope and two function scopes. -/
example : ((parseArgs {
    iterations := 2
    binaryScopes := ["MAIN"]
    functionScopes := ["foo", "bar"]
    reset := true }).envs.map fun env => env.items.map Prod.snd) =
    [["MAIN", "true", "foo"], ["MAIN", "bar"], ["MAIN", "foo"], ["MAIN", "bar"]] := by
  decide +kernel

end Causal
end Rocprofsys
