import Mathlib.Algebra.Order.Ring.Int
import Mathlib.Data.Finset.Sort
import Mathlib.Data.List.Infix
import Rocprofsys.Base.Gather

namespace Rocprofsys
namespace Sdk

open Base

/-! ## Domains and their settings -/

/-- A domain with its operations; an operation named `none` is none. -/
structure TracingInfo where
  name : String
  items : List (ℤ × Option String)
  distinct : (items.map Prod.fst).Nodup

def isNamed (item : ℤ × Option String) : Bool := item.2.any fun name => name != "none"

/-- The callback domains by their kinds. -/
structure TracingNames where
  infos : List TracingInfo
  /-- `ROCPROFILER_CALLBACK_TRACING_MARKER_CORE_API`. -/
  markerCoreApi : ℕ

structure OperationOptions where
  operationsInclude : String
  operationsExclude : String
  operationsAnnotateBacktrace : String
  deriving DecidableEq, Repr

/-- `_skip_domains`. -/
def skipDomains : List String :=
  ["none", "correlation_id_retirement", "marker_core_api", "marker_control_api",
    "marker_name_api", "code_object", "kernel_dispatch", "page_migration"]

def operationOptions (domainName : String) : OperationOptions where
  operationsInclude := "ROCPROFSYS_ROCM_" ++ domainName ++ "_OPERATIONS"
  operationsExclude := "ROCPROFSYS_ROCM_" ++ domainName ++ "_OPERATIONS_EXCLUDE"
  operationsAnnotateBacktrace :=
    "ROCPROFSYS_ROCM_" ++ domainName ++ "_OPERATIONS_ANNOTATE_BACKTRACE"

/-- The entry of a domain, if it gets one. -/
def addOperationSettings (domainName : String) (kind : ℕ) (info : TracingInfo) :
    List (ℕ × OperationOptions) :=
  if domainName.toLower ∈ skipDomains then []
  else if info.items.isEmpty then []
  else [(kind, operationOptions domainName)]

/-- The entries of the domains from a kind on. -/
def addInfos : ℕ → List TracingInfo → List (ℕ × OperationOptions)
  | _, [] => []
  | kind, info :: infos =>
    addOperationSettings info.name kind info ++ addInfos (kind + 1) infos

def addMarkerApi (names : TracingNames) : List (ℕ × OperationOptions) :=
  match names.infos[names.markerCoreApi]? with
  | none => []
  | some info => addOperationSettings "MARKER_API" names.markerCoreApi info

/-- `callback_operation_option_names` after `config_settings`. The first entry of a kind stays. -/
def callbackOperationOptionNames (names : TracingNames) : List (ℕ × OperationOptions) :=
  addMarkerApi names ++ addInfos 0 names.infos

/-- The settings made with the entry. -/
def OperationOptions.settings (o : OperationOptions) : List String :=
  [o.operationsInclude, o.operationsExclude, o.operationsAnnotateBacktrace]

/-! ## get_operations -/

/-- What the configuration is read with. -/
structure Configuration where
  names : TracingNames
  /-- What each setting is set to. -/
  values : String → String
  /-- `tim::delimit` at ` ,;:`, line breaks and tabs. -/
  delimit : String → List String
  /-- `std::regex_search` with `icase`, for the expression and the name. -/
  regexSearch : String → String → Bool

namespace Configuration

variable (cfg : Configuration)

/-- A setting that no domain made is none. -/
def getSettingValue (optname : String) : Option String :=
  if (callbackOperationOptionNames cfg.names).any fun e => e.2.settings.contains optname then
    some (cfg.values optname)
  else none

/-- `none` aborts. -/
def getOperationsImpl (info : TracingInfo) (optname : String) : Option (Finset ℤ) :=
  if optname.isEmpty then some (gather isNamed Prod.fst info.items ∅)
  else
    match cfg.getSettingValue optname with
    | none => none
    | some val =>
      if val.isEmpty then some ∅
      else
        some (gatherAll (fun itr item => item.2.any fun name => cfg.regexSearch itr name)
          Prod.fst info.items (cfg.delimit val) ∅)

end Configuration

/-- `get_operations_impl` of the three sets. -/
def combineOperations (complete included excluded : Finset ℤ) : List ℤ :=
  if included = ∅ ∧ excluded = ∅ then complete.sort
  else ((if included = ∅ then complete else included) \ excluded).sort

/-- `none` aborts. -/
def getOperations (cfg : Configuration) (kind : ℕ) : Option (List ℤ) :=
  match (callbackOperationOptionNames cfg.names).lookup kind, cfg.names.infos[kind]? with
  | some o, some info =>
    match cfg.getOperationsImpl info "", cfg.getOperationsImpl info o.operationsInclude,
      cfg.getOperationsImpl info o.operationsExclude with
    | some complete, some included, some excluded =>
      some (combineOperations complete included excluded)
    | _, _, _ => none
  | _, _ => none

/-! ## What is traced -/

/-- The operations of a domain. -/
def TracingInfo.operations (info : TracingInfo) : Finset ℤ :=
  ((info.items.filter isNamed).map Prod.fst).toFinset

/-- What `rocprofiler_configure_callback_tracing_service` traces for a list: an empty one stands
for all operations. -/
def tracedFor (info : TracingInfo) (ops : List ℤ) : Finset ℤ :=
  if ops = [] then info.operations else ops.toFinset

/-- A kind the tool asks the operations of. -/
structure CallbackDomain (names : TracingNames) where
  kind : ℕ
  info : TracingInfo
  at_kind : names.infos[kind]? = some info
  kept : kind = names.markerCoreApi ∨ info.name.toLower ∉ skipDomains

namespace CallbackDomain

variable {names : TracingNames}

/-- The name its settings go by. -/
def settingName (d : CallbackDomain names) : String :=
  if d.kind = names.markerCoreApi then "MARKER_API" else d.info.name

end CallbackDomain

namespace Configuration

variable (cfg : Configuration) (d : CallbackDomain cfg.names)

/-- What the tool has traced for the domain, unless it aborts. -/
def traced : Option (Finset ℤ) := (getOperations cfg d.kind).map (tracedFor d.info)

/-- The expressions of a setting. -/
def expressions (optname : String) : List String :=
  if (cfg.values optname).isEmpty then [] else cfg.delimit (cfg.values optname)

def includes : List String :=
  cfg.expressions (operationOptions d.settingName).operationsInclude

def excludes : List String :=
  cfg.expressions (operationOptions d.settingName).operationsExclude

/-- Some of the expressions is found in the name. -/
def Matches (exprs : List String) (name : String) : Prop :=
  ∃ e ∈ exprs, cfg.regexSearch e name = true

/-- The settings choose the name: an empty include setting includes all. -/
def Chooses (name : String) : Prop :=
  (cfg.includes d = [] ∨ cfg.Matches (cfg.includes d) name) ∧ ¬ cfg.Matches (cfg.excludes d) name

/-- An operation of the domain whose name the settings choose. -/
def Chosen (op : ℤ) : Prop :=
  ∃ name, (op, some name) ∈ d.info.items ∧ name ≠ "none" ∧ cfg.Chooses d name

/-- Exactly the chosen operations are traced. -/
def TracesChosen : Prop :=
  ∃ ops, cfg.traced d = some ops ∧ ∀ op, op ∈ ops ↔ cfg.Chosen d op

end Configuration

/-! ## The settings of a domain -/

section Settings

variable {names : TracingNames} {info : TracingInfo} {infos : List TracingInfo}
  {domainName : String} {kind k i n : ℕ}

theorem lookup_addOperationSettings :
    (addOperationSettings domainName kind info).lookup k =
      if k = kind ∧ domainName.toLower ∉ skipDomains ∧ info.items ≠ [] then
        some (operationOptions domainName)
      else none := by
  unfold addOperationSettings
  by_cases hskip : domainName.toLower ∈ skipDomains
  · rw [if_pos hskip, if_neg fun h => h.2.1 hskip]
    rfl
  · rw [if_neg hskip]
    by_cases hitems : info.items = []
    · rw [if_pos (List.isEmpty_iff.mpr hitems), if_neg fun h => h.2.2 hitems]
      rfl
    · rw [if_neg fun h => hitems (List.isEmpty_iff.mp h)]
      by_cases hk : k = kind
      · rw [if_pos ⟨hk, hskip, hitems⟩, hk, List.lookup_cons_self]
      · rw [if_neg fun h => hk h.1, List.lookup_cons, beq_eq_false_iff_ne.mpr hk]
        rfl

theorem lookup_addInfos_of_lt (h : k < n) : (addInfos n infos).lookup k = none := by
  induction infos generalizing n with
  | nil => rfl
  | cons info infos ih =>
    rw [addInfos, List.lookup_append, lookup_addOperationSettings,
      if_neg fun hand => absurd hand.1 (by omega), ih (by omega)]
    rfl

theorem lookup_addInfos (h : infos[i]? = some info) :
    (addInfos n infos).lookup (n + i) =
      if info.name.toLower ∉ skipDomains ∧ info.items ≠ [] then
        some (operationOptions info.name)
      else none := by
  induction infos generalizing n i with
  | nil => cases h
  | cons first infos ih =>
    rw [addInfos, List.lookup_append, lookup_addOperationSettings]
    cases i with
    | zero =>
      cases h
      rw [Nat.add_zero, lookup_addInfos_of_lt (Nat.lt_succ_self n), Option.or_none]
      exact if_congr (and_iff_right rfl) rfl rfl
    | succ i =>
      rw [if_neg fun hand => absurd hand.1 (by omega), Option.none_or, Nat.add_comm i 1,
        ← Nat.add_assoc]
      exact ih h

theorem lookup_addMarkerApi_of_ne (h : k ≠ names.markerCoreApi) :
    (addMarkerApi names).lookup k = none := by
  unfold addMarkerApi
  cases names.infos[names.markerCoreApi]? with
  | none => rfl
  | some info => exact lookup_addOperationSettings.trans (if_neg fun hand => h hand.1)

theorem lookup_addMarkerApi (h : names.infos[names.markerCoreApi]? = some info) :
    (addMarkerApi names).lookup names.markerCoreApi =
      if info.items = [] then none else some (operationOptions "MARKER_API") := by
  have hkept : "MARKER_API".toLower ∉ skipDomains := by decide +kernel
  unfold addMarkerApi
  rw [h]
  dsimp only
  rw [lookup_addOperationSettings]
  by_cases hitems : info.items = []
  · rw [if_neg fun hand => hand.2.2 hitems, if_pos hitems]
  · rw [if_pos ⟨rfl, hkept, hitems⟩, if_neg hitems]

/-- A domain the tool asks about has its settings exactly if it has operations at all. -/
theorem lookup_callbackOperationOptionNames (d : CallbackDomain names) :
    (callbackOperationOptionNames names).lookup d.kind =
      if d.info.items = [] then none else some (operationOptions d.settingName) := by
  have hat := d.at_kind
  have hinfos := lookup_addInfos (n := 0) hat
  rw [Nat.zero_add] at hinfos
  rw [callbackOperationOptionNames, List.lookup_append, hinfos, CallbackDomain.settingName]
  by_cases hmarker : d.kind = names.markerCoreApi
  · rw [hmarker] at hat
    rw [hmarker, lookup_addMarkerApi hat, if_pos rfl]
    by_cases hitems : d.info.items = []
    · rw [if_pos hitems, if_neg fun h => h.2 hitems]
      rfl
    · rw [if_neg hitems]
      rfl
  · rw [if_neg hmarker, lookup_addMarkerApi_of_ne hmarker, Option.none_or]
    by_cases hitems : d.info.items = []
    · rw [if_pos hitems, if_neg fun h => h.2 hitems]
    · rw [if_neg hitems, if_pos ⟨d.kept.resolve_left hmarker, hitems⟩]

end Settings

/-! ## The three sets -/

section Sets

variable {cfg : Configuration} {info : TracingInfo} {optname : String} {op : ℤ}

theorem mem_operations :
    op ∈ info.operations ↔ ∃ name, (op, some name) ∈ info.items ∧ name ≠ "none" := by
  rw [TracingInfo.operations, List.mem_toFinset, List.mem_map]
  constructor
  · intro h
    obtain ⟨⟨_, name⟩, hitem, rfl⟩ := h
    obtain ⟨hmem, hnamed⟩ := List.mem_filter.mp hitem
    cases name with
    | none => cases hnamed
    | some name => exact ⟨name, hmem, bne_iff_ne.mp hnamed⟩
  · intro h
    obtain ⟨name, hmem, hne⟩ := h
    exact ⟨(op, some name), List.mem_filter.mpr ⟨hmem, bne_iff_ne.mpr hne⟩, rfl⟩

theorem getOperationsImpl_empty : cfg.getOperationsImpl info "" = some info.operations := by
  rw [Configuration.getOperationsImpl, if_pos (by decide +kernel)]
  refine congrArg some (Finset.ext fun op => ?_)
  rw [mem_gather, TracingInfo.operations, List.mem_toFinset, List.mem_map]
  constructor
  · intro h
    obtain ⟨item, hitem, hnamed, rfl⟩ := h.resolve_left (Finset.notMem_empty op)
    exact ⟨item, List.mem_filter.mpr ⟨hitem, hnamed⟩, rfl⟩
  · intro h
    obtain ⟨item, hitem, rfl⟩ := h
    obtain ⟨hmem, hnamed⟩ := List.mem_filter.mp hitem
    exact Or.inr ⟨item, hmem, hnamed, rfl⟩

/-- The operations in which an expression of a setting is found, those named `none` with the
others. -/
theorem getOperationsImpl_setting (info : TracingInfo) (hne : optname.isEmpty = false)
    (hvalue : cfg.getSettingValue optname = some (cfg.values optname)) :
    ∃ found, cfg.getOperationsImpl info optname = some found ∧
      ∀ op, op ∈ found ↔
        ∃ name, (op, some name) ∈ info.items ∧ cfg.Matches (cfg.expressions optname) name := by
  unfold Configuration.getOperationsImpl Configuration.expressions
  rw [if_neg (ne_true_of_eq_false hne), hvalue]
  dsimp only
  by_cases hval : (cfg.values optname).isEmpty = true
  · rw [if_pos hval, if_pos hval]
    refine ⟨∅, rfl, fun op => iff_of_false (Finset.notMem_empty op) fun h => ?_⟩
    obtain ⟨name, -, e, he, -⟩ := h
    cases he
  · rw [if_neg hval, if_neg hval]
    refine ⟨_, rfl, fun op => ?_⟩
    rw [mem_gatherAll]
    constructor
    · intro h
      obtain ⟨e, he, ⟨_, name⟩, hitem, hfound, rfl⟩ := h.resolve_left (Finset.notMem_empty op)
      cases name with
      | none => cases hfound
      | some name => exact ⟨name, hitem, e, he, hfound⟩
    · intro h
      obtain ⟨name, hitem, e, he, hfound⟩ := h
      exact Or.inr ⟨e, he, (op, some name), hitem, hfound, rfl⟩

/-- What `get_operations_impl` returns sorted. -/
def remaining (complete included excluded : Finset ℤ) : Finset ℤ :=
  (if included = ∅ then complete else included) \ excluded

theorem toFinset_combineOperations (complete included excluded : Finset ℤ) :
    (combineOperations complete included excluded).toFinset =
      remaining complete included excluded := by
  unfold combineOperations remaining
  by_cases h : included = ∅ ∧ excluded = ∅
  · rw [if_pos h, if_pos h.1, h.2, Finset.sdiff_empty, Finset.sort_toFinset]
  · rw [if_neg h, Finset.sort_toFinset]

/-- Nothing remaining stands for everything. -/
theorem mem_tracedFor_combineOperations {included excluded : Finset ℤ} :
    op ∈ tracedFor info (combineOperations info.operations included excluded) ↔
      op ∈ if remaining info.operations included excluded = ∅ then info.operations
        else remaining info.operations included excluded := by
  rw [← toFinset_combineOperations, tracedFor]
  exact iff_of_eq (congrArg (op ∈ ·) (if_congr (List.toFinset_eq_empty_iff _).symm rfl rfl))

end Sets

/-! ## The operations traced -/

section Traced

variable {complete included excluded : Finset ℤ} {includesAll : Prop} {chosen : ℤ → Prop} {op : ℤ}

theorem mem_remaining_of_empty (h : included = ∅) :
    op ∈ remaining complete included excluded ↔ op ∈ complete ∧ op ∉ excluded := by
  rw [remaining, if_pos h, Finset.mem_sdiff]

theorem mem_remaining_of_ne_empty (h : included ≠ ∅) :
    op ∈ remaining complete included excluded ↔ op ∈ included ∧ op ∉ excluded := by
  rw [remaining, if_neg h, Finset.mem_sdiff]

theorem mem_remaining_of_included (h : op ∈ included) (hexcluded : op ∉ excluded) :
    op ∈ remaining complete included excluded :=
  (mem_remaining_of_ne_empty (Finset.ne_empty_of_mem h)).mpr ⟨h, hexcluded⟩

/-- What is chosen remains. -/
theorem mem_remaining_of_chosen (hall : includesAll → included = ∅)
    (hchosen : ∀ op, chosen op ↔
      op ∈ complete ∧ (includesAll ∨ op ∈ included) ∧ op ∉ excluded) (hop : chosen op) :
    op ∈ remaining complete included excluded := by
  obtain ⟨hcomplete, hincluded, hexcluded⟩ := (hchosen op).mp hop
  by_cases hempty : included = ∅
  · exact (mem_remaining_of_empty hempty).mpr ⟨hcomplete, hexcluded⟩
  · have hmem := hincluded.resolve_left fun h => hempty (hall h)
    exact mem_remaining_of_included hmem hexcluded

/-- What remains is chosen, if anything is and all that is included are operations or excluded. -/
theorem chosen_of_mem_remaining (hchosen : ∀ op, chosen op ↔
      op ∈ complete ∧ (includesAll ∨ op ∈ included) ∧ op ∉ excluded)
    (hsome : complete = ∅ ∨ ∃ op, chosen op)
    (hothers : ∀ op ∈ included, op ∉ complete → op ∈ excluded)
    (hop : op ∈ remaining complete included excluded) : chosen op := by
  by_cases hempty : included = ∅
  · obtain ⟨hcomplete, hexcluded⟩ := (mem_remaining_of_empty hempty).mp hop
    obtain ⟨first, hfirst⟩ := hsome.resolve_left (Finset.ne_empty_of_mem hcomplete)
    have hincludes := ((hchosen first).mp hfirst).2.1
    rw [hempty] at hincludes
    have hincludesAll := hincludes.resolve_right (Finset.notMem_empty first)
    exact (hchosen op).mpr ⟨hcomplete, Or.inl hincludesAll, hexcluded⟩
  · obtain ⟨hincluded, hexcluded⟩ := (mem_remaining_of_ne_empty hempty).mp hop
    have hcomplete : op ∈ complete := by
      by_contra hnot
      exact hexcluded (hothers op hincluded hnot)
    exact (hchosen op).mpr ⟨hcomplete, Or.inr hincluded, hexcluded⟩

/-- What remains is traced where something does, and everything where nothing does. -/
theorem combined_eq_chosen_iff (hall : includesAll → included = ∅)
    (hchosen : ∀ op, chosen op ↔
      op ∈ complete ∧ (includesAll ∨ op ∈ included) ∧ op ∉ excluded) :
    (∀ op, (op ∈ if remaining complete included excluded = ∅ then complete
        else remaining complete included excluded) ↔ chosen op) ↔
      (complete = ∅ ∨ ∃ op, chosen op) ∧ ∀ op ∈ included, op ∉ complete → op ∈ excluded := by
  by_cases hnothing : remaining complete included excluded = ∅
  · rw [if_pos hnothing]
    have hnone : ∀ op, ¬ chosen op := by
      intro op hop
      exact Finset.eq_empty_iff_forall_notMem.mp hnothing op
        (mem_remaining_of_chosen hall hchosen hop)
    constructor
    · intro h
      have hcomplete : complete = ∅ :=
        Finset.eq_empty_of_forall_notMem fun op hop => hnone op ((h op).mp hop)
      refine ⟨Or.inl hcomplete, fun op hop _ => ?_⟩
      by_contra hexcluded
      exact Finset.eq_empty_iff_forall_notMem.mp hnothing op
        (mem_remaining_of_included hop hexcluded)
    · intro h op
      have hcomplete := h.1.resolve_right fun hsome => hsome.elim hnone
      rw [hcomplete]
      exact iff_of_false (Finset.notMem_empty op) (hnone op)
  · rw [if_neg hnothing]
    constructor
    · intro h
      obtain ⟨op, hop⟩ := Finset.nonempty_iff_ne_empty.mpr hnothing
      refine ⟨Or.inr ⟨op, (h op).mp hop⟩, fun other hother hoperation => ?_⟩
      by_contra hexcluded
      have hmem : other ∈ remaining complete included excluded :=
        mem_remaining_of_included hother hexcluded
      exact hoperation ((hchosen other).mp ((h other).mp hmem)).1
    · intro h op
      exact ⟨chosen_of_mem_remaining hchosen h.1 h.2, mem_remaining_of_chosen hall hchosen⟩

end Traced

section Law

variable {cfg : Configuration} {d : CallbackDomain cfg.names} {op : ℤ} {name name' : String}

theorem getSettingValue_of_lookup {kind : ℕ} {o : OperationOptions} {optname : String}
    (h : (callbackOperationOptionNames cfg.names).lookup kind = some o)
    (hoptname : optname ∈ o.settings) :
    cfg.getSettingValue optname = some (cfg.values optname) := by
  obtain ⟨before, after, hentries, -⟩ := List.lookup_eq_some_iff.mp h
  have hmem : (kind, o) ∈ callbackOperationOptionNames cfg.names := by
    rw [hentries]
    exact List.mem_append_right _ List.mem_cons_self
  exact if_pos (List.any_eq_true.mpr ⟨_, hmem, List.elem_iff.mpr hoptname⟩)

theorem isEmpty_operationOptions (domainName : String) :
    (operationOptions domainName).operationsInclude.isEmpty = false ∧
      (operationOptions domainName).operationsExclude.isEmpty = false := by
  have hprefix (rest : String) : ("ROCPROFSYS_ROCM_" ++ rest).isEmpty = false := by
    rw [← Bool.not_eq_true, String.isEmpty_iff, String.append_eq_empty_iff]
    exact fun h => absurd h.1 (by decide +kernel)
  constructor
  · show ("ROCPROFSYS_ROCM_" ++ domainName ++ "_OPERATIONS").isEmpty = false
    rw [String.append_assoc]
    exact hprefix _
  · show ("ROCPROFSYS_ROCM_" ++ domainName ++ "_OPERATIONS_EXCLUDE").isEmpty = false
    rw [String.append_assoc]
    exact hprefix _

/-- An operation has one name. -/
theorem name_unique (h : (op, some name) ∈ d.info.items) (h' : (op, some name') ∈ d.info.items) :
    name = name' :=
  Option.some.inj (congrArg Prod.snd (List.inj_on_of_nodup_map d.info.distinct h h' rfl))

/-- What is traced unless the tool aborts. -/
theorem traced_eq (hitems : d.info.items ≠ []) :
    ∃ included excluded : Finset ℤ,
      cfg.traced d =
        some (tracedFor d.info (combineOperations d.info.operations included excluded)) ∧
      (∀ op, op ∈ included ↔
        ∃ name, (op, some name) ∈ d.info.items ∧ cfg.Matches (cfg.includes d) name) ∧
      ∀ op, op ∈ excluded ↔
        ∃ name, (op, some name) ∈ d.info.items ∧ cfg.Matches (cfg.excludes d) name := by
  have hlookup := lookup_callbackOperationOptionNames d
  rw [if_neg hitems] at hlookup
  obtain ⟨hinclude, hexclude⟩ := isEmpty_operationOptions d.settingName
  have hmade {optname : String} (h : optname ∈ (operationOptions d.settingName).settings) :=
    getSettingValue_of_lookup hlookup h
  obtain ⟨included, hincluded, hmemIncluded⟩ := getOperationsImpl_setting d.info hinclude
    (hmade List.mem_cons_self)
  obtain ⟨excluded, hexcluded, hmemExcluded⟩ := getOperationsImpl_setting d.info hexclude
    (hmade (List.mem_cons_of_mem _ List.mem_cons_self))
  refine ⟨included, excluded, ?_, hmemIncluded, hmemExcluded⟩
  unfold Configuration.traced getOperations
  rw [hlookup, d.at_kind]
  dsimp only
  rw [getOperationsImpl_empty, hincluded, hexcluded]
  rfl

theorem traced_of_no_items (hitems : d.info.items = []) : cfg.traced d = none := by
  have hlookup := lookup_callbackOperationOptionNames d
  rw [if_pos hitems] at hlookup
  unfold Configuration.traced getOperations
  rw [hlookup]
  rfl

section Found

variable {included excluded : Finset ℤ}

/-- An operation is chosen by the sets of those found. -/
theorem chosen_iff_mem
    (hincluded : ∀ op, op ∈ included ↔
      ∃ name, (op, some name) ∈ d.info.items ∧ cfg.Matches (cfg.includes d) name)
    (hexcluded : ∀ op, op ∈ excluded ↔
      ∃ name, (op, some name) ∈ d.info.items ∧ cfg.Matches (cfg.excludes d) name) (op : ℤ) :
    cfg.Chosen d op ↔
      op ∈ d.info.operations ∧ (cfg.includes d = [] ∨ op ∈ included) ∧ op ∉ excluded := by
  rw [mem_operations, hincluded, hexcluded]
  constructor
  · intro h
    obtain ⟨name, hname, hne, hincludes, hexcludes⟩ := h
    refine ⟨⟨name, hname, hne⟩, hincludes.imp_right fun h => ⟨name, hname, h⟩, fun h => ?_⟩
    obtain ⟨name', hname', hmatches⟩ := h
    rw [← name_unique hname hname'] at hmatches
    exact hexcludes hmatches
  · intro h
    obtain ⟨⟨name, hname, hne⟩, hincludes, hexcludes⟩ := h
    refine ⟨name, hname, hne, hincludes.imp_right fun h => ?_, fun h => ?_⟩
    · obtain ⟨name', hname', hmatches⟩ := h
      rw [name_unique hname hname']
      exact hmatches
    · exact hexcludes ⟨name, hname, h⟩

/-- What is found and is no operation is named `none`. -/
theorem others_excluded_iff
    (hincluded : ∀ op, op ∈ included ↔
      ∃ name, (op, some name) ∈ d.info.items ∧ cfg.Matches (cfg.includes d) name)
    (hexcluded : ∀ op, op ∈ excluded ↔
      ∃ name, (op, some name) ∈ d.info.items ∧ cfg.Matches (cfg.excludes d) name) :
    (∀ op ∈ included, op ∉ d.info.operations → op ∈ excluded) ↔
      ∀ op, (op, some "none") ∈ d.info.items → cfg.Matches (cfg.includes d) "none" →
        cfg.Matches (cfg.excludes d) "none" := by
  constructor
  · intro h op hnone hincludes
    have hoperation : op ∉ d.info.operations := by
      intro hop
      obtain ⟨name, hname, hne⟩ := mem_operations.mp hop
      exact hne (name_unique hname hnone)
    have hop := h op ((hincluded op).mpr ⟨_, hnone, hincludes⟩) hoperation
    obtain ⟨name, hname, hmatches⟩ := (hexcluded op).mp hop
    rw [name_unique hname hnone] at hmatches
    exact hmatches
  · intro h op hop hoperation
    obtain ⟨name, hname, hmatches⟩ := (hincluded op).mp hop
    have hnone : name = "none" := by
      by_contra hne
      exact hoperation (mem_operations.mpr ⟨name, hname, hne⟩)
    rw [hnone] at hname hmatches
    exact (hexcluded op).mpr ⟨_, hname, h op hname hmatches⟩

end Found

/-- Exactly the chosen operations are traced if there are operations of which some is chosen, or
nothing but items named `none`, and if these are not included alone. -/
theorem tracesChosen_iff (cfg : Configuration) (d : CallbackDomain cfg.names) :
    cfg.TracesChosen d ↔
      d.info.items ≠ [] ∧ (d.info.operations = ∅ ∨ ∃ op, cfg.Chosen d op) ∧
        ∀ op, (op, some "none") ∈ d.info.items → cfg.Matches (cfg.includes d) "none" →
          cfg.Matches (cfg.excludes d) "none" := by
  by_cases hitems : d.info.items = []
  · refine iff_of_false (fun h => ?_) fun h => h.1 hitems
    obtain ⟨ops, hops, -⟩ := h
    rw [traced_of_no_items hitems] at hops
    cases hops
  obtain ⟨included, excluded, htraced, hincluded, hexcluded⟩ := traced_eq (d := d) hitems
  have hall : cfg.includes d = [] → included = ∅ := by
    intro h
    refine Finset.eq_empty_of_forall_notMem fun op hop => ?_
    obtain ⟨name, -, e, he, -⟩ := (hincluded op).mp hop
    rw [h] at he
    cases he
  rw [and_iff_right hitems, ← others_excluded_iff hincluded hexcluded,
    ← combined_eq_chosen_iff hall (chosen_iff_mem hincluded hexcluded),
    Configuration.TracesChosen, htraced]
  constructor
  · intro h op
    obtain ⟨ops, hops, hmem⟩ := h
    rw [← mem_tracedFor_combineOperations, Option.some.inj hops]
    exact hmem op
  · intro h
    exact ⟨_, rfl, fun op => mem_tracedFor_combineOperations.trans (h op)⟩

end Law

/-- One domain with one operation, and an include setting for another. -/
def hipMalloc : TracingInfo := ⟨"HIP_RUNTIME_API", [(0, some "hipMalloc")], List.nodup_singleton _⟩

def includeHipFree : Configuration where
  names := ⟨[hipMalloc], 1⟩
  values optname := if optname = "ROCPROFSYS_ROCM_HIP_RUNTIME_API_OPERATIONS" then "hipFree" else ""
  delimit val := [val]
  regexSearch e name := decide (e.toLower.toList <:+: name.toLower.toList)

def hipRuntimeApi : CallbackDomain includeHipFree.names :=
  ⟨0, hipMalloc, rfl, Or.inr (by decide +kernel)⟩

/-- The include setting matches nothing, and everything is traced. -/
theorem not_tracesChosen_includeHipFree : ¬ includeHipFree.TracesChosen hipRuntimeApi := by
  intro h
  obtain ⟨ops, hops, hmem⟩ := h
  have htraced : includeHipFree.traced hipRuntimeApi = some {0} := by decide +kernel
  have hzero : (0 : ℤ) ∈ ops := by
    rw [← Option.some.inj (htraced.symm.trans hops)]
    exact Finset.mem_singleton_self 0
  obtain ⟨name, hname, -, hincludes, -⟩ := (hmem 0).mp hzero
  have hexpressions : includeHipFree.includes hipRuntimeApi = ["hipFree"] := by decide +kernel
  rw [hexpressions] at hincludes
  obtain ⟨e, he, hfound⟩ := hincludes.resolve_left (List.cons_ne_nil _ _)
  cases List.mem_singleton.mp he
  cases List.mem_singleton.mp hname
  revert hfound
  decide +kernel

end Sdk
end Rocprofsys
