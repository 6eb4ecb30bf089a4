import Rocprofsys.Sampling.TimerData

namespace Rocprofsys
namespace Sampling

open Base

variable {Frame Entry Metrics : Type}

/-! ## Loading what was offloaded -/

section Load

variable {offloads : List (Int × List (Bundle Frame Metrics))} {threadIdx : Int}

theorem sort_insert_last {s : Finset Nat} {n : Nat} (h : ∀ m ∈ s, m < n) :
    (insert n s).sort = s.sort ++ [n] := by
  have hnotin : n ∉ s.sort := fun hmem => Nat.lt_irrefl n (h n ((Finset.mem_sort _).mp hmem))
  have hnodup : (s.sort ++ [n]).Nodup := by
    rw [List.nodup_append_comm]
    exact List.nodup_cons.mpr ⟨hnotin, Finset.sort_nodup _ _⟩
  have hset : insert n s = (s.sort ++ [n]).toFinset := by
    rw [List.toFinset_append, Finset.sort_toFinset, Finset.union_comm]
    rfl
  rw [hset]
  refine (List.toFinset_sort (· ≤ ·) hnodup).mpr (List.pairwise_append.mpr ?_)
  refine ⟨Finset.pairwise_sort _ _, List.pairwise_singleton _ _, fun m hm m' hm' => ?_⟩
  rw [List.mem_singleton.mp hm']
  exact (h m ((Finset.mem_sort _).mp hm)).le

/-- The positions of every thread are those of records. -/
def OffloadFile.Sound (file : OffloadFile Frame Metrics) : Prop :=
  ∀ seq, ∀ position ∈ file.seqData seq, position < file.records.length

variable {file : OffloadFile Frame Metrics}

theorem seqData_offloadBuffer_self (seq : Int) (buffer : List (Bundle Frame Metrics)) :
    (file.offloadBuffer seq buffer).seqData seq =
      insert file.records.length (file.seqData seq) := Function.update_self _ _ _

theorem seqData_offloadBuffer_of_ne {seq seq' : Int} (h : seq' ≠ seq)
    (buffer : List (Bundle Frame Metrics)) :
    (file.offloadBuffer seq buffer).seqData seq' = file.seqData seq' :=
  Function.update_of_ne h _ _

theorem OffloadFile.Sound.offloadBuffer (h : file.Sound) (seq : Int)
    (buffer : List (Bundle Frame Metrics)) : (file.offloadBuffer seq buffer).Sound := by
  intro seq' position hposition
  show position < (file.records ++ [(seq, buffer)]).length
  rw [List.length_append, List.length_singleton]
  by_cases hseq : seq' = seq
  · subst hseq
    rw [seqData_offloadBuffer_self, Finset.mem_insert] at hposition
    rcases hposition with rfl | hold
    · exact Nat.lt_succ_self _
    · exact Nat.lt_succ_of_lt (h _ _ hold)
  · rw [seqData_offloadBuffer_of_ne hseq] at hposition
    exact Nat.lt_succ_of_lt (h _ _ hposition)

/-- An offloaded buffer is loaded behind those before it, by its own thread. -/
theorem loadOffloadBuffer_offloadBuffer (h : file.Sound) (seq : Int)
    (buffer : List (Bundle Frame Metrics)) :
    (file.offloadBuffer seq buffer).loadOffloadBuffer threadIdx =
      file.loadOffloadBuffer threadIdx ++ if seq = threadIdx then [buffer] else [] := by
  have hold : ∀ position ∈ (file.seqData threadIdx).sort,
      (file.offloadBuffer seq buffer).loadAt threadIdx position =
        file.loadAt threadIdx position := by
    intro position hposition
    have hlt := h _ _ ((Finset.mem_sort _).mp hposition)
    rw [OffloadFile.loadAt, OffloadFile.loadAt, OffloadFile.offloadBuffer,
      List.getElem?_append_left hlt]
  by_cases hseq : seq = threadIdx
  · subst hseq
    have hsort : ((file.offloadBuffer seq buffer).seqData seq).sort =
        (file.seqData seq).sort ++ [file.records.length] := by
      rw [seqData_offloadBuffer_self]
      exact sort_insert_last (h seq)
    have hnew : (file.offloadBuffer seq buffer).loadAt seq file.records.length = [buffer] := by
      rw [OffloadFile.loadAt, OffloadFile.offloadBuffer, List.getElem?_concat_length]
      exact if_neg (not_not.mpr rfl)
    rw [OffloadFile.loadOffloadBuffer, hsort, List.flatMap_append, List.flatMap_congr hold,
      List.flatMap_singleton, hnew, if_pos rfl]
    rfl
  · rw [OffloadFile.loadOffloadBuffer, seqData_offloadBuffer_of_ne (Ne.symm hseq),
      List.flatMap_congr hold, if_neg hseq, List.append_nil]
    rfl

/-- A thread gets its own buffers back, in the order in which they were offloaded. -/
theorem loadOffloadBuffer_offloadAll :
    (OffloadFile.offloadAll offloads).loadOffloadBuffer threadIdx =
      (offloads.filter fun offload => offload.1 = threadIdx).map Prod.snd := by
  have hboth : (OffloadFile.offloadAll offloads).Sound ∧
      (OffloadFile.offloadAll offloads).loadOffloadBuffer threadIdx =
        (offloads.filter fun offload => offload.1 = threadIdx).map Prod.snd := by
    induction offloads using List.reverseRecOn with
    | nil =>
      refine ⟨fun seq position hposition => absurd hposition (Finset.notMem_empty _), ?_⟩
      rw [OffloadFile.loadOffloadBuffer]
      show (Finset.sort (∅ : Finset Nat)).flatMap _ = _
      rw [Finset.sort_empty]
      rfl
    | append_singleton offloads offload ih =>
      obtain ⟨hsound, hload⟩ := ih
      rw [OffloadFile.offloadAll, List.foldl_append]
      refine ⟨hsound.offloadBuffer _ _, ?_⟩
      show ((OffloadFile.offloadAll offloads).offloadBuffer _ _).loadOffloadBuffer threadIdx = _
      rw [loadOffloadBuffer_offloadBuffer hsound, hload, List.filter_append, List.map_append]
      congr 1
      by_cases hseq : offload.1 = threadIdx
      · rw [if_pos hseq, List.filter_singleton, decide_eq_true hseq]
        rfl
      · rw [if_neg hseq, List.filter_singleton, decide_eq_false hseq]
        rfl
  exact hboth.2

end Load

/-! ## The samples that count -/

section Intervals

variable {lifetime : Option (UInt64 × UInt64)} {tid : Int}

/-- The samples of which there is an interval. -/
def isTimerSample (lifetime : Option (UInt64 × UInt64)) (tid : Int)
    (bundle : Bundle Frame Metrics) : Bool :=
  isKept lifetime bundle && ((bundle.backtrace.map fun frames => !frames.isEmpty).getD false) &&
    ((bundle.timestamp.map fun ts => ts.tid == tid).getD false)

def timerSamples (lifetime : Option (UInt64 × UInt64)) (tid : Int)
    (samples : List (Bundle Frame Metrics)) : List (Bundle Frame Metrics) :=
  samples.filter (isTimerSample lifetime tid)

def time (bundle : Bundle Frame Metrics) : UInt64 :=
  (bundle.timestamp.map BacktraceTimestamp.real).getD 0

/-- The interval of a sample. -/
def intervalOf (env : Environment Frame Entry Metrics) (tid : Int)
    (last : UInt64 × Option Metrics) (bundle : Bundle Frame Metrics) :
    TimerSamplingData Entry Metrics where
  tid := tid
  beg := last.1
  stop := time bundle
  stack := env.filterAndPatch (bundle.backtrace.getD [])
  metrics := metricsSince env last.2 bundle.metrics

variable {env : Environment Frame Entry Metrics} {last : UInt64 × Option Metrics}
  {bundle : Bundle Frame Metrics} {data : List (Bundle Frame Metrics)}

theorem timerIntervals_cons_of_sample (h : isTimerSample lifetime tid bundle = true) :
    timerIntervals env tid last (bundle :: data) =
      intervalOf env tid last bundle ::
        timerIntervals env tid (time bundle, bundle.metrics) data := by
  rw [isTimerSample, Bool.and_eq_true, Bool.and_eq_true] at h
  obtain ⟨⟨-, hframes⟩, htid⟩ := h
  cases hbacktrace : bundle.backtrace with
  | none =>
    rw [hbacktrace] at hframes
    cases hframes
  | some frames =>
    cases htimestamp : bundle.timestamp with
    | none =>
      rw [htimestamp] at htid
      cases htid
    | some ts =>
      rw [hbacktrace, Option.map_some, Option.getD_some, Bool.not_eq_true'] at hframes
      rw [htimestamp, Option.map_some, Option.getD_some, beq_iff_eq] at htid
      have htaken : ¬(frames.isEmpty || ts.tid != tid) = true := by
        rw [hframes, htid, bne_self_eq_false]
        decide
      rw [timerIntervals, hbacktrace, htimestamp]
      show (if (frames.isEmpty || ts.tid != tid) = true then _ else _) = _
      rw [if_neg htaken, intervalOf, time, hbacktrace, htimestamp, ← htid]
      rfl

theorem timerIntervals_cons_of_kept (hkept : isKept lifetime bundle = true)
    (h : isTimerSample lifetime tid bundle = false) :
    timerIntervals env tid last (bundle :: data) = timerIntervals env tid last data := by
  rw [isTimerSample, hkept, Bool.true_and] at h
  rw [timerIntervals]
  cases hbacktrace : bundle.backtrace with
  | none => rfl
  | some frames =>
    cases htimestamp : bundle.timestamp with
    | none => rfl
    | some ts =>
      rw [hbacktrace, htimestamp] at h
      refine if_pos ?_
      rw [Bool.or_eq_true, bne_iff_ne]
      cases hempty : frames.isEmpty with
      | true => exact .inl rfl
      | false =>
        have htid : (ts.tid == tid) = false := by
          have hshort : (!frames.isEmpty && (ts.tid == tid)) = false := h
          rwa [hempty, Bool.not_false, Bool.true_and] at hshort
        exact .inr (beq_eq_false_iff_ne.mp htid)

/-- Only the samples that count make a difference. -/
theorem timerIntervals_filter (samples : List (Bundle Frame Metrics)) :
    timerIntervals env tid last (samples.filter (isKept lifetime)) =
      timerIntervals env tid last (timerSamples lifetime tid samples) := by
  induction samples generalizing last with
  | nil => rfl
  | cons bundle samples ih =>
    rw [timerSamples] at ih ⊢
    by_cases hsample : isTimerSample lifetime tid bundle = true
    · have hkept : isKept lifetime bundle = true := by
        rw [isTimerSample, Bool.and_eq_true, Bool.and_eq_true] at hsample
        exact hsample.1.1
      rw [List.filter_cons_of_pos hkept, List.filter_cons_of_pos hsample,
        timerIntervals_cons_of_sample hsample, timerIntervals_cons_of_sample hsample]
      rw [ih]
    · rw [List.filter_cons_of_neg hsample]
      by_cases hkept : isKept lifetime bundle = true
      · rw [List.filter_cons_of_pos hkept, timerIntervals_cons_of_kept hkept
          (Bool.eq_false_iff.mpr hsample)]
        exact ih
      · rw [List.filter_cons_of_neg hkept]
        exact ih

/-- Dropping a single useless sample drops no interval. -/
theorem timerSamples_rawData (file : OffloadFile Frame Metrics)
    (inMemory : List (Bundle Frame Metrics)) :
    timerSamples lifetime tid (rawData file tid inMemory) =
      timerSamples lifetime tid (inMemory ++ (file.loadOffloadBuffer tid).flatten) := by
  rw [rawData]
  generalize inMemory ++ (file.loadOffloadBuffer tid).flatten = raw
  show timerSamples lifetime tid (if raw.length = 1 ∧ _ then _ else _) = _
  split
  · rename_i huseless
    obtain ⟨hlength, hsize⟩ := huseless
    obtain ⟨bundle, rfl⟩ := List.length_eq_one_iff.mp hlength
    have hnot : isTimerSample lifetime tid bundle = false := by
      rw [Bool.eq_false_iff]
      intro hsample
      rw [isTimerSample, Bool.and_eq_true, Bool.and_eq_true] at hsample
      obtain ⟨⟨-, hframes⟩, htid⟩ := hsample
      have hbacktrace : bundle.backtrace.isSome := by
        cases hnone : bundle.backtrace with
        | none => rw [hnone] at hframes; cases hframes
        | some frames => rfl
      have htimestamp : bundle.timestamp.isSome := by
        cases hnone : bundle.timestamp with
        | none => rw [hnone] at htid; cases htid
        | some ts => rfl
      have htwo := bundle.two_le_size hbacktrace htimestamp
      have hone : bundle.size ≤ 1 := hsize
      omega
    rw [timerSamples, timerSamples, List.filter_singleton, hnot]
    rfl
  · rfl

/-! ## Tilings -/

/-- The intervals run from a time to the time of each sample in turn, forwards. -/
structure Tiles (start : UInt64) (times : List UInt64)
    (out : List (TimerSamplingData Entry Metrics)) : Prop where
  beg : out.map TimerSamplingData.beg = (start :: times).dropLast
  stop : out.map TimerSamplingData.stop = times
  forward : ∀ interval ∈ out, interval.beg ≤ interval.stop

/-- Rising times from a start on. -/
def Chronological (start : UInt64) (times : List UInt64) : Prop :=
  (start :: times).Pairwise (· < ·)

theorem tiles_timerIntervals (hsamples : ∀ bundle ∈ data, isTimerSample lifetime tid bundle = true)
    (h : Chronological last.1 (data.map time)) :
    Tiles last.1 (data.map time) (timerIntervals env tid last data) := by
  induction data generalizing last with
  | nil => exact ⟨rfl, rfl, fun _ h => absurd h List.not_mem_nil⟩
  | cons bundle data ih =>
    rw [List.forall_mem_cons] at hsamples
    obtain ⟨hlast, hrest⟩ := List.pairwise_cons.mp h
    obtain ⟨hbeg, hstop, hforward⟩ := @ih (time bundle, bundle.metrics) hsamples.2 hrest
    rw [timerIntervals_cons_of_sample hsamples.1]
    refine ⟨?_, ?_, List.forall_mem_cons.mpr ⟨?_, hforward⟩⟩
    · rw [List.map_cons, hbeg]
      rfl
    · rw [List.map_cons, hstop]
      rfl
    · exact UInt64.le_of_lt (hlast _ List.mem_cons_self)

theorem pairwise_beg {start : UInt64} {times : List UInt64}
    {out : List (TimerSamplingData Entry Metrics)} (htiles : Tiles start times out)
    (h : Chronological start times) :
    out.Pairwise fun a b => a.beg.toNat < b.beg.toNat := by
  have hbegs : (out.map TimerSamplingData.beg).Pairwise (· < ·) := by
    rw [htiles.beg]
    exact h.sublist (List.dropLast_sublist _)
  exact (List.pairwise_map.mp hbegs).imp fun hlt => UInt64.lt_iff_toNat_lt.mp hlt

theorem mem_timerSamples {samples : List (Bundle Frame Metrics)} :
    ∀ bundle ∈ timerSamples lifetime tid samples, isTimerSample lifetime tid bundle = true :=
  fun _ h => (List.mem_filter.mp h).2

/-- What `parse_timer_data` may return, in terms of the samples that count. -/
theorem timerData_iff {file : OffloadFile Frame Metrics} {inMemory : List (Bundle Frame Metrics)}
    {out : List (TimerSamplingData Entry Metrics)} :
    TimerData env lifetime tid last file inMemory out ↔
      SortedBy (fun data => data.beg.toNat) (timerIntervals env tid last
        (timerSamples lifetime tid inMemory ++
          timerSamples lifetime tid (file.loadOffloadBuffer tid).flatten)) out := by
  rw [TimerData, timerIntervals_filter, timerSamples_rawData, timerSamples, List.filter_append]
  rfl

/-- Where the samples are in their order, the intervals are the tiling. -/
theorem timerData_iff_of_chronological {file : OffloadFile Frame Metrics}
    {inMemory : List (Bundle Frame Metrics)} {out : List (TimerSamplingData Entry Metrics)}
    (hdata : timerSamples lifetime tid inMemory ++
      timerSamples lifetime tid (file.loadOffloadBuffer tid).flatten = data)
    (hsamples : ∀ bundle ∈ data, isTimerSample lifetime tid bundle = true)
    (h : Chronological last.1 (data.map time)) :
    TimerData env lifetime tid last file inMemory out ↔
      out = timerIntervals env tid last data := by
  rw [timerData_iff, hdata]
  exact sortedBy_iff_of_lt (pairwise_beg (tiles_timerIntervals hsamples h) h)

end Intervals

/-! ## Offloading -/

section Independence

variable (env : Environment Frame Entry Metrics) (lifetime : Option (UInt64 × UInt64)) (tid : Int)
  (init : UInt64 × Option Metrics) (offloads : List (Int × List (Bundle Frame Metrics)))
  (inMemory : List (Bundle Frame Metrics))

/-- The samples of a thread that were offloaded. -/
def offloaded : List (Bundle Frame Metrics) :=
  ((offloads.filter fun offload => offload.1 = tid).map Prod.snd).flatten

/-- The timer data is the same as when nothing was offloaded, and a tiling of the time from the
init record to the last sample. -/
structure Independent : Prop where
  same : ∀ out, TimerData env lifetime tid init (OffloadFile.offloadAll offloads) inMemory out ↔
    TimerData env lifetime tid init .empty (offloaded tid offloads ++ inMemory) out
  tiles : ∀ out, TimerData env lifetime tid init (OffloadFile.offloadAll offloads) inMemory out →
    Tiles init.1 ((timerSamples lifetime tid (offloaded tid offloads ++ inMemory)).map time) out

variable {env lifetime tid init offloads inMemory}

theorem loadOffloadBuffer_empty :
    (OffloadFile.empty : OffloadFile Frame Metrics).loadOffloadBuffer tid = [] :=
  @loadOffloadBuffer_offloadAll Frame Metrics [] tid

/-- The first offloaded sample comes right behind the last one in memory. -/
theorem exists_reversed {bundle last : Bundle Frame Metrics}
    {mem data : List (Bundle Frame Metrics)}
    (hsamples : ∀ b ∈ mem ++ last :: bundle :: data, isTimerSample lifetime tid b = true) :
    ∃ interval ∈ timerIntervals env tid init (mem ++ last :: bundle :: data),
      interval.beg = time last ∧ interval.stop = time bundle := by
  induction mem generalizing init with
  | nil =>
    obtain ⟨hlast, hrest⟩ := List.forall_mem_cons.mp hsamples
    obtain ⟨hbundle, -⟩ := List.forall_mem_cons.mp hrest
    rw [List.nil_append, timerIntervals_cons_of_sample hlast,
      timerIntervals_cons_of_sample hbundle]
    exact ⟨_, List.mem_cons_of_mem _ List.mem_cons_self, rfl, rfl⟩
  | cons first mem ih =>
    obtain ⟨hfirst, hrest⟩ := List.forall_mem_cons.mp hsamples
    obtain ⟨interval, hmem, hends⟩ := @ih (time first, first.metrics) hrest
    rw [List.cons_append, timerIntervals_cons_of_sample hfirst]
    exact ⟨interval, List.mem_cons_of_mem _ hmem, hends⟩

theorem timerSamples_append (front back : List (Bundle Frame Metrics)) :
    timerSamples lifetime tid (front ++ back) =
      timerSamples lifetime tid front ++ timerSamples lifetime tid back := List.filter_append _ _

/-- The offloaded samples are loaded behind those in memory. -/
theorem timerSamples_loaded :
    timerSamples lifetime tid inMemory ++ timerSamples lifetime tid
        ((OffloadFile.offloadAll offloads).loadOffloadBuffer tid).flatten =
      timerSamples lifetime tid inMemory ++ timerSamples lifetime tid (offloaded tid offloads) := by
  rw [loadOffloadBuffer_offloadAll]
  rfl

/-- Where both parts have a sample, an interval runs backwards. -/
theorem not_independent_of_both {bundle last : Bundle Frame Metrics}
    {mem data : List (Bundle Frame Metrics)}
    (h : Chronological init.1
      ((timerSamples lifetime tid (offloaded tid offloads ++ inMemory)).map time))
    (hoffloaded : timerSamples lifetime tid (offloaded tid offloads) = bundle :: data)
    (hmemory : timerSamples lifetime tid inMemory = mem ++ [last]) :
    ¬ Independent env lifetime tid init offloads inMemory := by
  intro hindependent
  have hresults : timerSamples lifetime tid inMemory ++ timerSamples lifetime tid
      ((OffloadFile.offloadAll offloads).loadOffloadBuffer tid).flatten =
        mem ++ last :: bundle :: data := by
    rw [timerSamples_loaded, hmemory, hoffloaded, List.append_assoc]
    rfl
  have hsamples : ∀ b ∈ mem ++ last :: bundle :: data, isTimerSample lifetime tid b = true := by
    rw [← hresults]
    intro b hb
    rcases List.mem_append.mp hb with hb | hb
    · exact mem_timerSamples b hb
    · exact mem_timerSamples b hb
  obtain ⟨interval, hinterval, hbeg, hstop⟩ := @exists_reversed _ _ _ env lifetime tid
    init bundle last mem data hsamples
  obtain ⟨out, hout⟩ := exists_sortedBy
    (fun data : TimerSamplingData Entry Metrics => data.beg.toNat)
    (timerIntervals env tid init (mem ++ last :: bundle :: data))
  have hforward := (hindependent.tiles out (timerData_iff.mpr (hresults ▸ hout))).forward
    interval (hout.1.symm.subset hinterval)
  rw [hbeg, hstop] at hforward
  have hlt : time bundle < time last := by
    rw [timerSamples_append, hoffloaded, hmemory] at h
    have hrest := (List.pairwise_cons.mp h).2
    rw [List.map_append, List.map_cons] at hrest
    refine (List.pairwise_cons.mp hrest).1 _ (List.mem_append_right _ ?_)
    exact List.mem_map_of_mem (List.mem_append_right _ (List.mem_singleton.mpr rfl))
  exact absurd hlt (UInt64.not_lt.mpr hforward)

/-- The timer data is independent of the offloading exactly where only one of the two parts
has a sample that counts. -/
theorem independent_iff (env : Environment Frame Entry Metrics)
    (h : Chronological init.1
      ((timerSamples lifetime tid (offloaded tid offloads ++ inMemory)).map time)) :
    Independent env lifetime tid init offloads inMemory ↔
      timerSamples lifetime tid (offloaded tid offloads) = [] ∨
        timerSamples lifetime tid inMemory = [] := by
  constructor
  · intro hindependent
    by_contra hboth
    rw [not_or] at hboth
    obtain ⟨bundle, data, hoffloaded⟩ := List.exists_cons_of_ne_nil hboth.1
    obtain ⟨mem, last, hmemory⟩ := (List.eq_nil_or_concat _).resolve_left hboth.2
    rw [List.concat_eq_append] at hmemory
    exact not_independent_of_both h hoffloaded hmemory hindependent
  · intro hone
    have hdata : timerSamples lifetime tid inMemory ++ timerSamples lifetime tid
        ((OffloadFile.offloadAll offloads).loadOffloadBuffer tid).flatten =
          timerSamples lifetime tid (offloaded tid offloads ++ inMemory) := by
      rw [timerSamples_loaded, timerSamples_append]
      rcases hone with hnil | hnil
      · rw [hnil, List.append_nil, List.nil_append]
      · rw [hnil, List.append_nil, List.nil_append]
    have hplain : timerSamples lifetime tid (offloaded tid offloads ++ inMemory) ++
        timerSamples lifetime tid
          ((OffloadFile.empty : OffloadFile Frame Metrics).loadOffloadBuffer tid).flatten =
          timerSamples lifetime tid (offloaded tid offloads ++ inMemory) := by
      rw [loadOffloadBuffer_empty]
      exact List.append_nil _
    refine ⟨fun out => ?_, fun out hout => ?_⟩
    · rw [timerData_iff_of_chronological hdata mem_timerSamples h,
        timerData_iff_of_chronological hplain mem_timerSamples h]
    · rw [timerData_iff_of_chronological hdata mem_timerSamples h] at hout
      rw [hout]
      exact tiles_timerIntervals mem_timerSamples h

/-- A sample of two components with a backtrace of one frame. -/
def timerSample (ts : UInt64) : Bundle Nat Nat where
  size := 4
  backtrace := some [7]
  callchain := none
  timestamp := some ⟨0, ts⟩
  metrics := none
  two_le_size := fun _ _ => by decide

def plainEnvironment : Environment Nat Nat Nat where
  filterAndPatch := id
  hwCountersAvailable := false
  hwCountersEnabled := fun _ => false
  sub := Nat.sub
  noMetrics := 0

theorem independent_iff_allOffloaded :
    Chronological 0 ((timerSamples (some (0, 9)) 0
        (offloaded 0 [(0, [timerSample 1]), (0, [timerSample 2])] ++ [])).map time) ∧
      (Independent plainEnvironment (some (0, 9)) 0 (0, none)
          [(0, [timerSample 1]), (0, [timerSample 2])] [] ↔
        timerSamples (some (0, 9)) 0 (offloaded 0 [(0, [timerSample 1]), (0, [timerSample 2])]) =
            [] ∨ timerSamples (some (0, 9)) 0 ([] : List (Bundle Nat Nat)) = []) := by
  have h : Chronological (((0 : UInt64), (none : Option Nat)).1) ((timerSamples (some (0, 9)) 0
      (offloaded 0 [(0, [timerSample 1]), (0, [timerSample 2])] ++ [])).map time) := by
    show List.Pairwise (· < ·) [(0 : UInt64), 1, 2]
    decide
  exact ⟨h, independent_iff plainEnvironment h⟩

/-- An older sample from the file comes behind the one in memory. -/
theorem not_independent_oneOffloaded :
    Chronological 0 ((timerSamples (some (0, 9)) 0
        (offloaded 0 [(0, [timerSample 1])] ++ [timerSample 2])).map time) ∧
      ¬Independent plainEnvironment (some (0, 9)) 0 (0, none) [(0, [timerSample 1])]
        [timerSample 2] := by
  refine ⟨?_, fun h => ?_⟩
  · show List.Pairwise (· < ·) [(0 : UInt64), 1, 2]
    decide
  · have hdata : TimerData plainEnvironment (some (0, 9)) 0 (0, none)
        (OffloadFile.offloadAll [(0, [timerSample 1])]) [timerSample 2]
        (timerIntervals plainEnvironment 0 (0, none) [timerSample 2, timerSample 1]) := by
      rw [timerData_iff, loadOffloadBuffer_offloadAll]
      refine ⟨List.Perm.refl _, ?_⟩
      show List.Pairwise _ [_, _]
      exact List.pairwise_pair.mpr (by decide)
    have hstop : [(2 : UInt64), 1] = [1, 2] := (h.tiles _ hdata).stop
    exact absurd hstop (by decide)

end Independence

end Sampling
end Rocprofsys
