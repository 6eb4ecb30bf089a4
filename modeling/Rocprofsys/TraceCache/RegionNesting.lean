import Rocprofsys.TraceCache.CategoryRegion

namespace Rocprofsys
namespace TraceCache

variable {rt : Runtime} {finalizes : Bool} {endTs : UInt64}

/-! ## One call of an active thread -/

theorem start_of_active (h : rt.Active) (m : PendingMap) {key : EntryKey} (hname : key.name ≠ [])
    (ts : UInt64) : rt.start m key ts = m.insert key ts := by
  have henabled : ¬(!rt.enabled key.category) = true := by
    rw [h.enabled]
    exact Bool.false_ne_true
  have hbefore : ¬ProcessState.finalized.value ≤ rt.state.value := by
    rw [h.state]
    decide
  have hactive : ¬(rt.state ≠ .active ∧ (!rt.toolingInit) = true) := fun hnot => hnot.1 h.state
  rw [Runtime.start, if_neg henabled, if_neg h.threadState, if_neg hbefore, if_neg hname,
    if_neg hactive, if_neg h.threadStatus, cacheStart]

theorem start_of_no_name (m : PendingMap) {key : EntryKey} (hname : key.name = []) (ts : UInt64) :
    rt.start m key ts = m := by
  rw [Runtime.start, if_pos hname]
  split
  · rfl
  · split
    · rfl
    · split <;> rfl

theorem stop_of_active (h : rt.Active) (m : PendingMap) (key : EntryKey) (ts : UInt64) :
    rt.stop m key ts = cacheStop rt.threadId m key ts := by
  have henabled : ¬((!rt.enabled key.category) = true ∧ rt.stackDepth key.category ≤ 0) := by
    rw [h.enabled]
    exact fun hnot => Bool.false_ne_true hnot.1
  rw [Runtime.stop, if_neg henabled, if_neg h.threadState, if_pos h.state]

theorem start_eq_or (m : PendingMap) (key : EntryKey) (ts : UInt64) :
    rt.start m key ts = m ∨ rt.start m key ts = m.insert key ts := by
  unfold Runtime.start
  split
  · exact Or.inl rfl
  · split
    · exact Or.inl rfl
    · split
      · exact Or.inl rfl
      · split
        · exact Or.inl rfl
        · split
          · exact Or.inl rfl
          · split
            · exact Or.inl rfl
            · exact Or.inr rfl

theorem stop_eq_or (m : PendingMap) (key : EntryKey) (ts : UInt64) :
    rt.stop m key ts = (m, []) ∨ rt.stop m key ts = cacheStop rt.threadId m key ts := by
  unfold Runtime.stop
  split
  · exact Or.inl rfl
  · split
    · exact Or.inl rfl
    · split
      · exact Or.inr rfl
      · exact Or.inl rfl

/-! ## Counting samples -/

/-- The number of starts. -/
def starts : List RegionCall → Nat
  | [] => 0
  | .start _ _ :: calls => starts calls + 1
  | .stop _ _ :: calls => starts calls

theorem length_keys_insert_of_mem {m : PendingMap} {key : EntryKey} (h : key ∈ m) (ts : UInt64) :
    (m.insert key ts).keys.length = m.keys.length := by
  have hpos : 0 < m.keys.length := List.length_pos_of_mem h
  rw [AList.keys_insert, List.length_cons, List.length_erase_of_mem h]
  omega

theorem length_keys_insert_le (m : PendingMap) (key : EntryKey) (ts : UInt64) :
    (m.insert key ts).keys.length ≤ m.keys.length + 1 := by
  have hle : (m.keys.erase key).length ≤ m.keys.length := List.length_erase_le
  rw [AList.keys_insert, List.length_cons]
  omega

theorem length_keys_erase {m : PendingMap} {key : EntryKey} (h : key ∈ m) :
    (m.erase key).keys.length + 1 = m.keys.length := by
  have hpos : 0 < m.keys.length := List.length_pos_of_mem h
  rw [AList.keys_erase, List.length_erase_of_mem h]
  omega

theorem length_flush (threadId : UInt64) (m : PendingMap) :
    (flushPendingCachedEntries threadId m endTs).length = m.keys.length := by
  rw [flushPendingCachedEntries, List.length_map, List.length_insertionSort, AList.keys,
    List.keys, List.length_map]

/-- A stop takes a sample from the map, or nothing. -/
theorem length_stop (m : PendingMap) (key : EntryKey) (ts : UInt64) :
    (rt.stop m key ts).2.length + (rt.stop m key ts).1.keys.length = m.keys.length := by
  rcases @stop_eq_or rt m key ts with hstop | hstop
  · rw [hstop]
    exact Nat.zero_add _
  · rw [hstop, cacheStop]
    cases hlookup : m.lookup key with
    | none => exact Nat.zero_add _
    | some startTs =>
      have hmem : key ∈ m := AList.lookup_isSome.mp (by rw [hlookup]; rfl)
      have herase := length_keys_erase hmem
      show 1 + (m.erase key).keys.length = _
      omega

theorem length_cached_le (m : PendingMap) (calls : List RegionCall) :
    (rt.cached finalizes endTs m calls).length ≤ m.keys.length + starts calls := by
  induction calls generalizing m with
  | nil =>
    rw [Runtime.cached]
    split
    · exact (length_flush rt.threadId m).le
    · exact Nat.zero_le _
  | cons call calls ih =>
    cases call with
    | start key ts =>
      have hrest := ih (rt.start m key ts)
      have hinsert := length_keys_insert_le m key ts
      have hkeys : (rt.start m key ts).keys.length ≤ m.keys.length + 1 := by
        rcases @start_eq_or rt m key ts with hstart | hstart
        · rw [hstart]
          exact Nat.le_succ _
        · rw [hstart]
          exact hinsert
      show (rt.cached finalizes endTs (rt.start m key ts) calls).length ≤ _ + (starts calls + 1)
      omega
    | stop key ts =>
      have hrest := ih (rt.stop m key ts).1
      have hstop := @length_stop rt m key ts
      show ((rt.stop m key ts).2 ++ rt.cached finalizes endTs (rt.stop m key ts).1 calls).length ≤
        _ + starts calls
      rw [List.length_append]
      omega

/-- A properly nested stop ends the innermost region. -/
theorem exists_of_byNesting_stop {threadId ts : UInt64} {key : EntryKey}
    {stack : List (EntryKey × UInt64)} {calls : List RegionCall} {samples : List RegionSample}
    (h : byNesting threadId endTs stack (.stop key ts :: calls) = some samples) :
    ∃ begTs stack' rest, stack = (key, begTs) :: stack' ∧
      byNesting threadId endTs stack' calls = some rest ∧
      samples = cacheRegion threadId key begTs ts :: rest := by
  cases stack with
  | nil => cases h
  | cons region stack =>
    obtain ⟨opened, begTs⟩ := region
    rw [byNesting] at h
    by_cases hkey : opened = key
    · subst hkey
      rw [if_pos rfl] at h
      obtain ⟨rest, hnested, rfl⟩ := Option.map_eq_some_iff.mp h
      exact ⟨begTs, stack, rest, rfl, hnested, rfl⟩
    · rw [if_neg hkey] at h
      cases h

/-- By nesting, one sample for each start and each region open before. -/
theorem length_byNesting {threadId : UInt64} {stack : List (EntryKey × UInt64)}
    {calls : List RegionCall} {samples : List RegionSample}
    (h : byNesting threadId endTs stack calls = some samples) :
    samples.length = stack.length + starts calls := by
  induction calls generalizing stack samples with
  | nil =>
    rw [byNesting] at h
    cases h
    exact List.length_map _
  | cons call calls ih =>
    cases call with
    | start key ts =>
      rw [byNesting] at h
      have hrest := ih h
      rw [List.length_cons] at hrest
      show _ = _ + (starts calls + 1)
      omega
    | stop key ts =>
      obtain ⟨begTs, stack', rest, rfl, hnested, rfl⟩ := exists_of_byNesting_stop h
      have hrest := ih hnested
      show rest.length + 1 = (stack'.length + 1) + starts calls
      omega

/-! ## The map and the stack -/

def toEntry (region : EntryKey × UInt64) : Sigma fun _ : EntryKey => UInt64 := ⟨region.1, region.2⟩

/-- The map holds the open regions. -/
def Holds (m : PendingMap) (stack : List (EntryKey × UInt64)) : Prop :=
  m.entries.Perm (stack.map toEntry)

theorem Holds.keys {m : PendingMap} {stack : List (EntryKey × UInt64)} (h : Holds m stack) :
    m.keys.Perm (stack.map Prod.fst) := by
  have hmap := List.Perm.map Sigma.fst h
  rw [List.map_map] at hmap
  exact hmap

theorem Holds.mem_iff {m : PendingMap} {stack : List (EntryKey × UInt64)} (h : Holds m stack)
    {key : EntryKey} : key ∈ m ↔ key ∈ stack.map Prod.fst := h.keys.mem_iff

theorem Holds.insert {m : PendingMap} {stack : List (EntryKey × UInt64)} (h : Holds m stack)
    {key : EntryKey} (hnew : key ∉ stack.map Prod.fst) (ts : UInt64) :
    Holds (m.insert key ts) ((key, ts) :: stack) := by
  have hfresh : key ∉ m := fun hmem => hnew (h.mem_iff.mp hmem)
  rw [Holds, AList.entries_insert_of_notMem hfresh]
  exact List.Perm.cons _ h

/-- Stopping the innermost region takes it from the map. -/
theorem Holds.stop (h : rt.Active) {m : PendingMap} {region : EntryKey × UInt64}
    {stack : List (EntryKey × UInt64)} (hholds : Holds m (region :: stack)) (ts : UInt64) :
    (rt.stop m region.1 ts).2 = [cacheRegion rt.threadId region.1 region.2 ts] ∧
      Holds (rt.stop m region.1 ts).1 stack := by
  have hmem : toEntry region ∈ m.entries :=
    (List.Perm.mem_iff hholds).mpr List.mem_cons_self
  have hlookup : m.lookup region.1 = some region.2 := AList.mem_lookup_iff.mpr hmem
  rw [stop_of_active h, cacheStop, hlookup]
  refine ⟨rfl, ?_⟩
  have herase : (List.kerase region.1 m.entries).Perm
      (List.kerase region.1 (toEntry region :: stack.map toEntry)) :=
    List.Perm.kerase m.nodupKeys hholds
  have htail : List.kerase region.1 (toEntry region :: stack.map toEntry) = stack.map toEntry :=
    List.kerase_cons_eq rfl
  rw [htail] at herase
  exact herase

/-! ## Runs -/

theorem cached_perm_byNesting (h : rt.Active) {m : PendingMap} {stack : List (EntryKey × UInt64)}
    {calls : List RegionCall} {samples : List RegionSample} (hholds : Holds m stack)
    (hnested : byNesting rt.threadId endTs stack calls = some samples)
    (honce : StartedOnce finalizes (stack.map Prod.fst) calls) :
    (rt.cached finalizes endTs m calls).Perm samples := by
  induction calls generalizing m stack samples with
  | nil =>
    rw [byNesting] at hnested
    cases hnested
    rw [Runtime.cached]
    by_cases hfinalizes : finalizes = true
    · rw [if_pos hfinalizes, flushPendingCachedEntries]
      have hsorted := (List.perm_insertionSort EntryKey.precedes m.entries).trans hholds
      have hmap := hsorted.map fun x => cacheRegion rt.threadId x.1 x.2 endTs
      rw [List.map_map] at hmap
      exact hmap
    · rw [if_neg hfinalizes, List.map_eq_nil_iff.mp (honce.resolve_left hfinalizes)]
      exact List.Perm.refl _
  | cons call calls ih =>
    cases call with
    | start key ts =>
      obtain ⟨hname, hnew, hrest⟩ := honce
      rw [Runtime.cached, start_of_active h m hname]
      exact ih (hholds.insert hnew ts) hnested hrest
    | stop key ts =>
      obtain ⟨begTs, stack', rest, rfl, hinner, rfl⟩ := exists_of_byNesting_stop hnested
      obtain ⟨hsample, hholds⟩ := Holds.stop h hholds ts
      rw [Runtime.cached, hsample]
      exact List.Perm.cons _ (ih hholds hinner honce)

/-- A start without a name or of an open region costs a sample. -/
theorem length_cached_lt (h : rt.Active) {m : PendingMap} {stack : List (EntryKey × UInt64)}
    {calls : List RegionCall} {samples : List RegionSample} (hholds : Holds m stack)
    (hnested : byNesting rt.threadId endTs stack calls = some samples)
    (hnot : ¬StartedOnce finalizes (stack.map Prod.fst) calls) :
    (rt.cached finalizes endTs m calls).length < stack.length + starts calls := by
  induction calls generalizing m stack samples with
  | nil =>
    obtain ⟨hfinalizes, hopen⟩ := not_or.mp hnot
    rw [Runtime.cached, if_neg hfinalizes]
    cases stack with
    | nil => exact absurd rfl hopen
    | cons region stack => exact Nat.succ_pos _
  | cons call calls ih =>
    have hkeys : m.keys.length = stack.length := by
      rw [hholds.keys.length_eq, List.length_map]
    cases call with
    | start key ts =>
      show (rt.cached finalizes endTs (rt.start m key ts) calls).length < _ + (starts calls + 1)
      have hle := @length_cached_le rt finalizes endTs (rt.start m key ts) calls
      by_cases hname : key.name = []
      · rw [start_of_no_name m hname] at hle ⊢
        omega
      · by_cases hopen : key ∈ stack.map Prod.fst
        · rw [start_of_active h m hname, length_keys_insert_of_mem (hholds.mem_iff.mpr hopen)] at hle
          rw [start_of_active h m hname]
          omega
        · rw [start_of_active h m hname]
          have hrest := ih (hholds.insert hopen ts) hnested
            fun honce => hnot ⟨hname, hopen, honce⟩
          rw [List.length_cons] at hrest
          omega
    | stop key ts =>
      obtain ⟨begTs, stack', rest, rfl, hinner, rfl⟩ := exists_of_byNesting_stop hnested
      obtain ⟨hsample, hholds⟩ := Holds.stop h hholds ts
      have hrest : (rt.cached finalizes endTs (rt.stop m key ts).1 calls).length < _ :=
        ih hholds hinner hnot
      rw [Runtime.cached, hsample]
      show (rt.cached finalizes endTs _ calls).length + 1 < stack'.length + 1 + starts calls
      omega

/-- An active process and thread with all categories. -/
def activeRuntime : Runtime where
  enabled := fun _ => true
  stackDepth := fun _ => 0
  state := .active
  threadState := .enabled
  toolingInit := true
  threadStatus := .enabled
  systemValue := some 7

theorem activeRuntime_active : activeRuntime.Active :=
  ⟨fun _ => rfl, rfl, ThreadState.noConfusion, ThreadState.noConfusion⟩

/-- One region called twice in another one that stays open. -/
def siblingCalls : List RegionCall :=
  [.start ⟨[109], [117]⟩ 1, .start ⟨[102], [117]⟩ 2, .stop ⟨[102], [117]⟩ 3,
    .start ⟨[102], [117]⟩ 4, .stop ⟨[102], [117]⟩ 5]

end TraceCache
end Rocprofsys
