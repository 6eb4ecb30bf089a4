import Rocprofsys.Rocpd.ProcessorView
import Rocprofsys.Sdk.Collector
import Rocprofsys.TraceCache.CacheRefinement
import Rocprofsys.TraceCache.MetadataRoundTrip

namespace Rocprofsys

open Base

namespace Base.KeyedSet

variable {α κ : Type} {key : α → κ} [DecidableEq κ]

theorem empty_addAll_map {f : α → α} {s : KeyedSet key} (h : ∀ x ∈ s.entries, f x = x) :
    (∅ : KeyedSet key).addAll (s.entries.map f) = s := by
  have hmap : s.entries.map f = s.entries := by
    rw [List.map_congr_left h]
    exact List.map_id _
  rw [hmap, empty_addAll_entries]

end Base.KeyedSet

namespace TraceCache

/-! ## The files of a process -/

/-- The final flush of a session makes a file that is loaded as the samples of its records. -/
theorem Session.Follows.load_flush {session : Session} {chunks : List Chunk} {log : RingLog}
    (h : session.Follows chunks log) {samples : List StoredSample}
    (hrecords : chunksRecords chunks = samples.map fun v => v.value.record) {env : Environment}
    (henv : bufferSize ≤ env.limit) (filename : String) :
    ∃ session', session.apply (.flush true) = .ok session' ∧
      (load env true filename (some session'.ofs.content)).delivered =
        samples.map StoredSample.value := by
  obtain ⟨session', log', happly, _, _, _, hcontent⟩ := h.flush true
  obtain ⟨pieces, hchunks, hsamples⟩ := exists_pieces h.small hrecords
  have hfits : ∀ piece ∈ pieces, piece.chunk.payload.length ≤ env.limit := by
    intro piece hpiece
    have hmem : piece.chunk ∈ chunks := by
      rw [← hchunks]
      exact List.mem_map_of_mem hpiece
    exact Nat.le_trans (Nat.le_of_lt (h.small _ hmem)) henv
  refine ⟨session', happly, ?_⟩
  rw [load_eq, hcontent rfl, ← hchunks, ← piecesBytes_eq, (loadFrames_pieces hfits filename).1,
    hsamples]

namespace MetadataRegistry

theorem reload_eq_self {registry : MetadataRegistry}
    (hpmcInfos : ∀ pmc ∈ registry.pmcInfos.entries, pmc.reload = pmc)
    (hthreads : ∀ thread ∈ registry.threads.entries, FitsInt thread.threadId)
    (htracks : ∀ track ∈ registry.tracks.entries, ∀ threadId ∈ track.threadId, FitsInt threadId) :
    registry.reload = registry := by
  have hid {α κ : Type} [DecidableEq κ] {key : α → κ} (s : KeyedSet key) :
      (∅ : KeyedSet key).addAll (s.entries.map id) = s :=
    KeyedSet.empty_addAll_map fun _ _ => rfl
  unfold reload
  rw [KeyedSet.empty_addAll_map hpmcInfos,
    KeyedSet.empty_addAll_map fun thread h => Thread.reload_eq_self_iff.mpr (hthreads thread h),
    KeyedSet.empty_addAll_map fun track h => Track.reload_eq_self_iff.mpr (htracks track h),
    hid, hid, hid, hid, hid]

end MetadataRegistry

end TraceCache

namespace Sdk

open Rocpd (text)
open TraceCache (MetadataRegistry Session)

section Pipeline

variable {tool : Tool} {host : Rocpd.Host} {events : List Event} {c : Collector}

/-- The thread ids survive the casts to `int`. -/
def Event.ThreadsFit (e : Event) : Prop :=
  ∀ threadId ∈ e.threads ++ e.trackThreads, TraceCache.FitsInt threadId

theorem reload_collected (h : Collected tool events c) (hids : ∀ e ∈ events, e.ThreadsFit) :
    c.registry.reload = c.registry := by
  apply MetadataRegistry.reload_eq_self
  · rw [h.pmcInfos]
    exact fun _ hpmc => absurd hpmc List.not_mem_nil
  · intro thread hthread
    have hmem := List.mem_map_of_mem (f := TraceCache.Thread.threadId) hthread
    obtain ⟨e, he, hid⟩ := (mem_threads_iff h thread.threadId).mp hmem
    exact hids e he _ (List.mem_append_left _ hid)
  · intro track htrack threadId hthread
    obtain ⟨e, he, id, hid, hsome⟩ := h.tracks track htrack
    rw [hsome] at hthread
    cases hthread
    exact hids e he _ (List.mem_append_right _ hid)

theorem sameHandles_reload (tool : Tool) :
    SameHandles tool (tool.agentManager.agents.map TraceCache.Agent.reload) := by
  intro handle
  simp only [Rocpd.AgentKnown, List.mem_map, exists_exists_and_eq_and]
  rfl

/-- Only the handles of the agents matter. -/
theorem Event.fits_congr {agents : List TraceCache.Agent} (hagents : SameHandles tool agents)
    (e : Event) : e.Fits host agents events ↔ e.Fits host tool.agentManager.agents events := by
  cases e with
  | codeObjectLoad data => exact imp_congr_right fun _ => and_congr_left' (hagents _).symm
  | memoryAllocation record => exact or_congr_right (and_congr_left' (hagents _).symm)
  | cacheStop systemValue key startTs endTs => cases systemValue <;> exact Iff.rfl
  | _ => exact Iff.rfl

end Pipeline

/-- An allocation by the thread 5, of no agent. -/
def allocationEvent : Event := .memoryAllocation ⟨5, 6, 5, 0, 0, 0, 64, ⟨1, 0, none⟩, 0⟩

def allocationStores : List TraceCache.SampleOperation :=
  [.store ⟨.memoryAllocate ⟨5, 6, 5, 0, 0, 0, 64, 1, 0, 0, 0⟩,
      fun _ h => absurd h List.not_mem_nil, by decide⟩,
    .store ⟨.memoryCopy ⟨10, 20, 5, 8, 7, 2, 1, 64, 3, 0, 0, 0, 0⟩,
      fun _ h => absurd h List.not_mem_nil, by decide⟩]

/-- The text that is saved of the allocation and the copy. -/
def allocationText : List UInt8 :=
  text ("\x7b\"agents\":[\x7b\"device_id\":0,\"device_type_index\":0,\"handle\":7,\"logical_node_id\":0," ++
    "\"logical_node_type_id\":0,\"model_name\":\"\",\"name\":\"\",\"node_id\":0,\"product_name\":\"\"," ++
    "\"type\":0,\"vendor_name\":\"\"\x7d,\x7b\"device_id\":0,\"device_type_index\":0,\"handle\":8," ++
    "\"logical_node_id\":0,\"logical_node_type_id\":0,\"model_name\":\"\",\"name\":\"\",\"node_id\":0," ++
    "\"product_name\":\"\",\"type\":1,\"vendor_name\":\"\"\x7d],\"code_objects\":[],\"kernel_symbols\":[]," ++
    "\"pmc_infos\":[],\"process\":\x7b\"command\":\"\",\"end\":0,\"pid\":2,\"ppid\":1,\"start\":0\x7d," ++
    "\"queues\":[0],\"streams\":[0],\"strings\":[\"rocm_memory_allocate\",\"rocm_memory_copy\"]," ++
    "\"threads\":[\x7b\"end\":0,\"extdata\":\"\x7b\x7d\",\"parent_process_id\":1,\"process_id\":2,\"start\":0," ++
    "\"thread_id\":5\x7d],\"tracks\":[\x7b\"extdata\":\"\x7b\x7d\",\"thread_id\":5," ++
    "\"track_name\":\"GPU Memory Copy to Agent [0] Thread 5\"\x7d]\x7d")

/-- `parse` on this text. -/
def allocationParse (document : Json) (text : List UInt8) : Option Json :=
  if text = allocationText then some document else none

theorem allocationParse_text (document : Json) :
    allocationParse document allocationText = some document := if_pos rfl

theorem fits_allocationAndCopy : ∀ e ∈ [allocationEvent, copyEvent],
    e.Fits Rocpd.copyHost copyTool.agentManager.agents [allocationEvent, copyEvent] := by
  intro e he
  rcases List.mem_cons.mp he with rfl | he
  · exact Or.inl rfl
  · rw [List.mem_singleton.mp he]
    exact ⟨allocationEvent, List.mem_cons_self, List.mem_cons_self⟩

theorem threadsFit_allocationAndCopy :
    ∀ e ∈ [allocationEvent, copyEvent], e.ThreadsFit := by
  have hfive (threadId : UInt64) (h : threadId ∈ [(5 : UInt64)]) : TraceCache.FitsInt threadId := by
    rw [List.mem_singleton.mp h]
    exact Or.inl (by decide)
  intro e he
  rcases List.mem_cons.mp he with rfl | he
  · exact hfive
  · rw [List.mem_singleton.mp he]
    exact hfive

end Sdk
end Rocprofsys
