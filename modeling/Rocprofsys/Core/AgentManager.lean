import Rocprofsys.TraceCache.MetadataRoundTrip

namespace Rocprofsys
namespace Core

open TraceCache (Agent AgentType)

/-! ## agent_manager -/

def agentTypeCpu : AgentType := 0
def agentTypeGpu : AgentType := 1

structure AgentManager where
  agents : List Agent
  gpuAgentsCnt : UInt64
  cpuAgentsCnt : UInt64

namespace AgentManager

def empty : AgentManager := ⟨[], 0, 0⟩

/-- The constructor that takes agents does not count them. -/
def ofAgents (agents : List Agent) : AgentManager := ⟨agents, 0, 0⟩

/-- The index is the caller's too: `insert_agent` writes it into its argument. -/
def insertAgent (m : AgentManager) (agent : Agent) : AgentManager :=
  if agent.type = agentTypeGpu then
    { m with
      agents := m.agents ++ [{ agent with deviceTypeIndex := m.gpuAgentsCnt }]
      gpuAgentsCnt := m.gpuAgentsCnt + 1 }
  else
    { m with
      agents := m.agents ++ [{ agent with deviceTypeIndex := m.cpuAgentsCnt }]
      cpuAgentsCnt := m.cpuAgentsCnt + 1 }

/-! Where there is no such agent, `std::out_of_range` is thrown. -/

def getAgentByTypeIndex (m : AgentManager) (typeIndex : UInt64) (type : AgentType) :
    Option Agent :=
  m.agents.find? fun agent => agent.type == type && agent.deviceTypeIndex == typeIndex

def getAgentById (m : AgentManager) (deviceId : UInt64) (type : AgentType) : Option Agent :=
  m.agents.find? fun agent => agent.type == type && agent.deviceId == deviceId

def getAgentByHandle (m : AgentManager) (deviceHandle : UInt64) : Option Agent :=
  m.agents.find? fun agent => agent.handle == deviceHandle

def getAgentsByType (m : AgentManager) (type : AgentType) : List Agent :=
  m.agents.filter fun agent => agent.type == type

def count (m : AgentManager) (type : AgentType) : UInt64 :=
  if type = agentTypeGpu then m.gpuAgentsCnt else m.cpuAgentsCnt

def insertAll (agents : List Agent) : AgentManager := agents.foldl insertAgent empty

/-! ## Indices -/

theorem insertAgent_agents (m : AgentManager) (agent : Agent) :
    (m.insertAgent agent).agents =
      m.agents ++ [{ agent with deviceTypeIndex := m.count agent.type }] := by
  unfold insertAgent count
  split <;> rfl

theorem getAgentsByType_insertAgent (m : AgentManager) (agent : Agent) (type : AgentType) :
    (m.insertAgent agent).getAgentsByType type = m.getAgentsByType type ++
      if agent.type = type then [{ agent with deviceTypeIndex := m.count agent.type }] else [] := by
  unfold getAgentsByType
  rw [insertAgent_agents, List.filter_append, List.filter_cons]
  by_cases h : agent.type = type
  · rw [if_pos h, if_pos (beq_iff_eq.mpr h)]
    rfl
  · rw [if_neg h, if_neg fun heq => h (beq_iff_eq.mp heq)]
    rfl

/-- The two types that `query_rocm_agents` gives. -/
def IsAgentType (type : AgentType) : Prop := type = agentTypeCpu ∨ type = agentTypeGpu

theorem count_insertAgent (m : AgentManager) {agent : Agent} {type : AgentType}
    (hagent : IsAgentType agent.type) (htype : IsAgentType type) :
    (m.insertAgent agent).count type =
      if agent.type = type then m.count type + 1 else m.count type := by
  have hne : agentTypeCpu ≠ agentTypeGpu := by decide
  unfold insertAgent count
  rcases hagent with ha | ha <;> rcases htype with ht | ht <;>
    simp [ha, ht, hne, Ne.symm hne]

def ofType (type : AgentType) (agents : List Agent) : List Agent :=
  agents.filter fun agent => agent.type == type

def number (i : Nat) (agent : Agent) : Agent := { agent with deviceTypeIndex := UInt64.ofNat i }

/-- The agents of a type that were inserted are numbered as they came, and are found under their
numbers. -/
structure Numbered (inserted : List Agent) (m : AgentManager) (type : AgentType) : Prop where
  count : (m.count type).toNat = (ofType type inserted).length
  agents : m.getAgentsByType type = (ofType type inserted).mapIdx number
  found : ∀ typeIndex : UInt64,
    m.getAgentByTypeIndex typeIndex type = (m.getAgentsByType type)[typeIndex.toNat]?

theorem numbered_empty (type : AgentType) : Numbered [] empty type :=
  ⟨by unfold count; split <;> rfl, rfl, fun _ => rfl⟩

theorem ofType_append_singleton (type : AgentType) (inserted : List Agent) (agent : Agent) :
    ofType type (inserted ++ [agent]) =
      ofType type inserted ++ if agent.type = type then [agent] else [] := by
  unfold ofType
  rw [List.filter_append, List.filter_cons]
  by_cases h : agent.type = type
  · rw [if_pos h, if_pos (beq_iff_eq.mpr h)]
    rfl
  · rw [if_neg h, if_neg fun heq => h (beq_iff_eq.mp heq)]
    rfl

section Insert

variable {inserted : List Agent} {m : AgentManager} {agent : Agent} {type : AgentType}

theorem find_insertAgent (typeIndex : UInt64) :
    (m.insertAgent agent).getAgentByTypeIndex typeIndex type =
      (m.getAgentByTypeIndex typeIndex type).or
        (if agent.type = type ∧ m.count agent.type = typeIndex then
          some { agent with deviceTypeIndex := m.count agent.type } else none) := by
  unfold getAgentByTypeIndex
  rw [insertAgent_agents, List.find?_append, List.find?_singleton]
  simp only [Bool.and_eq_true, beq_iff_eq]

theorem numbered_insertAgent_of_ne (h : Numbered inserted m type)
    (hagent : IsAgentType agent.type) (htype : IsAgentType type) (hne : agent.type ≠ type) :
    Numbered (inserted ++ [agent]) (m.insertAgent agent) type := by
  have hagents := getAgentsByType_insertAgent m agent type
  have hinserted := ofType_append_singleton type inserted agent
  rw [if_neg hne, List.append_nil] at hagents hinserted
  have hcount := count_insertAgent m hagent htype
  rw [if_neg hne] at hcount
  refine ⟨?_, ?_, fun typeIndex => ?_⟩
  · rw [hinserted, hcount, h.count]
  · rw [hagents, hinserted, h.agents]
  · rw [hagents, find_insertAgent, h.found, if_neg fun hboth => hne hboth.1, Option.or_none]

theorem numbered_insertAgent_self (h : Numbered inserted m agent.type)
    (htype : IsAgentType agent.type)
    (hroom : (ofType agent.type inserted).length + 1 < 2 ^ 64) :
    Numbered (inserted ++ [agent]) (m.insertAgent agent) agent.type := by
  have hagents := getAgentsByType_insertAgent m agent agent.type
  have hinserted := ofType_append_singleton agent.type inserted agent
  have hcount := count_insertAgent m htype htype
  rw [if_pos rfl] at hagents hinserted hcount
  have hnumber := h.count
  have hlength : (m.getAgentsByType agent.type).length = (ofType agent.type inserted).length := by
    rw [h.agents, List.length_mapIdx]
  refine ⟨?_, ?_, fun typeIndex => ?_⟩
  · rw [hinserted, hcount, UInt64.toNat_add, List.length_append]
    show ((m.count agent.type).toNat + 1) % 2 ^ 64 = _ + 1
    omega
  · have hindex : m.count agent.type = UInt64.ofNat (ofType agent.type inserted).length := by
      rw [← hnumber, UInt64.ofNat_toNat]
    rw [hagents, hinserted, List.mapIdx_concat, h.agents, hindex]
    rfl
  · rw [hagents, find_insertAgent, h.found, List.getElem?_append, List.getElem?_singleton]
    by_cases hlt : typeIndex.toNat < (m.getAgentsByType agent.type).length
    · rw [if_pos hlt, List.getElem?_eq_getElem hlt]
      rfl
    · rw [if_neg hlt, List.getElem?_eq_none (by omega), Option.none_or]
      refine if_congr ?_ rfl rfl
      rw [← UInt64.toNat_inj]
      constructor
      · intro hboth
        omega
      · intro hzero
        exact ⟨rfl, by omega⟩

theorem numbered_insertAgent (h : Numbered inserted m type) (hagent : IsAgentType agent.type)
    (htype : IsAgentType type) (hroom : inserted.length + 1 < 2 ^ 64) :
    Numbered (inserted ++ [agent]) (m.insertAgent agent) type := by
  have hlength : (ofType type inserted).length ≤ inserted.length := List.length_filter_le _ _
  by_cases heq : agent.type = type
  · subst heq
    exact numbered_insertAgent_self h htype (by omega)
  · exact numbered_insertAgent_of_ne h hagent htype heq

end Insert

theorem numbered_foldl {inserted : List Agent} {m : AgentManager} {agents : List Agent}
    {type : AgentType} (hagents : ∀ agent ∈ agents, IsAgentType agent.type)
    (htype : IsAgentType type) (hroom : inserted.length + agents.length < 2 ^ 64)
    (h : Numbered inserted m type) :
    Numbered (inserted ++ agents) (agents.foldl insertAgent m) type := by
  induction agents generalizing m inserted with
  | nil =>
    rw [List.append_nil]
    exact h
  | cons agent agents ih =>
    rw [List.length_cons] at hroom
    have hrest := ih (fun a ha => hagents a (List.mem_cons_of_mem _ ha))
      (by rw [List.length_append, List.length_singleton]; omega)
      (numbered_insertAgent h (hagents agent List.mem_cons_self) htype (by omega))
    rw [List.append_assoc] at hrest
    exact hrest

theorem numbered_insertAll {agents : List Agent} {type : AgentType}
    (hagents : ∀ agent ∈ agents, IsAgentType agent.type) (htype : IsAgentType type)
    (hroom : agents.length < 2 ^ 64) : Numbered agents (insertAll agents) type :=
  numbered_foldl hagents htype (by rw [List.length_nil]; omega) (numbered_empty type)

/-! ## Agents of another process -/

theorem find_map_of_eq {p q : Agent → Bool} {f : Agent → Agent} {agents : List Agent}
    (h : ∀ agent ∈ agents, q (f agent) = p agent) :
    (agents.map f).find? q = (agents.find? p).map f := by
  induction agents with
  | nil => rfl
  | cons agent agents ih =>
    have hrest := ih fun a ha => h a (List.mem_cons_of_mem _ ha)
    rw [List.map_cons, List.find?_cons, List.find?_cons, h agent List.mem_cons_self]
    cases p agent with
    | true => rfl
    | false => exact hrest

theorem getAgentByHandle_reload (agents : List Agent) (deviceHandle : UInt64) :
    (ofAgents (agents.map Agent.reload)).getAgentByHandle deviceHandle =
      ((ofAgents agents).getAgentByHandle deviceHandle).map Agent.reload :=
  find_map_of_eq fun _ _ => rfl

theorem getAgentByTypeIndex_reload {agents : List Agent} {type : AgentType}
    (hfits : ∀ agent ∈ agents, agent.type = type → TraceCache.FitsInt agent.deviceTypeIndex)
    (typeIndex : UInt64) :
    (ofAgents (agents.map Agent.reload)).getAgentByTypeIndex typeIndex type =
      ((ofAgents agents).getAgentByTypeIndex typeIndex type).map Agent.reload := by
  refine find_map_of_eq fun agent hagent => ?_
  show (agent.type == type && TraceCache.narrow agent.deviceTypeIndex == typeIndex) = _
  by_cases htype : agent.type = type
  · rw [TraceCache.narrow_eq_self_iff.mpr (hfits agent hagent htype)]
  · rw [beq_eq_false_iff_ne.mpr htype, Bool.false_and, Bool.false_and]

theorem fitsInt_of_inserted {agents : List Agent} {type : AgentType}
    (h : Numbered agents (insertAll agents) type) (hroom : agents.length < 2 ^ 31) {agent : Agent}
    (hagent : agent ∈ (insertAll agents).agents) (htype : agent.type = type) :
    TraceCache.FitsInt agent.deviceTypeIndex := by
  have hmem : agent ∈ (insertAll agents).getAgentsByType type :=
    List.mem_filter.mpr ⟨hagent, beq_iff_eq.mpr htype⟩
  rw [h.agents] at hmem
  obtain ⟨i, hi, rfl⟩ := List.mem_mapIdx.mp hmem
  have hlength : (ofType type agents).length ≤ agents.length := List.length_filter_le _ _
  refine Or.inl ?_
  show (UInt64.ofNat i).toNat < 2 ^ 31
  rw [UInt64.toNat_ofNat', Nat.mod_eq_of_lt (by omega)]
  omega

/-- Agents that a process inserted are found by the process that loads its metadata: each by its
handle, and by the place that it had among the inserted ones of its type. -/
theorem lookups_of_loaded (registry : TraceCache.MetadataRegistry) {agents : List Agent}
    (hagents : ∀ agent ∈ agents, IsAgentType agent.type) (hroom : agents.length < 2 ^ 31) :
    ∃ loaded, TraceCache.MetadataRegistry.empty.fromJson
        (registry.toJson ((insertAll agents).agents.map some)) = some (registry.reload, loaded) ∧
      (∀ deviceHandle, (ofAgents (TraceCache.presentAgents loaded)).getAgentByHandle deviceHandle =
        ((insertAll agents).getAgentByHandle deviceHandle).map Agent.reload) ∧
      ∀ type, IsAgentType type → ((insertAll agents).count type).toNat = (ofType type agents).length ∧
        ∀ typeIndex,
          (insertAll agents).getAgentByTypeIndex typeIndex type =
            ((ofType type agents)[typeIndex.toNat]?).map (number typeIndex.toNat) ∧
          (ofAgents (TraceCache.presentAgents loaded)).getAgentByTypeIndex typeIndex type =
            ((ofType type agents)[typeIndex.toNat]?).map fun agent =>
              (number typeIndex.toNat agent).reload := by
  have hpresent (l : List Agent) : TraceCache.presentAgents (l.map some) = l := by
    simp [TraceCache.presentAgents]
  refine ⟨_, TraceCache.MetadataRegistry.fromJson_toJson registry _, ?_, fun type htype => ?_⟩
  · intro deviceHandle
    rw [hpresent, hpresent, getAgentByHandle_reload]
    rfl
  · have hnumbered := numbered_insertAll hagents htype (by omega)
    refine ⟨hnumbered.count, fun typeIndex => ?_⟩
    have hfound := hnumbered.found typeIndex
    rw [hnumbered.agents, List.getElem?_mapIdx] at hfound
    refine ⟨hfound, ?_⟩
    have hfits (agent) (ha : agent ∈ (insertAll agents).agents) (ht : agent.type = type) :=
      fitsInt_of_inserted hnumbered hroom ha ht
    rw [hpresent, hpresent, getAgentByTypeIndex_reload hfits]
    show ((insertAll agents).getAgentByTypeIndex typeIndex type).map Agent.reload = _
    rw [hfound, Option.map_map]
    rfl

/-- An agent of this type and handle. -/
def bare (type : AgentType) (handle : UInt64) : Agent :=
  ⟨type, handle, 0, 0, 0, 0, [], [], [], [], 0, 0, []⟩

theorem lookups_twoGpus :
    ∃ loaded, TraceCache.MetadataRegistry.empty.fromJson
        (TraceCache.MetadataRegistry.empty.toJson
          ((insertAll [bare 1 7, bare 0 8, bare 1 9]).agents.map some)) =
            some (TraceCache.MetadataRegistry.empty.reload, loaded) ∧
      ((ofAgents (TraceCache.presentAgents loaded)).getAgentByTypeIndex 1 agentTypeGpu).map
        Agent.handle = some 9 := by
  obtain ⟨loaded, hload, _, hlookups⟩ := @lookups_of_loaded TraceCache.MetadataRegistry.empty
    [bare 1 7, bare 0 8, bare 1 9] (fun agent h => by
      simp only [List.mem_cons, List.not_mem_nil, or_false] at h
      rcases h with rfl | rfl | rfl
      · exact Or.inr rfl
      · exact Or.inl rfl
      · exact Or.inr rfl) (by decide)
  refine ⟨loaded, hload, ?_⟩
  rw [((hlookups agentTypeGpu (Or.inr rfl)).2 1).2]
  rfl

end AgentManager
end Core
end Rocprofsys
