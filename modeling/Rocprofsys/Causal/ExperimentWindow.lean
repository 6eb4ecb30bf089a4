import Rocprofsys.Causal.ProgressPoint
import Rocprofsys.Causal.ProgressStack

namespace Rocprofsys
namespace Causal

open Base

variable {B : ComponentBundle} {hash : String → UInt64} {endToEnd : Bool}

/-! ## Counts -/

/-- What pops add to the map for the records: a start is added with its stop. -/
def collected (records : List Record) (h : UInt64) : ProgressPoint :=
  ⟨records.count (.mark h), records.count (.stop h), records.count (.stop h)⟩

theorem collected_append (rs ss : List Record) (h : UInt64) :
    collected (rs ++ ss) h = collected rs h + collected ss h := by
  unfold collected
  rw [List.count_append, List.count_append]
  rfl

theorem collected_mark_self (h : UInt64) : collected [.mark h] h = ⟨1, 0, 0⟩ := by
  rw [collected, List.count_singleton_self]
  rfl

theorem collected_mark_of_ne {h h' : UInt64} (hne : h ≠ h') : collected [.mark h'] h = 0 := by
  have hmark : Record.mark h ≠ .mark h' := fun heq => hne (Record.mark.inj heq)
  rw [collected, List.count_eq_zero_of_not_mem fun hmem => hmark (List.mem_singleton.mp hmem)]
  rfl

theorem collected_stop_self (h : UInt64) : collected [.stop h] h = ⟨0, 1, 1⟩ := by
  rw [collected, List.count_singleton_self]
  rfl

theorem collected_stop_of_ne {h h' : UInt64} (hne : h ≠ h') : collected [.stop h'] h = 0 := by
  have hstop : Record.stop h ≠ .stop h' := fun heq => hne (Record.stop.inj heq)
  have hzero : [Record.stop h'].count (.stop h) = 0 :=
    List.count_eq_zero_of_not_mem fun hmem => hstop (List.mem_singleton.mp hmem)
  rw [collected, hzero]
  rfl

/-! ## Instances -/

/-- Pushed and started, and neither stopped nor popped. -/
def openedInstance (h : UInt64) : Instance := ⟨[.start, .push], ⟨0, 1, 0⟩, some h⟩

/-- Popped, and stopped or popped again since. -/
def Instance.Popped (x : Instance) : Prop :=
  ∃ later, (∀ k ∈ later, k = .stop ∨ k = .pop) ∧ x.calls = later ++ [.pop, .stop, .start, .push]

theorem Instance.Popped.again {x : Instance} (h : x.Popped) {op : Operation}
    (hop : op = .stop ∨ op = .pop) : Instance.Popped { x with calls := op :: x.calls } := by
  obtain ⟨later, hlater, hcalls⟩ := h
  refine ⟨op :: later, ?_, congrArg (op :: ·) hcalls⟩
  intro k hk
  rcases List.mem_cons.mp hk with hk | hk
  · rw [hk]
    exact hop
  · exact hlater k hk

theorem Instance.Popped.blocked (hB : B.Lawful) {x : Instance} (h : x.Popped) {op : Operation}
    (hop : op = .stop ∨ op = .pop) : B.passes x.calls op = false := by
  obtain ⟨later, hlater, hcalls⟩ := h
  rw [hcalls]
  refine hB.popped later op fun k hk => ?_
  rcases List.mem_cons.mp hk with hk | hk
  · rw [hk]
    exact hop
  · exact hlater k hk

/-- Every bundle of the cache is open or popped. -/
structure Thread.Tracked (hash : String → UInt64) (t : Thread) : Prop where
  fresh : Fresh t.cache
  bundles : ∀ b ∈ t.cache.bundles, ∃ x, t.instances.lookup b = some x ∧
    (x = openedInstance (hash b.name) ∨ x.Popped)

theorem tracked_empty : Thread.empty.Tracked hash :=
  ⟨fresh_empty, fun _ h => absurd h List.not_mem_nil⟩

/-! ## Effects -/

section Effects

variable {t : Thread} {b : Bundle} {x : Instance} {op : Operation}

theorem deliver_of_passes (hx : t.instances.lookup b = some x)
    (hpasses : B.passes x.calls op = true) :
    t.deliver B hash b op =
      t.component hash b op (B.settled x.calls) { x with calls := op :: x.calls } := by
  rw [Thread.deliver, hx]
  exact if_pos hpasses

theorem deliver_of_blocked (hx : t.instances.lookup b = some x)
    (hblocked : B.passes x.calls op = false) :
    t.deliver B hash b op =
      ({ t with instances := t.instances.insert b { x with calls := op :: x.calls } }, []) := by
  rw [Thread.deliver, hx]
  exact if_neg (ne_true_of_eq_false hblocked)

theorem effects_step {t' : Thread} {recorded : List Record} {e : Effect}
    (he : t.effect B hash e = (t', recorded)) (es : List Effect) :
    t.effects B hash (e :: es) =
      ((t'.effects B hash es).1, recorded ++ (t'.effects B hash es).2) := by
  rw [Thread.effects, he]

theorem effect_push (hB : B.Lawful) (hx : t.instances.lookup b = some ⟨[], 0, none⟩) :
    t.effect B hash (.push b) = (⟨t.cache,
      t.instances.insert b ⟨[.push], 0, some (hash b.name)⟩,
      t.points.update (hash b.name) id⟩, []) := deliver_of_passes hx hB.push

theorem effect_start (hB : B.Lawful)
    (hx : t.instances.lookup b = some ⟨[.push], 0, some (hash b.name)⟩) :
    t.effect B hash (.start b) = (⟨t.cache,
      t.instances.insert b (openedInstance (hash b.name)), t.points⟩,
      [.start (hash b.name)]) := deliver_of_passes hx hB.start

theorem effect_mark (hB : B.Lawful)
    (hx : t.instances.lookup b = some ⟨[.push], 0, some (hash b.name)⟩) :
    t.effect B hash (.mark b) = (⟨t.cache,
      t.instances.insert b ⟨[.mark, .push], ⟨1, 0, 0⟩, some (hash b.name)⟩, t.points⟩,
      [.mark (hash b.name)]) := deliver_of_passes hx hB.mark

theorem effect_stop (hB : B.Lawful)
    (hx : t.instances.lookup b = some (openedInstance (hash b.name))) :
    t.effect B hash (.stop b) = (⟨t.cache,
      t.instances.insert b ⟨[.stop, .start, .push], ⟨0, 1, 1⟩, some (hash b.name)⟩, t.points⟩,
      [.stop (hash b.name)]) := deliver_of_passes hx hB.stop

/-- A settled component is added to its entry. -/
theorem effect_pop {calls : List Operation} {p : ProgressPoint} {h : UInt64}
    (hpop : B.passes calls .pop = true ∧ B.settled calls = true)
    (hx : t.instances.lookup b = some ⟨calls, p, some h⟩) :
    t.effect B hash (.pop b) = (⟨t.cache, t.instances.insert b ⟨.pop :: calls, p, some h⟩,
      t.points.update h fun q => q + p⟩, []) := by
  show t.deliver B hash b .pop = _
  rw [deliver_of_passes hx hpop.1]
  dsimp only
  rw [hpop.2]
  rfl

theorem effect_stop_of_popped (hB : B.Lawful) (hx : t.instances.lookup b = some x)
    (hpopped : x.Popped) :
    t.effect B hash (.stop b) =
      (⟨t.cache, t.instances.insert b { x with calls := .stop :: x.calls }, t.points⟩, []) :=
  deliver_of_blocked hx (hpopped.blocked hB (Or.inl rfl))

theorem effect_pop_of_popped (hB : B.Lawful) (hx : t.instances.lookup b = some x)
    (hpopped : x.Popped) :
    t.effect B hash (.pop b) =
      (⟨t.cache, t.instances.insert b { x with calls := .pop :: x.calls }, t.points⟩, []) :=
  deliver_of_blocked hx (hpopped.blocked hB (Or.inr rfl))

end Effects

/-! ## Calls -/

section Calls

variable {t : Thread} {b d : Bundle}

theorem effects_of_push (hB : B.Lawful) :
    t.effects B hash [.construct b, .push b, .start b] = (⟨t.cache,
      t.instances.insert b (openedInstance (hash b.name)),
      t.points.update (hash b.name) id⟩, [.start (hash b.name)]) := by
  rw [effects_step rfl, effects_step (effect_push hB (AList.lookup_insert _)),
    effects_step (effect_start hB (AList.lookup_insert _)), AList.insert_insert,
    AList.insert_insert]
  rfl

theorem effects_of_mark (hB : B.Lawful) :
    t.effects B hash [.construct b, .push b, .mark b, .pop b, .destroy b] = (⟨t.cache,
      (t.instances.insert b
        ⟨[.pop, .mark, .push], ⟨1, 0, 0⟩, some (hash b.name)⟩).erase b,
      (t.points.update (hash b.name) id).update (hash b.name) fun q => q + ⟨1, 0, 0⟩⟩,
      [.mark (hash b.name)]) := by
  rw [effects_step rfl, effects_step (effect_push hB (AList.lookup_insert _)),
    effects_step (effect_mark hB (AList.lookup_insert _)),
    effects_step (effect_pop hB.pop_marked (AList.lookup_insert _)), effects_step rfl,
    AList.insert_insert, AList.insert_insert, AList.insert_insert]
  rfl

theorem effects_of_pop (hB : B.Lawful)
    (hx : t.instances.lookup b = some (openedInstance (hash b.name))) :
    t.effects B hash [.stop b, .pop b, .destroy d] = (⟨t.cache,
      (t.instances.insert b
        ⟨[.pop, .stop, .start, .push], ⟨0, 1, 1⟩, some (hash b.name)⟩).erase d,
      t.points.update (hash b.name) fun q => q + ⟨0, 1, 1⟩⟩, [.stop (hash b.name)]) := by
  rw [effects_step (effect_stop hB hx),
    effects_step (effect_pop hB.pop_stopped (AList.lookup_insert _)), effects_step rfl,
    AList.insert_insert]
  rfl

theorem effects_of_pop_again (hB : B.Lawful) {x : Instance} (hx : t.instances.lookup b = some x)
    (hpopped : x.Popped) :
    t.effects B hash [.stop b, .pop b, .destroy d] = (⟨t.cache,
      (t.instances.insert b { x with calls := .pop :: .stop :: x.calls }).erase d,
      t.points⟩, []) := by
  have hstopped := hpopped.again (Or.inl rfl)
  rw [effects_step (effect_stop_of_popped hB hx hpopped),
    effects_step (effect_pop_of_popped hB (AList.lookup_insert _) hstopped),
    effects_step rfl, AList.insert_insert]
  rfl

/-- A pop does nothing, or it stops and pops one bundle and destroys one. -/
theorem pop_cases {c : BundleCache} (hc : Fresh c) (name : String) :
    Causal.call hash endToEnd c (.pop name) = (c, []) ∨
      ∃ b d bundles, b ∈ c.bundles ∧ (∀ b' ∈ bundles, b' ∈ c.bundles ∧ b' ≠ d) ∧
        Causal.call hash endToEnd c (.pop name) =
          (⟨bundles, c.next⟩, [.stop b, .pop b, .destroy d]) := by
  show popProgressPoint hash endToEnd c name = _ ∨ _
  by_cases h : endToEnd = true
  · left
    rw [popProgressPoint, if_pos h]
  · by_cases hname : name = ""
    · rcases List.eq_nil_or_concat c.bundles with hnil | ⟨front, b, hconcat⟩
      · left
        rw [popProgressPoint, if_neg h, if_pos hname, hnil]
        rfl
      · right
        rw [List.concat_eq_append] at hconcat
        have hlast : c.bundles.getLast? = some b := by
          rw [hconcat, List.getLast?_append, List.getLast?_singleton, Option.some_or]
        have hnodup := hc.nodup
        rw [hconcat] at hnodup
        refine ⟨b, b, front, ?_, ?_, ?_⟩
        · rw [hconcat]
          exact List.mem_append_right front (List.mem_singleton_self b)
        · intro b' hb'
          rw [hconcat]
          refine ⟨List.mem_append_left _ hb', fun heq => ?_⟩
          exact (List.nodup_append.mp hnodup).2.2 b' hb' b (List.mem_singleton_self b) heq
        · show popProgressPoint hash endToEnd c name = _
          rw [popProgressPoint, if_neg h, if_pos hname, hlast]
          dsimp only
          rw [BundleCache.popBack, hlast]
          dsimp only
          rw [hconcat, List.dropLast_concat]
    · cases hfound : c.bundles.reverse.findIdx? fun b => hash b.name == hash name with
      | none =>
        left
        rw [popProgressPoint, if_neg h, if_neg hname, hfound]
      | some i =>
        right
        obtain ⟨hlt, hb⟩ := getElem?_of_found hfound
        have hback : c.bundles.length - 1 - i < c.bundles.length := by omega
        rw [List.getElem?_eq_getElem hback] at hb
        refine ⟨_, _, c.bundles.eraseIdx i, List.getElem_mem hback, ?_,
          pop_of_found h hname hfound hb (List.getElem?_eq_getElem hlt)⟩
        intro b' hb'
        obtain ⟨j, hj, hne, rfl⟩ := List.mem_eraseIdx_iff_getElem.mp hb'
        refine ⟨List.getElem_mem hj, fun heq => hne ?_⟩
        exact hc.nodup.getElem_inj_iff.mp heq

/-- What a call leaves: tracked bundles, and in the map what its records amount to. -/
structure Recorded (hash : String → UInt64) (t : Thread) (outcome : Thread × List Record) :
    Prop where
  tracked : outcome.1.Tracked hash
  points : ∀ h, outcome.1.points.get h = t.points.get h + collected outcome.2 h

theorem get_update_id (m : ProgressMap) (h h' : UInt64) : (m.update h' id).get h = m.get h := by
  by_cases heq : h = h'
  · rw [heq]
    exact Tally.get_update_self m h' id
  · exact Tally.get_update_of_ne m heq id

theorem call_eq {k : Call} {cache : BundleCache} {es : List Effect} {t' : Thread}
    {recorded : List Record} (hcall : Causal.call hash endToEnd t.cache k = (cache, es))
    (heffects : t.effects B hash es = (t', recorded)) :
    t.call B hash endToEnd k = (⟨cache, t'.instances, t'.points⟩, recorded) := by
  rw [Thread.call, hcall]
  dsimp only
  rw [heffects]

theorem recorded_of_nothing (ht : t.Tracked hash) {k : Call}
    (hcall : Causal.call hash endToEnd t.cache k = (t.cache, [])) :
    Recorded hash t (t.call B hash endToEnd k) := by
  rw [call_eq hcall rfl]
  exact ⟨ht, fun h => (add_zero _).symm⟩

theorem recorded_push (hB : B.Lawful) (ht : t.Tracked hash) (name : String) :
    Recorded hash t (t.call B hash endToEnd (.push name)) := by
  by_cases h : endToEnd = true
  · exact recorded_of_nothing ht (if_pos h)
  · have hcall : Causal.call hash endToEnd t.cache (.push name) =
        ((t.cache.construct name).2, [.construct ⟨t.cache.next, name⟩,
          .push ⟨t.cache.next, name⟩, .start ⟨t.cache.next, name⟩]) := if_neg h
    rw [call_eq hcall (effects_of_push hB)]
    refine ⟨⟨ht.fresh.construct name, ?_⟩, ?_⟩
    · intro b hb
      rcases List.mem_append.mp hb with hb | hb
      · obtain ⟨x, hx, hstage⟩ := ht.bundles b hb
        have hne : b ≠ ⟨t.cache.next, name⟩ := fun heq => by
          have hlt := ht.fresh.below b hb
          rw [heq] at hlt
          exact Nat.lt_irrefl _ hlt
        exact ⟨x, (AList.lookup_insert_ne hne).trans hx, hstage⟩
      · rw [List.mem_singleton.mp hb]
        exact ⟨_, AList.lookup_insert _, Or.inl rfl⟩
    · intro h
      exact (get_update_id t.points h _).trans (add_zero _).symm

theorem recorded_mark (hB : B.Lawful) (ht : t.Tracked hash) (name : String) (force : Bool) :
    Recorded hash t (t.call B hash endToEnd (.mark name force)) := by
  by_cases h : (endToEnd && !force) = true
  · exact recorded_of_nothing ht (if_pos h)
  · have hcall : Causal.call hash endToEnd t.cache (.mark name force) =
        (⟨t.cache.bundles, t.cache.next + 1⟩, [.construct ⟨t.cache.next, name⟩,
          .push ⟨t.cache.next, name⟩, .mark ⟨t.cache.next, name⟩, .pop ⟨t.cache.next, name⟩,
          .destroy ⟨t.cache.next, name⟩]) := by
      show markProgressPoint endToEnd t.cache name force = _
      rw [markProgressPoint, if_neg h]
      dsimp only
      rw [popBack_construct]
      rfl
    rw [call_eq hcall (effects_of_mark hB)]
    refine ⟨⟨⟨ht.fresh.nodup, fun b hb => Nat.lt_succ_of_lt (ht.fresh.below b hb)⟩, ?_⟩, ?_⟩
    · intro b hb
      obtain ⟨x, hx, hstage⟩ := ht.bundles b hb
      have hne : b ≠ ⟨t.cache.next, name⟩ := fun heq => by
        have hlt := ht.fresh.below b hb
        rw [heq] at hlt
        exact Nat.lt_irrefl _ hlt
      exact ⟨x, ((AList.lookup_erase_ne hne).trans (AList.lookup_insert_ne hne)).trans hx, hstage⟩
    · intro h
      show Tally.get (Tally.update _ (hash name) _) h =
        t.points.get h + collected [.mark (hash name)] h
      by_cases heq : h = hash name
      · rw [heq, Tally.get_update_self, get_update_id, collected_mark_self]
      · rw [Tally.get_update_of_ne _ heq, get_update_id, collected_mark_of_ne heq, add_zero]

/-- The bundles that stay keep their instances, apart from the one popped. -/
theorem tracked_after_pop (ht : t.Tracked hash) {bundles : List Bundle} (hfresh : Fresh
    ⟨bundles, t.cache.next⟩) (hkept : ∀ b' ∈ bundles, b' ∈ t.cache.bundles ∧ b' ≠ d)
    {x : Instance} (hx : x.Popped) (points : ProgressMap) :
    Thread.Tracked hash
      ⟨⟨bundles, t.cache.next⟩, (t.instances.insert b x).erase d, points⟩ := by
  refine ⟨hfresh, fun b' hb' => ?_⟩
  obtain ⟨hmem, hne⟩ := hkept b' hb'
  show ∃ x', AList.lookup b' (AList.erase d (AList.insert b x t.instances)) = some x' ∧ _
  rw [AList.lookup_erase_ne hne]
  by_cases heq : b' = b
  · subst heq
    exact ⟨x, AList.lookup_insert _, Or.inr hx⟩
  · obtain ⟨x', hx', hstage⟩ := ht.bundles b' hmem
    exact ⟨x', (AList.lookup_insert_ne heq).trans hx', hstage⟩

theorem recorded_pop (hB : B.Lawful) (ht : t.Tracked hash) (name : String) :
    Recorded hash t (t.call B hash endToEnd (.pop name)) := by
  rcases pop_cases ht.fresh name with hcall | ⟨b, d, bundles, hb, hkept, hcall⟩
  · exact recorded_of_nothing ht hcall
  · have hfresh := @Fresh.call hash endToEnd t.cache ht.fresh (.pop name)
    rw [hcall] at hfresh
    obtain ⟨x, hx, hopened | hpopped⟩ := ht.bundles b hb
    · rw [hopened] at hx
      rw [call_eq hcall (effects_of_pop hB hx)]
      refine ⟨tracked_after_pop ht hfresh hkept ⟨[], fun _ hk => absurd hk List.not_mem_nil, rfl⟩ _,
        fun h => ?_⟩
      show Tally.get (Tally.update _ (hash b.name) _) h =
        t.points.get h + collected [.stop (hash b.name)] h
      by_cases heq : h = hash b.name
      · rw [heq, Tally.get_update_self, collected_stop_self]
      · rw [Tally.get_update_of_ne _ heq, collected_stop_of_ne heq, add_zero]
    · rw [call_eq hcall (effects_of_pop_again hB hx hpopped)]
      have hagain := (hpopped.again (Or.inl rfl)).again (Or.inr rfl)
      exact ⟨tracked_after_pop ht hfresh hkept hagain _, fun h => (add_zero _).symm⟩

theorem recorded_call (hB : B.Lawful) (ht : t.Tracked hash) (k : Call) :
    Recorded hash t (t.call B hash endToEnd k) := by
  cases k with
  | push name => exact recorded_push hB ht name
  | pop name => exact recorded_pop hB ht name
  | mark name force => exact recorded_mark hB ht name force

end Calls

/-! ## Runs -/

/-- The maps hold what was recorded since the last snapshot, and the snapshots what was recorded
before them. -/
structure Accounted (hash : String → UInt64) (s : State) : Prop where
  tracked : ∀ t ∈ s.threads, t.Tracked hash
  points : ∀ h, Tally.total (s.threads.map Thread.points) h = collected s.recorded h
  current : ∀ x, s.current = some x → ∀ h, x.initProgress.get h = collected x.before h
  finished : ∀ x ∈ s.finished, ∀ h,
    x.initProgress.get h = collected x.before h ∧ x.finiProgress.get h = collected x.within h

theorem accounted_init (threads : Nat) : Accounted hash (.init threads) := by
  refine ⟨fun t ht => ?_, fun h => ?_, fun _ h => (by cases h),
    fun _ h => absurd h List.not_mem_nil⟩
  · rw [List.eq_of_mem_replicate ht]
    exact tracked_empty
  · show Tally.total ((List.replicate threads Thread.empty).map Thread.points) h = 0
    rw [List.map_replicate]
    show (List.map _ (List.replicate threads (∅ : ProgressMap))).sum = 0
    rw [List.map_replicate, Tally.get_empty, List.sum_replicate, nsmul_zero]

/-- A snapshot holds what was recorded, and nothing is recorded after it. -/
theorem snapshot_spec {s : State} (hs : Accounted hash s) :
    (∀ h, s.snapshot.1.get h = collected s.recorded h) ∧ Accounted hash s.snapshot.2 := by
  refine ⟨fun h => (Tally.get_sum _ h).trans (hs.points h), ?_, fun h => ?_, hs.current,
    hs.finished⟩
  · intro t ht
    obtain ⟨t', ht', rfl⟩ := List.mem_map.mp ht
    exact ⟨(hs.tracked t' ht').fresh, (hs.tracked t' ht').bundles⟩
  · have hmap : s.snapshot.2.threads.map Thread.points =
        (s.threads.map Thread.points).map fun m => m.setAll 0 := by
      show (s.threads.map _).map _ = _
      rw [List.map_map, List.map_map]
      rfl
    rw [hmap, Tally.total_setAll_zero]
    rfl

theorem accounted_step (hB : B.Lawful) (s : State) (e : Event) (s' : State)
    (hs : Accounted hash s) (hstep : step B hash endToEnd s e = some s') : Accounted hash s' := by
  cases e with
  | call i k =>
    unfold step at hstep
    dsimp only at hstep
    split at hstep
    · cases hstep
    · next t hi =>
      cases hstep
      have hmem := List.mem_of_getElem? hi
      have hcall := @recorded_call B hash endToEnd t hB (hs.tracked t hmem) k
      refine ⟨fun t' ht' => ?_, fun h => ?_, hs.current, hs.finished⟩
      · rcases List.mem_or_eq_of_mem_set ht' with ht' | rfl
        · exact hs.tracked t' ht'
        · exact hcall.tracked
      · have hpoints : (s.threads.map Thread.points)[i]? = some t.points := by
          rw [List.getElem?_map, hi, Option.map_some]
        show Tally.total ((s.threads.set i _).map Thread.points) h =
          collected (s.recorded ++ _) h
        rw [List.map_set, Tally.total_set hpoints (hcall.points h), hs.points, collected_append]
  | start finalized =>
    unfold step at hstep
    dsimp only at hstep
    split at hstep
    · cases hstep
    · cases hstep
      obtain ⟨htaken, hafter⟩ := snapshot_spec hs
      refine ⟨hafter.tracked, hafter.points, fun x hx => ?_, hafter.finished⟩
      dsimp only at hx
      split at hx
      · cases hx
      · cases hx
        exact htaken
  | stop =>
    unfold step at hstep
    dsimp only at hstep
    split at hstep
    · cases hstep
    · next x hx =>
      cases hstep
      obtain ⟨htaken, hafter⟩ := snapshot_spec hs
      refine ⟨hafter.tracked, hafter.points, fun _ h => (by cases h), fun x' hx' => ?_⟩
      rcases List.mem_append.mp hx' with hx' | hx'
      · exact hs.finished x' hx'
      · rw [List.mem_singleton.mp hx']
        exact fun h => ⟨hs.current x hx h, htaken h⟩

theorem accounted_run (hB : B.Lawful) {threads : Nat} {events : List Event} {s : State}
    (hrun : runFrom (step B hash endToEnd) (.init threads) events = some s) :
    Accounted hash s :=
  invariant_of_run (fun s e s' hs _ hstep => accounted_step hB s e s' hs hstep)
    (accounted_init threads) (along_of_forall (fun _ _ => trivial) _ events) hrun

/-! ## Windows -/

theorem get_savedPoints (x : Experiment) (h : UInt64) :
    x.savedPoints.get h = x.finiProgress.get h - x.initProgress.get h :=
  Tally.get_combine sub_zero _ _ h

theorem scaling_eq_saved {x : Experiment} {e : UInt64 × ProgressPoint}
    (he : e ∈ x.scalingPoints) : e.2 = x.savedPoints.get e.1 := by
  obtain ⟨e', he', rfl⟩ := List.mem_map.mp he
  have hlookup : x.finiProgress.lookup e'.1 = some e'.2 := AList.mem_lookup_iff.mpr he'
  have hget : x.finiProgress.get e'.1 = e'.2 := by
    rw [Tally.get, hlookup]
    rfl
  rw [get_savedPoints]
  show e'.2 - _ = x.finiProgress.get e'.1 - _
  rw [hget]

/-- What was added since the snapshot before is taken off what was added in the window. -/
theorem collected_sub_eq_counted_iff (before within : List Record) (h : UInt64) :
    collected within h - collected before h = counted within h ↔
      Record.mark h ∉ before ∧ Record.stop h ∉ before ∧
        within.count (.start h) = within.count (.stop h) := by
  rw [ProgressPoint.ext_iff, ← List.count_eq_zero, ← List.count_eq_zero]
  show ((_ : Int) - _ = _ ∧ (_ : Int) - _ = _ ∧ (_ : Int) - _ = _) ↔ _
  unfold collected counted
  dsimp only
  omega

/-- Every point is charged its own window exactly when nothing was marked or stopped since the
snapshot before, and the window stops as often as it starts. -/
theorem charged_iff_quiet (hB : B.Lawful) (hash : String → UInt64) (endToEnd : Bool)
    (threads : Nat) (events : List Event) {s : State}
    (hrun : runFrom (step B hash endToEnd) (.init threads) events = some s) :
    ∀ x ∈ s.finished, x.Charged ↔ x.Quiet := by
  intro x hx
  have hfinished := (accounted_run hB hrun).finished x hx
  have hsaved : ∀ h, x.savedPoints.get h = collected x.within h - collected x.before h := by
    intro h
    rw [get_savedPoints, (hfinished h).1, (hfinished h).2]
  constructor
  · intro hcharged h
    rw [← collected_sub_eq_counted_iff, ← hsaved]
    exact hcharged.1 h
  · intro hquiet
    have hcounted : ∀ h, x.savedPoints.get h = counted x.within h := by
      intro h
      rw [hsaved, collected_sub_eq_counted_iff]
      exact hquiet h
    refine ⟨hcounted, fun e he => ?_⟩
    rw [scaling_eq_saved he]
    exact hcounted e.1

/-! ## Lines -/

theorem mem_pointLines {h : UInt64} {p : ProgressPoint} {line : Line}
    (hline : line ∈ pointLines endToEnd h p) :
    line = .throughputPoint h p.delta ∨
      line = .latencyPoint h p.getArrival p.departure (max p.getLatencyDelta 1) := by
  unfold pointLines at hline
  split at hline
  · exact absurd hline List.not_mem_nil
  · rcases List.mem_append.mp hline with hline | hline
    · split at hline
      · exact Or.inl (List.mem_singleton.mp hline)
      · exact absurd hline List.not_mem_nil
    · split at hline
      · exact Or.inr (List.mem_singleton.mp hline)
      · exact absurd hline List.not_mem_nil

theorem mem_progressLines {es : List (Sigma fun _ : UInt64 => ProgressPoint)} {line : Line}
    (hline : line ∈ progressLines endToEnd es) :
    ∃ e ∈ es, line ∈ pointLines endToEnd e.1 e.2 := by
  induction es with
  | nil => exact absurd hline List.not_mem_nil
  | cons e es ih =>
    unfold progressLines at hline
    dsimp only at hline
    split at hline
    · exact ⟨e, List.mem_cons_self, hline⟩
    · rcases List.mem_append.mp hline with hline | hline
      · exact ⟨e, List.mem_cons_self, hline⟩
      · obtain ⟨e', he', hline'⟩ := ih hline
        exact ⟨e', List.mem_cons_of_mem e he', hline'⟩

/-- The throughput lines of an experiment charged its own window tell the marks. -/
theorem throughput_of_charged {x : Experiment} (hx : x.Charged) {h : UInt64} {delta : Int}
    (hline : .throughputPoint h delta ∈ progressLines endToEnd x.savedPoints.entries) :
    delta = x.within.count (.mark h) := by
  obtain ⟨e, he, hmem⟩ := mem_progressLines hline
  rcases mem_pointLines hmem with heq | heq
  · injection heq with hhash hdelta
    have hlookup : x.savedPoints.lookup e.1 = some e.2 := AList.mem_lookup_iff.mpr he
    have hcounted := hx.1 e.1
    rw [Tally.get, hlookup, Option.getD_some] at hcounted
    rw [hdelta, hcounted, hhash]
    rfl
  · cases heq

/-! ## A bundle with two flags -/

/-- Whether the bundle is pushed, and whether its component is running. -/
def bundleFlags : List Operation → Bool × Bool
  | [] => (false, false)
  | .push :: calls => (true, (bundleFlags calls).2)
  | .start :: calls => ((bundleFlags calls).1, true)
  | .mark :: calls => bundleFlags calls
  | .stop :: calls => ((bundleFlags calls).1, false)
  | .pop :: calls => (false, (bundleFlags calls).2)

def flaggedBundle : ComponentBundle where
  passes calls op :=
    match op with
    | .push => !(bundleFlags calls).1
    | .start => !(bundleFlags calls).2
    | .mark => true
    | .stop => (bundleFlags calls).2
    | .pop => (bundleFlags calls).1
  settled calls := !(bundleFlags calls).2

theorem bundleFlags_popped {later : List Operation} (h : ∀ k ∈ later, k = .stop ∨ k = .pop) :
    bundleFlags (later ++ [.pop, .stop, .start, .push]) = (false, false) := by
  induction later with
  | nil => rfl
  | cons k later ih =>
    have hlater := ih fun k' hk' => h k' (List.mem_cons_of_mem k hk')
    rcases h k List.mem_cons_self with rfl | rfl
    · rw [List.cons_append, bundleFlags, hlater]
    · rw [List.cons_append, bundleFlags, hlater]

theorem flaggedBundle_lawful : flaggedBundle.Lawful where
  push := rfl
  start := rfl
  mark := rfl
  stop := rfl
  pop_marked := ⟨rfl, rfl⟩
  pop_stopped := ⟨rfl, rfl⟩
  popped later op h := by
    have hflags := bundleFlags_popped fun k hk => h k (List.mem_cons_of_mem op hk)
    rcases h op List.mem_cons_self with rfl | rfl
    · show (bundleFlags _).2 = false
      rw [hflags]
    · show (bundleFlags _).1 = false
      rw [hflags]

def nameLength (name : String) : UInt64 := UInt64.ofNat name.length

def markedTwice : List Event :=
  [.call 0 (.mark "a" false), .start false, .call 0 (.mark "a" false), .stop]

theorem charged_iff_quiet_markedTwice :
    ∃ s, runFrom (step flaggedBundle nameLength false) (.init 1) markedTwice = some s ∧
      ∀ x ∈ s.finished, x.Charged ↔ x.Quiet :=
  ⟨_, rfl, charged_iff_quiet flaggedBundle_lawful nameLength false 1 markedTwice rfl⟩

/-- A point marked once before and once within an experiment is charged nothing. -/
theorem not_charged_markedTwice :
    ¬∀ B : ComponentBundle, B.Lawful → ∀ (hash : String → UInt64) (endToEnd : Bool)
      (threads : Nat) (events : List Event) (s : State),
      runFrom (step B hash endToEnd) (.init threads) events = some s →
        ∀ x ∈ s.finished, x.Charged := by
  intro h
  have hrun := h flaggedBundle flaggedBundle_lawful nameLength false 1 markedTwice _ rfl
  have hcharged := hrun _ (List.mem_singleton_self _)
  exact absurd (hcharged.1 1) (by decide)

end Causal
end Rocprofsys
