import Rocprofsys.Dl.ThreadTrace

namespace Rocprofsys
namespace Dl

open Base

/-! ## Both ends of a region -/

section BothEnds

variable {σ : Type}

/-- The pop of every region is marked as its push was; `opened` has the marks of the open
regions, innermost first. -/
def BothEnds (next : σ → Call → σ) (mark : σ → Call → Bool) :
    σ → List Bool → List Call → Prop
  | _, _, [] => True
  | s, opened, c :: calls =>
    if c.opens.isSome then BothEnds next mark (next s c) (mark s c :: opened) calls
    else if c.closes.isSome then
      opened.head? = some (mark s c) ∧ BothEnds next mark (next s c) opened.tail calls
    else BothEnds next mark (next s c) opened calls

variable {next : σ → Call → σ} {mark : σ → Call → Bool} {s : σ} {opened : List Bool} {c : Call}
  {calls : List Call} {region : Region}

theorem bothEnds_cons_of_opens (h : c.opens = some region) :
    BothEnds next mark s opened (c :: calls) ↔
      BothEnds next mark (next s c) (mark s c :: opened) calls := by
  rw [BothEnds, h]
  rfl

theorem bothEnds_cons_of_closes (hopens : c.opens = none) (hcloses : c.closes = some region) :
    BothEnds next mark s opened (c :: calls) ↔
      opened.head? = some (mark s c) ∧ BothEnds next mark (next s c) opened.tail calls := by
  rw [BothEnds, hopens, hcloses]
  rfl

theorem bothEnds_cons_of_neither (hopens : c.opens = none) (hcloses : c.closes = none) :
    BothEnds next mark s opened (c :: calls) ↔ BothEnds next mark (next s c) opened calls := by
  rw [BothEnds, hopens, hcloses]
  rfl

end BothEnds

/-- A pop is forwarded exactly if the push of its region was. -/
def Thread.Paired (t : Thread) (opened : List Bool) (calls : List Call) : Prop :=
  BothEnds (fun t c => (t.call c).1) (fun t c => (t.call c).2.isSome) t opened calls

/-- The forwarded calls are properly nested, with both ends of each region or none. -/
structure Thread.Balanced (t : Thread) (calls : List Call) : Prop where
  nested : Nested [] (t.forwarded calls)
  paired : t.Paired [] calls

/-- Every region is closed under the setting it was opened under, the setting being the one
that the last start or stop asked for. -/
def SameSetting (on : Bool) (opened : List Bool) (calls : List Call) : Prop :=
  BothEnds (fun on c => c.setting.getD on) (fun on _ => on) on opened calls

/-! ## Forwarding whole regions -/

/-- Leaving out both ends of some regions keeps the nesting. -/
theorem nested_forwarded {t : Thread} {opened : List (Region × Bool)} {calls : List Call}
    (hnested : Nested (opened.map Prod.fst) calls)
    (hpaired : t.Paired (opened.map Prod.snd) calls) :
    Nested ((opened.filter Prod.snd).map Prod.fst) (t.forwarded calls) := by
  induction calls generalizing t opened with
  | nil => rfl
  | cons c calls ih =>
    rw [Thread.forwarded]
    rcases c.cases with ⟨region, hopens, hcloses, -⟩ | ⟨region, hopens, hcloses, -⟩ |
      ⟨on, hopens, hcloses, hsetting⟩
    · have hrest := (nested_cons_of_opens hopens).mp hnested
      have hpairs := (bothEnds_cons_of_opens hopens).mp hpaired
      have htail := @ih (t.call c).1 ((region, (t.call c).2.isSome) :: opened) hrest hpairs
      rcases t.forwards_same c with hnone | hsome
      · rw [hnone] at htail ⊢
        exact htail
      · rw [hsome] at htail ⊢
        exact (nested_cons_of_opens hopens).mpr htail
    · obtain ⟨hhead, hrest⟩ := (nested_cons_of_closes hopens hcloses).mp hnested
      obtain ⟨hmark, hpairs⟩ := (bothEnds_cons_of_closes hopens hcloses).mp hpaired
      cases opened with
      | nil => cases hhead
      | cons entry opened =>
        obtain ⟨top, mark⟩ := entry
        cases hhead
        have htail := @ih (t.call c).1 opened hrest hpairs
        rcases t.forwards_same c with hnone | hsome
        · rw [hnone] at hmark ⊢
          cases hmark
          exact htail
        · rw [hsome] at hmark ⊢
          cases hmark
          exact (nested_cons_of_closes hopens hcloses).mpr ⟨rfl, htail⟩
    · rw [(Thread.call_of_setting hsetting).1]
      exact ih ((nested_cons_of_neither hopens hcloses).mp hnested)
        ((bothEnds_cons_of_neither hopens hcloses).mp hpaired)

/-! ## The setting decides -/

/-- As long as both ends of each region agree, the flag is the setting, and the count covers
the regions that were not forwarded, so that no pop starts tracing. -/
theorem paired_iff_sameSetting {t : Thread} {on : Bool} {opened : List Bool}
    (hactive : t.active = true) (hon : t.threadEnabled = on)
    (hcount : (opened.count false : Int) ≤ t.threadCount) {calls : List Call} :
    t.Paired opened calls ↔ SameSetting on opened calls := by
  induction calls generalizing t on opened with
  | nil => exact Iff.rfl
  | cons c calls ih =>
    rcases c.cases with ⟨region, hopens, -, hsetting⟩ | ⟨region, hopens, hcloses, hsetting⟩ |
      ⟨on', hopens, hcloses, hsetting⟩
    · rw [Thread.Paired, SameSetting, bothEnds_cons_of_opens hopens,
        bothEnds_cons_of_opens hopens, hsetting]
      cases on with
      | true =>
        rw [Thread.call_of_enabled hactive hon hsetting]
        refine @ih t true _ hactive hon ?_
        show ((List.count false (true :: opened) : Nat) : Int) ≤ t.threadCount
        rw [List.count_cons_of_ne (by decide)]
        exact hcount
      | false =>
        rw [Thread.push_of_disabled hactive hon hopens]
        refine @ih t.incrementCount false _ hactive hon ?_
        show ((List.count false (false :: opened) : Nat) : Int) ≤ t.threadCount + 1
        rw [List.count_cons_self]
        omega
    · rw [Thread.Paired, SameSetting, bothEnds_cons_of_closes hopens hcloses,
        bothEnds_cons_of_closes hopens hcloses, hsetting]
      cases on with
      | true =>
        rw [Thread.call_of_enabled hactive hon hsetting]
        refine and_congr_right fun hhead => @ih t true _ hactive hon ?_
        have hle := (List.tail_sublist opened).count_le false
        omega
      | false =>
        rw [Thread.pop_of_disabled hactive hon hcloses]
        refine and_congr_right fun hhead => ?_
        -- the region was not forwarded, so that it is still counted
        cases opened with
        | nil => cases hhead
        | cons mark opened =>
          obtain rfl : mark = false := Option.some.inj hhead
          rw [List.count_cons_self] at hcount
          have hne : t.threadCount ≠ 0 := by omega
          split
          · refine @ih t.incrementCount false opened hactive hon ?_
            show ((opened.count false : Nat) : Int) ≤ t.threadCount + 1
            omega
          · have hdecrement : t.decrementCount = { t with threadCount := t.threadCount - 1 } :=
              if_neg hne
            rw [hdecrement]
            refine @ih { t with threadCount := t.threadCount - 1 } false opened hactive hon ?_
            show ((opened.count false : Nat) : Int) ≤ t.threadCount - 1
            omega
    · obtain ⟨hnone, honly, hsame⟩ := @Thread.call_of_setting t c on' hsetting
      rw [Thread.Paired, SameSetting, bothEnds_cons_of_neither hopens hcloses,
        bothEnds_cons_of_neither hopens hcloses, hsetting]
      refine ih ((t.active_call c).trans hactive) honly ?_
      rw [hsame]
      exact hcount

/-- Forwarding is balanced exactly when no region is closed under another setting than the
one it was opened under. -/
theorem balanced_iff_sameSetting (enabled : Bool) {calls : List Call} (h : Nested [] calls) :
    (Thread.start enabled).Balanced calls ↔ SameSetting enabled [] calls := by
  have hiff := @paired_iff_sameSetting (Thread.start enabled) enabled [] rfl rfl (Int.le_refl 0) calls
  refine ⟨fun hbalanced => hiff.mp hbalanced.paired, fun hsetting => ?_⟩
  have hpaired := hiff.mpr hsetting
  exact ⟨@nested_forwarded (Thread.start enabled) [] calls h hpaired, hpaired⟩

theorem balanced_iff_sameSetting_loop :
    Nested [] [.pushTrace "main", .stopThreadTrace, .pushTrace "loop", .popTrace "loop",
        .startThreadTrace, .popTrace "main"] ∧
      ((Thread.start true).Balanced [.pushTrace "main", .stopThreadTrace, .pushTrace "loop",
          .popTrace "loop", .startThreadTrace, .popTrace "main"] ↔
        SameSetting true [] [.pushTrace "main", .stopThreadTrace, .pushTrace "loop",
          .popTrace "loop", .startThreadTrace, .popTrace "main"]) :=
  ⟨by decide, balanced_iff_sameSetting true (by decide)⟩

/-- A stop inside of a region keeps its pop from the backend. -/
theorem not_balanced_stopInside :
    Nested [] [.pushTrace "main", .stopThreadTrace, .popTrace "main"] ∧
      ¬(Thread.start true).Balanced [.pushTrace "main", .stopThreadTrace, .popTrace "main"] := by
  refine ⟨by decide, fun h => ?_⟩
  obtain ⟨hhead, -⟩ := h.paired
  cases hhead

end Dl
end Rocprofsys
