import Rocprofsys.Base.OrderedSet
import Rocprofsys.Base.Run
import Mathlib.Algebra.Order.Ring.Nat
import Mathlib.Logic.Function.Basic

namespace Rocprofsys
namespace Components
namespace MpiGotcha

open Base

/-! ## Records -/

/-- The greatest `uintptr_t`. -/
def nullComm : ℕ := 18446744073709551615

structure CommRankData where
  rank : ℤ := -1
  size : ℤ := -1
  comm : ℕ := nullComm
  deriving DecidableEq, Repr

namespace CommRankData

def updated (d : CommRankData) : Bool :=
  d.comm ≠ nullComm && decide (d.rank ≥ 0) && decide (d.size > 0)

/-- `operator==`. -/
def same (lhs rhs : CommRankData) : Bool :=
  decide ((lhs.updated, lhs.rank, lhs.size, lhs.comm) = (rhs.updated, rhs.rank, rhs.size, rhs.comm))

/-- `operator>`; `none` is its exception under continuous integration. -/
def greater (ci : Bool) (lhs rhs : CommRankData) : Option Bool :=
  if ci && !lhs.updated && !rhs.updated then none
  else if lhs.updated && !rhs.updated then some true
  else if !lhs.updated && rhs.updated then some false
  else if lhs.size ≠ rhs.size then some (decide (lhs.size > rhs.size))
  else if lhs.rank ≠ rhs.rank then some (decide (lhs.rank > rhs.rank))
  -- The lesser communicator is the greater one.
  else some (decide (lhs.comm < rhs.comm))

end CommRankData

/-! ## Calls -/

inductive CommFunction where
  | rank
  | size
  deriving DecidableEq, Repr

/-- A successful `MPI_Comm_rank` or `MPI_Comm_size`: the component that audits it, the thread
that makes it, where the result goes, and what memory holds when it returns. -/
structure Call where
  function : CommFunction
  comm : ℕ
  component : ℕ
  thread : ℕ
  val : ℕ
  memory : ℕ → ℤ

inductive Event where
  | call (c : Call)
  | update

/-- The members of a component. -/
structure Component where
  rank : ℤ := 0
  size : ℤ := 1
  rankPtr : Option ℕ := none
  sizePtr : Option ℕ := none
  commVal : ℕ := nullComm
  deriving DecidableEq, Repr

structure State where
  components : ℕ → Component := fun _ => {}
  records : OrderedMap ℕ CommRankData := ∅
  /-- `mproc_comm_record`. -/
  mproc : CommRankData := {}
  /-- `last_comm_record`. -/
  last : CommRankData := {}
  numUpdates : ℕ → ℕ := fun _ => 0
  /-- The rank and the size that the last event published. -/
  published : Option (ℤ × ℤ) := none
  /-- The calls so far, the last one first. -/
  calls : List Call := []

/-- Whether comparisons are checked, and `ROCPROFSYS_MPI_MAX_COMM_UPDATES`. -/
structure Config where
  ci : Bool := false
  disableAfter : ℕ := 4

/-- One round of the loop of `update`. -/
def pick (ci : Bool) (data : CommRankData) (itr : ℕ × CommRankData) : Option CommRankData :=
  if itr.1 = nullComm then some data
  else if data.comm = nullComm then some itr.2
  else (CommRankData.greater ci itr.2 data).map fun gt => if gt then itr.2 else data

/-- The loop of `update` over the records. -/
def greatest (ci : Bool) (mproc : CommRankData) (records : OrderedMap ℕ CommRankData) :
    Option CommRankData :=
  records.items.foldlM (pick ci) mproc

def update (cfg : Config) (s : State) : Option State :=
  (greatest cfg.ci s.mproc s.records).map fun data =>
    if data.updated && !data.same s.last then
      { s with last := data, published := some (data.rank, data.size) }
    else s

/-- The audit before a call. -/
def auditIncoming (c : Call) (o : Component) : Component :=
  match c.function with
  | .rank => { o with commVal := c.comm, rankPtr := some c.val }
  | .size => { o with commVal := c.comm, sizePtr := some c.val }

/-- `_get_rank`. -/
def getRank (memory : ℕ → ℤ) (o : Component) : ℤ :=
  match o.rankPtr with
  | some ptr => max (memory ptr) o.rank
  | none => o.rank

/-- `_get_size`. -/
def getSize (memory : ℕ → ℤ) (o : Component) : ℤ :=
  match o.sizePtr with
  | some ptr => max (memory ptr) o.size
  | none => max o.size (getRank memory o + 1)

/-- The record and the component after the values of a call are taken into both. -/
def takeValues (c : Call) (o : Component) (entry : CommRankData) : Component × CommRankData :=
  let entry := { entry with comm := o.commVal }
  let rank := max entry.rank (getRank c.memory o)
  let o := { o with rank := rank }
  let size := max entry.size (getSize c.memory o)
  ({ o with size := size }, { entry with rank := rank, size := size })

/-- The audit after a call. -/
def auditOutgoing (cfg : Config) (c : Call) (s : State) : Option State :=
  let o := s.components c.component
  if o.commVal = nullComm then some s
  else
    let taken := takeValues c o ((OrderedMap.get? s.records o.commVal).getD {})
    let s := { s with
      components := Function.update s.components c.component taken.1
      records := OrderedMap.set s.records o.commVal taken.2 }
    if taken.2.updated then
      let updates := s.numUpdates c.thread
      let s := { s with numUpdates := Function.update s.numUpdates c.thread (updates + 1) }
      if updates < cfg.disableAfter then update cfg s else some s
    else some s

def step (cfg : Config) (s : State) : Event → Option State
  | .call c =>
    let s := { s with
      published := none
      calls := c :: s.calls
      components := Function.update s.components c.component
        (auditIncoming c (s.components c.component)) }
    auditOutgoing cfg c s
  | .update => update cfg { s with published := none }

/-! ## What is asked for -/

/-- MPI has returned a value for a communicator. -/
def Returned (calls : List Call) (f : CommFunction) (comm : ℕ) (v : ℤ) : Prop :=
  ∃ c ∈ calls, c.function = f ∧ c.comm = comm ∧ c.memory c.val = v

/-- A record holds nothing but values that MPI has returned for its communicator. -/
def OfReturned (calls : List Call) (comm : ℕ) (d : CommRankData) : Prop :=
  (d.rank = -1 ∨ Returned calls .rank comm d.rank) ∧
    (d.size = -1 ∨ Returned calls .size comm d.size)

/-- A rank and a size are those of one communicator, and none is larger of those of which both
are known. -/
def OfLargest (calls : List Call) (p : ℤ × ℤ) : Prop :=
  ∃ comm, comm ≠ nullComm ∧ Returned calls .rank comm p.1 ∧ Returned calls .size comm p.2 ∧
    ∀ other rank size, other ≠ nullComm → Returned calls .rank other rank →
      Returned calls .size other size → size ≤ p.2

/-- What holds after an event. -/
structure Right (s : State) : Prop where
  records : ∀ comm d, OrderedMap.get? s.records comm = some d → OfReturned s.calls comm d
  published : ∀ p, s.published = some p → OfLargest s.calls p

/-- The events that neither record nor publish anything. -/
def Silent (mproc : CommRankData) : Event → Prop
  | .call c => c.comm = nullComm
  | .update => mproc.updated = false

/-! ## The first call that is recorded -/

variable {cfg : Config} {s s' : State} {mproc : CommRankData}

/-- Nothing has been recorded or published yet. -/
structure Unrecorded (mproc : CommRankData) (s : State) : Prop where
  records : s.records = ∅
  mproc : s.mproc = mproc
  last : s.last = {}
  components : ∀ i, (s.components i).rank = 0 ∧ (s.components i).size = 1
  calls : ∀ c ∈ s.calls, c.comm = nullComm

theorem unrecorded_start (mproc : CommRankData) : Unrecorded mproc { mproc := mproc } where
  records := rfl
  mproc := rfl
  last := rfl
  components _ := ⟨rfl, rfl⟩
  calls _ hc := absurd hc List.not_mem_nil

theorem update_frame (h : update cfg s = some s') :
    s'.records = s.records ∧ s'.calls = s.calls ∧ s'.mproc = s.mproc ∧
      s'.components = s.components := by
  obtain ⟨data, _, rfl⟩ := Option.map_eq_some_iff.mp h
  split <;> exact ⟨rfl, rfl, rfl, rfl⟩

theorem auditIncoming_values (c : Call) (o : Component) :
    (auditIncoming c o).rank = o.rank ∧ (auditIncoming c o).size = o.size ∧
      (auditIncoming c o).commVal = c.comm := by
  unfold auditIncoming
  split <;> exact ⟨rfl, rfl, rfl⟩

theorem rank_le_getRank (memory : ℕ → ℤ) (o : Component) : o.rank ≤ getRank memory o := by
  unfold getRank
  split
  · exact le_max_right _ _
  · exact le_refl _

theorem size_le_getSize (memory : ℕ → ℤ) (o : Component) : o.size ≤ getSize memory o := by
  unfold getSize
  split
  · exact le_max_right _ _
  · exact le_max_left _ _

/-- Whatever its pointers read, a record takes at least what its component has. -/
theorem le_takeValues (c : Call) (o : Component) (entry : CommRankData) :
    o.rank ≤ (takeValues c o entry).2.rank ∧ o.size ≤ (takeValues c o entry).2.size := by
  constructor
  · exact (rank_le_getRank c.memory o).trans (le_max_right _ _)
  · refine le_trans ?_ (le_max_right _ _)
    exact size_le_getSize c.memory { o with rank := max entry.rank (getRank c.memory o) }

/-- A call of a recorded communicator, with what the update after it may do. -/
theorem step_call {c : Call} (hc : c.comm ≠ nullComm) (h : step cfg s (.call c) = some s') :
    ∃ taken, taken = takeValues c (auditIncoming c (s.components c.component))
        ((OrderedMap.get? s.records c.comm).getD {}) ∧
      s'.records = OrderedMap.set s.records c.comm taken.2 ∧ s'.calls = c :: s.calls ∧
      s'.mproc = s.mproc ∧
      s'.components = Function.update (Function.update s.components c.component
        (auditIncoming c (s.components c.component))) c.component taken.1 := by
  refine ⟨_, rfl, ?_⟩
  obtain ⟨-, -, hcomm⟩ := auditIncoming_values c (s.components c.component)
  rw [step, auditOutgoing] at h
  simp only [Function.update_self, hcomm] at h
  rw [if_neg hc] at h
  split_ifs at h with hupdated hnum
  · obtain ⟨hrecords, hcalls, hmproc, hcomponents⟩ := update_frame h
    exact ⟨hrecords, hcalls, hmproc, hcomponents⟩
  · cases h
    exact ⟨rfl, rfl, rfl, rfl⟩
  · cases h
    exact ⟨rfl, rfl, rfl, rfl⟩

/-- The first call of a recorded communicator makes up the value that is not asked for. -/
theorem not_right_of_call (hs : Unrecorded mproc s) {c : Call} (hc : c.comm ≠ nullComm)
    (h : step cfg s (.call c) = some s') : ¬ Right s' := by
  intro hright
  obtain ⟨taken, htaken, hrecords, hcalls, -, -⟩ := step_call hc h
  obtain ⟨hrank, hsize⟩ := le_takeValues c (auditIncoming c (s.components c.component))
    ((OrderedMap.get? s.records c.comm).getD {})
  obtain ⟨hrankOld, hsizeOld, -⟩ := auditIncoming_values c (s.components c.component)
  rw [hrankOld, (hs.components c.component).1, ← htaken] at hrank
  rw [hsizeOld, (hs.components c.component).2, ← htaken] at hsize
  have hget : OrderedMap.get? s'.records c.comm = some taken.2 := by
    rw [hrecords, OrderedMap.get?_set, if_pos rfl]
  -- Only this call has returned something for its communicator.
  have hreturned : ∀ f v, Returned s'.calls f c.comm v → c.function = f := by
    intro f v hret
    obtain ⟨c', hc', hf, hcomm, -⟩ := hret
    rw [hcalls] at hc'
    rcases List.mem_cons.mp hc' with rfl | hold
    · exact hf
    · exact absurd (hcomm.symm.trans (hs.calls c' hold)) hc
  obtain ⟨hofRank, hofSize⟩ := hright.records c.comm taken.2 hget
  cases hfunction : c.function with
  | rank =>
    rcases hofSize with hnone | hret
    · omega
    · exact absurd (hfunction.symm.trans (hreturned _ _ hret)) (by decide)
  | size =>
    rcases hofRank with hnone | hret
    · omega
    · exact absurd (hfunction.symm.trans (hreturned _ _ hret)) (by decide)

theorem update_of_greatest {data : CommRankData}
    (h : greatest cfg.ci s.mproc s.records = some data) :
    update cfg s = some (if data.updated && !data.same s.last then
      { s with last := data, published := some (data.rank, data.size) } else s) := by
  rw [update, h]
  rfl

theorem greatest_empty (ci : Bool) (mproc : CommRankData) : greatest ci mproc ∅ = some mproc := rfl

/-- Before anything is recorded, an update publishes what was known of the processes. -/
theorem not_right_of_update (hs : Unrecorded mproc s) (hmproc : mproc.updated = true)
    (h : step cfg s .update = some s') : ¬ Right s' := by
  intro hright
  have hsame : mproc.same ({} : CommRankData) = false := by
    unfold CommRankData.same
    rw [hmproc]
    exact decide_eq_false fun heq => absurd (Prod.mk.inj heq).1 (by decide)
  have hgreatest : greatest cfg.ci s.mproc s.records = some mproc := by
    rw [hs.records, hs.mproc, greatest_empty]
  rw [step, update_of_greatest (s := { s with published := none }) hgreatest] at h
  have hnew : (mproc.updated && !mproc.same s.last) = true := by
    rw [hmproc, hs.last, hsame]
    rfl
  rw [if_pos hnew] at h
  cases h
  obtain ⟨comm, hcomm, hret, -, -⟩ := hright.published (mproc.rank, mproc.size) rfl
  obtain ⟨c, hc, -, rfl, -⟩ := hret
  exact hcomm (hs.calls c hc)

theorem right_of_unrecorded (hs : Unrecorded mproc s) (hpublished : s.published = none) :
    Right s where
  records comm d hget := by
    rw [hs.records] at hget
    cases hget
  published p hp := by
    rw [hpublished] at hp
    cases hp

theorem unrecorded_of_silent {e : Event} (hs : Unrecorded mproc s) (he : Silent mproc e) :
    ∃ s', step cfg s e = some s' ∧ Right s' ∧ Unrecorded mproc s' := by
  cases e with
  | call c =>
    have hnull : c.comm = nullComm := he
    obtain ⟨hrank, hsize, hcomm⟩ := auditIncoming_values c (s.components c.component)
    have hcomponents : ∀ i, (Function.update s.components c.component
        (auditIncoming c (s.components c.component)) i).rank = 0 ∧
        (Function.update s.components c.component
          (auditIncoming c (s.components c.component)) i).size = 1 := by
      intro i
      by_cases hi : i = c.component
      · rw [hi, Function.update_self, hrank, hsize]
        exact hs.components c.component
      · rw [Function.update_of_ne hi]
        exact hs.components i
    have hstep : step cfg s (.call c) = some { s with
        published := none
        calls := c :: s.calls
        components := Function.update s.components c.component
          (auditIncoming c (s.components c.component)) } := by
      rw [step, auditOutgoing]
      simp only [Function.update_self, hcomm]
      rw [if_pos hnull]
    have hs' : Unrecorded mproc { s with
        published := none
        calls := c :: s.calls
        components := Function.update s.components c.component
          (auditIncoming c (s.components c.component)) } :=
      ⟨hs.records, hs.mproc, hs.last, hcomponents,
        List.forall_mem_cons.mpr ⟨hnull, hs.calls⟩⟩
    exact ⟨_, hstep, right_of_unrecorded hs' rfl, hs'⟩
  | update =>
    have hold : mproc.updated = false := he
    have hgreatest : greatest cfg.ci s.mproc s.records = some mproc := by
      rw [hs.records, hs.mproc, greatest_empty]
    have hstep : step cfg s .update = some { s with published := none } := by
      rw [step, update_of_greatest (s := { s with published := none }) hgreatest, hold]
      rfl
    have hs' : Unrecorded mproc { s with published := none } :=
      ⟨hs.records, hs.mproc, hs.last, hs.components, hs.calls⟩
    exact ⟨_, hstep, right_of_unrecorded hs' rfl, hs'⟩

/-- A run records and publishes what it should if and only if it records and publishes nothing:
the first call of a communicator already leaves a value in its record that MPI has not returned. -/
theorem runsWith_right_iff (cfg : Config) (mproc : CommRankData) (events : List Event) :
    RunsWith (step cfg) (fun _ s => Right s) { mproc := mproc } events ↔
      ∀ e ∈ events, Silent mproc e := by
  refine runsWith_iff_forall (Unrecorded mproc) ?_ ?_ (unrecorded_start mproc)
  · exact fun s e hs he => unrecorded_of_silent hs he
  · intro s e s' hs hloud hstep
    cases e with
    | call c => exact not_right_of_call hs hloud hstep
    | update => exact not_right_of_update hs (eq_true_of_ne_false hloud) hstep

/-- The third of four processes asks for the size of its communicator first. -/
def sizeFirst : Call where
  function := .size
  comm := 1
  component := 0
  thread := 0
  val := 100
  memory _ := 4

/-- It is published as the process of rank 0. -/
theorem published_sizeFirst : ∃ s, runFrom (step {}) {} [.call sizeFirst] = some s ∧
    s.published = some (0, 4) ∧ OrderedMap.get? s.records 1 = some ⟨0, 4, 1⟩ ∧ ¬ Right s := by
  refine ⟨_, rfl, rfl, rfl, fun hright => ?_⟩
  rcases (hright.records 1 ⟨0, 4, 1⟩ rfl).1 with hnone | hret
  · exact absurd hnone (by decide)
  · obtain ⟨c, hc, hfunction, -, -⟩ := hret
    rw [List.mem_singleton.mp hc] at hfunction
    cases hfunction

/-! ## Calls with components of their own -/

/-- The ranks and the sizes that MPI tells, which do not change. -/
structure World where
  rank : ℕ → ℤ
  size : ℕ → ℤ
  nonneg : ∀ comm, 0 ≤ rank comm
  lt : ∀ comm, rank comm < size comm

namespace World

variable (w : World)

def value (f : CommFunction) (comm : ℕ) : ℤ :=
  match f with
  | .rank => w.rank comm
  | .size => w.size comm

/-- The call returns the value of its communicator. -/
def Tells (c : Call) : Prop := c.memory c.val = w.value c.function c.comm

def asked (calls : List Call) (f : CommFunction) (comm : ℕ) : Bool :=
  calls.any fun c => c.function == f && c.comm == comm

/-- What the record of a communicator has: a rank of 0 and the least possible size stand for what
has not been asked. -/
def known (calls : List Call) (comm : ℕ) : Option CommRankData :=
  if asked calls .rank comm || asked calls .size comm then
    some ⟨if asked calls .rank comm then w.rank comm else 0,
      if asked calls .size comm then w.size comm else w.rank comm + 1, comm⟩
  else none

end World

/-- The records are those of the values that were asked, and a component that has not audited is
as it was made. -/
structure Known (w : World) (s : State) : Prop where
  records : ∀ comm, comm ≠ nullComm → OrderedMap.get? s.records comm = w.known s.calls comm
  null : OrderedMap.get? s.records nullComm = none
  components : ∀ i, i ∉ s.calls.map Call.component → s.components i = {}
  tells : ∀ c ∈ s.calls, w.Tells c

theorem known_cons_of_ne (w : World) (calls : List Call) {c : Call} {comm : ℕ}
    (h : c.comm ≠ comm) : w.known (c :: calls) comm = w.known calls comm := by
  have hasked : ∀ f, World.asked (c :: calls) f comm = World.asked calls f comm := by
    intro f
    rw [World.asked, List.any_cons, beq_eq_false_iff_ne.mpr h, Bool.and_false, Bool.false_or]
    rfl
  unfold World.known
  rw [hasked, hasked]

theorem known_takeValues {w : World} {calls : List Call} {c : Call} (htells : w.Tells c) :
    w.known (c :: calls) c.comm =
      some (takeValues c (auditIncoming c {}) ((w.known calls c.comm).getD {})).2 := by
  have hnonneg := w.nonneg c.comm
  have hlt := w.lt c.comm
  have hasked : ∀ f, World.asked (c :: calls) f c.comm =
      (c.function == f || World.asked calls f c.comm) := by
    intro f
    rw [World.asked, List.any_cons, beq_self_eq_true, Bool.and_true]
    rfl
  unfold World.known
  rw [hasked, hasked]
  cases hfunction : c.function with
  | rank =>
    have haudit : auditIncoming c {} = { commVal := c.comm, rankPtr := some c.val } := by
      rw [auditIncoming, hfunction]
    have hvalue : c.memory c.val = w.rank c.comm := by
      rw [htells, hfunction]
      rfl
    rw [haudit]
    cases World.asked calls .rank c.comm <;> cases World.asked calls .size c.comm <;>
      simp [takeValues, getRank, getSize, hvalue] <;> omega
  | size =>
    have haudit : auditIncoming c {} = { commVal := c.comm, sizePtr := some c.val } := by
      rw [auditIncoming, hfunction]
    have hvalue : c.memory c.val = w.size c.comm := by
      rw [htells, hfunction]
      rfl
    rw [haudit]
    cases World.asked calls .rank c.comm <;> cases World.asked calls .size c.comm <;>
      simp [takeValues, getRank, getSize, hvalue] <;> omega

/-- A call by a new component keeps the records exact. -/
theorem known_step {w : World} {s s' : State} {c : Call} (hs : Known w s) (htells : w.Tells c)
    (hnew : c.component ∉ s.calls.map Call.component) (h : step cfg s (.call c) = some s') :
    Known w s' := by
  by_cases hc : c.comm = nullComm
  · obtain ⟨-, -, hcomm⟩ := auditIncoming_values c (s.components c.component)
    rw [step, auditOutgoing] at h
    simp only [Function.update_self, hcomm] at h
    rw [if_pos hc] at h
    cases h
    constructor
    · intro comm hne
      rw [known_cons_of_ne w s.calls fun heq => hne (heq.symm.trans hc)]
      exact hs.records comm hne
    · exact hs.null
    · intro i hi
      obtain ⟨hne, hold⟩ := List.ne_and_not_mem_of_not_mem_cons hi
      exact (Function.update_of_ne hne _ _).trans (hs.components i hold)
    · exact List.forall_mem_cons.mpr ⟨htells, hs.tells⟩
  · obtain ⟨taken, htaken, hrecords, hcalls, -, hcomponents⟩ := step_call hc h
    rw [hs.components c.component hnew, hs.records c.comm hc] at htaken
    constructor
    · intro comm hne
      rw [hrecords, hcalls, OrderedMap.get?_set]
      by_cases hcomm : comm = c.comm
      · rw [if_pos hcomm, hcomm, known_takeValues htells, htaken]
      · rw [if_neg hcomm, known_cons_of_ne w s.calls (Ne.symm hcomm)]
        exact hs.records comm hne
    · rw [hrecords, OrderedMap.get?_set, if_neg (Ne.symm hc)]
      exact hs.null
    · intro i hi
      rw [hcalls] at hi
      obtain ⟨hne, hold⟩ := List.ne_and_not_mem_of_not_mem_cons hi
      rw [hcomponents, Function.update_of_ne hne, Function.update_of_ne hne]
      exact hs.components i hold
    · rw [hcalls]
      exact List.forall_mem_cons.mpr ⟨htells, hs.tells⟩

/-- What is told and audited by a component of its own. -/
def Own (w : World) (s : State) : Event → Prop
  | .call c => w.Tells c ∧ c.component ∉ s.calls.map Call.component
  | .update => True

/-- In a run of calls with components of their own, the records of different communicators are
kept apart, and only what has not been asked is made up. -/
theorem known_of_run {w : World} {mproc : CommRankData} {events : List Event} {s : State}
    (hown : Along (step cfg) (Own w) { mproc := mproc } events)
    (hrun : runFrom (step cfg) { mproc := mproc } events = some s) : Known w s := by
  refine invariant_of_run ?_ ⟨fun _ _ => rfl, rfl, fun _ _ => rfl,
    fun _ hc => absurd hc List.not_mem_nil⟩ hown hrun
  intro s e s' hs he hstep
  cases e with
  | call c => exact known_step hs he.1 he.2 hstep
  | update =>
    obtain ⟨hrecords, hcalls, -, hcomponents⟩ := update_frame hstep
    refine ⟨?_, hrecords.symm ▸ hs.null, ?_, hcalls ▸ hs.tells⟩
    · rw [hrecords, hcalls]
      exact hs.records
    · rw [hcomponents, hcalls]
      exact hs.components

/-! ### What is published of complete records -/

/-- Of every communicator both values have been asked. -/
def Complete (calls : List Call) : Prop :=
  ∀ c ∈ calls, c.comm ≠ nullComm → ∀ f, World.asked calls f c.comm = true

theorem size_le_of_greater {ci gt : Bool} {lhs rhs : CommRankData} (hlhs : lhs.updated = true)
    (hrhs : rhs.updated = true) (h : CommRankData.greater ci lhs rhs = some gt) :
    if gt then rhs.size ≤ lhs.size else lhs.size ≤ rhs.size := by
  unfold CommRankData.greater at h
  rw [hlhs, hrhs] at h
  simp only [Bool.not_true, Bool.and_false, Bool.and_true, Bool.false_eq_true, if_false] at h
  by_cases hsize : lhs.size = rhs.size
  · rw [hsize]
    split <;> exact le_refl _
  · rw [if_pos hsize] at h
    cases h
    by_cases hlt : lhs.size > rhs.size
    · rw [decide_eq_true hlt]
      exact hlt.le
    · rw [decide_eq_false hlt]
      exact not_lt.mp hlt

theorem comm_ne_of_updated {d : CommRankData} (h : d.updated = true) : d.comm ≠ nullComm := by
  unfold CommRankData.updated at h
  rw [Bool.and_eq_true, Bool.and_eq_true] at h
  exact of_decide_eq_true h.1.1

theorem pick_spec {ci : Bool} {data d : CommRankData} {itr : ℕ × CommRankData}
    (hkey : itr.1 ≠ nullComm) (hitr : itr.2.updated = true)
    (hdata : data.comm ≠ nullComm → data.updated = true) (h : pick ci data itr = some d) :
    (d = data ∨ d = itr.2) ∧ d.updated = true ∧ itr.2.size ≤ d.size ∧
      (data.comm ≠ nullComm → data.size ≤ d.size) := by
  unfold pick at h
  rw [if_neg hkey] at h
  by_cases hnull : data.comm = nullComm
  · rw [if_pos hnull] at h
    cases h
    exact ⟨Or.inr rfl, hitr, le_refl _, fun hne => absurd hnull hne⟩
  · rw [if_neg hnull] at h
    obtain ⟨gt, hgt, rfl⟩ := Option.map_eq_some_iff.mp h
    have hsize := size_le_of_greater hitr (hdata hnull) hgt
    cases gt with
    | true => exact ⟨Or.inr rfl, hitr, le_refl _, fun _ => hsize⟩
    | false => exact ⟨Or.inl rfl, hdata hnull, hsize, fun _ => le_refl _⟩

/-- Where all records are updated, the loop ends with one of them or with what it starts with,
and none has a larger size. -/
theorem greatest_spec {ci : Bool} {data d : CommRankData} {l : List (ℕ × CommRankData)}
    (hl : ∀ itr ∈ l, itr.1 ≠ nullComm ∧ itr.2.updated = true)
    (hdata : data.comm ≠ nullComm → data.updated = true)
    (h : l.foldlM (pick ci) data = some d) :
    (d = data ∨ ∃ itr ∈ l, d = itr.2) ∧ (∀ itr ∈ l, itr.2.size ≤ d.size) ∧
      (data.comm ≠ nullComm → data.size ≤ d.size) := by
  induction l generalizing data with
  | nil =>
    cases h
    exact ⟨Or.inl rfl, fun _ hitr => absurd hitr List.not_mem_nil, fun _ => le_refl _⟩
  | cons itr l ih =>
    obtain ⟨⟨hkey, hupdated⟩, hrest⟩ := List.forall_mem_cons.mp hl
    rw [List.foldlM_cons] at h
    obtain ⟨next, hnext, h⟩ := Option.bind_eq_some_iff.mp h
    obtain ⟨hfrom, hok, hitr, hold⟩ := pick_spec hkey hupdated hdata hnext
    obtain ⟨hend, hall, hsize⟩ := ih hrest (fun _ => hok) h
    have hle := hsize (comm_ne_of_updated hok)
    refine ⟨?_, List.forall_mem_cons.mpr ⟨hitr.trans hle, hall⟩, fun hne => (hold hne).trans hle⟩
    rcases hend with rfl | ⟨other, hother, rfl⟩
    · rcases hfrom with rfl | rfl
      · exact Or.inl rfl
      · exact Or.inr ⟨itr, List.mem_cons_self, rfl⟩
    · exact Or.inr ⟨other, List.mem_cons_of_mem itr hother, rfl⟩

theorem published_of_update {p : ℤ × ℤ} (h : update cfg s = some s') (hs : s.published = none)
    (hp : s'.published = some p) : ∃ d, greatest cfg.ci s.mproc s'.records = some d ∧
      d.updated = true ∧ p = (d.rank, d.size) := by
  obtain ⟨hrecords, -⟩ := update_frame h
  obtain ⟨d, hd, hs'⟩ := Option.map_eq_some_iff.mp h
  refine ⟨d, hrecords.symm ▸ hd, ?_⟩
  rw [← hs'] at hp
  split_ifs at hp with hnew
  · exact ⟨(Bool.and_eq_true_iff.mp hnew).1, (Option.some.inj hp).symm⟩
  · rw [hs] at hp
    cases hp

/-- What an event publishes is the greatest of the records that it leaves. -/
theorem exists_greatest_of_published {e : Event} {p : ℤ × ℤ} (h : step cfg s e = some s')
    (hp : s'.published = some p) : ∃ d, greatest cfg.ci s.mproc s'.records = some d ∧
      d.updated = true ∧ p = (d.rank, d.size) := by
  cases e with
  | update => exact published_of_update (s := { s with published := none }) h rfl hp
  | call c =>
    rw [step, auditOutgoing] at h
    simp only [Function.update_self] at h
    split_ifs at h with hnull hupdated hnum
    · cases h
      cases hp
    · have hupdate := published_of_update h rfl hp
      exact hupdate
    · cases h
      cases hp
    · cases h
      cases hp

theorem returned_of_asked {w : World} {calls : List Call} {f : CommFunction} {comm : ℕ}
    (htells : ∀ c ∈ calls, w.Tells c) (h : World.asked calls f comm = true) :
    Returned calls f comm (w.value f comm) := by
  obtain ⟨c, hc, hasked⟩ := List.any_eq_true.mp h
  rw [Bool.and_eq_true, beq_iff_eq, beq_iff_eq] at hasked
  obtain ⟨rfl, rfl⟩ := hasked
  exact ⟨c, hc, rfl, rfl, htells c hc⟩

theorem eq_of_returned {w : World} {calls : List Call} {f : CommFunction} {comm : ℕ} {v : ℤ}
    (htells : ∀ c ∈ calls, w.Tells c) (h : Returned calls f comm v) :
    World.asked calls f comm = true ∧ v = w.value f comm := by
  obtain ⟨c, hc, rfl, rfl, rfl⟩ := h
  refine ⟨List.any_eq_true.mpr ⟨c, hc, ?_⟩, htells c hc⟩
  rw [beq_self_eq_true, beq_self_eq_true]
  rfl

theorem asked_of_complete {calls : List Call} (h : Complete calls) {f f' : CommFunction} {comm : ℕ}
    (hcomm : comm ≠ nullComm) (hasked : World.asked calls f' comm = true) :
    World.asked calls f comm = true := by
  obtain ⟨c, hc, hsame⟩ := List.any_eq_true.mp hasked
  rw [Bool.and_eq_true, beq_iff_eq, beq_iff_eq] at hsame
  obtain ⟨-, rfl⟩ := hsame
  exact h c hc hcomm f

/-- A complete record is what MPI has told. -/
theorem record_of_complete {w : World} (hs : Known w s) (hcomplete : Complete s.calls) {comm : ℕ}
    {d : CommRankData} (hcomm : comm ≠ nullComm) (h : OrderedMap.get? s.records comm = some d) :
    d = ⟨w.rank comm, w.size comm, comm⟩ ∧ ∀ f, World.asked s.calls f comm = true := by
  rw [hs.records comm hcomm] at h
  have hany : (World.asked s.calls .rank comm || World.asked s.calls .size comm) = true := by
    by_contra hnot
    rw [World.known, if_neg hnot] at h
    cases h
  have hall : ∀ f, World.asked s.calls f comm = true := by
    intro f
    rcases Bool.or_eq_true_iff.mp hany with hasked | hasked
    · exact asked_of_complete hcomplete hcomm hasked
    · exact asked_of_complete hcomplete hcomm hasked
  rw [World.known, if_pos hany, if_pos (hall .rank), if_pos (hall .size)] at h
  exact ⟨(Option.some.inj h).symm, hall⟩

/-- With components of their own, the calls leave right records and publish the right values
wherever both values of each communicator have been asked. -/
theorem right_of_complete {w : World} {e : Event} (hs : Known w s') (hmproc : s.mproc = {})
    (h : step cfg s e = some s') (hcomplete : Complete s'.calls) : Right s' := by
  have hnull : ∀ {comm d}, OrderedMap.get? s'.records comm = some d → comm ≠ nullComm := by
    intro comm d hget heq
    rw [heq, hs.null] at hget
    cases hget
  constructor
  · intro comm d hget
    obtain ⟨rfl, hall⟩ := record_of_complete hs hcomplete (hnull hget) hget
    exact ⟨Or.inr (returned_of_asked hs.tells (hall .rank)),
      Or.inr (returned_of_asked hs.tells (hall .size))⟩
  · intro p hp
    obtain ⟨d, hd, hupdated, rfl⟩ := exists_greatest_of_published h hp
    have hitems : ∀ itr ∈ s'.records.items, itr.1 ≠ nullComm ∧ itr.2.updated = true := by
      intro itr hitr
      have hget := OrderedMap.get?_of_mem hitr
      have hne := hnull hget
      obtain ⟨hdata, -⟩ := record_of_complete hs hcomplete hne hget
      have hrank := w.nonneg itr.1
      have hsize := w.lt itr.1
      refine ⟨hne, ?_⟩
      rw [hdata, CommRankData.updated, Bool.and_eq_true, Bool.and_eq_true]
      refine ⟨⟨decide_eq_true hne, decide_eq_true hrank⟩, decide_eq_true ?_⟩
      show w.size itr.1 > 0
      omega
    have hstart : s.mproc.comm ≠ nullComm → s.mproc.updated = true := by
      rw [hmproc]
      exact fun hne => absurd rfl hne
    obtain ⟨hfrom, hlargest, -⟩ := greatest_spec hitems hstart hd
    rcases hfrom with rfl | ⟨itr, hitr, rfl⟩
    · rw [hmproc] at hupdated
      exact absurd hupdated (by decide)
    · have hget := OrderedMap.get?_of_mem hitr
      obtain ⟨hdata, hall⟩ := record_of_complete hs hcomplete (hnull hget) hget
      refine ⟨itr.1, hnull hget, ?_, ?_, ?_⟩
      · rw [hdata]
        exact returned_of_asked hs.tells (hall .rank)
      · rw [hdata]
        exact returned_of_asked hs.tells (hall .size)
      · intro other rank size hother hrank hsize
        obtain ⟨hasked, rfl⟩ := eq_of_returned hs.tells hsize
        have hask : (World.asked s'.calls .rank other || World.asked s'.calls .size other) =
            true := by
          rw [hasked, Bool.or_true]
        have hrecord : OrderedMap.get? s'.records other =
            some ⟨w.rank other, w.size other, other⟩ := by
          rw [hs.records other hother, World.known, if_pos hask,
            if_pos (asked_of_complete hcomplete hother hasked), if_pos hasked]
        exact hlargest _ (OrderedMap.mem_of_get? hrecord)

end MpiGotcha
end Components
end Rocprofsys
