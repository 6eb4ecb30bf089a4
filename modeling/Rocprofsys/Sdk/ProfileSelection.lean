import Rocprofsys.Base.KeyedSet
import Rocprofsys.Sdk.AgentProfile

namespace Rocprofsys
namespace Sdk

open Base Utility

/-! ## Reading a request -/

section Requests

variable {r r' : EventRequest} {n : Digits} {name front : List UInt8} {index : Option Digits}

theorem not_infix_indexText (h : ¬ deviceQualifier <:+: name) (index : Option Digits) :
    ¬ deviceQualifier <:+: name ++ EventRequest.indexText index := by
  refine not_infix_append (t := [58, 100, 101, 118, 105, 99, 101]) (c := 61) ?_ h
  cases index with
  | none => exact List.not_mem_nil
  | some n =>
    show (61 : UInt8) ∉ 91 :: (n.bytes ++ [93])
    have hdigits : (61 : UInt8) ∉ n.bytes := not_mem_digits (by decide)
    simp only [List.mem_cons, List.mem_append, List.not_mem_nil, or_false, not_or]
    exact ⟨by decide, hdigits, by decide⟩

theorem splitQualifier_append (h : ¬ deviceQualifier <:+: front) (rest : List UInt8) :
    splitQualifier (front ++ (deviceQualifier ++ rest)) = some (front, rest) := by
  have hclean : Clean deviceQualifier front := clean_of_not_infix (by decide) h
  unfold splitQualifier
  rw [← List.append_assoc, find_append_of_eq hclean, Option.map_some, List.append_assoc,
    List.take_left, ← List.append_assoc, ← List.length_append, List.drop_left]

/-- What stands in front of the qualifier is the name with its index. -/
theorem splitQualifier_text (r : EventRequest) :
    splitQualifier r.text =
      r.device.map fun n => (r.name.bytes ++ EventRequest.indexText r.index, n.bytes) := by
  have hunqualified := not_infix_indexText r.name.unqualified r.index
  unfold EventRequest.text
  cases r.device with
  | none =>
    rw [EventRequest.deviceText, List.append_nil, splitQualifier,
      find_eq_none_iff.mpr hunqualified]
    rfl
  | some n => exact splitQualifier_append hunqualified n.bytes

theorem stripIndex_of_index (hline : ∀ b ∈ front, isLineBreak b = false) (n : Digits) :
    stripIndex (front ++ 91 :: (n.bytes ++ [93])) = front := by
  have hreverse : (front ++ 91 :: (n.bytes ++ [93])).reverse =
      93 :: (n.bytes.reverse ++ 91 :: front.reverse) := by
    simp only [List.reverse_append, List.reverse_cons, List.reverse_nil, List.nil_append,
      List.cons_append, List.append_assoc]
  have hdigits : ∀ b ∈ n.bytes.reverse, isDigit b = true := fun b hb =>
    n.areDigits b (List.mem_reverse.mp hb)
  have hopen : ∀ b ∈ (91 :: front.reverse).head?, isDigit b = false := by
    intro b hb
    cases hb
    decide
  obtain ⟨htake, hdrop⟩ := takeWhile_isDigit hdigits hopen
  unfold stripIndex
  dsimp only
  rw [hreverse, List.tail_cons, htake, hdrop, List.tail_cons, List.reverse_reverse]
  refine if_pos ⟨rfl, mt List.reverse_eq_nil_iff.mp n.ne_nil, rfl, ?_⟩
  refine List.all_eq_true.mpr fun b hb => ?_
  rw [hline b (List.mem_reverse.mp hb)]
  rfl

theorem stripIndex_of_unindexed
    (h : ∀ front (n : Digits), name ≠ front ++ 91 :: (n.bytes ++ [93])) :
    stripIndex name = name := by
  unfold stripIndex
  dsimp only
  refine if_neg fun hmatch => ?_
  obtain ⟨hlast, hdigits, hopen, -⟩ := hmatch
  have hbody := List.takeWhile_append_dropWhile (p := isDigit) (l := name.reverse.tail)
  have hname : name = (name.reverse.tail.dropWhile isDigit).tail.reverse ++
      91 :: ((name.reverse.tail.takeWhile isDigit).reverse ++ [93]) := by
    refine List.reverse_injective ?_
    calc name.reverse = 93 :: name.reverse.tail := (List.cons_head?_tail hlast).symm
      _ = 93 :: (name.reverse.tail.takeWhile isDigit ++
            91 :: (name.reverse.tail.dropWhile isDigit).tail) := by
        rw [List.cons_head?_tail hopen, hbody]
      _ = _ := by
        simp only [List.reverse_append, List.reverse_cons, List.reverse_reverse, List.reverse_nil,
          List.nil_append, List.cons_append, List.append_assoc]
  have hbytes : ∀ b ∈ (name.reverse.tail.takeWhile isDigit).reverse, isDigit b = true :=
    fun b hb => List.mem_takeWhile_imp (List.mem_reverse.mp hb)
  exact h _ ⟨_, mt List.reverse_eq_nil_iff.mp hdigits, hbytes⟩ hname

theorem stripIndex_text (r : EventRequest) :
    stripIndex (r.name.bytes ++ EventRequest.indexText r.index) = r.name.bytes := by
  cases r.index with
  | none =>
    rw [EventRequest.indexText, List.append_nil]
    exact stripIndex_of_unindexed r.name.unindexed
  | some n => exact stripIndex_of_index r.name.oneLine n

/-- A request is read back from its text, its index left out. -/
theorem text_injective (h : r.text = r'.text) :
    r.name.bytes = r'.name.bytes ∧ r.device.map Digits.bytes = r'.device.map Digits.bytes := by
  have hsplit := congrArg splitQualifier h
  rw [splitQualifier_text, splitQualifier_text] at hsplit
  have hfull : r.name.bytes ++ EventRequest.indexText r.index =
        r'.name.bytes ++ EventRequest.indexText r'.index ∧
      r.device.map Digits.bytes = r'.device.map Digits.bytes := by
    cases hdevice : r.device with
    | none =>
      cases hdevice' : r'.device with
      | none =>
        unfold EventRequest.text at h
        rw [hdevice, hdevice'] at h
        exact ⟨List.append_cancel_right h, rfl⟩
      | some n' =>
        rw [hdevice, hdevice'] at hsplit
        cases hsplit
    | some n =>
      cases hdevice' : r'.device with
      | none =>
        rw [hdevice, hdevice'] at hsplit
        cases hsplit
      | some n' =>
        rw [hdevice, hdevice'] at hsplit
        obtain ⟨hname, hbytes⟩ := Prod.mk.inj (Option.some.inj hsplit)
        exact ⟨hname, congrArg some hbytes⟩
  refine ⟨?_, hfull.2⟩
  rw [← stripIndex_text r, ← stripIndex_text r', hfull.1]

end Requests

/-! ## The loop over the requests -/

namespace EventRequest

instance (deviceId : UInt64) (r : EventRequest) : Decidable (r.Applies deviceId) :=
  inferInstanceAs (Decidable (∀ n ∈ r.device, n.value = deviceId.toNat))

/-- The counter offered under the name. -/
def select (info : List CounterInfo) (r : EventRequest) : Option UInt64 :=
  (info.find? fun citr => r.name.bytes == citr.name).map CounterInfo.id

end EventRequest

section Loop

variable {info : List CounterInfo} {r : EventRequest} {rs : List EventRequest} {s : Search}
  {deviceId id : UInt64} {n : Digits}

theorem select_eq_some_iff (hnames : (info.map CounterInfo.name).Nodup) :
    r.select info = some id ↔ ⟨id, r.name.bytes⟩ ∈ info := by
  have hfilter := filter_eq_find hnames r.name.bytes
  unfold EventRequest.select
  rw [Option.map_eq_some_iff]
  constructor
  · intro h
    obtain ⟨⟨_, name⟩, hfind, rfl⟩ := h
    have hname := List.find?_some (p := fun c : CounterInfo => r.name.bytes == c.name) hfind
    obtain rfl : r.name.bytes = name := eq_of_beq hname
    exact List.mem_of_find?_eq_some hfind
  · intro h
    have hmem := List.mem_filter (p := fun c : CounterInfo => r.name.bytes == c.name).mpr
      ⟨h, beq_self_eq_true r.name.bytes⟩
    rw [hfilter, Option.mem_toList] at hmem
    exact ⟨_, hmem, rfl⟩

theorem isSome_select_iff : (r.select info).isSome = true ↔ r.Offered info := by
  unfold EventRequest.select EventRequest.Offered
  rw [Option.isSome_map, List.find?_isSome]
  exact exists_congr fun c => and_congr_right fun _ => beq_iff_eq.trans eq_comm

theorem add_name (hnames : (info.map CounterInfo.name).Nodup) (itr : List UInt8) :
    s.add info r.name.bytes itr =
      { s with
        countersV := s.countersV ++ (r.select info).toList
        foundV := s.foundV ++ (r.select info).toList.map fun _ => itr } := by
  unfold Search.add EventRequest.select
  rw [filter_eq_find hnames, Option.toList_map, List.map_map]
  rfl

theorem stoul_digits_of_le (h : 2 ^ 64 ≤ n.value) :
    Gpu.AmdSmi.stoul n.bytes = .error (.outOfRange "stoul") := by
  have hle : 2 ^ 64 ≤ digitsValue n.bytes := h
  simp only [Gpu.AmdSmi.stoul, scan_digits, if_neg n.ne_nil, if_pos hle]

theorem isQualifier_digits (n : Digits) : ¬ (n.bytes.isEmpty || !n.bytes.all isDigit) = true := by
  rw [List.isEmpty_eq_false_iff.mpr n.ne_nil, List.all_eq_true.mpr n.areDigits]
  decide

/-- A request for another device lowers what is expected, and any other adds its counter. -/
theorem searchEvent_text (hnames : (info.map CounterInfo.name).Nodup) (h : r.Readable) :
    searchEvent deviceId info s r.text =
      .ok (if r.Applies deviceId then
          { s with
            countersV := s.countersV ++ (r.select info).toList
            foundV := s.foundV ++ (r.select info).toList.map fun _ => r.text }
        else { s with expectedV := s.expectedV - 1 }) := by
  rw [searchEvent, splitQualifier_text, ← add_name hnames]
  cases hdevice : r.device with
  | none =>
    have happlies : r.Applies deviceId := by
      intro n hn
      rw [hdevice] at hn
      cases hn
    have hstrip : stripIndex r.text = r.name.bytes := by
      rw [← stripIndex_text r, EventRequest.text, hdevice, EventRequest.deviceText,
        List.append_nil]
    rw [if_pos happlies, Option.map_none]
    dsimp only
    rw [hstrip]
  | some n =>
    have hlt : n.value < 2 ^ 64 := h n hdevice
    rw [Option.map_some]
    dsimp only
    rw [if_neg (isQualifier_digits n), Gpu.AmdSmi.stoul_digits hlt, stripIndex_text]
    dsimp only
    have happlies : r.Applies deviceId ↔ UInt64.ofNat n.value = deviceId := by
      rw [← UInt64.toNat_inj, UInt64.toNat_ofNat_of_lt' hlt]
      constructor
      · exact fun happlies => happlies n hdevice
      · intro heq m hm
        rw [hdevice] at hm
        cases hm
        exact heq
    by_cases hdev : r.Applies deviceId
    · rw [if_pos hdev, if_neg (not_not.mpr (happlies.mp hdev))]
    · rw [if_neg hdev, if_pos (mt happlies.mpr hdev)]

theorem searchEvent_of_not_readable (h : ¬ r.Readable) (s' : Search) :
    searchEvent deviceId info s r.text ≠ .ok s' := by
  intro hok
  refine h fun n hn => ?_
  by_contra hle
  rw [searchEvent, splitQualifier_text, show r.device = some n from hn, Option.map_some] at hok
  dsimp only at hok
  rw [if_neg (isQualifier_digits n), stoul_digits_of_le (Nat.not_lt.mp hle)] at hok
  cases hok

/-- The requests that apply to the device. -/
def applying (deviceId : UInt64) (rs : List EventRequest) : List EventRequest :=
  rs.filter fun r => decide (r.Applies deviceId)

theorem foldlM_searchEvent (hnames : (info.map CounterInfo.name).Nodup)
    (h : ∀ r ∈ rs, r.Readable) :
    (rs.map EventRequest.text).foldlM (searchEvent deviceId info) s =
      .ok ⟨s.expectedV - (rs.length - (applying deviceId rs).length),
        s.foundV ++ (applying deviceId rs).flatMap fun r =>
          (r.select info).toList.map fun _ => r.text,
        s.countersV ++ (applying deviceId rs).flatMap fun r => (r.select info).toList⟩ := by
  induction rs generalizing s with
  | nil =>
    obtain ⟨expectedV, foundV, countersV⟩ := s
    show Except.ok _ = Except.ok (Search.mk (expectedV - 0) (foundV ++ []) (countersV ++ []))
    rw [List.append_nil, List.append_nil]
    rfl
  | cons r rs ih =>
    obtain ⟨hr, hrs⟩ := List.forall_mem_cons.mp h
    rw [List.map_cons, List.foldlM_cons, searchEvent_text hnames hr]
    refine (ih hrs).trans (congrArg Except.ok ?_)
    have hle : (applying deviceId rs).length ≤ rs.length := List.length_filter_le _ _
    by_cases happlies : r.Applies deviceId
    · have hcons : applying deviceId (r :: rs) = r :: applying deviceId rs :=
        List.filter_cons_of_pos (decide_eq_true happlies)
      rw [if_pos happlies, hcons]
      simp only [List.flatMap_cons, List.length_cons, List.append_assoc, Nat.add_sub_add_right]
    · have hcons : applying deviceId (r :: rs) = applying deviceId rs :=
        List.filter_cons_of_neg (mt of_decide_eq_true happlies)
      rw [if_neg happlies, hcons, List.length_cons]
      simp only [Search.mk.injEq, and_true]
      omega

end Loop

/-! ## The outcome -/

section Outcome

variable {data : ClientData} {e : FirstEntry data} {isContinuousIntegration : Bool}
  {info : List CounterInfo} {r r' : EventRequest} {rs : List EventRequest} {deviceId : UInt64}

/-- The counters selected for the requests. -/
def selected (info : List CounterInfo) (deviceId : UInt64) (rs : List EventRequest) :
    List UInt64 :=
  (applying deviceId rs).flatMap fun r => (r.select info).toList

theorem mem_applying : r ∈ applying deviceId rs ↔ r ∈ rs ∧ r.Applies deviceId := by
  rw [applying, List.mem_filter, decide_eq_true_iff]

theorem mem_selected (hnames : (info.map CounterInfo.name).Nodup) {id : UInt64} :
    id ∈ selected info deviceId rs ↔
      ∃ r ∈ rs, r.Applies deviceId ∧ ⟨id, r.name.bytes⟩ ∈ info := by
  rw [selected, List.mem_flatMap]
  refine exists_congr fun r => ?_
  rw [mem_applying, Option.mem_toList, select_eq_some_iff hnames, and_assoc]

theorem selected_eq_filterMap :
    selected info deviceId rs =
      (applying deviceId rs).filterMap fun r => r.select info :=
  (List.filterMap_eq_flatMap_toList _ _).symm

theorem length_selected :
    (selected info deviceId rs).length ≠ (applying deviceId rs).length ↔
      ∃ r ∈ rs, r.Applies deviceId ∧ ¬ r.Offered info := by
  rw [selected_eq_filterMap, List.length_filterMap_eq_countP, Ne, List.countP_eq_length]
  constructor
  · intro h
    by_contra hnone
    refine h fun r hr => isSome_select_iff.mpr ?_
    obtain ⟨hmem, happlies⟩ := mem_applying.mp hr
    by_contra hoffered
    exact hnone ⟨r, hmem, happlies, hoffered⟩
  · intro h hall
    obtain ⟨r, hmem, happlies, hoffered⟩ := h
    exact hoffered (isSome_select_iff.mp (hall r (mem_applying.mpr ⟨hmem, happlies⟩)))

/-- Counters are selected once where no two requests are for the same one. -/
theorem nodup_selected_iff (hnames : (info.map CounterInfo.name).Nodup)
    (hids : (info.map CounterInfo.id).Nodup) :
    (selected info deviceId rs).Nodup ↔
      rs.Pairwise fun r r' => r.Applies deviceId → r'.Applies deviceId → r.Offered info →
        r.name.bytes ≠ r'.name.bytes := by
  rw [selected_eq_filterMap, List.Nodup, List.pairwise_filterMap, applying, List.pairwise_filter]
  refine iff_of_eq (congrArg (rs.Pairwise ·) (funext fun r => funext fun r' => propext ?_))
  rw [decide_eq_true_iff, decide_eq_true_iff]
  refine imp_congr_right fun _ => imp_congr_right fun _ => ?_
  constructor
  · intro h hoffered hname
    obtain ⟨id, hid⟩ := Option.isSome_iff_exists.mp (isSome_select_iff.mpr hoffered)
    have hid' : r'.select info = some id := by
      rw [select_eq_some_iff hnames, ← hname, ← select_eq_some_iff hnames]
      exact hid
    exact h id hid id hid' rfl
  · intro h id hid id' hid' heq
    have hmem := (select_eq_some_iff hnames).mp hid
    have hmem' := (select_eq_some_iff hnames).mp hid'
    have hcounter := List.inj_on_of_nodup_map hids hmem hmem' heq
    exact h ⟨_, hmem, rfl⟩ (congrArg CounterInfo.name hcounter)

/-- Requests with one text are alike. -/
theorem like_of_text (deviceId : UInt64) (info : List CounterInfo) (h : r.text = r'.text) :
    (r.Applies deviceId ↔ r'.Applies deviceId) ∧ (r.Offered info ↔ r'.Offered info) := by
  obtain ⟨hname, hdevice⟩ := text_injective h
  have happlies (r : EventRequest) : r.Applies deviceId ↔
      ∀ bytes ∈ r.device.map Digits.bytes, digitsValue bytes = deviceId.toNat := by
    unfold EventRequest.Applies
    constructor
    · intro h bytes hbytes
      obtain ⟨n, hn, rfl⟩ := Option.mem_map.mp hbytes
      exact h n hn
    · exact fun h n hn => h _ (Option.mem_map.mpr ⟨n, hn, rfl⟩)
  rw [happlies r, happlies r', hdevice]
  unfold EventRequest.Offered
  rw [hname]
  exact ⟨Iff.rfl, Iff.rfl⟩

/-- A request was found if it applies and its counter is offered. -/
theorem mem_found (hr : r ∈ rs) :
    (r.text ∈ (applying deviceId rs).flatMap fun r =>
        (r.select info).toList.map fun _ => r.text) ↔
      r.Applies deviceId ∧ r.Offered info := by
  rw [List.mem_flatMap]
  constructor
  · intro h
    obtain ⟨r', hr', htext⟩ := h
    obtain ⟨id, hid, heq⟩ := List.mem_map.mp htext
    obtain ⟨happlies, hoffered⟩ := like_of_text deviceId info heq
    refine ⟨happlies.mp (mem_applying.mp hr').2, hoffered.mp (isSome_select_iff.mp ?_)⟩
    exact Option.isSome_of_mem (Option.mem_toList.mp hid)
  · intro h
    obtain ⟨id, hid⟩ := Option.isSome_iff_exists.mp (isSome_select_iff.mpr h.2)
    refine ⟨r, mem_applying.mpr ⟨hr, h.1⟩, List.mem_map.mpr ⟨id, ?_, rfl⟩⟩
    exact Option.mem_toList.mpr hid

theorem createAgentProfile_eq (texts : List (List UInt8)) :
    createAgentProfile isContinuousIntegration data e.agent.handle texts =
      (texts.foldlM (searchEvent e.agent.deviceId e.info) ⟨texts.length, [], []⟩).map
        (finishProfile isContinuousIntegration data e.agent.handle texts) := by
  rw [createAgentProfile, e.fresh, e.listed, e.known]
  rfl

theorem finishProfile_of_length_eq {texts : List (List UInt8)} {s : Search}
    (h : s.countersV.length = s.expectedV) :
    (finishProfile isContinuousIntegration data e.agent.handle texts s).1 =
      ⟨none, false, s.countersV⟩ := by
  rw [finishProfile, if_neg (not_not.mpr h)]

/-- Whether the run goes on or not, what was not found is reported. -/
theorem finishProfile_of_length_ne {texts : List (List UInt8)} {s : Search}
    (h : s.countersV.length ≠ s.expectedV) :
    (finishProfile isContinuousIntegration data e.agent.handle texts s).1 =
      ⟨some ⟨texts, s.foundV, texts.filter fun t => !s.foundV.contains t⟩,
        isContinuousIntegration, s.countersV⟩ := by
  rw [finishProfile, if_pos h]
  cases isContinuousIntegration <;> rfl

/-- Where something applies and is not offered, all that was not found is reported. -/
theorem createAgentProfile_texts (isContinuousIntegration : Bool) (e : FirstEntry data)
    (hreadable : ∀ r ∈ rs, r.Readable) :
    ∃ out data', createAgentProfile isContinuousIntegration data e.agent.handle
        (rs.map EventRequest.text) = .ok (out, data') ∧
      out.countersV = selected e.info e.agent.deviceId rs ∧
      (∀ t, t ∈ out.missing ↔
        (∃ r ∈ rs, r.Applies e.agent.deviceId ∧ ¬ r.Offered e.info) ∧
          ∃ r ∈ rs, r.text = t ∧ ¬ (r.Applies e.agent.deviceId ∧ r.Offered e.info)) ∧
      (out.aborted = true ↔ isContinuousIntegration = true ∧
        ∃ r ∈ rs, r.Applies e.agent.deviceId ∧ ¬ r.Offered e.info) := by
  have hle : (applying e.agent.deviceId rs).length ≤ rs.length := List.length_filter_le _ _
  have hexpected : (rs.map EventRequest.text).length -
      (rs.length - (applying e.agent.deviceId rs).length) =
        (applying e.agent.deviceId rs).length := by
    rw [List.length_map]
    omega
  rw [createAgentProfile_eq, foldlM_searchEvent e.names hreadable, List.nil_append,
    List.nil_append, hexpected, Except.map]
  refine ⟨_, _, congrArg Except.ok (Prod.mk.eta).symm, ?_⟩
  by_cases hmissing : ∃ r ∈ rs, r.Applies e.agent.deviceId ∧ ¬ r.Offered e.info
  · rw [finishProfile_of_length_ne (length_selected.mpr hmissing)]
    refine ⟨rfl, fun t => ?_, (and_iff_left hmissing).symm⟩
    rw [and_iff_right hmissing]
    show t ∈ (rs.map EventRequest.text).filter _ ↔ _
    rw [List.mem_filter, List.mem_map, Bool.not_eq_true', ← Bool.not_eq_true,
      List.contains_iff_mem]
    constructor
    · intro h
      obtain ⟨⟨r, hr, rfl⟩, hnot⟩ := h
      exact ⟨r, hr, rfl, fun hfound => hnot ((mem_found hr).mpr hfound)⟩
    · intro h
      obtain ⟨r, hr, rfl, hnot⟩ := h
      exact ⟨⟨r, hr, rfl⟩, fun hfound => hnot ((mem_found hr).mp hfound)⟩
  · rw [finishProfile_of_length_eq (not_not.mp (mt length_selected.mp hmissing))]
    refine ⟨rfl, fun t => ?_, iff_of_false Bool.false_ne_true fun h => hmissing h.2⟩
    exact iff_of_false List.not_mem_nil fun h => hmissing h.1

/-- A request for a device whose number does not fit ends the call. -/
theorem createAgentProfile_of_not_readable (hr : r ∈ rs) (hreadable : ¬ r.Readable)
    (out : ProfileOutcome × ClientData) :
    createAgentProfile isContinuousIntegration data e.agent.handle
      (rs.map EventRequest.text) ≠ .ok out := by
  rw [createAgentProfile_eq]
  intro hok
  cases hloop : (rs.map EventRequest.text).foldlM (searchEvent e.agent.deviceId e.info)
      ⟨(rs.map EventRequest.text).length, [], []⟩ with
  | error failure =>
    rw [hloop] at hok
    cases hok
  | ok s =>
    exact foldlM_ne_ok (List.mem_map_of_mem hr)
      (fun s s' => searchEvent_of_not_readable hreadable s') hloop

end Outcome

/-! ## The selection -/

/-- The profile of an agent is right exactly if the number of every device fits 64 bits, no two of
the requests that apply are for one counter offered, and no request is for another device when one
that applies is not offered. -/
theorem selects_iff (isContinuousIntegration : Bool) {data : ClientData} (e : FirstEntry data)
    (rs : List EventRequest) :
    e.Selects isContinuousIntegration rs ↔
      (∀ r ∈ rs, r.Readable) ∧
        (rs.Pairwise fun r r' => r.Applies e.agent.deviceId → r'.Applies e.agent.deviceId →
          r.Offered e.info → r.name.bytes ≠ r'.name.bytes) ∧
        ((∃ r ∈ rs, r.Applies e.agent.deviceId ∧ ¬ r.Offered e.info) →
          ∀ r ∈ rs, r.Applies e.agent.deviceId) := by
  by_cases hreadable : ∀ r ∈ rs, r.Readable
  · rw [and_iff_right hreadable, ← nodup_selected_iff e.names e.ids]
    obtain ⟨out, data', hout, hcounters, hmissing, haborted⟩ :=
      createAgentProfile_texts isContinuousIntegration e hreadable
    constructor
    · intro h
      obtain ⟨out', data'', hout', hright⟩ := h
      rw [hout] at hout'
      cases hout'
      refine ⟨hcounters ▸ hright.once, fun hsome r hr => ?_⟩
      by_contra hother
      have hreported := (hmissing r.text).mpr ⟨hsome, r, hr, rfl, fun h => hother h.1⟩
      obtain ⟨r', -, happlies, -, htext⟩ := (hright.reported _).mp hreported
      exact hother ((like_of_text e.agent.deviceId e.info htext).1.mp happlies)
    · intro h
      obtain ⟨honce, hall⟩ := h
      refine ⟨out, data', hout, hcounters ▸ honce, fun id => ?_, fun t => ?_, haborted⟩
      · rw [hcounters]
        exact mem_selected e.names
      · rw [hmissing]
        constructor
        · intro h
          obtain ⟨hsome, r, hr, htext, hnot⟩ := h
          have happlies := hall hsome r hr
          exact ⟨r, hr, happlies, fun hoffered => hnot ⟨happlies, hoffered⟩, htext⟩
        · intro h
          obtain ⟨r, hr, happlies, hnot, htext⟩ := h
          exact ⟨⟨r, hr, happlies, hnot⟩, r, hr, htext, fun h => hnot h.2⟩
  · refine iff_of_false (fun h => ?_) fun h => hreadable h.1
    obtain ⟨out, data', hout, -⟩ := h
    obtain ⟨r, hr⟩ := not_forall.mp hreadable
    obtain ⟨hmem, hnot⟩ := Classical.not_imp.mp hr
    exact createAgentProfile_of_not_readable hmem hnot _ hout

/-- The name `A`. -/
def counterA : EventName where
  bytes := [65]
  unqualified := by decide
  unindexed := by
    intro front n h
    have hlength := congrArg List.length h
    simp only [List.length_append, List.length_cons, List.length_nil] at hlength
    omega
  oneLine := List.forall_mem_singleton.mpr rfl

/-- One agent with the counter `A`. -/
def oneAgent : ClientData := ⟨[⟨7, 0⟩], [(7, [⟨1, [65]⟩])], []⟩

def firstEntry : FirstEntry oneAgent where
  agent := ⟨7, 0⟩
  info := [⟨1, [65]⟩]
  listed := rfl
  fresh := rfl
  known := rfl
  names := List.nodup_singleton _
  ids := List.nodup_singleton _

/-- A counter requested twice is returned twice. -/
theorem not_selects_twice :
    ¬ firstEntry.Selects false [⟨counterA, none, none⟩, ⟨counterA, none, none⟩] := by
  intro h
  obtain ⟨out, data', hout, hright⟩ := h
  have hcounters : (createAgentProfile false oneAgent 7 [[65], [65]]).toOption.map
      (fun result => result.1.countersV) = some [1, 1] := by decide +kernel
  have htexts : createAgentProfile false oneAgent 7 [[65], [65]] = .ok (out, data') := hout
  rw [htexts] at hcounters
  have honce := hright.once
  rw [show out.countersV = [1, 1] from Option.some.inj hcounters] at honce
  exact absurd honce (by decide)

end Sdk
end Rocprofsys
