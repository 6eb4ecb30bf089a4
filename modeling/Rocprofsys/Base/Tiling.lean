import Mathlib.Data.List.Basic
import Mathlib.Order.Nat

namespace Rocprofsys
namespace Base

variable {starts starts' : List ℕ} {last low low' e e' x : ℕ}

/-! ## Intervals that run up to the next start -/

/-- The interval from `low` on ends at the next start, or behind the last one at `last`. -/
def EndsAt (starts : List ℕ) (last low e : ℕ) : Prop :=
  (e ∈ starts ∧ low < e ∧ ∀ m ∈ starts, m ≤ low ∨ e ≤ m) ∨ e = last ∧ ∀ m ∈ starts, m ≤ low

namespace EndsAt

theorem congr (hmem : ∀ m, m ∈ starts ↔ m ∈ starts') :
    EndsAt starts last low e ↔ EndsAt starts' last low e := by
  simp only [EndsAt, hmem]

/-- A start that is not above the interval's own changes nothing. -/
theorem cons (h : EndsAt starts last low e) (hle : x ≤ low) :
    EndsAt (x :: starts) last low e := by
  rcases h with ⟨hmem, hlt, hnext⟩ | ⟨hlast, hnone⟩
  · exact Or.inl ⟨List.mem_cons_of_mem x hmem, hlt, List.forall_mem_cons.mpr ⟨Or.inl hle, hnext⟩⟩
  · exact Or.inr ⟨hlast, List.forall_mem_cons.mpr ⟨hle, hnone⟩⟩

theorem unique (h : EndsAt starts last low e) (h' : EndsAt starts last low e') : e = e' := by
  rcases h with ⟨hmem, hlt, hnext⟩ | ⟨hlast, hnone⟩
  · rcases h' with ⟨hmem', hlt', hnext'⟩ | ⟨hlast', hnone'⟩
    · have hle := hnext e' hmem'
      have hle' := hnext' e hmem
      omega
    · have hle := hnone' e hmem
      omega
  · rcases h' with ⟨hmem', hlt', hnext'⟩ | ⟨hlast', hnone'⟩
    · have hle := hnone e' hmem'
      omega
    · rw [hlast, hlast']

/-- An interval ends in front of the next one. -/
theorem le_of_lt (h : EndsAt starts last low e) (hmem : low' ∈ starts) (hlt : low < low') :
    e ≤ low' := by
  rcases h with ⟨-, -, hnext⟩ | ⟨-, hnone⟩
  · have hle := hnext low' hmem
    omega
  · have hle := hnone low' hmem
    omega

theorem le_last (h : EndsAt starts last low e) (hstarts : ∀ m ∈ starts, m ≤ last) :
    e ≤ last := by
  rcases h with ⟨hmem, -, -⟩ | ⟨hlast, -⟩
  · exact hstarts e hmem
  · exact hlast.le

theorem low_le (h : EndsAt starts last low e) (hlow : low ≤ last) : low ≤ e := by
  rcases h with ⟨-, hlt, -⟩ | ⟨hlast, -⟩
  · exact hlt.le
  · rw [hlast]
    exact hlow

/-- Intervals with different starts have nothing in common. -/
theorem disjoint (h : EndsAt starts last low e) (h' : EndsAt starts last low' e')
    (hmem : low ∈ starts) (hmem' : low' ∈ starts) (hne : low ≠ low') : e ≤ low' ∨ e' ≤ low := by
  rcases Nat.lt_or_gt_of_ne hne with hlt | hgt
  · exact Or.inl (h.le_of_lt hmem' hlt)
  · exact Or.inr (h'.le_of_lt hmem hgt)

end EndsAt

/-- The last start up to a bound. -/
theorem exists_greatest_start (h : ∃ m ∈ starts, m ≤ x) :
    ∃ low ∈ starts, low ≤ x ∧ ∀ m ∈ starts, m ≤ x → m ≤ low := by
  induction starts with
  | nil =>
    obtain ⟨m, hm, -⟩ := h
    exact absurd hm List.not_mem_nil
  | cons m starts ih =>
    by_cases hrest : ∃ m ∈ starts, m ≤ x
    · obtain ⟨low, hmem, hle, hgreatest⟩ := ih hrest
      by_cases hm : m ≤ x ∧ low < m
      · refine ⟨m, List.mem_cons_self, hm.1, List.forall_mem_cons.mpr ⟨fun _ => le_rfl, ?_⟩⟩
        intro m' hm' hle'
        exact (hgreatest m' hm' hle').trans hm.2.le
      · refine ⟨low, List.mem_cons_of_mem m hmem, hle,
          List.forall_mem_cons.mpr ⟨fun hmx => ?_, hgreatest⟩⟩
        omega
    · obtain ⟨m', hm', hle⟩ := h
      rcases List.mem_cons.mp hm' with rfl | hm'
      · refine ⟨m', List.mem_cons_self, hle,
          List.forall_mem_cons.mpr ⟨fun _ => le_rfl, fun m'' hm'' hle'' => ?_⟩⟩
        exact absurd ⟨m'', hm'', hle''⟩ hrest
      · exact absurd ⟨m', hm', hle⟩ hrest

/-- The interval of the last start up to a position reaches beyond it. -/
theorem EndsAt.lt_of_greatest (h : EndsAt starts last low e) (hlast : x < last)
    (hgreatest : ∀ m ∈ starts, m ≤ x → m ≤ low) : x < e := by
  rcases h with ⟨hmem, hlt, -⟩ | ⟨rfl, -⟩
  · by_contra hge
    have hle := hgreatest e hmem (Nat.le_of_not_lt hge)
    omega
  · exact hlast

end Base
end Rocprofsys
