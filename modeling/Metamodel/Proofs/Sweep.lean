import Mathlib.Data.List.Nodup
import Mathlib.Logic.Relation
import Metamodel.Proofs.Arena

/-!
# Metamodel.Proofs.Sweep

What a sweep visits, over subtype sets of any shape.

* `sweepWith_spec` — the slots visited are those that can be reached through subtype sets, each
  once, and what the sweep does is to visit them one after the other.
* `sweep_spec` — visits that share no state change each of these types once.
-/

namespace Metamodel

open Relation

namespace Arena

section Updates

variable {α β : Type} {t : Arena α} {f : α → α} {g : α → β}

/-- Change the values in several slots. -/
def updateAll (t : Arena α) (slots : List Nat) (f : α → α) : Arena α :=
  slots.foldl (fun t s => t.update s f) t

theorem map_updateAll {slots : List Nat} (hg : ∀ a, g (f a) = g a) :
    (t.updateAll slots f).map g = t.map g :=
  foldl_frame (f := fun u : Arena α => u.map g) (fun _ _ => map_update hg) slots t

end Updates

variable {δ ε σ : Type} {t : Arena (ResolvedType δ ε)} {f : ResolvedType δ ε → ResolvedType δ ε}
  {visit : ResolvedType δ ε → σ → ResolvedType δ ε × σ} {p : Arena (ResolvedType δ ε) × σ} {u : σ}
  {start : Nat}

/-- `b` is one of the subtypes that the type in slot `a` lists. -/
def Below (t : Arena (ResolvedType δ ε)) (a b : Nat) : Prop := b ∈ t.subtypeSlots a

theorem subtypeSlots_update (hsub : ∀ d, (f d).subtypes = d.subtypes) (s a : Nat) :
    (t.update s f).subtypeSlots a = t.subtypeSlots a := by
  have hslot : (t.update s f).slotOf? = t.slotOf? := rfl
  by_cases h : s = a
  · subst h
    cases hd : t.at? s <;> simp [subtypeSlots, hd, hsub, hslot]
  · simp [subtypeSlots, h, hslot]

theorem lt_of_below (ht : t.Indexed) {a b : Nat} (h : t.Below a b) : b < t.size := by
  simp only [Below, subtypeSlots] at h
  split at h
  · cases h
  · obtain ⟨n, _, hn⟩ := List.mem_filterMap.mp h
    exact ht.bounded hn

/-! ## Visits -/

/-- Visit several slots, one after the other. -/
def visitAll (visit : ResolvedType δ ε → σ → ResolvedType δ ε × σ) (slots : List Nat)
    (p : Arena (ResolvedType δ ε) × σ) : Arena (ResolvedType δ ε) × σ :=
  slots.foldl (visitAt visit) p

/-- Visits that share no state are changes. -/
theorem visitAll_updates (slots : List Nat) (t : Arena (ResolvedType δ ε)) :
    visitAll (fun d u => (f d, u)) slots (t, ()) = (t.updateAll slots f, ()) := by
  induction slots generalizing t with
  | nil => rfl
  | cons s slots ih => exact ih (t.update s f)

/-- By induction on the run, which lists what it visits: it leaves nothing that is pending, nothing
below what it visits, and it comes by nothing else. -/
theorem sweepFrom_spec (hsub : ∀ d u, (visit d u).1.subtypes = d.subtypes)
    {unmet pending order : List Nat} (hunmet : unmet.Nodup) :
    ∃ visited : List Nat,
      sweepFrom visit p unmet pending order = (visitAll visit visited p, order ++ visited) ∧
      visited.Nodup ∧ (∀ s ∈ visited, s ∈ unmet) ∧
      (∀ s ∈ pending, s ∈ unmet → s ∈ visited) ∧
      (∀ s ∈ visited, ∀ c, p.1.Below s c → c ∈ unmet → c ∈ visited) ∧
      (∀ s ∈ visited, ∃ a ∈ pending, ReflTransGen p.1.Below a s) := by
  fun_induction sweepFrom visit p unmet pending order with
  | case1 p unmet order =>
    exact ⟨[], by simp [visitAll], .nil, by simp, by simp, by simp, by simp⟩
  | case2 p unmet order slot rest hmem p' next ih =>
    have hbelow : p'.1.Below = p.1.Below := by
      funext a b
      simp only [Below, p', visitAt, subtypeSlots_update fun d => hsub d p.2]
    obtain ⟨visited, hrun, hnodup, hin, hpend, hclosed, hreach⟩ := ih (hunmet.erase slot)
    rw [hbelow] at hclosed hreach
    simp only [hunmet.mem_erase_iff] at hin hpend hclosed
    refine ⟨slot :: visited, ?_, ?_, ?_, ?_, ?_, ?_⟩
    · rw [hrun, List.append_assoc]
      rfl
    · exact List.nodup_cons.mpr ⟨fun h => (hin slot h).1 rfl, hnodup⟩
    · intro s hs
      rcases List.mem_cons.mp hs with rfl | hs
      · exact hmem
      · exact (hin s hs).2
    · intro s hs hu
      by_cases he : s = slot
      · simp [he]
      · have hs' : s ∈ rest := (List.mem_cons.mp hs).resolve_left he
        exact .tail _ (hpend s (List.mem_append_right _ hs') ⟨he, hu⟩)
    · intro s hs c hc hu
      by_cases he : c = slot
      · simp [he]
      · rcases List.mem_cons.mp hs with rfl | hs
        · refine .tail _ (hpend c (List.mem_append_left _ ?_) ⟨he, hu⟩)
          rw [List.mem_filter]
          refine ⟨?_, by simp [hunmet.mem_erase_iff, he, hu]⟩
          rw [← hbelow] at hc
          exact hc
        · exact .tail _ (hclosed s hs c hc ⟨he, hu⟩)
    · intro s hs
      rcases List.mem_cons.mp hs with rfl | hs
      · exact ⟨s, by simp, .refl⟩
      · obtain ⟨a, ha, has⟩ := hreach s hs
        rcases List.mem_append.mp ha with ha | ha
        · have hup : p'.1.Below slot a := (List.mem_filter.mp ha).1
          rw [hbelow] at hup
          exact ⟨slot, by simp, .head hup has⟩
        · exact ⟨a, by simp [ha], has⟩
  | case3 p unmet order slot rest hnot ih =>
    obtain ⟨visited, hrun, hnodup, hin, hpend, hclosed, hreach⟩ := ih hunmet
    refine ⟨visited, hrun, hnodup, hin, ?_, hclosed, ?_⟩
    · intro s hs hu
      rcases List.mem_cons.mp hs with rfl | hs
      · exact absurd hu hnot
      · exact hpend s hs hu
    · intro s hs
      obtain ⟨a, ha, has⟩ := hreach s hs
      exact ⟨a, by simp [ha], has⟩

theorem prefix_sweepFrom {unmet pending order : List Nat} :
    order <+: (sweepFrom visit p unmet pending order).2 := by
  fun_induction sweepFrom visit p unmet pending order with
  | case1 p unmet order => exact List.prefix_refl order
  | case2 p unmet order slot rest hmem p' next ih =>
    exact (List.prefix_append order [slot]).trans ih
  | case3 p unmet order slot rest hnot ih => exact ih

/-! ## Sweeps -/

/-- The first visit is that of the start. -/
theorem head?_sweepWith (hstart : start < t.size) :
    (t.sweepWith start visit u).2.head? = some start := by
  have hprefix : [start] <+: (t.sweepWith start visit u).2 := by
    rw [sweepWith, sweepFrom, dif_pos (List.mem_range.mpr hstart)]
    exact prefix_sweepFrom
  obtain ⟨rest, hrest⟩ := hprefix
  rw [← hrest]
  rfl

/-- A sweep visits what can be reached through subtype sets, each slot once. -/
theorem sweepWith_spec (ht : t.Indexed) (hsub : ∀ d u, (visit d u).1.subtypes = d.subtypes)
    (hstart : start < t.size) :
    ∃ visited : List Nat,
      t.sweepWith start visit u = (visitAll visit visited (t, u), visited) ∧ visited.Nodup ∧
      ∀ s, s ∈ visited ↔ ReflTransGen t.Below start s := by
  obtain ⟨visited, hrun, hnodup, -, hpend, hclosed, hreach⟩ :=
    @sweepFrom_spec _ _ _ visit (t, u) hsub (List.range t.size) [start] [] List.nodup_range
  refine ⟨visited, hrun, hnodup, fun s => ⟨fun hs => ?_, fun hs => ?_⟩⟩
  · obtain ⟨a, ha, has⟩ := hreach s hs
    rwa [List.mem_singleton.mp ha] at has
  · induction hs with
    | refl => exact hpend start (by simp) (List.mem_range.mpr hstart)
    | tail _ hbc ih => exact hclosed _ ih _ hbc (List.mem_range.mpr (lt_of_below ht hbc))

theorem map_sweep {β : Type} {g : ResolvedType δ ε → β} (hg : ∀ d, g (f d) = g d)
    (hsub : ∀ d, (f d).subtypes = d.subtypes) : (t.sweep start f).1.map g = t.map g := by
  obtain ⟨visited, hrun, -⟩ :=
    @sweepFrom_spec _ _ _ (fun d u => (f d, u)) (t, ()) (fun d _ => hsub d) (List.range t.size)
      [start] [] List.nodup_range
  rw [sweep, sweepWith, hrun, visitAll_updates]
  exact map_updateAll hg

theorem sweep_spec (ht : t.Indexed) (hsub : ∀ d, (f d).subtypes = d.subtypes)
    (hstart : start < t.size) :
    ∃ visited : List Nat,
      t.sweep start f = (t.updateAll visited f, visited) ∧ visited.Nodup ∧
      ∀ s, s ∈ visited ↔ ReflTransGen t.Below start s := by
  obtain ⟨visited, hrun, hvisited⟩ :=
    @sweepWith_spec _ _ _ t (fun d u => (f d, u)) () start ht (fun d _ => hsub d) hstart
  refine ⟨visited, ?_, hvisited⟩
  rw [sweep, hrun, visitAll_updates]

end Arena

end Metamodel
