import Metamodel.Proofs.Defects
import Metamodel.Proofs.Members

/-!
# Metamodel.Proofs.Subtypes

Subtype sets, and what a sweep reaches through them.

* `Arena.Linked`      — an arena of definitions in which every type knows its subtypes.
* `linked_completed`  — a hierarchy without defects is linked when it is completed.
* `Linked.holds_attach`, `Linked.holds_attach_direct` — from then on, what is attached to a type by
  a mark and a sweep is on the type itself, and on it and all types below it.
* `Linked.foldl_anchors_iff` — a loop that attaches to one type after the other.
-/

namespace Metamodel

open Relation

namespace Arena

variable {δ ε : Type} [SupertypedDef δ] {t t' : Arena (ResolvedType δ ε)} {m : NameMap δ}
  {label n x : String} {a b s : Nat} {f : ResolvedType δ ε → NameSet}

/-! ## Marking -/

omit [SupertypedDef δ] in
theorem holds_markAncestors {name : String} {slots : List Nat} :
    (t.markAncestors name slots).Holds ResolvedType.subtypes s x ↔
      t.Holds ResolvedType.subtypes s x ∨ (s ∈ slots ∧ s < t.size) ∧ x = name := by
  cases slots with
  | nil => simp [markAncestors]
  | cons parent others =>
    change ((t.update parent (·.addSubtype name true)).updateAll others
      (·.addSubtype name false)).Holds _ s x ↔ _
    rw [holds_updateAll fun _ => mem_addSubtype _ _, holds_update fun _ => mem_addSubtype _ _,
      size_update, or_assoc,
      ← or_and_right, ← or_and_right, List.mem_cons]

omit [SupertypedDef δ] in
theorem holds_markAncestors_direct {name : String} {slots : List Nat} :
    (t.markAncestors name slots).Holds ResolvedType.directSubtypes s x ↔
      t.Holds ResolvedType.directSubtypes s x ∨
        (slots.head? = some s ∧ s < t.size) ∧ x = name := by
  cases slots with
  | nil => simp [markAncestors]
  | cons parent others =>
    have hothers : ∀ u : Arena (ResolvedType δ ε),
        (u.updateAll others (·.addSubtype name false)).Holds ResolvedType.directSubtypes
          = u.Holds ResolvedType.directSubtypes :=
      fun _ => holds_congr (map_updateAll fun _ => rfl)
    change ((t.update parent (·.addSubtype name true)).updateAll others
      (·.addSubtype name false)).Holds _ s x ↔ _
    rw [hothers, holds_update fun _ => mem_addSubtype_direct _,
      List.head?_cons, Option.some.injEq, eq_comm (a := s)]

theorem lt_of_ascends (ht : t.Indexed) (h : TransGen t.Ascends a b) : b < t.size := by
  obtain ⟨c, _, d, k, _, _, hb⟩ := TransGen.tail'_iff.mp h
  exact ht.bounded hb

/-- What the chain of a type marks, all chains together mark. A type without a chain leaves no
mark. -/
theorem holds_marks {Up : Nat → Nat → Prop} (ht : t.Indexed)
    (hmark : ∀ {u : Arena (ResolvedType δ ε)} {i : Nat} {chain : List Nat} {name : String},
      t.Climbs i chain → u.size = t.size →
      ((u.markAncestors name chain.tail).Holds f s x ↔ u.Holds f s x ∨ Up i s ∧ x = name)) :
    (t.markSubtypes label).Holds f s x ↔
      t.Holds f s x ∨ ∃ i ∈ t.slotsByName, ((∃ chain, t.lineage label i = .ok chain) ∧ Up i s) ∧
        ∃ d, t.at? i = some d ∧ d.name = x := by
  refine foldl_iff (P := fun u => u.definitions = t.definitions) (fun u => u.Holds f s x) _
    (fun u i _ hu => (map_workOn fun _ => definitions_markChain).trans hu)
    (fun u i hi hu => ?_) t rfl
  cases hchain : t.lineage label i with
  | error e => simp
  | ok chain =>
    obtain ⟨n, hn⟩ := mem_slotsByName.mp hi
    obtain ⟨d, hd⟩ := at?_of_lt (ht.bounded hn)
    rcases at?_congr hu i with ⟨-, h⟩ | ⟨d', e, hd', he, hde⟩
    · rw [hd] at h
      cases h
    · rw [hd] at he
      cases he
      have hsize : u.size = t.size := by simpa using congrArg Arena.size hu
      have hname : d'.name = d.name := congrArg SupertypedDef.name hde
      have hrun : u.markChain i chain = u.markAncestors d.name chain.tail := by
        simp only [markChain, hd', hname]
      rw [workOn_ok, hrun, hmark (lineage_ok hchain) hsize, hd]
      simp [eq_comm]

/-- Every type that has a chain is marked in all types above it. -/
theorem holds_markSubtypes (ht : t.Indexed) :
    (t.markSubtypes label).Holds ResolvedType.subtypes s x ↔
      t.Holds ResolvedType.subtypes s x ∨ ∃ i ∈ t.slotsByName,
        ((∃ chain, t.lineage label i = .ok chain) ∧ TransGen t.Ascends i s) ∧
          ∃ d, t.at? i = some d ∧ d.name = x := by
  refine holds_marks ht fun hclimb hsize => ?_
  rw [holds_markAncestors, hclimb.mem_tail_iff, hsize, and_iff_left_of_imp (lt_of_ascends ht)]

/-- Every type that has a chain is marked as a direct subtype in the next one above it. -/
theorem holds_markSubtypes_direct (ht : t.Indexed) :
    (t.markSubtypes label).Holds ResolvedType.directSubtypes s x ↔
      t.Holds ResolvedType.directSubtypes s x ∨ ∃ i ∈ t.slotsByName,
        ((∃ chain, t.lineage label i = .ok chain) ∧ t.Ascends i s) ∧
          ∃ d, t.at? i = some d ∧ d.name = x := by
  refine holds_marks ht fun hclimb hsize => ?_
  rw [holds_markAncestors_direct, hclimb.head?_tail_iff, hsize,
    and_iff_left_of_imp fun h => lt_of_ascends ht (.single h)]

/-- Marks by slot, read as marks by name. Without defects every type has a chain. -/
theorem marked_iff {Up : Nat → Nat → Prop} {Above : String → String → Prop}
    (ht : t.definitions = ofMap m) (hm : m.KeyedBy SupertypedDef.name)
    (hnone : t.lineageDefects label = [])
    (hup : ∀ {i k}, t.slotOf? k = some i → (Up i a ↔ Above k n))
    (hreg : Above x n → ∃ c, m.get? x = some c) :
    (∃ i ∈ t.slotsByName, ((∃ chain, t.lineage label i = .ok chain) ∧ Up i a) ∧
      ∃ d, t.at? i = some d ∧ d.name = x) ↔ Above x n := by
  constructor
  · rintro ⟨i, hi, ⟨-, hia⟩, d, hd, rfl⟩
    obtain ⟨k, hk⟩ := mem_slotsByName.mp hi
    rw [name_at? ht hm hk hd]
    exact (hup hk).mp hia
  · intro h
    obtain ⟨c, hc⟩ := hreg h
    obtain ⟨i, hi⟩ := exists_slotOf? ht hc
    obtain ⟨d, hd, _⟩ := exists_at? ht hi
    have hmem := mem_slotsByName.mpr ⟨x, hi⟩
    exact ⟨i, hmem, ⟨lineage_of_no_defects hnone hmem, (hup hi).mpr h⟩, d, hd,
      name_at? ht hm hi hd⟩

/-! ## Before any mark -/

omit [SupertypedDef δ] in
theorem not_holds_unresolved [EmptyCollection ε] (hf : ∀ d : δ, f (.ofDefinition d) = ∅) :
    ¬ (unresolved m : Arena (ResolvedType δ ε)).Holds f s x := by
  have key : ∀ u : Arena (ResolvedType δ ε), (∀ s, ¬ u.Holds f s x) → ∀ e : String × δ,
      ∀ s, ¬ (u.insert e.1 (.ofDefinition e.2)).1.Holds f s x := by
    rintro u hu e s ⟨d, hd, hx⟩
    cases he : u.slotOf? e.1 with
    | some i =>
      rw [insert_of_some he] at hd
      exact hu s ⟨d, hd, hx⟩
    | none =>
      rw [at?_insert he] at hd
      split at hd
      · cases hd
        rw [hf] at hx
        exact NameSet.not_mem_empty hx
      · exact hu s ⟨d, hd, hx⟩
  have hnew : ∀ s, ¬ (∅ : Arena (ResolvedType δ ε)).Holds f s x := by
    rintro s ⟨d, hd, -⟩
    exact Nat.not_lt_zero s (lt_of_at? hd)
  exact List.foldlRecOn m.toList _ (motive := fun u => ∀ s, ¬ u.Holds f s x) hnew
    (fun u hu e _ => key u hu e) s

/-! ## Linked arenas -/

/-- The arena holds the definitions of a map, and every type knows all types below it. -/
structure Linked (t : Arena (ResolvedType δ ε)) (m : NameMap δ) : Prop where
  definitions : t.definitions = ofMap m
  subtypes : ∀ {n a x}, t.slotOf? n = some a →
    (t.Holds ResolvedType.subtypes a x ↔ TransGen m.Extends x n)

theorem linked_completed (ht : t.definitions = ofMap m) (hm : m.KeyedBy SupertypedDef.name)
    (hempty : ∀ s x, ¬ t.Holds ResolvedType.subtypes s x) (hnone : t.lineageDefects label = []) :
    (t.completed label).Linked m := by
  have hidx := indexed_of_definitions ht
  refine ⟨definitions_completed.trans ht, fun {n a x} hn => ?_⟩
  rw [slotOf?_congr definitions_completed] at hn
  rw [completed, holds_congr (map_gatherAttributes fun _ _ => rfl), holds_markSubtypes hidx,
    or_iff_right (hempty a x)]
  refine marked_iff ht hm hnone (fun {i k} hk => ?_) fun h => ?_
  · rw [properly_reaches_iff ht hk]
    exact ⟨fun ⟨j, hj, hkj⟩ => hidx.injective hj hn ▸ hkj, fun hkn => ⟨n, hn, hkn⟩⟩
  · obtain ⟨k, hk, _⟩ := TransGen.head'_iff.mp h
    exact NameMap.registered_of_extends hk

/-- A completed hierarchy also tells the direct subtypes from the others. -/
theorem holds_completed_direct (ht : t.definitions = ofMap m)
    (hm : m.KeyedBy SupertypedDef.name)
    (hempty : ∀ s x, ¬ t.Holds ResolvedType.directSubtypes s x)
    (hnone : t.lineageDefects label = []) (hn : t.slotOf? n = some a) :
    (t.completed label).Holds ResolvedType.directSubtypes a x ↔ m.Extends x n := by
  have hidx := indexed_of_definitions ht
  rw [completed, holds_congr (map_gatherAttributes fun _ _ => rfl),
    holds_markSubtypes_direct hidx, or_iff_right (hempty a x)]
  refine marked_iff ht hm hnone (fun {i k} hk => ?_) NameMap.registered_of_extends
  rw [ascends_iff ht hk]
  exact ⟨fun ⟨j, hj, hkj⟩ => hidx.injective hj hn ▸ hkj, fun hkn => ⟨n, hn, hkn⟩⟩

namespace Linked

theorem congr (h : t.Linked m) (hbare : t'.map ResolvedType.bare = t.map ResolvedType.bare) :
    t'.Linked m where
  definitions := (definitions_congr hbare).trans h.definitions
  subtypes hn := by
    have hsub : t'.Holds ResolvedType.subtypes = t.Holds ResolvedType.subtypes :=
      holds_congr (map_congr hbare (·.subtypes))
    rw [hsub]
    exact h.subtypes (slotOf?_congr (definitions_congr hbare) _ ▸ hn)

theorem slotOf?_eq (h : t.Linked m) (h' : t'.Linked m) (n : String) :
    t'.slotOf? n = t.slotOf? n :=
  slotOf?_congr (h'.definitions.trans h.definitions.symm) n

theorem indexed (h : t.Linked m) : t.Indexed := indexed_of_definitions h.definitions

theorem below_iff (h : t.Linked m) (hn : t.slotOf? n = some a) :
    t.Below a b ↔ ∃ k, t.slotOf? k = some b ∧ TransGen m.Extends k n := by
  simp only [below_iff_lists, Lists, h.subtypes hn, and_comm]

/-- A type and all types below it are what can be reached through subtype sets. -/
theorem reaches_below_iff (h : t.Linked m) (hn : t.slotOf? n = some a) :
    ReflTransGen t.Below a b ↔ ∃ k, t.slotOf? k = some b ∧ ReflTransGen m.Extends k n := by
  constructor
  · intro hab
    induction hab with
    | refl => exact ⟨n, hn, .refl⟩
    | tail _ hbc ih =>
      obtain ⟨k, hk, hkn⟩ := ih
      obtain ⟨j, hj, hjk⟩ := (h.below_iff hk).mp hbc
      exact ⟨j, hj, hjk.to_reflTransGen.trans hkn⟩
  · rintro ⟨k, hk, hkn⟩
    rcases reflTransGen_iff_eq_or_transGen.mp hkn with rfl | hkn
    · rw [hn] at hk
      cases hk
      exact .refl
    · exact .single ((h.below_iff hn).mpr ⟨k, hk, hkn⟩)

/-! ## Attaching to a type and all types below it -/

section Attach

variable {mark spread : ResolvedType δ ε → ResolvedType δ ε} {p : Prop} {k : String}
  (h : t.Linked m) (hn : t.slotOf? n = some a) (hmark : ∀ d, (mark d).bare = d.bare)
  (hspread : ∀ d, (spread d).bare = d.bare)

include h hn hmark hspread

theorem attach_spec : ∃ visited : List Nat,
    (t.update a mark).sweep a spread = ((t.update a mark).updateAll visited spread, visited) ∧
      ∀ {k s}, t.slotOf? k = some s → (s ∈ visited ↔ ReflTransGen m.Extends k n) := by
  have hmarked : (t.update a mark).Linked m := h.congr (map_update hmark)
  have hsub : ∀ d, (spread d).subtypes = d.subtypes := fun d =>
    congrArg (fun e : ResolvedType δ Unit => e.subtypes) (hspread d)
  obtain ⟨visited, hrun, -, hmem⟩ :=
    Arena.sweep_spec hmarked.indexed hsub (hmarked.indexed.bounded hn)
  refine ⟨visited, hrun, fun {k s} hk => ?_⟩
  rw [hmem, hmarked.reaches_below_iff hn]
  exact ⟨fun ⟨j, hj, hjn⟩ => h.indexed.injective hj hk ▸ hjn, fun hkn => ⟨k, hk, hkn⟩⟩

theorem mem_attach (hk : t.slotOf? k = some s) :
    s ∈ ((t.update a mark).sweep a spread).2 ↔ ReflTransGen m.Extends k n := by
  obtain ⟨visited, hrun, hmem⟩ := h.attach_spec hn hmark hspread
  rw [hrun]
  exact hmem hk

/-- A set that is added to on the way down has the addition in the type and below it. -/
theorem holds_attach (hk : t.slotOf? k = some s) (hf : ∀ d, f (mark d) = f d)
    (hadd : ∀ d, x ∈ f (spread d) ↔ x ∈ f d ∨ p) :
    ((t.update a mark).sweep a spread).1.Holds f s x ↔
      t.Holds f s x ∨ ReflTransGen m.Extends k n ∧ p := by
  obtain ⟨visited, hrun, hmem⟩ := h.attach_spec hn hmark hspread
  rw [hrun, holds_updateAll hadd, hmem hk, size_update, holds_congr (map_update hf),
    and_iff_left (h.indexed.bounded hk)]

/-- A set that is added to by the mark alone has the addition in the type alone. -/
theorem holds_attach_direct (hk : t.slotOf? k = some s) (hf : ∀ d, f (spread d) = f d)
    (hadd : ∀ d, x ∈ f (mark d) ↔ x ∈ f d ∨ p) :
    ((t.update a mark).sweep a spread).1.Holds f s x ↔ t.Holds f s x ∨ n = k ∧ p := by
  obtain ⟨visited, hrun, -⟩ := h.attach_spec hn hmark hspread
  rw [hrun, holds_congr (map_updateAll hf), holds_update hadd, h.indexed.slot_eq_iff hn hk,
    and_iff_left (h.indexed.bounded hk)]

end Attach

/-- A loop over slots adds what it adds at the types in them; `Named` are the names of these. -/
theorem foldl_anchors_iff {σ : Type} (arena : σ → Arena (ResolvedType δ ε)) (view : σ → Prop)
    {step : σ → Nat → σ} {slots : List Nat} {u : σ} {Named Q : String → Prop}
    (h : (arena u).Linked m)
    (hslots : ∀ a, a ∈ slots ↔ ∃ n, Named n ∧ (arena u).slotOf? n = some a)
    (hlinked : ∀ v a, (arena v).Linked m → (arena (step v a)).Linked m)
    (hview : ∀ v n a, (arena v).Linked m → (arena v).slotOf? n = some a →
      (view (step v a) ↔ view v ∨ Q n)) :
    view (slots.foldl step u) ↔ view u ∨ ∃ n, Named n ∧ (∃ e, m.get? n = some e) ∧ Q n := by
  -- a slot stands for one name only, so what it adds is what that name adds
  have hadds : ∀ v, ∀ a ∈ slots, (arena v).Linked m →
      (view (step v a) ↔ view v ∨ ∃ n, (arena u).slotOf? n = some a ∧ Q n) := by
    intro v a ha hv
    obtain ⟨n, _, hn⟩ := (hslots a).mp ha
    rw [hview v n a hv (h.slotOf?_eq hv n ▸ hn)]
    refine or_congr_right ⟨fun hq => ⟨n, hn, hq⟩, fun ⟨k, hk, hq⟩ => ?_⟩
    rwa [h.indexed.injective hk hn] at hq
  rw [foldl_iff view slots (fun v a _ hv => hlinked v a hv) hadds u h]
  refine or_congr_right ⟨?_, ?_⟩
  · rintro ⟨a, ha, n, hn, hq⟩
    obtain ⟨k, hk, hka⟩ := (hslots a).mp ha
    obtain ⟨e, _, he⟩ := exists_at? h.definitions hn
    rw [h.indexed.injective hka hn] at hk
    exact ⟨n, hk, ⟨_, he⟩, hq⟩
  · rintro ⟨n, hn, ⟨e, he⟩, hq⟩
    obtain ⟨a, ha⟩ := exists_slotOf? h.definitions he
    exact ⟨a, (hslots a).mpr ⟨n, hn, ha⟩, n, ha, hq⟩

end Linked

end Arena

end Metamodel
