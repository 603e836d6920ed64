import Metamodel.Model
import Metamodel.Proofs.Consistency

/-!
# Metamodel.Proofs.Chains

Supertype chains by name, as a model lists them.

* `Climbs.length_le`  — a chain is no longer than there are types, so the bound of `chainNames`
  never cuts one short.
* `mem_chainNames_iff` — in a grounded hierarchy the chain of a type holds what its supertype links
  lead to.
-/

namespace Metamodel

open Relation

namespace Arena

variable {δ ε : Type} [SupertypedDef δ] {t : Arena (ResolvedType δ ε)} {m : NameMap δ}
  {n k : String} {a : Nat} {chain : List Nat}

theorem Climbs.nodup (h : t.Climbs a chain) : chain.Nodup := by
  induction h with
  | root _ => exact List.nodup_singleton _
  | @step a b chain hab hb ih =>
    refine List.nodup_cons.mpr ⟨fun ha => ?_, ih⟩
    obtain ⟨r, hbr, hr⟩ := hb.exists_root
    -- a slot that is met again would lie on a loop
    exact not_loop_of_end (ascends_rightUnique t) (not_ascends_of_root hr) (.head hab hbr) .refl
      (.head' hab (hb.mem_iff.mp ha))

theorem Climbs.length_le (h : t.Climbs a chain) (ht : t.Indexed) (ha : a < t.size) :
    chain.length ≤ t.size := by
  refine length_le_size h.nodup fun b hb => ?_
  rcases reflTransGen_iff_eq_or_transGen.mp (h.mem_iff.mp hb) with rfl | hab
  · exact ha
  · obtain ⟨c, _, d, k, _, _, hk⟩ := TransGen.tail'_iff.mp hab
    exact ht.bounded hk

theorem chainNames_eq (h : t.Climbs a chain) (hn : t.slotOf? n = some a) {bound : Nat}
    (hbound : chain.length ≤ bound) : chainNames t bound n = t.namesAt chain := by
  induction h generalizing n bound with
  | @root a hr =>
    obtain ⟨bound, rfl⟩ : ∃ b, bound = b + 1 := ⟨bound - 1, by simp at hbound; omega⟩
    have hget := get?_of_slotOf? hn
    rw [chainNames, hget]
    cases hd : t.at? a with
    | none => simp [namesAt, hd]
    | some d => simp [namesAt, hd, ResolvedType.supertypeName?, hr d hd]
  | @step a b chain hab hb ih =>
    rw [List.length_cons] at hbound
    obtain ⟨bound, rfl⟩ : ∃ b, bound = b + 1 := ⟨bound - 1, by omega⟩
    obtain ⟨d, k, hd, hk, hkb⟩ := hab
    have hrest := ih hkb (Nat.le_of_succ_le_succ hbound)
    rw [chainNames, get?_of_slotOf? hn, hd]
    simp only [hk, hrest, namesAt, List.filterMap_cons, hd, Option.map_some]

theorem chainNames_of_none (hn : t.get? n = none) (bound : Nat) : chainNames t bound n = [] := by
  cases bound with
  | zero => rfl
  | succ bound => rw [chainNames, hn]

section Names

variable (ht : t.definitions = ofMap m) (hm : m.KeyedBy SupertypedDef.name)

include ht hm

theorem exists_climb (hg : m.Grounded) (hn : t.slotOf? n = some a) :
    ∃ chain, t.Climbs a chain := by
  cases hl : t.lineage "" a with
  | ok chain => exact ⟨chain, lineage_ok hl⟩
  | error d =>
    obtain ⟨k, _, hf⟩ := (lineage_error_iff_chainFlaw ht hm hn).mp hl
    exact absurd hf ((NameMap.grounded_iff hm).mp hg k d)

theorem mem_chainNames_iff (hg : m.Grounded) :
    k ∈ chainNames t t.size n ↔ (∃ c, m.get? n = some c) ∧ ReflTransGen m.Extends n k := by
  have hidx := indexed_of_definitions ht
  cases hn : t.slotOf? n with
  | none =>
    rw [chainNames_of_none (hidx.slotOf?_eq_none_iff.mp hn),
      (slotOf?_eq_none_of_definitions ht).mp hn]
    simp
  | some a =>
    obtain ⟨c, _, hc⟩ := exists_at? ht hn
    obtain ⟨chain, hclimb⟩ := exists_climb ht hm hg hn
    rw [chainNames_eq hclimb hn (hclimb.length_le hidx (hidx.bounded hn)), namesAt,
      List.mem_filterMap]
    constructor
    · rintro ⟨b, hb, hk⟩
      obtain ⟨d, hd, rfl⟩ := Option.map_eq_some_iff.mp hk
      obtain ⟨j, hj, hnj⟩ := (reaches_iff ht hn).mp (hclimb.mem_iff.mp hb)
      rw [name_at? ht hm hj hd]
      exact ⟨⟨_, hc⟩, hnj⟩
    · rintro ⟨hreg, hnk⟩
      obtain ⟨e, he⟩ := hg.registered hreg hnk
      obtain ⟨b, hb⟩ := exists_slotOf? ht he
      obtain ⟨d, hd, _⟩ := exists_at? ht hb
      refine ⟨b, hclimb.mem_iff.mpr ((reaches_iff ht hn).mpr ⟨k, hb, hnk⟩), ?_⟩
      rw [hd, Option.map_some, name_at? ht hm hb hd]

end Names

end Arena

end Metamodel
