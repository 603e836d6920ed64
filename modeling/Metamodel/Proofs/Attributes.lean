import Metamodel.Proofs.Passes
import Metamodel.Proofs.Supertypes

/-!
# Metamodel.Proofs.Attributes

Attributes along supertype chains.

* `Arena.attributesAlong_eq`    — the attributes of a chain of slots, by the names of its types.
* `Arena.carries_gatherAttributes` — what the loop over a hierarchy gives to each type.
-/

namespace Metamodel

/-- The attributes that a registered type declares itself. -/
def NameMap.ownAttributes {δ : Type} [SupertypedDef δ] (m : NameMap δ) (n : String) :
    List AttributeDef :=
  match m.get? n with
  | none => []
  | some d => SupertypedDef.attributes d

namespace Arena

variable {δ ε : Type} [SupertypedDef δ] {t u : Arena (ResolvedType δ ε)} {m : NameMap δ}
  {label : String} {i s : Nat} {chain : List Nat} {as : List AttributeDef}

theorem attributesAlong_congr (h : u.definitions = t.definitions) (chain : List Nat) :
    u.attributesAlong chain = t.attributesAlong chain := by
  refine congrArg chain.reverse.flatMap (funext fun s => ?_)
  rcases at?_congr h s with ⟨hu, ht⟩ | ⟨d', d, hu, ht, hd⟩
  · rw [hu, ht]
  · simp only [hu, ht, ResolvedType.ownAttributes, hd]

/-- The root comes first, so the type that a chain begins with adds its own at the end. -/
theorem attributesAlong_cons {d : ResolvedType δ ε} (hd : t.at? s = some d) :
    t.attributesAlong (s :: chain) = t.attributesAlong chain ++ d.ownAttributes := by
  simp [attributesAlong, hd]

theorem namesAt_cons {d : ResolvedType δ ε} (hd : t.at? s = some d) :
    t.namesAt (s :: chain) = d.name :: t.namesAt chain := by
  simp [namesAt, hd]

theorem Climbs.congr (h : u.definitions = t.definitions) (hc : t.Climbs s chain) :
    u.Climbs s chain := by
  have hslot : u.superSlot "" = t.superSlot "" := funext (superSlot_congr h)
  induction hc with
  | root hr => exact .root (superSlot_ok_none.mp (hslot ▸ superSlot_ok_none.mpr hr))
  | step hab _ ih => exact .step (superSlot_ok_some.mp (hslot ▸ superSlot_ok_some.mpr hab)) ih

section Names

variable (ht : t.definitions = ofMap m) (hm : m.KeyedBy SupertypedDef.name)

include ht hm

theorem ownAttributes_of_at? {d : ResolvedType δ ε} (hd : t.at? s = some d) :
    m.ownAttributes d.name = d.ownAttributes := by
  obtain ⟨n, hn⟩ := (indexed_of_definitions ht).covered (lt_of_at? hd)
  obtain ⟨d', hd', hdef⟩ := exists_at? ht hn
  rw [hd] at hd'
  cases hd'
  rw [name_at? ht hm hn hd]
  simp only [NameMap.ownAttributes, hdef]
  rfl

theorem attributesAlong_eq (chain : List Nat) :
    t.attributesAlong chain = (t.namesAt chain).reverse.flatMap m.ownAttributes := by
  induction chain with
  | nil => rfl
  | cons s chain ih =>
    cases hd : t.at? s with
    | none =>
      have hrest : t.attributesAlong (s :: chain) = t.attributesAlong chain := by
        simp [attributesAlong, hd]
      have hnames : t.namesAt (s :: chain) = t.namesAt chain := by simp [namesAt, hd]
      rw [hrest, ih, hnames]
    | some d =>
      rw [attributesAlong_cons hd, ih, namesAt_cons hd, List.reverse_cons, List.flatMap_append,
        List.flatMap_singleton, ownAttributes_of_at? ht hm hd]

end Names

/-! ## The loop -/

/-- The type in a slot has these attributes. -/
def Carries (t : Arena (ResolvedType δ ε)) (s : Nat) (as : List AttributeDef) : Prop :=
  ∃ d, t.at? s = some d ∧ d.attributes = as

/-- One step gives the type in its slot the attributes along its chain, and no other type any. -/
theorem carries_inheritAlong (hu : u.definitions = t.definitions)
    (hs : t.lineage label s = .ok chain) (hlt : s < u.size)
    (h : s = i ∨ u.Carries s (t.attributesAlong chain)) :
    (workOn u (u.inheritAlong i) (t.lineage label i)).Carries s (t.attributesAlong chain) := by
  by_cases hi : s = i
  · subst hi
    obtain ⟨d, hd⟩ := at?_of_lt hlt
    rw [hs, workOn_ok, inheritAlong, attributesAlong_congr hu]
    exact ⟨_, by rw [at?_update, if_pos rfl, hd, Option.map_some], rfl⟩
  · obtain ⟨d, hd, has⟩ := h.resolve_left hi
    cases t.lineage label i with
    | error _ => exact ⟨d, hd, has⟩
    | ok other => exact ⟨d, by rw [workOn_ok, inheritAlong, at?_update, if_neg (Ne.symm hi), hd], has⟩

/-- By induction on the slots still to come: the slot in question is one of them, or done. -/
theorem carries_gatherAttributes (hs : t.lineage label s = .ok chain) (hlt : s < t.size)
    (hmem : s ∈ t.slotsByName) :
    (t.gatherAttributes label).Carries s (t.attributesAlong chain) := by
  have key : ∀ (slots : List Nat) (u : Arena (ResolvedType δ ε)), u.definitions = t.definitions →
      s ∈ slots ∨ u.Carries s (t.attributesAlong chain) →
      (slots.foldl (fun acc i => workOn acc (acc.inheritAlong i) (t.lineage label i)) u).Carries s
        (t.attributesAlong chain) := by
    intro slots
    induction slots with
    | nil => exact fun u _ h => h.resolve_left List.not_mem_nil
    | cons i slots ih =>
      intro u hu h
      have hsize : u.size = t.size := by simpa using congrArg Arena.size hu
      refine ih _ ((map_workOn fun _ => definitions_inheritAlong).trans hu) ?_
      rw [List.mem_cons, or_right_comm] at h
      exact h.symm.imp_right (carries_inheritAlong hu hs (hsize ▸ hlt))
  exact key t.slotsByName t rfl (.inl hmem)

end Arena

end Metamodel
