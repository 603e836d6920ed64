import Metamodel.Proofs.Validation

/-!
# Metamodel.Proofs.Enumerations

Translation between the ordinals and the symbols of an enumeration.

* `EnumDef.Translates`  — what lookups find where no two elements have an ordinal in common.
* `EnumDef.inverse_iff` — the two lookups are inverse to one another just where no two elements have
  a symbol in common either.
* `enumeration_lookups_inverse_iff` — so it is with the enumerations of an accepted inventory.
  Validation looks at ordinals only; of elements with one symbol, the first one is found by it.
-/

namespace Metamodel

/-- Of values with different keys, each is the first one with its key. -/
theorem find?_of_nodup {α β : Type} [DecidableEq β] {key : α → β} {as : List α} {a : α}
    (h : (as.map key).Nodup) (ha : a ∈ as) : as.find? (key · = key a) = some a := by
  cases hfind : as.find? (key · = key a) with
  | none =>
    have hnone := List.find?_eq_none.mp hfind a ha
    simp at hnone
  | some b =>
    have hkey : key b = key a := by simpa using List.find?_some hfind
    rw [List.inj_on_of_nodup_map h (List.mem_of_find?_eq_some hfind) ha hkey]

namespace EnumDef

variable {d : EnumDef} {e : EnumElement} {o : Int32} {s : String}

/-! ## Lookups -/

theorem exists_of_symbolFor? (h : d.symbolFor? o = some s) :
    ∃ e ∈ d.elements, e.ordinal = o ∧ e.value = s := by
  obtain ⟨e, hfind, hs⟩ := Option.map_eq_some_iff.mp h
  exact ⟨e, List.mem_of_find?_eq_some hfind, by simpa using List.find?_some hfind, hs⟩

theorem exists_of_ordinalFor? (h : d.ordinalFor? s = some o) :
    ∃ e ∈ d.elements, e.ordinal = o ∧ e.value = s := by
  obtain ⟨e, hfind, ho⟩ := Option.map_eq_some_iff.mp h
  exact ⟨e, List.mem_of_find?_eq_some hfind, ho, by simpa using List.find?_some hfind⟩

theorem symbolFor?_of_mem (h : (d.elements.map (·.ordinal)).Nodup) (he : e ∈ d.elements) :
    d.symbolFor? e.ordinal = some e.value := by
  rw [symbolFor?, find?_of_nodup h he, Option.map_some]

theorem ordinalFor?_of_mem (h : (d.elements.map (·.value)).Nodup) (he : e ∈ d.elements) :
    d.ordinalFor? e.value = some e.ordinal := by
  rw [ordinalFor?, find?_of_nodup h he, Option.map_some]

theorem ordinalFor?_eq_some_iff : d.ordinalFor? s = some o ↔ ∃ before e after,
    d.elements = before ++ e :: after ∧ (∀ c ∈ before, c.value ≠ s) ∧ e.value = s ∧
      e.ordinal = o := by
  simp only [ordinalFor?, Option.map_eq_some_iff, List.find?_eq_some_iff_append, decide_eq_true_eq,
    Bool.not_eq_true', decide_eq_false_iff_not]
  constructor
  · rintro ⟨e, ⟨hs, before, after, hlist, hbefore⟩, ho⟩
    exact ⟨before, e, after, hlist, hbefore, hs, ho⟩
  · rintro ⟨before, e, after, hlist, hbefore, hs, ho⟩
    exact ⟨e, ⟨hs, before, after, hlist, hbefore⟩, ho⟩

/-! ## Translation -/

/-- What is found by ordinals and by symbols. -/
structure Translates (d : EnumDef) : Prop where
  /-- Every element is found by its ordinal, with its own symbol. -/
  symbolFor? : ∀ o s, d.symbolFor? o = some s ↔ ∃ e ∈ d.elements, e.ordinal = o ∧ e.value = s
  /-- By a symbol the first element is found that has it. -/
  ordinalFor? : ∀ o s, d.ordinalFor? s = some o ↔ ∃ before e after,
    d.elements = before ++ e :: after ∧ (∀ c ∈ before, c.value ≠ s) ∧ e.value = s ∧ e.ordinal = o
  /-- An ordinal that is found leads back to the symbol. -/
  back : ∀ o s, d.ordinalFor? s = some o → d.symbolFor? o = some s

theorem translates (h : (d.elements.map (·.ordinal)).Nodup) : d.Translates where
  symbolFor? o s := by
    refine ⟨exists_of_symbolFor?, ?_⟩
    rintro ⟨e, he, rfl, rfl⟩
    exact symbolFor?_of_mem h he
  ordinalFor? _ _ := ordinalFor?_eq_some_iff
  back o s hs := by
    obtain ⟨e, he, rfl, rfl⟩ := exists_of_ordinalFor? hs
    exact symbolFor?_of_mem h he

/-- Ordinals and symbols stand for one another. -/
def Inverse (d : EnumDef) : Prop := ∀ o s, d.symbolFor? o = some s ↔ d.ordinalFor? s = some o

theorem inverse_iff (h : (d.elements.map (·.ordinal)).Nodup) :
    d.Inverse ↔ (d.elements.map (·.value)).Nodup := by
  constructor
  · intro hinverse
    refine List.Nodup.map_on (fun a ha b hb hvalue => ?_) (h.of_map _)
    -- the symbol of both leads to the ordinal of each
    have hordinal := (hinverse _ _).mp (symbolFor?_of_mem h ha)
    rw [hvalue, (hinverse _ _).mp (symbolFor?_of_mem h hb)] at hordinal
    exact List.inj_on_of_nodup_map h ha hb (Option.some.inj hordinal).symm
  · intro hvalues o s
    refine ⟨fun hs => ?_, (translates h).back o s⟩
    obtain ⟨e, he, rfl, rfl⟩ := exists_of_symbolFor? hs
    exact ordinalFor?_of_mem hvalues he

theorem isSome_defaultValue? (h : (d.elements.map (·.ordinal)).Nodup)
    (hdefault : ∀ o, d.defaultOrdinal = some o → ∃ e ∈ d.elements, e.ordinal = o) :
    d.defaultValue?.isSome ↔ d.defaultOrdinal.isSome := by
  cases ho : d.defaultOrdinal with
  | none => simp [defaultValue?, ho]
  | some o =>
    obtain ⟨e, he, rfl⟩ := hdefault o ho
    simp [defaultValue?, ho, symbolFor?_of_mem h he]

end EnumDef

/-! ## Inventories -/

theorem Inventory.Enum.Sound.nodup_ordinals {r : Inventory.Enum} (h : r.Sound) :
    (r.toDef.elements.map (·.ordinal)).Nodup := by
  have hmap : r.toDef.elements.map (·.ordinal) = r.elements.map (·.ordinal) := List.map_map
  rw [hmap]
  exact h.ordinals

theorem Inventory.Enum.Sound.exists_default {r : Inventory.Enum} (h : r.Sound) {o : Int32}
    (ho : r.toDef.defaultOrdinal = some o) : ∃ e ∈ r.toDef.elements, e.ordinal = o := by
  obtain ⟨e, he, heo⟩ := h.default o ho
  exact ⟨e.toDef, List.mem_map_of_mem he, heo⟩

/-- An enumeration of an accepted inventory translates every ordinal into the symbol of its element,
and what it finds by a symbol leads back to it. The converse holds if and only if no two elements
have a symbol in common. -/
theorem enumeration_lookups_inverse_iff (v : Inventory) (hv : v.validate = .ok ()) (d : EnumDef)
    (hd : d ∈ v.enums) :
    d.Translates ∧ (d.defaultValue?.isSome ↔ d.defaultOrdinal.isSome) ∧
      (d.Inverse ↔ (d.elements.map (·.value)).Nodup) := by
  obtain ⟨r, hr, rfl⟩ := List.mem_map.mp hd
  have hsound := (Inventory.validate_eq_ok_iff.mp hv).enums r hr
  have hordinals := hsound.nodup_ordinals
  exact ⟨EnumDef.translates hordinals,
    EnumDef.isSome_defaultValue? hordinals fun _ => hsound.exists_default,
    EnumDef.inverse_iff hordinals⟩

/-- A status with a symbol for each ordinal. -/
def staged : Inventory where
  schemaVersion := 0
  enumRecords := [{ name := "status"
                    elements := [{ ordinal := 3, value := "ACTIVE" },
                      { ordinal := -1, value := "" }]
                    defaultOrdinal := some (-1) }]

/-- A status with two ordinals for one symbol. -/
def aliased : Inventory where
  schemaVersion := 0
  enumRecords := [{ name := "status"
                    elements := [{ ordinal := 0, value := "ACTIVE" },
                      { ordinal := 1, value := "ACTIVE" }] }]

theorem enumeration_lookups_inverse_iff_staged : staged.validate = .ok () ∧
    ∃ d ∈ staged.enums, d.Inverse ∧ d.ordinalFor? "" = some (-1) ∧ d.defaultValue?.isSome := by
  have hcheck : staged.check = .ok () := by decide +kernel
  have hv : staged.validate = .ok () := congrArg (Except.mapError _) hcheck
  obtain ⟨r, hr⟩ : ∃ r, r ∈ staged.enums := ⟨_, List.mem_singleton.mpr rfl⟩
  obtain ⟨-, hdefault, hinverse⟩ := enumeration_lookups_inverse_iff staged hv r hr
  cases List.mem_singleton.mp hr
  have hboth := hinverse.mpr (by decide)
  exact ⟨hv, _, hr, hboth, (hboth _ _).mp rfl, hdefault.mpr rfl⟩

/-- Two ordinals with one symbol are accepted, and the second one is not found by it. -/
theorem aliased_not_inverse : aliased.validate = .ok () ∧ ∃ d ∈ aliased.enums,
    d.symbolFor? 1 = some "ACTIVE" ∧ d.ordinalFor? "ACTIVE" = some 0 ∧ ¬ d.Inverse := by
  have hcheck : aliased.check = .ok () := by decide +kernel
  refine ⟨congrArg (Except.mapError _) hcheck, _, List.mem_singleton.mpr rfl, rfl, rfl, fun h => ?_⟩
  have hback := (h 1 "ACTIVE").mp rfl
  cases hback

end Metamodel
