import Metamodel.Proofs.Lookups

/-!
# Metamodel.Proofs.Warnings

What a history of additions reports: every definition that loses something is warned of, once.

* `ignoredWarning`, `skippedWarning` — the two warnings there are, word by word.
* `Draft.Warned`       — what one addition emits, told by its answer.
* `Draft.PassedOver`   — a name is stored with a guid that leads to another name.
* `Draft.Accounted`    — a trace warns of what is passed over, once each, and of no other name and
  guid. Every addition keeps it so.
* `nothing_dropped_silently` — both, of a new draft after any history.
-/

namespace Metamodel

theorem Category.name_injective {c c' : Category} (h : c.name = c'.name) : c = c' := by
  cases c <;> cases c' <;> first | rfl | exact absurd h (by decide)

/-! ## Warnings -/

/-- What is logged of a definition that lost against an earlier one of its name. -/
def ignoredWarning (c : Category) (n label : String) : Event where
  level := .warn
  fields := [("message", "ignoring conflicting re-registration"), ("type_category", c.name),
    ("type_name", n), ("source", label)]

/-- What is logged of a definition whose guid goes with another name. -/
def skippedWarning (c : Category) (n g : String) : Event where
  level := .warn
  fields := [("message", "lookup pair not indexed: name or guid already mapped"),
    ("type_category", c.name), ("type_name", n), ("guid", g)]

theorem Registry.ignoredEvent_eq (c : Category) (n label : String) :
    ignoredEvent c n label = ignoredWarning c n label := rfl

theorem Pairing.skippedEvent_eq (c : Category) (n g : String) :
    skippedEvent c n g = skippedWarning c n g := rfl

theorem skippedWarning_inj {c c' : Category} {n n' g g' : String} :
    skippedWarning c n g = skippedWarning c' n' g' ↔ c = c' ∧ n = n' ∧ g = g' := by
  constructor
  · intro h
    simp only [skippedWarning, Event.mk.injEq, List.cons.injEq, Prod.mk.injEq] at h
    exact ⟨Category.name_injective h.2.2.1.2, h.2.2.2.1.2, h.2.2.2.2.1.2⟩
  · rintro ⟨rfl, rfl, rfl⟩
    rfl

theorem skippedWarning_ne_ignoredWarning {c c' : Category} {n n' g label : String} :
    skippedWarning c n g ≠ ignoredWarning c' n' label := by
  simp [skippedWarning, ignoredWarning]

theorem GuidIndex.events_register (x : GuidIndex) (d : TypeDef) :
    (x.register d).2
      = (x.pairing? d.category).elim [] (·.registerEvents d.category d.name d.guid) := by
  cases d <;> rfl

namespace Draft

variable {b : Draft} {d : TypeDef} {ds : List TypeDef} {c : Category} {n g : String}
  {es : List Event}

/-! ## One addition -/

/-- An entity or relationship type with a guid that goes with a name already. -/
def GuidTaken (b : Draft) (d : TypeDef) : Prop :=
  (d.category = .entity ∨ d.category = .relationship) ∧ d.name ≠ "" ∧ d.guid ≠ "" ∧
    b.guids.nameOf? d.category d.guid ≠ none

instance : Decidable (b.GuidTaken d) :=
  inferInstanceAs (Decidable ((_ ∨ _) ∧ _ ∧ _ ∧ _))

/-- Of a new definition, the index reports the guid that it does not get. -/
theorem Indexed.events_register (h : b.Indexed)
    (hnew : b.registry.find? d.category d.name = none) : (b.guids.register d).2
      = if b.GuidTaken d then [skippedWarning d.category d.name d.guid] else [] := by
  rw [GuidIndex.events_register]
  by_cases hc : d.category = .entity ∨ d.category = .relationship
  · obtain ⟨p, hp⟩ := GuidIndex.exists_pairing? (x := b.guids) hc
    have hguid : p.guid? d.name = none :=
      (h _ p hp).guid?_of_new (Registry.guidOf?_of_new hnew)
    have htaken : b.GuidTaken d ↔
        Pairing.indexable d.name d.guid = true ∧ p.taken d.name d.guid = true := by
      rw [← Bool.not_eq_false (p.taken d.name d.guid), Pairing.taken_eq_false,
        Pairing.indexable_iff]
      simp [GuidTaken, hc, GuidIndex.nameOf?, hp, hguid, and_assoc]
    simp only [hp, Option.elim_some, Pairing.registerEvents, Pairing.skippedEvent_eq,
      Bool.and_eq_true, htaken]
  · have hnone : b.guids.pairing? d.category = none := by
      cases hcat : d.category <;> simp_all [GuidIndex.pairing?]
    rw [hnone, if_neg (fun h => hc h.1), Option.elim_none]

/-- The four ways an addition ends, with what it emits. -/
theorem Indexed.add_cases (h : b.Indexed) (d : TypeDef) :
    (b.registry.find? d.category d.name = none ∧ (b.add d).2.result = .ok .added ∧
      (b.add d).2.events
        = if b.GuidTaken d then [skippedWarning d.category d.name d.guid] else []) ∨
    (b.registry.find? d.category d.name = some d ∧ (b.add d).2.result = .ok .unchanged ∧
      (b.add d).2.events = []) ∨
    ((∃ stored, b.registry.find? d.category d.name = some stored) ∧
      (∃ f, (b.add d).2.result = .error f) ∧ (b.add d).2.events = []) ∨
    ((∃ stored, b.registry.find? d.category d.name = some stored) ∧
      (b.add d).2.result = .ok .ignored ∧
      (b.add d).2.events = [ignoredWarning d.category d.name b.label]) := by
  rcases b.registry.register_cases d with ⟨hfind, -⟩ | ⟨hfind, hrun⟩ |
    ⟨⟨stored, hfind, -⟩, -, hrun⟩ | ⟨⟨stored, hfind, -⟩, -, hrun⟩
  · rw [add_of_none hfind]
    exact .inl ⟨hfind, rfl, h.events_register hfind⟩
  all_goals rw [add_of_some hfind, hrun]
  · exact .inr (.inl ⟨hfind, rfl, rfl⟩)
  · exact .inr (.inr (.inl ⟨⟨stored, hfind⟩, ⟨_, rfl⟩, rfl⟩))
  · exact .inr (.inr (.inr ⟨⟨stored, hfind⟩, rfl,
      congrArg (fun e => [e]) (Registry.ignoredEvent_eq _ _ _)⟩))

/-- An addition warns of a definition that is ignored, and of one that is added but not found by its
guid. Otherwise it emits nothing. -/
structure Warned (b : Draft) (d : TypeDef) (run : Traced Fault Registration) : Prop where
  ignored : run.events = [ignoredWarning d.category d.name b.label] ↔
    run.result = .ok .ignored
  skipped : run.events = [skippedWarning d.category d.name d.guid] ↔
    run.result = .ok .added ∧ b.GuidTaken d
  silent : run.events = [] ↔
    run.result ≠ .ok .ignored ∧ ¬ (run.result = .ok .added ∧ b.GuidTaken d)

theorem Indexed.warned (h : b.Indexed) (d : TypeDef) : b.Warned d (b.add d).2 := by
  have hne : skippedWarning d.category d.name d.guid
      ≠ ignoredWarning d.category d.name b.label := skippedWarning_ne_ignoredWarning
  rcases h.add_cases d with ⟨-, hresult, hevents⟩ | ⟨-, hresult, hevents⟩ |
    ⟨-, ⟨f, hresult⟩, hevents⟩ | ⟨-, hresult, hevents⟩
  · by_cases htaken : b.GuidTaken d
    · rw [if_pos htaken] at hevents
      constructor <;> simp [hresult, hevents, htaken, hne]
    · rw [if_neg htaken] at hevents
      constructor <;> simp [hresult, hevents, htaken]
  · constructor <;> simp [hresult, hevents]
  · constructor <;> simp [hresult, hevents]
  · constructor <;> simp [hresult, hevents, hne.symm]

/-! ## A history of additions -/

/-- What a list of additions emits. -/
def trace (b : Draft) : List TypeDef → List Event
  | [] => []
  | d :: ds => (b.add d).2.events ++ trace (b.add d).1 ds

/-- A definition is stored under the name with the guid, but the guid does not lead to the name. -/
def PassedOver (b : Draft) (c : Category) (n g : String) : Prop :=
  b.registry.guidOf? c n = some g ∧ n ≠ "" ∧ g ≠ "" ∧ b.guids.nameOf? c g ≠ some n

instance : Decidable (b.PassedOver c n g) :=
  inferInstanceAs (Decidable (_ ∧ _ ∧ _ ∧ _))

/-- The definition is new, belongs under the name, and its guid is taken. -/
def PassesOver (b : Draft) (d : TypeDef) (c : Category) (n g : String) : Prop :=
  b.registry.find? d.category d.name = none ∧ b.GuidTaken d ∧ d.StandsAt c n ∧ d.guid = g

instance : Decidable (b.PassesOver d c n g) :=
  inferInstanceAs (Decidable (_ ∧ _ ∧ _ ∧ _))

theorem Indexed.nameOf?_ne_of_new (h : b.Indexed) (hnew : b.registry.find? c n = none) :
    b.guids.nameOf? c g ≠ some n := by
  intro hname
  obtain ⟨p, hp, hg⟩ := Option.bind_eq_some_iff.mp hname
  have hguid := (h c p hp).guid?_of_new (Registry.guidOf?_of_new hnew)
  rw [(h c p hp).inverse.mpr hg] at hguid
  cases hguid

theorem Indexed.nameOf?_add_eq_some (h : b.Indexed) (hc : c = .entity ∨ c = .relationship)
    (hg : g ≠ "") : (b.add d).1.guids.nameOf? c g = some n ↔ b.guids.nameOf? c g = some n ∨
      (b.guids.nameOf? c g = none ∧ b.registry.find? d.category d.name = none ∧
        d.Claims c g ∧ d.name = n) := by
  rw [h.nameOf?_add hc hg, Option.or_eq_some_iff]
  simp [and_assoc]

theorem label_after : (b.after ds).label = b.label := by
  rw [label, label, registry_after, Registry.label_after]

/-- What is passed over was so before, or it is the new definition. -/
theorem Indexed.passedOver_add (h : b.Indexed) (hc : c = .entity ∨ c = .relationship) :
    (b.add d).1.PassedOver c n g ↔ b.PassedOver c n g ∨ b.PassesOver d c n g := by
  have hguid : (b.add d).1.registry.guidOf? c n
      = (b.registry.guidOf? c n).or (if d.StandsAt c n then some d.guid else none) := by
    simp only [Registry.guidOf?, find?_add]
    cases b.registry.find? c n <;> by_cases hd : d.StandsAt c n <;> simp [hd]
  by_cases hg : g = ""
  · subst hg
    have hnot : ¬ b.PassesOver d c n "" := by
      rintro ⟨-, ⟨-, -, hne, -⟩, -, hguid⟩
      exact hne hguid
    simp [PassedOver, hnot]
  · simp only [PassedOver, hguid, ne_eq, h.nameOf?_add_eq_some hc hg]
    by_cases hd : d.StandsAt c n
    · obtain ⟨rfl, rfl⟩ := hd
      cases hnew : b.registry.find? d.category d.name with
      | none =>
        have hfree := h.nameOf?_ne_of_new (g := g) hnew
        by_cases hguid : d.guid = g
        · subst hguid
          by_cases hn : d.name = "" <;>
            simp [Registry.guidOf?, hnew, PassesOver, GuidTaken, hc, hn, hg, hfree,
              TypeDef.StandsAt, TypeDef.Claims]
        · simp [Registry.guidOf?, hnew, PassesOver, hguid]
      | some stored => simp [Registry.guidOf?, hnew, PassesOver]
    · have hname : ¬ (d.Claims c g ∧ d.name = n) := by
        rintro ⟨hclaims, hn⟩
        exact hd ⟨hclaims.1, hn⟩
      simp [PassesOver, hd, hname]

theorem Indexed.count_add (h : b.Indexed) :
    (b.add d).2.events.count (skippedWarning c n g)
      = if b.PassesOver d c n g then 1 else 0 := by
  rcases h.add_cases d with ⟨hnew, -, hevents⟩ | ⟨hstored, -, hevents⟩ |
    ⟨⟨stored, hstored⟩, -, hevents⟩ | ⟨⟨stored, hstored⟩, -, hevents⟩
  · rw [hevents]
    by_cases htaken : b.GuidTaken d
    · rw [if_pos htaken, List.count_singleton]
      simp only [beq_iff_eq, skippedWarning_inj, PassesOver, hnew, htaken, TypeDef.StandsAt,
        true_and, and_assoc]
    · simp [htaken, PassesOver]
  · simp [hevents, PassesOver, hstored]
  · simp [hevents, PassesOver, hstored]
  · simp [hevents, PassesOver, hstored, skippedWarning_ne_ignoredWarning.symm]

/-- The events warn of what is passed over, once each, and of no other name and guid. -/
def Accounted (b : Draft) (es : List Event) : Prop :=
  ∀ c n g, c = .entity ∨ c = .relationship →
    es.count (skippedWarning c n g) = if b.PassedOver c n g then 1 else 0

theorem Accounted.add (hacc : b.Accounted es) (h : b.Indexed) (d : TypeDef) :
    (b.add d).1.Accounted (es ++ (b.add d).2.events) := by
  intro c n g hc
  -- what is passed over now had no definition before
  have hboth : b.PassesOver d c n g → ¬ b.PassedOver c n g := by
    rintro ⟨hnew, -, ⟨rfl, rfl⟩, -⟩ ⟨hstored, -⟩
    rw [Registry.guidOf?_of_new hnew] at hstored
    cases hstored
  rw [List.count_append, hacc c n g hc, h.count_add]
  by_cases hd : b.PassesOver d c n g <;> simp [h.passedOver_add hc, hd, hboth]

theorem Accounted.after (hacc : b.Accounted es) (h : b.Indexed) (ds : List TypeDef) :
    (b.after ds).Accounted (es ++ b.trace ds) := by
  -- on the list, for every trace before it
  induction ds generalizing b es with
  | nil => simpa [trace, after] using hacc
  | cons d ds ih =>
    rw [trace, ← List.append_assoc]
    exact ih (hacc.add h d) (h.add d)

theorem accounted_ofSettings (s : Settings) : (ofSettings s).Accounted [] := by
  intro c n g hc
  have hnone : (ofSettings s).registry.guidOf? c n = none := by cases c <;> rfl
  simp [PassedOver, hnone]

end Draft

/-- After any additions to a new draft, the next one warns of its definition if that is ignored, or
added without being found by its guid. Hence each stored definition with a name and a guid is either
found by its guid or has been warned of once. -/
theorem nothing_dropped_silently (s : Settings) (ds : List TypeDef) :
    ((Draft.ofSettings s).after ds).label = s.label ∧
    (∀ d, ((Draft.ofSettings s).after ds).Warned d (((Draft.ofSettings s).after ds).add d).2) ∧
    ∀ c n d, c = .entity ∨ c = .relationship →
      ((Draft.ofSettings s).after ds).registry.find? c n = some d → n ≠ "" → d.guid ≠ "" →
      (((Draft.ofSettings s).after ds).guids.nameOf? c d.guid = some n ∧
        ∀ g, ((Draft.ofSettings s).trace ds).count (skippedWarning c n g) = 0) ∨
      (((Draft.ofSettings s).after ds).guids.nameOf? c d.guid ≠ some n ∧
        ∀ g, ((Draft.ofSettings s).trace ds).count (skippedWarning c n g)
          = if g = d.guid then 1 else 0) := by
  have hnew := Draft.indexed_ofSettings s
  refine ⟨Draft.label_after, fun d => (hnew.after ds).warned d, fun c n d hc hfind hn hg => ?_⟩
  have hacc := (Draft.accounted_ofSettings s).after hnew ds
  have hpassed : ∀ g, ((Draft.ofSettings s).after ds).PassedOver c n g ↔
      ((Draft.ofSettings s).after ds).guids.nameOf? c d.guid ≠ some n ∧ g = d.guid := by
    intro g
    rw [Draft.PassedOver, Registry.guidOf?, hfind, Option.map_some, Option.some_inj]
    constructor
    · rintro ⟨rfl, -, -, hother⟩
      exact ⟨hother, rfl⟩
    · rintro ⟨hother, rfl⟩
      exact ⟨rfl, hn, hg, hother⟩
  rw [List.nil_append] at hacc
  by_cases hname : ((Draft.ofSettings s).after ds).guids.nameOf? c d.guid = some n
  · exact .inl ⟨hname, fun g => (hacc c n g hc).trans (if_neg (by simp [hpassed, hname]))⟩
  · refine .inr ⟨hname, fun g => (hacc c n g hc).trans ?_⟩
    simp only [hpassed, ne_eq, hname, not_false_eq_true, true_and]

/-- Settings under which a second definition is ignored. -/
def lenient : Settings := { sourceLabel := some "catalog", duplicatePolicy := .firstWriteWins }

/-- The last one of the three entity types is warned of, and so is another definition of the second
one. -/
theorem nothing_dropped_silently_sharing :
    ((Draft.ofSettings lenient).trace sharing).count
      ⟨.warn, [("message", "lookup pair not indexed: name or guid already mapped"),
        ("type_category", "entity"), ("type_name", "asset"), ("guid", "g1")]⟩ = 1 ∧
    (((Draft.ofSettings lenient).after sharing).add
      (.entity { name := "table", guid := "g2" })).2.events
        = [⟨.warn, [("message", "ignoring conflicting re-registration"),
            ("type_category", "entity"), ("type_name", "table"), ("source", "catalog")]⟩] := by
  obtain ⟨hlabel, hwarned, hstored⟩ := nothing_dropped_silently lenient sharing
  constructor
  · rcases hstored .entity "asset" (.entity { name := "asset", guid := "g1" }) (.inl rfl)
      (by decide +kernel) (by decide) (by decide) with ⟨hname, -⟩ | ⟨-, hcount⟩
    · exact absurd hname (by decide +kernel)
    · exact hcount "g1"
  · have hevents := (hwarned (.entity { name := "table", guid := "g2" })).ignored.mpr rfl
    rw [hlabel] at hevents
    exact hevents

end Metamodel
