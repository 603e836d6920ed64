import Metamodel.Proofs.Findings
import Metamodel.Proofs.Lineage
import Metamodel.Proofs.Sweep

/-!
# Metamodel.Proofs.Passes

Every loop of the resolution as two independent computations: the list of the defects it meets,
and the work it does, each a plain fold over definitions that the work leaves alone.

* `linkSubtypes_eq`, `inheritAttributes_eq`, `applyRelationships_eq`, `applyValidEntities_eq` — one
  equation for each loop.
* `resolveHierarchy_eq` — both loops over a hierarchy with their checkpoints. After the first
  checkpoint nothing is left that the second loop could meet (`inheritAttributes_of_linked`).
* `Registry.resolve_eq` — a resolution reports `Registry.defects`, those of its first defective
  pass, and returns `Registry.resolved` if there are none.
-/

namespace Metamodel

theorem Except.bind_map {ε α β γ : Type} {x : Except ε α} {f : α → β} {g : β → Except ε γ} :
    (x.map f).bind g = x.bind fun a => g (f a) := by
  cases x <;> rfl

theorem Except.bind_bind {ε α β γ : Type} {x : Except ε α} {f : α → Except ε β}
    {g : β → Except ε γ} : (x.bind f).bind g = x.bind fun a => (f a).bind g := by
  cases x <;> rfl

namespace Arena

/-! ## One hierarchy -/

section Hierarchy

variable {δ ε β : Type} [SupertypedDef δ] {t : Arena (ResolvedType δ ε)}
  {g : ResolvedType δ ε → β} {label : String}

/-- Defects met when climbing from every type, in name order; a defect may be met repeatedly. -/
def lineageDefects (t : Arena (ResolvedType δ ε)) (label : String) : List Defect :=
  t.slotsByName.filterMap fun s => defectOf? (t.lineage label s)

/-- Record every type that has a chain in the rest of the chain. -/
def markSubtypes (t : Arena (ResolvedType δ ε)) (label : String) : Arena (ResolvedType δ ε) :=
  t.slotsByName.foldl (fun acc s => workOn acc (acc.markChain s) (t.lineage label s)) t

/-- Give every type that has a chain the attributes along it. -/
def gatherAttributes (t : Arena (ResolvedType δ ε)) (label : String) : Arena (ResolvedType δ ε) :=
  t.slotsByName.foldl (fun acc s => workOn acc (acc.inheritAlong s) (t.lineage label s)) t

/-- A hierarchy with subtypes and attributes. -/
def completed (t : Arena (ResolvedType δ ε)) (label : String) : Arena (ResolvedType δ ε) :=
  (t.markSubtypes label).gatherAttributes label

theorem lineageDefects_congr {t' : Arena (ResolvedType δ ε)}
    (h : t'.definitions = t.definitions) : t'.lineageDefects label = t.lineageDefects label := by
  have hslots : t'.slotsByName = t.slotsByName := congrArg (fun u : Arena δ => u.slotsByName) h
  simp only [lineageDefects, hslots, lineage_congr h]

omit [SupertypedDef δ] in
theorem map_markAncestors (hg : ∀ d name direct, g (d.addSubtype name direct) = g d)
    {name : String} {slots : List Nat} : (t.markAncestors name slots).map g = t.map g := by
  cases slots with
  | nil => rfl
  | cons parent others =>
    have hrest : ∀ u : Arena (ResolvedType δ ε),
        (u.updateAll others (·.addSubtype name false)).map g = u.map g :=
      fun _ => map_updateAll fun _ => hg _ _ _
    exact (hrest _).trans (map_update fun _ => hg _ _ _)

theorem map_markChain (hg : ∀ d name direct, g (d.addSubtype name direct) = g d)
    {slot : Nat} {chain : List Nat} : (t.markChain slot chain).map g = t.map g := by
  simp only [markChain]
  split
  · rfl
  · exact map_markAncestors hg

theorem definitions_markChain {slot : Nat} {chain : List Nat} :
    (t.markChain slot chain).definitions = t.definitions :=
  map_markChain fun _ _ _ => rfl

theorem definitions_inheritAlong {slot : Nat} {chain : List Nat} :
    (t.inheritAlong slot chain).definitions = t.definitions :=
  definitions_update fun _ => rfl

theorem linkSubtypes_eq {found : Findings} :
    t.linkSubtypes found
      = (found.noteAll (t.lineageDefects found.label)).map (t.markSubtypes found.label, ·) :=
  Findings.foldlM_orNote (P := fun s => s.definitions = t.definitions) lineage markChain
    (fun _ i h => lineage_congr h i) (fun _ _ _ h => definitions_markChain.trans h) _ t rfl

theorem inheritAttributes_eq {found : Findings} :
    t.inheritAttributes found
      = (found.noteAll (t.lineageDefects found.label)).map (t.gatherAttributes found.label, ·) :=
  Findings.foldlM_orNote (P := fun s => s.definitions = t.definitions) lineage inheritAlong
    (fun _ i h => lineage_congr h i) (fun _ _ _ h => definitions_inheritAlong.trans h) _ t rfl

omit [SupertypedDef δ] in
theorem map_workOn {next : List Nat → Arena (ResolvedType δ ε)} {x : Except Defect (List Nat)}
    (hnext : ∀ chain, (next chain).map g = t.map g) : (workOn t next x).map g = t.map g := by
  cases x with
  | ok chain => exact hnext chain
  | error d => rfl

theorem map_markSubtypes (hg : ∀ d name direct, g (d.addSubtype name direct) = g d) :
    (t.markSubtypes label).map g = t.map g :=
  foldl_frame (f := fun u : Arena (ResolvedType δ ε) => u.map g)
    (fun _ _ => map_workOn fun _ => map_markChain hg) _ t

theorem map_gatherAttributes (hg : ∀ d as, g (d.setAttributes as) = g d) :
    (t.gatherAttributes label).map g = t.map g :=
  foldl_frame (f := fun u : Arena (ResolvedType δ ε) => u.map g)
    (fun _ _ => map_workOn fun _ => map_update fun _ => hg _ _) _ t

theorem map_completed (hsub : ∀ d name direct, g (d.addSubtype name direct) = g d)
    (hattr : ∀ d as, g (d.setAttributes as) = g d) : (t.completed label).map g = t.map g :=
  (map_gatherAttributes hattr).trans (map_markSubtypes hsub)

theorem definitions_markSubtypes : (t.markSubtypes label).definitions = t.definitions :=
  map_markSubtypes fun _ _ _ => rfl

theorem definitions_completed : (t.completed label).definitions = t.definitions :=
  map_completed (fun _ _ _ => rfl) fun _ _ => rfl

end Hierarchy

end Arena

namespace Findings

/-- A checkpoint that lets a loop pass says that the loop met nothing. -/
theorem nothing_noted {found found' : Findings} {ds : List Defect}
    (h : found.noteAll ds = .ok found') (hc : found'.checkpoint = .ok ()) :
    ds = [] ∧ found' = found := by
  obtain ⟨mode, label, kept⟩ := found
  cases mode with
  | failFast =>
    rw [noteAll_failFast] at h
    cases ds with
    | nil => cases h; exact ⟨rfl, rfl⟩
    | cons d ds => cases h
  | collectAll =>
    rw [noteAll_collectAll] at h
    cases h
    cases kept with
    | nil =>
      cases ds with
      | nil => exact ⟨rfl, rfl⟩
      | cons d ds => simp [checkpoint, List.eraseDups_cons] at hc
    | cons d kept => simp [checkpoint] at hc

end Findings

section Hierarchy

variable {δ ε : Type} [SupertypedDef δ] {t : Arena (ResolvedType δ ε)}

theorem lineage_of_no_defects {label : String} (h : t.lineageDefects label = []) {s : Nat}
    (hs : s ∈ t.slotsByName) : ∃ chain, t.lineage label s = .ok chain := by
  rw [Arena.lineageDefects, List.filterMap_eq_nil_iff] at h
  exact defectOf?_eq_none.mp (h s hs)

/-- The climbs of the second loop meet nothing once the first loop has passed its checkpoint. -/
theorem inheritAttributes_of_linked {t' : Arena (ResolvedType δ ε)} {found found' : Findings}
    (h : t.linkSubtypes found = .ok (t', found')) (hc : found'.checkpoint = .ok ()) :
    (∀ s ∈ t'.slotsByName, ∃ chain, t'.lineage found'.label s = .ok chain) ∧
      t'.inheritAttributes found' = .ok (t'.gatherAttributes found'.label, found') := by
  rw [Arena.linkSubtypes_eq] at h
  cases hn : found.noteAll (t.lineageDefects found.label) with
  | error f => rw [hn] at h; cases h
  | ok mid =>
    rw [hn] at h
    cases h
    obtain ⟨hnone, rfl⟩ := Findings.nothing_noted hn hc
    have hnone' : (t.markSubtypes found'.label).lineageDefects found'.label = [] := by
      rw [Arena.lineageDefects_congr Arena.definitions_markSubtypes, hnone]
    refine ⟨fun s hs => lineage_of_no_defects hnone' hs, ?_⟩
    rw [Arena.inheritAttributes_eq, hnone']
    rfl

theorem resolveHierarchy_eq (mode : ErrorMode) (label : String) (earlier : List Defect) :
    ((({ mode, label } : Findings).noteAll earlier).bind (resolveHierarchy t))
      = (report mode label (earlier ++ t.lineageDefects label)).map
          fun _ => (t.completed label, { mode, label }) := by
  let rest (found : Findings) : Except Fault (Arena (ResolvedType δ ε) × Findings) :=
    ((t.markSubtypes label).inheritAttributes found).bind fun s =>
      s.2.checkpoint.bind fun _ => .ok s
  have hrun : ((({ mode, label } : Findings).noteAll earlier).bind (resolveHierarchy t))
      = ((({ mode, label } : Findings).noteAll (earlier ++ t.lineageDefects label)).bind
          fun found => found.checkpoint.bind fun _ => rest found) := by
    rw [Findings.noteAll_append]
    cases hn : ({ mode, label } : Findings).noteAll earlier with
    | error f => rfl
    | ok found =>
      have hl : found.label = label := Findings.label_of_noteAll hn
      change resolveHierarchy t found = (found.noteAll _).bind _
      change (t.linkSubtypes found).bind _ = _
      rw [Arena.linkSubtypes_eq, Except.bind_map, hl]
      rfl
  rw [hrun, Findings.noteAll_checkpoint]
  cases hds : earlier ++ t.lineageDefects label with
  | nil =>
    have hnone : (t.markSubtypes label).lineageDefects label = [] := by
      rw [Arena.lineageDefects_congr Arena.definitions_markSubtypes]
      exact (List.append_eq_nil_iff.mp hds).2
    change rest { mode, label } = _
    simp only [rest, Arena.inheritAttributes_eq, hnone]
    rfl
  | cons d ds => cases mode <;> rfl

end Hierarchy

/-! ## Relationships -/

section Relationships

variable {β : Type} {entities entities' : EntityArena} {g : ResolvedEntity → β} {label : String}

/-- The defects of the ends of a relationship, the first end first. -/
def RelationshipDef.endDefects (r : RelationshipDef) (entities : EntityArena) (label : String) :
    List Defect :=
  EndPosition.all.filterMap fun p => defectOf? (r.endSlot entities label p)

/-- The slots at the ends of a relationship that lead to an entity type. -/
def RelationshipDef.anchors (r : RelationshipDef) (entities : EntityArena) : List Nat :=
  EndPosition.all.filterMap fun p => (r.endTarget? p).bind entities.slotOf?

/-- Attach a relationship at both ends, if both lead somewhere. -/
def spreadRelationship (entities : EntityArena) (r : RelationshipDef) : EntityArena :=
  if (r.anchors entities).length = EndPosition.all.length then
    (r.anchors entities).foldl (anchorRelationship r.name) entities
  else entities

def spreadRelationships (relationships : RelationshipArena) (entities : EntityArena) :
    EntityArena :=
  relationships.values.foldl spreadRelationship entities

theorem endSlots_eq {r : RelationshipDef} {found : Findings} :
    r.endSlots entities found
      = (found.noteAll (r.endDefects entities found.label)).map (r.anchors entities, ·) := by
  have hslots : EndPosition.all.foldl (fun slots p => workOn slots (fun slot => slots ++ [slot])
      (r.endSlot entities found.label p)) [] = r.anchors entities := by
    simp only [EndPosition.all, RelationshipDef.anchors, RelationshipDef.endSlot]
    cases h₁ : (r.endTarget? .end1).bind entities.slotOf? <;>
      cases h₂ : (r.endTarget? .end2).bind entities.slotOf? <;> simp [h₁, h₂]
  rw [← hslots]
  exact Findings.foldlM_orNote (P := fun _ => True) (fun _ label p => r.endSlot entities label p)
    (fun slots _ slot => slots ++ [slot]) (fun _ _ _ => rfl) (fun _ _ _ _ => trivial) _ [] trivial

theorem applyRelationship_eq {r : RelationshipDef} {found : Findings} :
    applyRelationship (entities, found) r
      = (found.noteAll (r.endDefects entities found.label)).map
          (spreadRelationship entities r, ·) := by
  change (r.endSlots entities found).bind _ = _
  rw [endSlots_eq, Except.bind_map]
  cases found.noteAll (r.endDefects entities found.label) with
  | error f => rfl
  | ok found' =>
    simp only [Except.bind, Except.map, spreadRelationship]
    split <;> rfl

/-- What relationships do not touch of an entity type. -/
def ClearOfRelationships {β : Type} (g : ResolvedEntity → β) : Prop :=
  ∀ name d, g (ResolvedEntity.addDirectRelationship name d) = g d ∧
    g (ResolvedEntity.addRelationship name d) = g d

theorem map_anchorRelationship (hg : ClearOfRelationships g) {name : String} {slot : Nat} :
    (anchorRelationship name entities slot).map g = entities.map g := by
  rw [anchorRelationship, Arena.map_sweep (fun d => (hg name d).2) fun _ => rfl]
  exact Arena.map_update fun d => (hg name d).1

theorem map_spreadRelationship (hg : ClearOfRelationships g) {r : RelationshipDef} :
    (spreadRelationship entities r).map g = entities.map g := by
  simp only [spreadRelationship]
  split
  · exact foldl_frame (f := fun u : EntityArena => u.map g)
      (fun _ _ => map_anchorRelationship hg) _ entities
  · rfl

theorem map_spreadRelationships (hg : ClearOfRelationships g)
    {relationships : RelationshipArena} :
    (spreadRelationships relationships entities).map g = entities.map g :=
  foldl_frame (f := fun u : EntityArena => u.map g) (fun _ _ => map_spreadRelationship hg) _ entities

theorem definitions_spreadRelationship {r : RelationshipDef} :
    (spreadRelationship entities r).definitions = entities.definitions :=
  map_spreadRelationship fun _ _ => ⟨rfl, rfl⟩

theorem definitions_spreadRelationships {relationships : RelationshipArena} :
    (spreadRelationships relationships entities).definitions = entities.definitions :=
  map_spreadRelationships fun _ _ => ⟨rfl, rfl⟩

theorem endDefects_congr {r : RelationshipDef} (h : entities'.definitions = entities.definitions) :
    r.endDefects entities' label = r.endDefects entities label := by
  simp only [RelationshipDef.endDefects, RelationshipDef.endSlot, funext (Arena.slotOf?_congr h)]

/-- The defects of relationship ends, in the name order of relationships. -/
def relationshipDefects (relationships : RelationshipArena) (entities : EntityArena)
    (label : String) : List Defect :=
  relationships.values.flatMap (·.endDefects entities label)

theorem applyRelationships_eq {relationships : RelationshipArena} {found : Findings} :
    applyRelationships relationships entities found
      = (found.noteAll (relationshipDefects relationships entities found.label)).map
          (spreadRelationships relationships entities, ·) := by
  refine Findings.foldlM_noteAll (P := fun s => s.definitions = entities.definitions)
    (fun s r found' hs hl => ?_) (fun s r hs => definitions_spreadRelationship.trans hs)
    _ entities found rfl rfl
  rw [applyRelationship_eq, endDefects_congr hs, hl]

end Relationships

/-! ## Classifications -/

section Classifications

variable {β : Type} {classifications classifications' : ClassificationArena}
  {entities entities' : EntityArena} {g : ResolvedEntity → β} {label : String}

/-- The defects of the valid-entity links of a classification, as listed. -/
def ClassificationDef.linkDefects (c : ClassificationDef) (entities : EntityArena)
    (label : String) : List Defect :=
  c.validEntityTypes.filterMap fun l => defectOf? (validEntitySlot entities label c.name l)

/-- The slots that the valid-entity links of a classification lead to. -/
def ClassificationDef.anchors (c : ClassificationDef) (entities : EntityArena) : List Nat :=
  c.validEntityTypes.filterMap fun l => l.target?.bind entities.slotOf?

/-- Attach a classification wherever its links lead to an entity type. -/
def ClassificationDef.spread (c : ClassificationDef) (entities : EntityArena) :
    EntityArena × List Nat :=
  (c.anchors entities).foldl (anchorClassification c.name) (entities, [])

/-- What classifications do not touch of an entity type. -/
def ClearOfClassifications {β : Type} (g : ResolvedEntity → β) : Prop :=
  ∀ name d, g (ResolvedEntity.addDirectClassification name d) = g d ∧
    g (ResolvedEntity.addClassification name d) = g d

theorem map_anchorClassification (hg : ClearOfClassifications g) {name : String}
    {s : EntityArena × List Nat} {slot : Nat} :
    (anchorClassification name s slot).1.map g = s.1.map g := by
  rw [anchorClassification, Arena.map_sweep (fun d => (hg name d).2) fun _ => rfl]
  exact Arena.map_update fun d => (hg name d).1

theorem definitions_anchorClassification {name : String} {s : EntityArena × List Nat}
    {slot : Nat} : (anchorClassification name s slot).1.definitions = s.1.definitions :=
  map_anchorClassification fun _ _ => ⟨rfl, rfl⟩

theorem map_spread (hg : ClearOfClassifications g) {c : ClassificationDef} :
    (c.spread entities).1.map g = entities.map g :=
  foldl_frame (f := fun s : EntityArena × List Nat => s.1.map g)
    (fun _ _ => map_anchorClassification hg) _ (entities, [])

theorem validEntitySlot_congr (h : entities'.definitions = entities.definitions) :
    validEntitySlot entities' = validEntitySlot entities := by
  funext label holder l
  simp only [validEntitySlot, Arena.slotOf?_congr h]

theorem applyLinks_eq {c : ClassificationDef} {found : Findings} :
    applyLinks c.name c.validEntityTypes entities found
      = (found.noteAll (c.linkDefects entities found.label)).map (c.spread entities, ·) := by
  have hspread : c.validEntityTypes.foldl (fun s l => workOn s (anchorClassification c.name s)
      (validEntitySlot entities found.label c.name l)) (entities, []) = c.spread entities := by
    rw [ClassificationDef.spread, ClassificationDef.anchors, List.foldl_filterMap]
    refine List.foldl_ext _ _ _ fun s l _ => ?_
    simp only [validEntitySlot]
    cases l.target? with
    | none => rfl
    | some target => cases h : entities.slotOf? target <;> simp [h]
  rw [← hspread]
  exact Findings.foldlM_orNote (P := fun s => s.1.definitions = entities.definitions)
    (fun s label l => validEntitySlot s.1 label c.name l) (fun s _ => anchorClassification c.name s)
    (fun _ _ h => by rw [validEntitySlot_congr h])
    (fun _ _ _ h => definitions_anchorClassification.trans h) _ (entities, []) rfl

/-- Attach the classification in a slot, and tell it the entity types it covers. -/
def spreadClassification (s : ClassificationArena × EntityArena) (slot : Nat) :
    ClassificationArena × EntityArena :=
  match s.1.at? slot with
  | none => s
  | some c => coverEntities s.1 slot (c.definition.spread s.2)

def spreadClassifications (classifications : ClassificationArena) (entities : EntityArena) :
    ClassificationArena × EntityArena :=
  classifications.slotsByName.foldl spreadClassification (classifications, entities)

/-- The defects of the valid-entity links of the classification in a slot. -/
def slotDefects (classifications : ClassificationArena) (entities : EntityArena)
    (label : String) (slot : Nat) : List Defect :=
  match classifications.at? slot with
  | none => []
  | some c => c.definition.linkDefects entities label

/-- The defects of valid-entity links, in the name order of classifications. -/
def validEntityDefects (classifications : ClassificationArena) (entities : EntityArena)
    (label : String) : List Defect :=
  classifications.slotsByName.flatMap (slotDefects classifications entities label)

theorem linkDefects_congr {c : ClassificationDef}
    (h : entities'.definitions = entities.definitions) :
    c.linkDefects entities' label = c.linkDefects entities label := by
  simp only [ClassificationDef.linkDefects, validEntitySlot_congr h]

theorem slotDefects_congr (hc : classifications'.definitions = classifications.definitions)
    (he : entities'.definitions = entities.definitions) (slot : Nat) :
    slotDefects classifications' entities' label slot
      = slotDefects classifications entities label slot := by
  simp only [slotDefects]
  rcases Arena.at?_congr hc slot with ⟨h', h⟩ | ⟨c', c, h', h, hd⟩
  · simp only [h', h]
  · simp only [h', h, hd]
    exact linkDefects_congr he

theorem applyClassification_eq {slot : Nat} {found : Findings} :
    applyClassification ((classifications, entities), found) slot
      = (found.noteAll (slotDefects classifications entities found.label slot)).map
          (spreadClassification (classifications, entities) slot, ·) := by
  simp only [applyClassification, slotDefects, spreadClassification]
  cases classifications.at? slot with
  | none => rfl
  | some c =>
    simp only [applyLinks_eq]
    cases found.noteAll (c.definition.linkDefects entities found.label) <;> rfl

theorem map_spreadClassification (hg : ClearOfClassifications g)
    {s : ClassificationArena × EntityArena} {slot : Nat} :
    (spreadClassification s slot).2.map g = s.2.map g := by
  simp only [spreadClassification]
  split
  · rfl
  · exact map_spread hg

theorem map_spreadClassifications (hg : ClearOfClassifications g) :
    (spreadClassifications classifications entities).2.map g = entities.map g :=
  foldl_frame (f := fun s : ClassificationArena × EntityArena => s.2.map g)
    (fun _ _ => map_spreadClassification hg) _ (classifications, entities)

section Told

variable {γ : Type} {k : ResolvedClassification → γ}
  (hk : ∀ names d, k (ResolvedClassification.addValidEntities names d) = k d)

include hk

theorem map_spreadClassification_told {s : ClassificationArena × EntityArena} {slot : Nat} :
    (spreadClassification s slot).1.map k = s.1.map k := by
  simp only [spreadClassification]
  split
  · rfl
  · exact Arena.map_update fun d => hk _ d

theorem map_spreadClassifications_told :
    (spreadClassifications classifications entities).1.map k = classifications.map k :=
  foldl_frame (f := fun s : ClassificationArena × EntityArena => s.1.map k)
    (fun _ _ => map_spreadClassification_told hk) _ (classifications, entities)

end Told

theorem definitions_spreadClassification {s : ClassificationArena × EntityArena} {slot : Nat} :
    (spreadClassification s slot).1.definitions = s.1.definitions ∧
      (spreadClassification s slot).2.definitions = s.2.definitions :=
  ⟨map_spreadClassification_told fun _ _ => rfl, map_spreadClassification fun _ _ => ⟨rfl, rfl⟩⟩

theorem applyValidEntities_eq {found : Findings} :
    applyValidEntities classifications entities found
      = (found.noteAll (validEntityDefects classifications entities found.label)).map
          (spreadClassifications classifications entities, ·) := by
  refine Findings.foldlM_noteAll
    (P := fun s => s.1.definitions = classifications.definitions ∧
      s.2.definitions = entities.definitions)
    (fun s slot found' hs hl => ?_) (fun s slot hs => ?_) _ _ found ⟨rfl, rfl⟩ rfl
  · rw [applyClassification_eq, slotDefects_congr hs.1 hs.2, hl]
  · exact ⟨definitions_spreadClassification.1.trans hs.1,
      definitions_spreadClassification.2.trans hs.2⟩

theorem definitions_spreadClassifications :
    (spreadClassifications classifications entities).1.definitions = classifications.definitions ∧
      (spreadClassifications classifications entities).2.definitions = entities.definitions :=
  ⟨map_spreadClassifications_told fun _ _ => rfl, map_spreadClassifications fun _ _ => ⟨rfl, rfl⟩⟩

end Classifications

/-! ## All passes -/

section Passes

theorem relationshipDefects_congr {relationships : RelationshipArena} {label : String}
    {entities entities' : EntityArena} (h : entities'.definitions = entities.definitions) :
    relationshipDefects relationships entities' label
      = relationshipDefects relationships entities label := by
  have heach : ∀ r : RelationshipDef, r.endDefects entities' label = r.endDefects entities label :=
    fun _ => endDefects_congr h
  simp only [relationshipDefects, heach]

theorem validEntityDefects_congr {classifications : ClassificationArena} {label : String}
    {entities entities' : EntityArena} (h : entities'.definitions = entities.definitions) :
    validEntityDefects classifications entities' label
      = validEntityDefects classifications entities label :=
  congrArg classifications.slotsByName.flatMap (funext (slotDefects_congr rfl h))

end Passes

theorem Traced.result_bind {ε α β : Type} {x : Traced ε α} {f : α → Traced ε β} :
    (x >>= f).result = x.result.bind fun a => (f a).result := by
  cases h : x.result with
  | error e => rw [bind_of_error h]; rfl
  | ok a => rw [bind_of_ok h]; rfl

theorem Traced.bind_eq_ok_iff {ε α β : Type} {x : Traced ε α} {f : α → Traced ε β} {b : β} :
    (x >>= f).result = .ok b ↔ ∃ a, x.result = .ok a ∧ (f a).result = .ok b := by
  rw [result_bind]
  cases x.result with
  | error e => simp [Except.bind]
  | ok a => simp [Except.bind]

theorem Traced.mapError_eq_ok_iff {ε ε' α : Type} {x : Traced ε α} {f : ε → ε'} {a : α} :
    (x.mapError f).result = .ok a ↔ x.result = .ok a := by
  rw [mapError]
  cases x.result <;> simp [Except.mapError]

namespace Registry

variable {r : Registry} {mode : ErrorMode}

/-- What pass 1 meets. -/
def entityDefects (r : Registry) : List Defect :=
  (unresolved r.entities : EntityArena).lineageDefects r.label

/-- What pass 2 meets. -/
def endDefects (r : Registry) : List Defect :=
  relationshipDefects (Arena.ofMap r.relationships) (unresolved r.entities) r.label

/-- What the valid-entity links give pass 3 to report. -/
def linkDefects (r : Registry) : List Defect :=
  validEntityDefects (unresolved r.classifications) (unresolved r.entities) r.label

/-- What the hierarchy of classifications gives pass 3 to report. -/
def classificationDefects (r : Registry) : List Defect :=
  (unresolved r.classifications : ClassificationArena).lineageDefects r.label

/-- Entity types as pass 1 leaves them. -/
def entitiesCompleted (r : Registry) : EntityArena :=
  (unresolved r.entities : EntityArena).completed r.label

/-- Entity types as pass 2 leaves them. -/
def entitiesRelated (r : Registry) : EntityArena :=
  spreadRelationships (Arena.ofMap r.relationships) r.entitiesCompleted

/-- Classifications and entity types as the valid-entity links leave them. -/
def classified (r : Registry) : ClassificationArena × EntityArena :=
  spreadClassifications (unresolved r.classifications) r.entitiesRelated

/-- What a registry without defects resolves to. -/
def resolved (r : Registry) : Resolved where
  entities := r.classified.2
  relationships := Arena.ofMap r.relationships
  classifications := r.classified.1.completed r.label
  enums := r.enums

theorem definitions_entitiesCompleted :
    r.entitiesCompleted.definitions = Arena.ofMap r.entities :=
  Arena.definitions_completed.trans (Arena.definitions_unresolved _)

theorem definitions_entitiesRelated : r.entitiesRelated.definitions = Arena.ofMap r.entities :=
  definitions_spreadRelationships.trans definitions_entitiesCompleted

theorem definitions_classified_entities :
    r.classified.2.definitions = Arena.ofMap r.entities :=
  definitions_spreadClassifications.2.trans definitions_entitiesRelated

theorem definitions_classified :
    r.classified.1.definitions = Arena.ofMap r.classifications :=
  definitions_spreadClassifications.1.trans (Arena.definitions_unresolved _)

theorem entityPass_eq :
    (r.entityPass { mode, label := r.label }).result
      = (report mode r.label r.entityDefects).map
          fun _ => (r.entitiesCompleted, { mode, label := r.label }) := by
  have hrun : resolveHierarchy (unresolved r.entities : EntityArena) { mode, label := r.label }
      = (report mode r.label r.entityDefects).map
          fun _ => (r.entitiesCompleted, { mode, label := r.label }) :=
    resolveHierarchy_eq mode r.label []
  simp only [entityPass, Traced.result_bind, Traced.ofExcept, hrun]
  cases report mode r.label r.entityDefects <;> rfl

theorem relationshipPass_eq :
    (r.relationshipPass r.entitiesCompleted { mode, label := r.label }).result
      = (report mode r.label r.endDefects).map fun _ =>
          (Arena.ofMap r.relationships, r.entitiesRelated, { mode, label := r.label }) := by
  have hdefects : relationshipDefects (Arena.ofMap r.relationships) r.entitiesCompleted r.label
      = r.endDefects :=
    relationshipDefects_congr Arena.definitions_completed
  have hrun := Findings.noteAll_checkpoint mode r.label r.endDefects
    fun found => Except.ok (Arena.ofMap r.relationships, r.entitiesRelated, found)
  simp only [relationshipPass, Traced.result_bind, Traced.ofExcept, applyRelationships_eq,
    hdefects, Except.bind_map]
  refine Eq.trans hrun ?_
  cases report mode r.label r.endDefects <;> rfl

theorem classificationPass_eq :
    (r.classificationPass r.entitiesRelated { mode, label := r.label }).result
      = (report mode r.label (r.linkDefects ++ r.classificationDefects)).map fun _ =>
          (r.classified.1.completed r.label, r.classified.2, { mode, label := r.label }) := by
  have hlinks : validEntityDefects (unresolved r.classifications) r.entitiesRelated r.label
      = r.linkDefects :=
    validEntityDefects_congr
      (definitions_entitiesRelated.trans (Arena.definitions_unresolved _).symm)
  have hchains : r.classified.1.lineageDefects r.label = r.classificationDefects :=
    Arena.lineageDefects_congr definitions_spreadClassifications.1
  have hrun := @resolveHierarchy_eq _ _ _ r.classified.1 mode r.label r.linkDefects
  rw [hchains] at hrun
  simp only [classificationPass, Traced.result_bind, Traced.ofExcept, applyValidEntities_eq,
    hlinks, Except.bind_map]
  have hgoal := congrArg (fun x => Except.bind x fun s => .ok (s.1, r.classified.2, s.2)) hrun
  rw [Except.bind_bind] at hgoal
  refine Eq.trans hgoal ?_
  cases report mode r.label (r.linkDefects ++ r.classificationDefects) <;> rfl

/-- What a resolution has to report: the defects of the first pass that meets any. -/
def defects (r : Registry) : List Defect :=
  match r.entityDefects, r.endDefects with
  | d :: ds, _ => d :: ds
  | [], d :: ds => d :: ds
  | [], [] => r.linkDefects ++ r.classificationDefects

theorem resolve_eq :
    (r.resolve mode).result = (report mode r.label r.defects).map fun _ => r.resolved := by
  have hrun : (r.resolve mode).result
      = (report mode r.label r.entityDefects).bind fun _ =>
          (report mode r.label r.endDefects).bind fun _ =>
            (report mode r.label (r.linkDefects ++ r.classificationDefects)).map
              fun _ => r.resolved := by
    simp only [resolve, Traced.result_bind, entityPass_eq, Except.bind_map, relationshipPass_eq,
      classificationPass_eq]
    cases report mode r.label (r.linkDefects ++ r.classificationDefects) <;> rfl
  rw [hrun, defects]
  cases r.entityDefects with
  | cons d ds => cases mode <;> rfl
  | nil =>
    cases r.endDefects with
    | cons d ds => cases mode <;> rfl
    | nil => rfl

/-- Which pass the reported defects are from. -/
theorem defects_cases (r : Registry) :
    r.entityDefects ≠ [] ∧ r.defects = r.entityDefects ∨
      r.entityDefects = [] ∧ r.endDefects ≠ [] ∧ r.defects = r.endDefects ∨
      r.entityDefects = [] ∧ r.endDefects = [] ∧
        r.defects = r.linkDefects ++ r.classificationDefects := by
  rw [defects]
  cases r.entityDefects with
  | cons d ds => simp
  | nil => cases r.endDefects <;> simp

theorem resolve_eq_ok_iff {m : Resolved} :
    (r.resolve mode).result = .ok m ↔ r.defects = [] ∧ m = r.resolved := by
  rw [resolve_eq]
  cases r.defects with
  | nil => simp [report, Except.map, eq_comm]
  | cons d ds => cases mode <;> simp [report, Except.map]

theorem resolve_eq_error_iff {f : Fault} :
    (r.resolve mode).result = .error f ↔ report mode r.label r.defects = .error f := by
  rw [resolve_eq]
  cases report mode r.label r.defects <;> simp [Except.map]

end Registry

end Metamodel
