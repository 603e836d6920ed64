import Metamodel.Proofs.Lookups

/-!
# Metamodel.Proofs.Additions

Additions are all or nothing.

* `Draft.Gains`            — a draft with one more definition, and at most one more indexed pair.
* `Registry.ConflictsAfter` — a definition conflicts with a stored one, or with one earlier in a list.
* `Registry.Fits`          — a list in which no definition does.
* `Draft.addAll_of_first`  — a list is added up to the first definition that does.
* `additions_all_or_nothing` — what becomes of one definition, and of a list of them.
-/

namespace Metamodel

/-! ## One addition -/

/-- The pair is new, and all else is as it was. -/
structure Pairing.Gains (p q : Pairing) (n g : String) : Prop where
  newName : p.guid? n = none
  newGuid : p.name? g = none
  guids : ∀ k, q.guid? k = if n = k then some g else p.guid? k
  names : ∀ k, q.name? k = if g = k then some n else p.name? k

theorem Pairing.register_cases (p : Pairing) (n g : String) :
    p.register n g = p ∨ p.Gains (p.register n g) n g := by
  by_cases hpair : indexable n g = true ∧ p.taken n g = false
  · obtain ⟨hindexable, hfree⟩ := hpair
    obtain ⟨hn, hg⟩ := taken_eq_false.mp hfree
    exact .inr ⟨hn, hg, fun _ => guid?_register hindexable hfree,
      fun _ => name?_register hindexable hfree⟩
  · exact .inl (register_of_skipped hpair)

namespace Draft

variable {b b' : Draft} {d : TypeDef}

/-- The draft `b'` is `b` with one more definition. -/
structure Gains (b b' : Draft) (d : TypeDef) : Prop where
  /-- The key is a new one of the category. -/
  fresh : b.registry.find? d.category d.name = none
  /-- Nothing else is stored anew, in no category. -/
  stored : ∀ c n, b'.registry.find? c n = if d.StandsAt c n then some d else b.registry.find? c n
  /-- Of the two pairings, only that of the category may change, and only by the new pair. -/
  indexed : ∀ c, b'.guids.pairing? c = b.guids.pairing? c ∨
    c = d.category ∧ ∃ p q, b.guids.pairing? c = some p ∧ b'.guids.pairing? c = some q ∧
      p.Gains q d.name d.guid
  policy : b'.registry.policy = b.registry.policy
  label : b'.label = b.label
  mode : b'.mode = b.mode

theorem pairing?_add_cases (b : Draft) (d : TypeDef) (c : Category) :
    (b.add d).1.guids.pairing? c = b.guids.pairing? c ∨
      c = d.category ∧ ∃ p q, b.guids.pairing? c = some p ∧
        (b.add d).1.guids.pairing? c = some q ∧ p.Gains q d.name d.guid := by
  rw [pairing?_add]
  cases hp : b.guids.pairing? c with
  | none => exact .inl rfl
  | some p =>
    rw [Option.map_some]
    split
    · rename_i hnew
      rcases p.register_cases d.name d.guid with hsame | hgains
      · exact .inl (congrArg some hsame)
      · exact .inr ⟨hnew.1.symm, p, _, rfl, rfl, hgains⟩
    · exact .inl rfl

theorem gains_add (h : (b.add d).2.result = .ok .added) : b.Gains (b.add d).1 d := by
  have hnew := result_add_eq_added.mp h
  refine ⟨hnew, fun c n => ?_, b.pairing?_add_cases d, ?_, ?_, mode_add⟩
  · rw [registry_add, Registry.register_of_none hnew, Registry.find?_put]
    rfl
  · rw [registry_add, Registry.policy_register]
  · rw [label, registry_add, Registry.label_register, label]

/-- A definition that is not added leaves no trace in the draft. -/
theorem add_eq_self (h : (b.add d).2.result ≠ .ok .added) : (b.add d).1 = b := by
  rw [ne_eq, result_add_eq_added] at h
  obtain ⟨stored, hstored⟩ := Option.ne_none_iff_exists'.mp h
  rw [add_of_some hstored]

theorem add_of_conflict (hpolicy : b.registry.policy = .reject) (h : b.registry.Conflicts d) :
    b.add d = (b, .fail (.duplicateDefinition d.category d.name b.label)) := by
  obtain ⟨stored, hstored, hne⟩ := h
  rw [add_of_some hstored]
  simp only [Registry.register, hstored, hne, if_false, hpolicy, label]

end Draft

/-! ## Conflicts in a list -/

namespace Registry

variable {r : Registry} {d e : TypeDef} {ds es : List TypeDef}

/-- The definition conflicts with a stored one, or with one that comes before it. -/
def ConflictsAfter (r : Registry) (before : List TypeDef) (d : TypeDef) : Prop :=
  r.Conflicts d ∨ ∃ e ∈ before, e.Clashes d

/-- No definition of the list conflicts with a stored one or with one that comes before it. -/
def Fits (r : Registry) (ds : List TypeDef) : Prop :=
  ∀ before d after, ds = before ++ d :: after → ¬ r.ConflictsAfter before d

/-- The first definition of the list that conflicts with a stored or an earlier one, and those
before it. -/
def FirstConflict (r : Registry) (ds before : List TypeDef) (d : TypeDef) : Prop :=
  (∃ after, ds = before ++ d :: after) ∧ r.Fits before ∧ r.ConflictsAfter before d

theorem fits_iff : r.Fits ds ↔ (∀ d ∈ ds, ¬ r.Conflicts d) ∧ Unconflicting ds := by
  constructor
  · intro h
    refine ⟨fun d hd hconflict => ?_, fun d hd e he hclash => ?_⟩
    · obtain ⟨before, after, heq⟩ := List.append_of_mem hd
      exact h before d after heq (.inl hconflict)
    · -- one of the two comes first
      obtain ⟨before, after, rfl⟩ := List.append_of_mem hd
      rw [List.mem_append, List.mem_cons] at he
      rcases he with he | rfl | he
      · exact h before d after rfl (.inr ⟨e, he, hclash.symm⟩)
      · exact hclash.2 rfl
      · obtain ⟨middle, after, rfl⟩ := List.append_of_mem he
        refine h (before ++ d :: middle) e after (by simp) (.inr ⟨d, by simp, hclash⟩)
  · rintro ⟨hstored, hu⟩ before d after rfl (hconflict | ⟨e, he, hclash⟩)
    · exact hstored d (by simp) hconflict
    · exact hu e (by simp [he]) d (by simp) hclash

theorem fits_append_singleton : r.Fits (ds ++ [d]) ↔ r.Fits ds ∧ ¬ r.ConflictsAfter ds d := by
  constructor
  · intro h
    exact ⟨fun before e after heq => h before e (after ++ [d]) (by simp [heq]), h ds d [] rfl⟩
  · rintro ⟨hds, hd⟩ before e after heq
    rcases List.eq_nil_or_concat after with rfl | ⟨after, x, rfl⟩
    · obtain ⟨rfl, hlast⟩ := List.append_inj' heq rfl
      cases hlast
      exact hd
    · rw [List.concat_eq_append, ← List.cons_append, ← List.append_assoc] at heq
      obtain ⟨rfl, -⟩ := List.append_inj' heq rfl
      exact hds before e after rfl

/-- Where there is a conflict, there is a first one: by induction from the end of the list. -/
theorem exists_firstConflict (h : ¬ r.Fits ds) : ∃ before d, r.FirstConflict ds before d := by
  induction ds using List.reverseRecOn with
  | nil =>
    refine absurd (fun before d after heq => ?_) h
    simp at heq
  | append_singleton ds d ih =>
    by_cases hds : r.Fits ds
    · refine ⟨ds, d, ⟨[], rfl⟩, hds, ?_⟩
      by_contra hd
      exact h (fits_append_singleton.mpr ⟨hds, hd⟩)
    · obtain ⟨before, e, ⟨after, rfl⟩, hbefore, he⟩ := ih hds
      exact ⟨before, e, ⟨after ++ [d], by simp⟩, hbefore, he⟩

/-- After a list that fits, the conflicts are those with a stored definition and those with the
list. -/
theorem conflicts_after (h : r.Fits ds) : (r.after ds).Conflicts d ↔ r.ConflictsAfter ds d := by
  rw [fits_iff] at h
  induction ds generalizing r with
  | nil => simp [after, ConflictsAfter]
  | cons e ds ih =>
    obtain ⟨hstored, hu⟩ := h
    obtain ⟨hhead, hu⟩ := unconflicting_cons.mp hu
    have he := hstored e (by simp)
    have hrest : ∀ x ∈ ds, ¬ (r.register e).1.Conflicts x := by
      intro x hx
      rw [conflicts_register he, not_or]
      exact ⟨hstored x (by simp [hx]), hhead x hx⟩
    rw [after_cons, ih ⟨hrest, hu⟩]
    simp [ConflictsAfter, conflicts_register he, or_assoc]

end Registry

/-! ## A list of additions -/

namespace Draft

variable {b : Draft} {d : TypeDef} {ds : List TypeDef} {f : Fault}

theorem addAll_ok_iff_fits : (b.addAll ds).2.result = .ok () ↔
    (b.registry.policy = .reject → b.registry.Fits ds) := by
  rw [addAll_ok_iff, Registry.fits_iff]

/-- A list that is taken to the end is added one by one. -/
theorem addAll_eq_of_ok (h : (b.addAll ds).2.result = .ok ()) : (b.addAll ds).1 = b.after ds := by
  obtain ⟨es, -, heq, hall⟩ := addAll_eq_after b ds
  rw [heq, hall h]

theorem addAll_append_of_ok (es : List TypeDef) (h : (b.addAll ds).2.result = .ok ()) :
    (b.addAll (ds ++ es)).1 = ((b.after ds).addAll es).1 ∧
      (b.addAll (ds ++ es)).2.result = ((b.after ds).addAll es).2.result := by
  induction ds generalizing b with
  | nil => exact ⟨rfl, rfl⟩
  | cons d ds ih =>
    cases hd : (b.add d).2.result with
    | error f =>
      rw [(addAll_cons_of_error hd).2] at h
      cases h
    | ok x =>
      rw [(addAll_cons_of_ok hd).2] at h
      rw [List.cons_append, (addAll_cons_of_ok hd).1, (addAll_cons_of_ok hd).2]
      exact ih h

/-- What comes before the first conflict is added, and the conflict is reported. -/
theorem addAll_of_first (hpolicy : b.registry.policy = .reject) {before : List TypeDef}
    (h : b.registry.FirstConflict ds before d) :
    (b.addAll ds).2.result = .error (.duplicateDefinition d.category d.name b.label) ∧
      (b.addAll ds).1 = b.after before := by
  obtain ⟨⟨after, rfl⟩, hfits, hconflict⟩ := h
  have hbefore : (b.addAll before).2.result = .ok () := addAll_ok_iff_fits.mpr fun _ => hfits
  obtain ⟨hdraft, hresult⟩ := addAll_append_of_ok (d :: after) hbefore
  have hrefused : (b.after before).registry.Conflicts d := by
    rw [registry_after, Registry.conflicts_after hfits]
    exact hconflict
  have hrun := add_of_conflict (by rw [registry_after, Registry.policy_after, hpolicy]) hrefused
  have herror : ((b.after before).add d).2.result
      = .error (.duplicateDefinition d.category d.name b.label) := by
    rw [hrun, label, registry_after, Registry.label_after]
    rfl
  refine ⟨hresult.trans (addAll_cons_of_error herror).2, ?_⟩
  rw [hdraft, (addAll_cons_of_error herror).1, hrun]

theorem exists_firstConflict_of_error (h : (b.addAll ds).2.result = .error f) :
    ∃ before d, b.registry.FirstConflict ds before d := by
  refine Registry.exists_firstConflict fun hfits => ?_
  rw [addAll_ok_iff_fits.mpr fun _ => hfits] at h
  cases h

/-- Either all of a list is taken, or a first definition of it is refused. -/
theorem exists_error_iff : (∃ f, (b.addAll ds).2.result = .error f) ↔
    (b.addAll ds).2.result ≠ .ok () := by
  cases (b.addAll ds).2.result <;> simp

end Draft

/-- A definition that is not added leaves the draft as it was, and one that is added leaves all but its
own name and guid as they were. Hence a list is added up to the first definition that conflicts with
a stored or an earlier one if conflicts are refused, and to its end if they are not. -/
theorem additions_all_or_nothing (b : Draft) :
    (∀ d, (b.add d).2.result ≠ .ok .added → (b.add d).1 = b) ∧
    (∀ d, (b.add d).2.result = .ok .added → b.Gains (b.add d).1 d) ∧
    (∀ ds, (b.addAll ds).2.result = .ok () → (b.addAll ds).1 = b.after ds) ∧
    (b.registry.policy = .reject → ∀ ds,
      ((∃ f, (b.addAll ds).2.result = .error f) ↔
        ∃ before d after, ds = before ++ d :: after ∧ b.registry.ConflictsAfter before d) ∧
      (∀ f, (b.addAll ds).2.result = .error f →
        ∃ before d, b.registry.FirstConflict ds before d) ∧
      ∀ before d, b.registry.FirstConflict ds before d →
        (b.addAll ds).2.result = .error (.duplicateDefinition d.category d.name b.label) ∧
        (b.addAll ds).1 = b.after before) ∧
    (b.registry.policy = .firstWriteWins → ∀ ds, (b.addAll ds).2.result = .ok ()) := by
  refine ⟨fun d => Draft.add_eq_self, fun d => Draft.gains_add, fun ds => Draft.addAll_eq_of_ok,
    fun hpolicy ds => ⟨?_, fun f => Draft.exists_firstConflict_of_error,
      fun before d => Draft.addAll_of_first hpolicy⟩, fun hpolicy ds => ?_⟩
  · rw [Draft.exists_error_iff, ne_eq, Draft.addAll_ok_iff_fits]
    simp only [hpolicy, true_imp_iff, Registry.Fits, not_forall, not_not, exists_prop]
  · rw [Draft.addAll_ok_iff_fits, hpolicy]
    intro h
    cases h

def contestedAsset (guid : String) : TypeDef := .entity { name := "asset", guid }

/-- A name in two categories, and in one of them a second time, with another guid. -/
def contested : List TypeDef :=
  [contestedAsset "g1", .classification { name := "asset", guid := "g1" }, contestedAsset "g1",
    contestedAsset "g2", .entity { name := "table", guid := "g3" }]

/-- A draft that keeps the first definition of a name. -/
def keepsFirst : Draft := Draft.ofSettings { duplicatePolicy := .firstWriteWins }

theorem additions_all_or_nothing_contested :
    (Draft.withSource "repo").Gains ((Draft.withSource "repo").add (contestedAsset "g1")).1
      (contestedAsset "g1") ∧
    ((keepsFirst.add (contestedAsset "g1")).1.add (contestedAsset "g2")).1
      = (keepsFirst.add (contestedAsset "g1")).1 ∧
    ((Draft.withSource "repo").addAll contested).2.result
      = .error (.duplicateDefinition .entity "asset" "repo") ∧
    ((Draft.withSource "repo").addAll contested).1
      = (Draft.withSource "repo").after (contested.take 3) ∧
    (keepsFirst.addAll contested).1 = keepsFirst.after contested := by
  obtain ⟨-, hgains, -, hreject, -⟩ := additions_all_or_nothing (Draft.withSource "repo")
  obtain ⟨hself, -⟩ := additions_all_or_nothing (keepsFirst.add (contestedAsset "g1")).1
  obtain ⟨-, -, hafter, -, hkeeps⟩ := additions_all_or_nothing keepsFirst
  have hfits : (Draft.withSource "repo").registry.Fits (contested.take 3) := by
    rw [Registry.fits_iff]
    refine ⟨?_, by decide⟩
    rintro d - ⟨stored, hstored, -⟩
    cases d <;> cases hstored
  have hfirst : (Draft.withSource "repo").registry.FirstConflict contested (contested.take 3)
      (contestedAsset "g2") :=
    ⟨⟨_, rfl⟩, hfits, .inr ⟨contestedAsset "g1", by simp [contested], by decide, by decide⟩⟩
  obtain ⟨-, -, hstops⟩ := hreject rfl contested
  obtain ⟨hresult, hdraft⟩ := hstops _ _ hfirst
  have hignored : ((keepsFirst.add (contestedAsset "g1")).1.add (contestedAsset "g2")).2.result
      = .ok .ignored := rfl
  exact ⟨hgains _ rfl, hself _ (by simp [hignored]), hresult, hdraft, hafter _ (hkeeps rfl _)⟩

end Metamodel
