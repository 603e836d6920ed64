import Metamodel.Proofs.Edits
import Metamodel.Proofs.Subtypes

/-!
# Metamodel.Proofs.Visits

What a sweep does to an arena, over subtype sets of any shape.

* `Arena.stateAfter` — the state of the visits once they have seen some types.
* `Arena.SweptFrom`  — each type that can be reached is visited once, and nothing else is touched.
* `Arena.Unlinked`   — every type stands under its own name, and none knows any subtypes.
* `sweeps_visit_what_is_below` — sweeps do so whatever the subtype sets are; with those that linking
  records, a type lists all that can be reached from it.
-/

namespace Metamodel

open Relation

namespace Arena

/-! ## Visits one after the other -/

section Visits

variable {δ ε σ : Type} {t : Arena (ResolvedType δ ε)} {p : Arena (ResolvedType δ ε) × σ}
  {visit : ResolvedType δ ε → σ → ResolvedType δ ε × σ} {u : σ} {s start : Nat}
  {before after slots : List Nat}

/-- The state that visits of the types in some slots lead to from `u`. -/
def stateAfter (t : Arena (ResolvedType δ ε)) (visit : ResolvedType δ ε → σ → ResolvedType δ ε × σ)
    (u : σ) (slots : List Nat) : σ :=
  slots.foldl (fun u s => (t.at? s).elim u fun d => (visit d u).2) u

theorem visitAll_append :
    visitAll visit (before ++ after) p = visitAll visit after (visitAll visit before p) :=
  List.foldl_append

theorem stateAfter_append : t.stateAfter visit u (before ++ after)
    = t.stateAfter visit (t.stateAfter visit u before) after :=
  List.foldl_append

theorem index_visitAll : (visitAll visit slots p).1.index = p.1.index := by
  have hstep : ∀ (q : Arena (ResolvedType δ ε) × σ) i, (visitAt visit q i).1.index = q.1.index :=
    fun _ _ => rfl
  exact foldl_frame (f := fun q : Arena (ResolvedType δ ε) × σ => q.1.index) hstep slots p

theorem at?_visitAll_of_notMem (hs : s ∉ slots) :
    (visitAll visit slots p).1.at? s = p.1.at? s := by
  induction slots generalizing p with
  | nil => rfl
  | cons i slots ih =>
    have hi : i ≠ s := fun h => hs (h ▸ List.mem_cons_self)
    have hrest : visitAll visit (i :: slots) p = visitAll visit slots (visitAt visit p i) := rfl
    rw [hrest, ih fun h => hs (List.mem_cons_of_mem i h), visitAt, at?_update, if_neg hi]

/-- By induction from the last visit, which finds its type as it was at first. -/
theorem state_visitAll (h : slots.Nodup) :
    (visitAll visit slots (t, u)).2 = t.stateAfter visit u slots := by
  induction slots using List.reverseRecOn with
  | nil => rfl
  | append_singleton slots s ih =>
    obtain ⟨hslots, -, hs⟩ := List.nodup_append.mp h
    have hnot : s ∉ slots := fun hmem => hs s hmem s (List.mem_singleton_self s) rfl
    have hlast : ∀ q : Arena (ResolvedType δ ε) × σ,
        visitAll visit [s] q = visitAt visit q s := fun _ => rfl
    rw [visitAll_append, stateAfter_append, hlast, visitAt, at?_visitAll_of_notMem hnot,
      ih hslots]
    rfl

/-- A visit changes the type that was in its slot before all of them. -/
theorem at?_visitAll (h : (before ++ s :: after).Nodup) :
    (visitAll visit (before ++ s :: after) (t, u)).1.at? s
      = (t.at? s).map fun d => (visit d (t.stateAfter visit u before)).1 := by
  obtain ⟨hbefore, hafter, hdisjoint⟩ := List.nodup_append.mp h
  have hnot : s ∉ before := fun hmem => hdisjoint s hmem s List.mem_cons_self rfl
  have hrun : visitAll visit (before ++ s :: after) (t, u)
      = visitAll visit after (visitAt visit (visitAll visit before (t, u)) s) :=
    visitAll_append
  rw [hrun, at?_visitAll_of_notMem (List.nodup_cons.mp hafter).1, visitAt, at?_update, if_pos rfl,
    at?_visitAll_of_notMem hnot, state_visitAll hbefore]

/-! ## Sweeps -/

/-- What a sweep from `start` comes to if its visits begin with the state `u`. -/
structure SweptFrom (t : Arena (ResolvedType δ ε)) (start : Nat)
    (visit : ResolvedType δ ε → σ → ResolvedType δ ε × σ) (u : σ)
    (swept : (Arena (ResolvedType δ ε) × σ) × List Nat) : Prop where
  first : swept.2.head? = some start
  nodup : swept.2.Nodup
  length_le : swept.2.length ≤ t.size
  reached : ∀ s, s ∈ swept.2 ↔ ReflTransGen t.Lists start s
  /-- A visit finds its type as it was before the sweep, and the state that the visits before have
  led to. -/
  visited : ∀ {before s after}, swept.2 = before ++ s :: after → ∃ d, t.at? s = some d ∧
    swept.1.1.at? s = some (visit d (t.stateAfter visit u before)).1
  state : swept.1.2 = t.stateAfter visit u swept.2
  unvisited : ∀ s, s ∉ swept.2 → swept.1.1.at? s = t.at? s
  index : swept.1.1.index = t.index

theorem sweptFrom_sweepWith (ht : t.Indexed) (hvisit : ∀ d u, (visit d u).1.subtypes = d.subtypes)
    (hstart : start < t.size) : t.SweptFrom start visit u (t.sweepWith start visit u) := by
  have hfirst : (t.sweepWith start visit u).2.head? = some start := head?_sweepWith hstart
  obtain ⟨visited, hrun, hnodup, hreach⟩ := sweepWith_spec (u := u) ht hvisit hstart
  have hlists : t.Below = t.Lists := by
    funext a b
    exact propext below_iff_lists
  have hlt : ∀ s ∈ visited, s < t.size := by
    intro s hs
    rcases ((hreach s).mp hs).cases_tail with rfl | ⟨a, _, has⟩
    · exact hstart
    · exact lt_of_below ht has
  rw [hrun] at hfirst ⊢
  refine ⟨hfirst, hnodup, length_le_size hnodup hlt, fun s => hlists ▸ hreach s, ?_,
    state_visitAll hnodup, fun s hs => at?_visitAll_of_notMem hs, index_visitAll⟩
  rintro before s after rfl
  obtain ⟨d, hd⟩ := at?_of_lt (hlt s (by simp))
  refine ⟨d, hd, ?_⟩
  rw [at?_visitAll hnodup, hd, Option.map_some]

end Visits

/-! ## After linking -/

section Linking

variable {δ ε : Type} [SupertypedDef δ] {t t' : Arena (ResolvedType δ ε)} {m : NameMap δ}
  {label : String} {a b : Nat}

/-- A hierarchy before it is linked: every type stands under its own name, and nothing is marked. -/
structure Unlinked (t : Arena (ResolvedType δ ε)) : Prop where
  ownNames : ∀ {s d}, t.at? s = some d → t.slotOf? d.name = some s
  unmarked : ∀ {s d}, t.at? s = some d → d.subtypes = ∅

/-- The definitions of a registry make such an arena. -/
theorem unlinked_unresolved [EmptyCollection ε] (hm : m.KeyedBy SupertypedDef.name) :
    (unresolved m : Arena (ResolvedType δ ε)).Unlinked where
  ownNames {s d} hd := by
    have hdef := definitions_unresolved (ε := ε) m
    obtain ⟨n, hn⟩ := (indexed_of_definitions hdef).covered (lt_of_at? hd)
    rw [name_at? hdef hm hn hd]
    exact hn
  unmarked {s d} hd := by
    refine NameSet.ext_mem fun x => iff_of_false (fun hx => ?_) NameSet.not_mem_empty
    exact not_holds_unresolved (ε := ε) (f := ResolvedType.subtypes) (fun _ => rfl) ⟨d, hd, hx⟩

omit [SupertypedDef δ] in
theorem ofEdits_definitions [EmptyCollection ε] (m : NameMap δ) :
    ofEdits (m.toList.map fun e => .insert e.1 (.ofDefinition e.2))
      = (unresolved m : Arena (ResolvedType δ ε)) :=
  List.foldl_map

theorem linkSubtypes_ok {found found' : Findings} (h : t.linkSubtypes found = .ok (t', found')) :
    t' = t.markSubtypes found.label := by
  rw [linkSubtypes_eq] at h
  cases hn : found.noteAll (t.lineageDefects found.label) with
  | error f => rw [hn] at h; cases h
  | ok mid => rw [hn] at h; cases h; rfl

/-- What linking lists below a type are the types above which it stands, those without a chain left
out. -/
theorem lists_markSubtypes_iff (ht : t.Indexed) (hun : t.Unlinked) :
    (t.markSubtypes label).Lists a b ↔
      TransGen t.Ascends b a ∧ ∃ chain, t.lineage label b = .ok chain := by
  have hslot : (t.markSubtypes label).slotOf? = t.slotOf? :=
    funext (slotOf?_congr definitions_markSubtypes)
  have hnew : ∀ x, ¬ t.Holds ResolvedType.subtypes a x := by
    rintro x ⟨d, hd, hx⟩
    rw [hun.unmarked hd] at hx
    exact NameSet.not_mem_empty hx
  simp only [Lists, holds_markSubtypes ht, hnew, false_or, hslot]
  constructor
  · rintro ⟨n, ⟨i, _, ⟨hchain, hia⟩, d, hd, rfl⟩, hn⟩
    rw [hun.ownNames hd] at hn
    cases hn
    exact ⟨hia, hchain⟩
  · rintro ⟨hba, hchain⟩
    obtain ⟨c, ⟨d, k, hd, -, -⟩, -⟩ := TransGen.head'_iff.mp hba
    have hn := hun.ownNames hd
    exact ⟨d.name, ⟨b, mem_slotsByName.mpr ⟨_, hn⟩, ⟨hchain, hba⟩, d, hd, rfl⟩, hn⟩

/-- A linked type lists all that can be reached from it. -/
theorem reaches_markSubtypes_iff (ht : t.Indexed) (hun : t.Unlinked) :
    ReflTransGen (t.markSubtypes label).Lists a b ↔ b = a ∨ (t.markSubtypes label).Lists a b := by
  have htrans : IsTrans Nat (t.markSubtypes label).Lists := by
    refine ⟨fun a b c hab hbc => ?_⟩
    rw [lists_markSubtypes_iff ht hun] at hab hbc ⊢
    exact ⟨hbc.1.trans hab.1, hbc.2⟩
  rw [reflTransGen_iff_eq_or_transGen, transGen_eq_self]

end Linking

end Arena

/-- Whatever the subtype sets of an arena are, a sweep ends, and visits each type once that can be
reached through them, from the first one on. Sets that linking records, with defects noted or not,
hold all that can be reached. -/
theorem sweeps_visit_what_is_below {δ ε σ : Type} (es : List (Edit (ResolvedType δ ε)))
    (start : Nat) (hstart : start < (Arena.ofEdits es).size)
    (visit : ResolvedType δ ε → σ → ResolvedType δ ε × σ)
    (hvisit : ∀ d u, (visit d u).1.subtypes = d.subtypes) (u : σ) :
    (Arena.ofEdits es).SweptFrom start visit u ((Arena.ofEdits es).sweepWith start visit u) ∧
      ∀ [SupertypedDef δ] (t' : Arena (ResolvedType δ ε)) (found found' : Findings),
        (Arena.ofEdits es).Unlinked → (Arena.ofEdits es).linkSubtypes found = .ok (t', found') →
        t'.SweptFrom start visit u (t'.sweepWith start visit u) ∧
          ∀ s, s ∈ (t'.sweepWith start visit u).2 ↔ s = start ∨ t'.Lists start s := by
  have ht := Arena.indexed_ofEdits es
  refine ⟨Arena.sweptFrom_sweepWith ht hvisit hstart, fun t' found found' hun hlink => ?_⟩
  rw [Arena.linkSubtypes_ok hlink]
  have hdef : ((Arena.ofEdits es).markSubtypes found.label).definitions
      = (Arena.ofEdits es).definitions := Arena.definitions_markSubtypes
  have hsize : ((Arena.ofEdits es).markSubtypes found.label).size = (Arena.ofEdits es).size := by
    simpa using congrArg Arena.size hdef
  have ht' : ((Arena.ofEdits es).markSubtypes found.label).Indexed :=
    .of_definitions (hdef ▸ ht.definitions)
  have hswept := Arena.sweptFrom_sweepWith (u := u) ht' hvisit (hsize ▸ hstart)
  exact ⟨hswept, fun s => (hswept.reached s).trans (Arena.reaches_markSubtypes_iff ht hun)⟩

/-- Types that are listed along two ways and in a loop, and a name that stands for no type. -/
def diamond : List (Edit ResolvedEntity) :=
  ["root", "left", "right", "shared"].map (fun n => .insert n (entry n none).2) ++
    [.update 0 (·.addSubtype "left" true), .update 0 (·.addSubtype "right" true),
      .update 0 (·.addSubtype "gone" true), .update 1 (·.addSubtype "shared" true),
      .update 2 (·.addSubtype "shared" true), .update 3 (·.addSubtype "root" true)]

/-- Three levels of entity types. -/
def ladder : NameMap EntityDef :=
  [{ name := "column", guid := "", supertype := some (.named "table") },
    { name := "table", guid := "", supertype := some (.named "asset") },
    { name := "asset", guid := "" }].foldl (fun m (d : EntityDef) => m.insert d.name d) ∅

/-- A visit that counts itself. -/
def counted (d : ResolvedEntity) (k : Nat) : ResolvedEntity × Nat :=
  (d.addRelationship "owns", k + 1)

theorem sweeps_visit_what_is_below_diamond :
    (∀ (d : ResolvedEntity) k, (counted d k).1.subtypes = d.subtypes) ∧
    (0 < (Arena.ofEdits diamond).size ∧
      ((Arena.ofEdits diamond).sweepWith 0 counted 0).2.head? = some 0 ∧
      ((Arena.ofEdits diamond).sweepWith 0 counted 0).2.Nodup ∧
      3 ∈ ((Arena.ofEdits diamond).sweepWith 0 counted 0).2 ∧
      ∃ d, ((Arena.ofEdits diamond).sweepWith 0 counted 0).1.1.at? 3 = some d ∧
        "owns" ∈ d.applicability.relationships) ∧
    (unresolved ladder : EntityArena).Unlinked ∧
    ∃ t, (unresolved ladder : EntityArena).linkSubtypes { mode := .failFast, label := "repo" }
        = .ok (t, { mode := .failFast, label := "repo" }) ∧
      1 ∈ (t.sweepWith 0 counted 0).2 := by
  have hvisit : ∀ (d : ResolvedEntity) k, (counted d k).1.subtypes = d.subtypes := fun _ _ => rfl
  refine ⟨hvisit, ?_, ?_⟩
  · have hsize : 0 < (Arena.ofEdits diamond).size := by decide
    obtain ⟨hswept, -⟩ := sweeps_visit_what_is_below diamond 0 hsize counted hvisit 0
    have hleft : (Arena.ofEdits diamond).Lists 0 1 := ⟨"left", ⟨_, rfl, by decide⟩, rfl⟩
    have hshared : (Arena.ofEdits diamond).Lists 1 3 := ⟨"shared", ⟨_, rfl, by decide⟩, rfl⟩
    have hmem := (hswept.reached 3).mpr (.tail (.single hleft) hshared)
    obtain ⟨before, after, hsplit⟩ := List.append_of_mem hmem
    obtain ⟨d, -, hd⟩ := hswept.visited hsplit
    exact ⟨hsize, hswept.first, hswept.nodup, hmem, _, hd,
      (Arena.mem_addRelationship d).mpr (.inr rfl)⟩
  · let fresh : List (Edit ResolvedEntity) :=
      ladder.toList.map fun e => .insert e.1 (.ofDefinition e.2)
    have hfresh : Arena.ofEdits fresh = unresolved ladder := Arena.ofEdits_definitions ladder
    have hsize : 0 < (Arena.ofEdits fresh).size := by decide
    have hkeyed : ladder.KeyedBy EntityDef.name :=
      ((NameMap.keyedBy_empty.insert _).insert _).insert _
    have hnone : (unresolved ladder : EntityArena).lineageDefects "repo" = [] := by
      decide +kernel
    have hlink : (unresolved ladder : EntityArena).linkSubtypes
        { mode := .failFast, label := "repo" }
        = .ok ((unresolved ladder : EntityArena).markSubtypes "repo",
            { mode := .failFast, label := "repo" }) := by
      rw [Arena.linkSubtypes_eq, hnone]
      rfl
    obtain ⟨-, hlinked⟩ := sweeps_visit_what_is_below fresh 0 hsize counted hvisit 0
    rw [hfresh] at hlinked
    have hun := Arena.unlinked_unresolved (ε := EntityApplicability) hkeyed
    obtain ⟨-, hmem⟩ := hlinked _ _ _ hun hlink
    have hcolumn : (unresolved ladder : EntityArena).Ascends 1 2 := ⟨_, "table", rfl, rfl, rfl⟩
    have htable : (unresolved ladder : EntityArena).Ascends 2 0 := ⟨_, "asset", rfl, rfl, rfl⟩
    have hslot : 1 ∈ (unresolved ladder : EntityArena).slotsByName := by decide
    have ht : (unresolved ladder : EntityArena).Indexed := hfresh ▸ Arena.indexed_ofEdits fresh
    refine ⟨hun, _, hlink, (hmem 1).mpr (.inr ((Arena.lists_markSubtypes_iff ht hun).mpr ?_))⟩
    exact ⟨.tail (.single hcolumn) htable, lineage_of_no_defects hnone hslot⟩

end Metamodel
