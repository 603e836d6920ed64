import Metamodel.Proofs.Climbs

/-!
# Metamodel.Proofs.Trails

The slots that a climb goes through, whether or not it comes to a root.

* `Arena.Trail`    — a trail is without repetition, follows the supertype links, and holds all that
  they lead to from its first slot on.
* `Arena.Ends`     — what a climb comes to, told by the last slot of its trail.
* `Arena.Climbing` — the state of a climb: the slots it has gone through, and those it has not met.
* `exists_trail`   — every climb has a trail, over links of any shape.
-/

namespace Metamodel

open Relation

namespace Arena

variable {δ ε : Type} [SupertypedDef δ] {t : Arena (ResolvedType δ ε)} {label : String}
  {a b slot : Nat} {unmet path trail : List Nat} {x : Except Defect (List Nat)}

/-! ## Trails -/

/-- `n` is the least of the names of the types in some slots. -/
def LeastAmong (t : Arena (ResolvedType δ ε)) (slots : List Nat) (n : String) : Prop :=
  (∃ c ∈ slots, ∃ d, t.at? c = some d ∧ d.name = n) ∧
    ∀ c ∈ slots, ∀ d, t.at? c = some d → ¬ d.name < n

/-- What a climb comes to: its trail if the last type of it has no supertype link, and otherwise the
defect of that link. -/
inductive Ends (t : Arena (ResolvedType δ ε)) (label : String) (trail : List Nat) :
    Except Defect (List Nat) → Prop where
  | root {z : Nat} : trail.getLast? = some z → t.IsRoot z → Ends t label trail (.ok trail)
  | unnamed {z : Nat} {d : ResolvedType δ ε} {l : TypeLink} :
      trail.getLast? = some z → t.at? z = some d → d.supertype = some l → l.target? = none →
      Ends t label trail (.error (.missingSupertypeName (SupertypedDef.hierarchy δ) d.name label))
  | unregistered {z : Nat} {d : ResolvedType δ ε} {l : TypeLink} {k : String} :
      trail.getLast? = some z → t.at? z = some d → d.supertype = some l → l.target? = some k →
      t.slotOf? k = none →
      Ends t label trail (.error (.missingSupertypeDef (SupertypedDef.hierarchy δ) d.name k label))
  /-- The last link leads back to a slot of the trail; from there on it is a loop. -/
  | loop {approach rest : List Nat} {z s : Nat} {n : String} :
      trail = approach ++ s :: rest → trail.getLast? = some z → t.Ascends z s →
      t.LeastAmong (s :: rest) n →
      Ends t label trail (.error (.supertypeCycle (SupertypedDef.hierarchy δ).category n label))

/-- The slots that a climb from slot `a` goes through, and what it comes to. -/
structure Trail (t : Arena (ResolvedType δ ε)) (label : String) (a : Nat) (trail : List Nat)
    (x : Except Defect (List Nat)) : Prop where
  start : trail.head? = some a
  links : trail.IsChain t.Ascends
  nodup : trail.Nodup
  /-- There are no more steps than slots. -/
  length_le : trail.length ≤ t.size
  slots : ∀ b, b ∈ trail ↔ ReflTransGen t.Ascends a b
  ends : t.Ends label trail x

/-- The link of a last slot leads nowhere but into the trail. -/
theorem Ends.mem_of_ascends {z c : Nat} (h : t.Ends label trail x) (hz : trail.getLast? = some z)
    (hzc : t.Ascends z c) : c ∈ trail := by
  cases h with
  | root hlast hroot =>
    rw [hz] at hlast
    cases hlast
    exact absurd hzc (not_ascends_of_root hroot c)
  | unnamed hlast hd hl hk =>
    rw [hz] at hlast
    cases hlast
    obtain ⟨e, n, he, hn, -⟩ := hzc
    rw [hd] at he
    cases he
    simp [ResolvedType.supertypeName?, hl, hk] at hn
  | unregistered hlast hd hl hk hnone =>
    rw [hz] at hlast
    cases hlast
    obtain ⟨e, n, he, hn, hc⟩ := hzc
    rw [hd] at he
    cases he
    rw [ResolvedType.supertypeName?, hl, Option.bind_some, hk] at hn
    cases hn
    rw [hnone] at hc
    cases hc
  | loop hsplit hlast hs _ =>
    rw [hz] at hlast
    cases hlast
    rw [ascends_rightUnique t hzc hs, hsplit]
    simp

/-- A trail holds what its links lead to. -/
theorem Ends.mem_iff (h : t.Ends label trail x) (hlinks : trail.IsChain t.Ascends)
    (hstart : trail.head? = some a) : b ∈ trail ↔ ReflTransGen t.Ascends a b := by
  obtain ⟨rest, rfl⟩ := List.head?_eq_some_iff.mp hstart
  refine ⟨reaches_of_isChain hlinks, fun hab => ?_⟩
  induction hab with
  | refl => exact List.mem_cons_self
  | tail _ hcd ih =>
    rcases mem_or_getLast_of_isChain (ascends_rightUnique t) hlinks ih hcd with hd | hlast
    · exact hd
    · exact h.mem_of_ascends hlast hcd

/-- The defect at the end of a trail is the one its first type runs into. -/
theorem Ends.blamed {d : Defect} (h : t.Ends label trail (.error d))
    (hlinks : trail.IsChain t.Ascends) (hstart : trail.head? = some a) : t.Blamed label a d := by
  have hmem : ∀ c ∈ trail, ReflTransGen t.Ascends a c := fun c => (h.mem_iff hlinks hstart).mp
  cases h with
  | unnamed hlast hd hl hk =>
    exact .link (hmem _ (List.mem_of_getLast? hlast)) (by simp [superSlot, hd, hl, hk])
  | unregistered hlast hd hl hk hnone =>
    exact .link (hmem _ (List.mem_of_getLast? hlast)) (by simp [superSlot, hd, hl, hk, hnone])
  | @loop approach rest z s n hsplit hlast hs hleast =>
    subst hsplit
    have hlast' : (s :: rest).getLast? = some z := by simpa using hlast
    have hchain : (s :: rest).IsChain t.Ascends := hlinks.suffix (List.suffix_append _ _)
    -- the loop is a trail of its own
    have hends : t.Ends label (s :: rest) _ :=
      .loop (List.nil_append _).symm hlast' hs hleast
    have hloop : ∀ {c}, c ∈ s :: rest ↔ ReflTransGen t.Ascends s c := hends.mem_iff hchain rfl
    have hback : ReflTransGen t.Ascends s z := hloop.mp (List.mem_of_getLast? hlast')
    obtain ⟨⟨c, hc, d, hd, hn⟩, hmin⟩ := hleast
    refine .loop (hmem s (by simp)) (.tail' hback hs) ⟨⟨c, d, hloop.mp hc, hd, hn⟩, ?_⟩
    exact fun c d hc => hmin c (hloop.mpr hc) d

/-! ## The climb -/

/-- A climb that has come to `slot`: every slot is on the path so far or unmet, and none is both. -/
structure Climbing (t : Arena (ResolvedType δ ε)) (unmet path : List Nat) (slot : Nat) : Prop where
  links : path.IsChain t.Ascends
  last : path.getLast? = some slot
  slots : (path ++ unmet).Perm (List.range t.size)

theorem Climbing.step {s : Nat} (h : t.Climbing unmet path slot) (hs : t.Ascends slot s)
    (hmem : s ∈ unmet) : t.Climbing (unmet.erase s) (path ++ [s]) s where
  links := by
    refine h.links.append (.singleton s) fun c hc d hd => ?_
    rw [h.last] at hc
    cases hc
    cases hd
    exact hs
  last := by simp
  slots := by
    have hmoved : (path ++ unmet).Perm (path ++ s :: unmet.erase s) :=
      (List.perm_cons_erase hmem).append_left path
    rw [List.append_assoc]
    exact hmoved.symm.trans h.slots

theorem Climbing.nodup (h : t.Climbing unmet path slot) : path.Nodup :=
  (List.nodup_append.mp (h.slots.nodup_iff.mpr List.nodup_range)).1

theorem Climbing.length_le (h : t.Climbing unmet path slot) : path.length ≤ t.size := by
  have hlength := h.slots.length_eq
  rw [List.length_append, List.length_range] at hlength
  omega

/-- A link that does not lead to an unmet slot leads back to the path. -/
theorem Climbing.mem_path {s : Nat} (h : t.Climbing unmet path slot) (ht : t.Indexed)
    (hs : t.Ascends slot s) (hnot : s ∉ unmet) : s ∈ path := by
  obtain ⟨_, _, _, _, hslot⟩ := hs
  have hrange : s ∈ path ++ unmet := h.slots.mem_iff.mpr (List.mem_range.mpr (ht.bounded hslot))
  exact (List.mem_append.mp hrange).resolve_right hnot

theorem ends_of_superSlot {d : Defect} (hlast : path.getLast? = some slot)
    (h : t.superSlot label slot = .error d) : t.Ends label path (.error d) := by
  simp only [superSlot] at h
  split at h
  · cases h
  · rename_i r hr
    split at h
    · cases h
    · rename_i l hl
      split at h
      · rename_i hk
        cases h
        exact .unnamed hlast hr hl hk
      · rename_i k hk
        split at h
        · rename_i hnone
          cases h
          exact .unregistered hlast hr hl hk hnone
        · cases h

/-- The part of a path from slot `s` on. -/
theorem dropWhile_eq_cons {s : Nat} (h : s ∈ path) :
    ∃ rest, path.dropWhile (· ≠ s) = s :: rest := by
  induction path with
  | nil => cases h
  | cons a path ih =>
    by_cases ha : a = s
    · exact ⟨path, by simp [ha]⟩
    · rcases List.mem_cons.mp h with h | h
      · exact absurd h.symm ha
      · obtain ⟨rest, hr⟩ := ih h
        exact ⟨rest, by simpa [ha] using hr⟩

theorem ends_of_loop {s : Nat} (hlast : path.getLast? = some slot) (hs : t.Ascends slot s)
    (hmem : s ∈ path) : t.Ends label path (.error (t.loopDefect label path s)) := by
  obtain ⟨rest, hrest⟩ := dropWhile_eq_cons hmem
  have hsplit : path = path.takeWhile (· ≠ s) ++ s :: rest := by
    rw [← hrest, List.takeWhile_append_dropWhile]
  have hnames : ∀ n, n ∈ t.namesAt (s :: rest) ↔
      ∃ c ∈ s :: rest, ∃ d, t.at? c = some d ∧ d.name = n := by
    intro n
    simp only [namesAt, List.mem_filterMap, Option.map_eq_some_iff]
  obtain ⟨c, d, hc, hd⟩ : ∃ c d, c ∈ s :: rest ∧ t.at? c = some d := by
    obtain ⟨d, _, hd, _⟩ := hs
    have hslot : slot ∈ s :: rest := by
      refine List.mem_of_getLast? ?_
      rw [hsplit] at hlast
      simpa using hlast
    exact ⟨slot, d, hslot, hd⟩
  obtain ⟨n, hn⟩ := exists_leastName? ((hnames d.name).mpr ⟨c, hc, d, hd, rfl⟩)
  obtain ⟨hin, hleast⟩ := leastName?_eq_some hn
  rw [loopDefect, hrest, hn]
  refine .loop hsplit hlast hs ⟨(hnames n).mp hin, fun c hc d hd => ?_⟩
  exact hleast d.name ((hnames d.name).mpr ⟨c, hc, d, hd, rfl⟩)

/-- By induction on the climb, whose trail goes on from the path. -/
theorem Climbing.exists_ends (label : String) (ht : t.Indexed) (h : t.Climbing unmet path slot) :
    ∃ trail, path <+: trail ∧ trail.IsChain t.Ascends ∧ trail.Nodup ∧ trail.length ≤ t.size ∧
      t.Ends label trail (t.climb label unmet path slot) := by
  fun_induction climb t label unmet path slot with
  | case1 unmet path slot d hs =>
    exact ⟨path, List.prefix_refl _, h.links, h.nodup, h.length_le, ends_of_superSlot h.last hs⟩
  | case2 unmet path slot hs =>
    exact ⟨path, List.prefix_refl _, h.links, h.nodup, h.length_le,
      .root h.last (superSlot_ok_none.mp hs)⟩
  | case3 unmet path slot s hs hmem ih =>
    obtain ⟨trail, hprefix, htrail⟩ := ih (h.step (superSlot_ok_some.mp hs) hmem)
    exact ⟨trail, (List.prefix_append path [s]).trans hprefix, htrail⟩
  | case4 unmet path slot s hs hnot =>
    have hup := superSlot_ok_some.mp hs
    exact ⟨path, List.prefix_refl _, h.links, h.nodup, h.length_le,
      ends_of_loop h.last hup (h.mem_path ht hup hnot)⟩

theorem exists_trail (label : String) (ht : t.Indexed) (ha : a < t.size) :
    ∃ trail, t.Trail label a trail (t.lineage label a) := by
  have hstart : t.Climbing ((List.range t.size).erase a) [a] a :=
    ⟨.singleton a, rfl, (List.perm_cons_erase (List.mem_range.mpr ha)).symm⟩
  obtain ⟨trail, ⟨rest, rfl⟩, hlinks, hnodup, hlength, hends⟩ := hstart.exists_ends label ht
  exact ⟨_, rfl, hlinks, hnodup, hlength, fun b => hends.mem_iff hlinks rfl, hends⟩

end Arena

end Metamodel
