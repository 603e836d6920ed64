import Mathlib.Data.List.Basic
import Metamodel.Resolution.Findings

/-!
# Metamodel.Proofs.Findings

What a loop over defective items comes to.

* `foldlM_noteAll` — a loop whose body notes the defects of an item, and works on a state that has
  no influence on them, notes the defects of all items and works on the state as if there were none.
* `noteAll_checkpoint` — notes taken from a clean sheet and followed by a checkpoint are a `report`.

Errors are thus decided by the list of the defects alone; the work done between two notes is never
seen by the one who reports them.
-/

namespace Metamodel

/-- The defect in the place of a value. -/
def defectOf? {α : Type} : Except Defect α → Option Defect
  | .error d => some d
  | .ok _ => none

@[simp] theorem defectOf?_ok {α : Type} {a : α} : defectOf? (.ok a) = none := rfl

@[simp] theorem defectOf?_error {α : Type} {d : Defect} :
    defectOf? (.error d : Except Defect α) = some d := rfl

@[simp] theorem defectOf?_eq_none {α : Type} {x : Except Defect α} :
    defectOf? x = none ↔ ∃ a, x = .ok a := by
  cases x <;> simp [defectOf?]

@[simp] theorem defectOf?_eq_some {α : Type} {x : Except Defect α} {d : Defect} :
    defectOf? x = some d ↔ x = .error d := by
  cases x <;> simp [defectOf?]

/-- The work that a value asks for; none if a defect is in its place. -/
def workOn {α σ : Type} (s : σ) (next : α → σ) : Except Defect α → σ
  | .ok a => next a
  | .error _ => s

@[simp] theorem workOn_ok {α σ : Type} {s : σ} {next : α → σ} {a : α} :
    workOn s next (.ok a) = next a := rfl

@[simp] theorem workOn_error {α σ : Type} {s : σ} {next : α → σ} {d : Defect} :
    workOn s next (.error d) = s := rfl

/-- A pass whose defects are known: the first one, or each one once, as the mode says. -/
def report (mode : ErrorMode) (label : String) (ds : List Defect) : Except Fault Unit :=
  match ds with
  | [] => .ok ()
  | first :: _ =>
    match mode with
    | .failFast => .error (.defect first)
    | .collectAll => .error (.resolutionFailed label (ds.eraseDups.map .defect))

/-- By induction on the length, as the rest is filtered before its own repetitions go. -/
theorem nodup_eraseDups {α : Type} [BEq α] [LawfulBEq α] (as : List α) : as.eraseDups.Nodup := by
  induction hn : as.length using Nat.strongRecOn generalizing as with
  | ind n ih =>
    cases as with
    | nil => exact .nil
    | cons a as =>
      rw [List.eraseDups_cons, List.nodup_cons, List.mem_eraseDups]
      refine ⟨by simp, ih _ ?_ _ rfl⟩
      have := List.length_filter_le (fun b => !b == a) as
      rw [List.length_cons] at hn
      omega

namespace Findings

/-- Note several defects, one after the other. -/
def noteAll (found : Findings) (ds : List Defect) : Except Fault Findings := ds.foldlM note found

@[simp] theorem noteAll_nil {found : Findings} : found.noteAll [] = .ok found := rfl

@[simp] theorem noteAll_cons {found : Findings} {d : Defect} {ds : List Defect} :
    found.noteAll (d :: ds) = (found.note d).bind (·.noteAll ds) := rfl

theorem noteAll_append {found : Findings} {ds es : List Defect} :
    found.noteAll (ds ++ es) = (found.noteAll ds).bind (·.noteAll es) := by
  induction ds generalizing found with
  | nil => rfl
  | cons d ds ih =>
    simp only [List.cons_append, noteAll_cons]
    cases found.note d with
    | error f => rfl
    | ok found' => exact ih

theorem label_of_note {found found' : Findings} {d : Defect} (h : found.note d = .ok found') :
    found'.label = found.label := by
  simp only [note] at h
  split at h
  · cases h
  · split at h <;> cases h <;> rfl

theorem label_of_noteAll {found found' : Findings} {ds : List Defect}
    (h : found.noteAll ds = .ok found') : found'.label = found.label := by
  induction ds generalizing found with
  | nil => cases h; rfl
  | cons d ds ih =>
    simp only [noteAll_cons] at h
    cases hn : found.note d with
    | error f => rw [hn] at h; cases h
    | ok mid => rw [hn] at h; rw [ih h, label_of_note hn]

theorem orNote_eq {α σ : Type} {found : Findings} {x : Except Defect α} {s : σ} {next : α → σ} :
    found.orNote x s next = (found.noteAll (defectOf? x).toList).map (workOn s next x, ·) := by
  cases x with
  | ok a => rfl
  | error d => cases h : found.note d <;> simp [orNote, h, Except.bind, Except.map]

/-- By induction on the items. `P` holds of the states of the run, and says enough of a state to
know the defects of an item without it. -/
theorem foldlM_noteAll {σ ι : Type} {body : σ × Findings → ι → Except Fault (σ × Findings)}
    {flaws : ι → List Defect} {work : σ → ι → σ} {P : σ → Prop} {label : String}
    (hbody : ∀ s i found, P s → found.label = label →
      body (s, found) i = (found.noteAll (flaws i)).map (work s i, ·))
    (hwork : ∀ s i, P s → P (work s i)) (is : List ι) :
    ∀ (s : σ) (found : Findings), P s → found.label = label →
      is.foldlM body (s, found) = (found.noteAll (is.flatMap flaws)).map (is.foldl work s, ·) := by
  induction is with
  | nil => intro s found _ _; rfl
  | cons i is ih =>
    intro s found hs hl
    have hb := hbody s i found hs hl
    simp only [List.foldlM_cons, List.flatMap_cons, List.foldl_cons, noteAll_append, hb]
    cases hn : found.noteAll (flaws i) with
    | error f => rfl
    | ok found' => exact ih (work s i) found' (hwork s i hs) ((label_of_noteAll hn).trans hl)

/-- The loop of one resolved value for each item. -/
theorem foldlM_orNote {σ ι α : Type} {P : σ → Prop} {found : Findings}
    (resolve : σ → String → ι → Except Defect α) (next : σ → ι → α → σ)
    {resolved : ι → Except Defect α}
    (hresolve : ∀ s i, P s → resolve s found.label i = resolved i)
    (hnext : ∀ s i a, P s → P (next s i a)) (is : List ι) (s : σ) (hs : P s) :
    is.foldlM (fun s i => s.2.orNote (resolve s.1 s.2.label i) s.1 (next s.1 i)) (s, found)
      = (found.noteAll (is.filterMap fun i => defectOf? (resolved i))).map
          (is.foldl (fun s i => workOn s (next s i) (resolved i)) s, ·) := by
  rw [List.filterMap_eq_flatMap_toList]
  refine foldlM_noteAll (P := P) ?_ ?_ is s found hs rfl
  · intro s i found' hs hl
    simp only [hl, hresolve s i hs, orNote_eq]
  · intro s i hs
    cases resolved i with
    | ok a => exact hnext s i a hs
    | error d => exact hs

/-! ## Both modes -/

theorem noteAll_failFast {label : String} {kept ds : List Defect} :
    ({ mode := .failFast, label, defects := kept } : Findings).noteAll ds =
      match ds with
      | [] => .ok { mode := .failFast, label, defects := kept }
      | first :: _ => .error (.defect first) := by
  cases ds <;> rfl

/-- Collecting keeps what is new, in the order of the first notes. -/
theorem noteAll_collectAll {label : String} {kept ds : List Defect} :
    ({ mode := .collectAll, label, defects := kept } : Findings).noteAll ds =
      .ok { mode := .collectAll, label, defects := kept ++ (ds.removeAll kept).eraseDups } := by
  induction ds generalizing kept with
  | nil => simp
  | cons d ds ih =>
    simp only [noteAll_cons, note, List.cons_removeAll]
    by_cases hd : d ∈ kept
    · simp [hd, Except.bind, ih]
    · have hrest : ds.removeAll (kept ++ [d]) = (ds.removeAll kept).filter (fun b => !b == d) := by
        simp only [List.removeAll, List.filter_filter]
        refine List.filter_congr fun b _ => ?_
        by_cases hb : b ∈ kept <;> by_cases he : b = d <;> simp [hb, he]
      simp [hd, Except.bind, ih, List.eraseDups_cons, hrest]

theorem noteAll_checkpoint {α : Type} (mode : ErrorMode) (label : String) (ds : List Defect)
    (next : Findings → Except Fault α) :
    ((({ mode, label } : Findings).noteAll ds).bind fun found =>
        found.checkpoint.bind fun _ => next found)
      = (report mode label ds).bind fun _ => next { mode, label } := by
  cases mode with
  | failFast => cases ds <;> rfl
  | collectAll =>
    rw [noteAll_collectAll]
    cases ds with
    | nil => rfl
    | cons d ds => simp [Except.bind, checkpoint, report, List.eraseDups_cons]

end Findings

end Metamodel
