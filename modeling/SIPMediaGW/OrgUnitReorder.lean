import SIPMediaGW.LabelledExecutions
import SIPMediaGW.OrgUnitRules

/-! # Two consoles reorder the rules

A request reads the list, then updates the positions in one statement under READ COMMITTED:
rows are chosen on the snapshot the statement starts with, a chosen row is locked and checked
again on its committed version, and a row not chosen is not looked at again. -/
namespace OrgUnitReorder

open LabelledExecutions
open OrgUnitRules
open OrderedQuery

inductive Console where
  | left
  | right
  deriving DecidableEq, Repr

def Console.other : Console → Console
  | .left => .right
  | .right => .left

/-- A table of rules and the two orders posted, each a permutation of its ids. -/
structure Reordering where
  book : Rulebook
  posted : Console → List ℤ
  whole : ∀ c, (posted c).Perm (book.rules.map Rule.id)

inductive Phase where
  | posted
  | checked
  | updating (snapshot : ℤ → Option ℤ) (todo written : List ℤ)
  | answered
  | refused
  | failed

/-- The committed positions by id, and where each request stands. -/
structure State where
  place : ℤ → Option ℤ
  phase : Console → Phase

inductive Event where
  | check (c : Console)
  | start (c : Console)
  | process (c : Console) (id : ℤ)
  | commit (c : Console)
  | abort (c : Console)
  deriving DecidableEq, Repr

def State.setPhase (s : State) (c : Console) (p : Phase) : State :=
  { s with phase := fun d => if d = c then p else s.phase d }

section Requests

variable (R : Reordering)

def Reordering.ids : List ℤ := R.book.rules.map Rule.id

/-- `sorted(body.ids) == sorted(current) and len(set(body.ids)) == len(body.ids)`. -/
def Reordering.accepts (c : Console) : Bool :=
  decide ((R.posted c).insertionSort (· ≤ ·) = R.ids.insertionSort (· ≤ ·) ∧ (R.posted c).Nodup)

/-- The ordinality of an id in a posted list. -/
def Reordering.wanted (c : Console) (id : ℤ) : ℤ := (R.posted c).idxOf id + 1

/-- `r.position IS DISTINCT FROM w.position` on the snapshot. -/
def Reordering.chosen (c : Console) (snapshot : ℤ → Option ℤ) : List ℤ :=
  R.ids.filter fun id => decide (snapshot id ≠ some (R.wanted c id))

def Reordering.place (id : ℤ) : Option ℤ :=
  (R.book.rules.find? fun r => decide (r.id = id)).bind Rule.position

def Reordering.initial : State := ⟨R.place, fun _ => .posted⟩

/-- A row written by an update that is not committed. -/
def State.locked (s : State) (c : Console) (id : ℤ) : Bool :=
  match s.phase c with
  | .updating _ _ written => written.contains id
  | _ => false

def Reordering.write (c : Console) (place : ℤ → Option ℤ) (written : List ℤ) (id : ℤ) :
    Option ℤ :=
  if id ∈ written then some (R.wanted c id) else place id

def Reordering.next (s : State) : Event → Option State
  | .check c =>
    match s.phase c with
    | .posted => some (s.setPhase c (if R.accepts c then .checked else .refused))
    | _ => none
  | .start c =>
    match s.phase c with
    | .checked => some (s.setPhase c (.updating s.place (R.chosen c s.place) []))
    | _ => none
  | .process c id =>
    match s.phase c with
    | .updating snapshot todo written =>
      if id ∈ todo ∧ s.locked c.other id = false then
        let written := if s.place id = some (R.wanted c id) then written else id :: written
        some (s.setPhase c (.updating snapshot (todo.erase id) written))
      else none
    | _ => none
  | .commit c =>
    match s.phase c with
    | .updating _ [] written =>
      some { place := R.write c s.place written, phase := (s.setPhase c .answered).phase }
    | _ => none
  | .abort c =>
    match s.phase c with
    | .updating _ _ _ => some (s.setPhase c .failed)
    | _ => none

/-- The evaluation order of the rules at given positions. -/
def Reordering.order (place : ℤ → Option ℤ) : List ℤ :=
  (orderBy evaluation (R.book.rules.map fun r => { r with position := place r.id })).map Rule.id

/-- Both requests succeed one way or another, and the list ends as one of them posted it. -/
def Reordering.Serialisable : Prop :=
  ∀ s, Execution (StepOf R.next) R.initial s → (∀ c, s.phase c = .answered) →
    ∃ c, R.order s.place = R.posted c

/-- What an update leaves at an id: its own place unless its snapshot already had it. -/
def Reordering.after (c : Console) (snapshot place : ℤ → Option ℤ) (id : ℤ) : Option ℤ :=
  if snapshot id = some (R.wanted c id) then place id else some (R.wanted c id)

/-- Two updates that overlap: the last one passes over the ids that were in its place. -/
def Reordering.overlay (last : Console) : ℤ → Option ℤ :=
  R.after last R.place fun id => some (R.wanted last.other id)

/-- Before both requests the id was where the last list puts it. -/
def Reordering.Kept (last : Console) (id : ℤ) : Prop := R.place id = some (R.wanted last id)

/-- Ids in the order of list `c` keep it when `last` commits last: kept ids stand as in the other
list, the others as in the last list, and one of each by their places there, then by id. -/
structure Reordering.Ordered (last c : Console) : Prop where
  kept : ∀ x ∈ R.ids, ∀ y ∈ R.ids, R.wanted c x < R.wanted c y → R.Kept last x →
    R.Kept last y → R.wanted last.other x < R.wanted last.other y
  moved : ∀ x ∈ R.ids, ∀ y ∈ R.ids, R.wanted c x < R.wanted c y → ¬ R.Kept last x →
    ¬ R.Kept last y → R.wanted last x < R.wanted last y
  keptFirst : ∀ x ∈ R.ids, ∀ y ∈ R.ids, R.wanted c x < R.wanted c y → R.Kept last x →
    ¬ R.Kept last y → R.wanted last.other x < R.wanted last y ∨
      R.wanted last.other x = R.wanted last y ∧ x < y
  keptSecond : ∀ x ∈ R.ids, ∀ y ∈ R.ids, R.wanted c x < R.wanted c y → ¬ R.Kept last x →
    R.Kept last y → R.wanted last x < R.wanted last.other y ∨
      R.wanted last x = R.wanted last.other y ∧ x < y

end Requests

section Orders

variable {R : Reordering} {c : Console} {f g : ℤ → Option ℤ}

/-- Two assignments that give every rule the same place. -/
def Agree (R : Reordering) (f g : ℤ → Option ℤ) : Prop := ∀ id ∈ R.ids, f id = g id

@[simp] theorem other_other (c : Console) : c.other.other = c := by cases c <;> rfl

@[simp] theorem other_ne (c : Console) : c.other ≠ c := by cases c <;> simp [Console.other]

theorem eq_or_eq_other (c d : Console) : d = c ∨ d = c.other := by
  cases c <;> cases d <;> simp [Console.other]

theorem order_congr (h : Agree R f g) : R.order f = R.order g := by
  have hmap : R.book.rules.map (fun r => { r with position := f r.id }) =
      R.book.rules.map fun r => { r with position := g r.id } := by
    apply List.map_congr_left
    intro r hr
    rw [h r.id (List.mem_map_of_mem hr)]
  rw [Reordering.order, Reordering.order, hmap]

theorem posted_nodup (R : Reordering) (c : Console) : (R.posted c).Nodup :=
  (R.whole c).nodup_iff.mpr R.book.ids

theorem accepts_posted (R : Reordering) (c : Console) : R.accepts c = true := by
  have hperm : ((R.posted c).insertionSort (· ≤ ·)).Perm (R.ids.insertionSort (· ≤ ·)) :=
    ((List.perm_insertionSort _ _).trans (R.whole c)).trans (List.perm_insertionSort _ _).symm
  have hsorted := hperm.eq_of_pairwise'
    (List.pairwise_insertionSort _ _) (List.pairwise_insertionSort _ _)
  exact decide_eq_true ⟨hsorted, posted_nodup R c⟩

/-- The ids by place, then by id. -/
def byPlace (f : ℤ → Option ℤ) (id : ℤ) : WithBot ℤ ×ₗ ℤ := toLex (f id, id)

theorem order_eq (R : Reordering) (f : ℤ → Option ℤ) :
    R.order f = orderBy (byPlace f) R.ids := by
  have hids : (R.book.rules.map fun r => { r with position := f r.id }).map Rule.id = R.ids := by
    rw [List.map_map]
    rfl
  rw [← hids]
  apply List.map_insertionSort
  intro a ha b hb
  obtain ⟨r, -, rfl⟩ := List.mem_map.mp ha
  obtain ⟨r', -, rfl⟩ := List.mem_map.mp hb
  exact Iff.rfl

/-- The rules end as a list posted them when any two ids do. -/
theorem order_eq_posted_iff (R : Reordering) (c : Console) (f : ℤ → Option ℤ) :
    R.order f = R.posted c ↔ ∀ x ∈ R.ids, ∀ y ∈ R.ids, R.wanted c x < R.wanted c y →
      byPlace f x < byPlace f y := by
  rw [order_eq]
  constructor
  · intro h x hx y hy hxy
    have hsorted := pairwise_orderBy (byPlace f) R.ids
    rw [h, List.pairwise_iff_getElem] at hsorted
    have hx' := List.idxOf_lt_length_iff.mpr ((R.whole c).mem_iff.mpr hx)
    have hy' := List.idxOf_lt_length_iff.mpr ((R.whole c).mem_iff.mpr hy)
    have hle := hsorted _ _ hx' hy' (by simpa [Reordering.wanted] using hxy)
    rw [List.getElem_idxOf, List.getElem_idxOf] at hle
    refine lt_of_le_of_ne hle fun heq => ?_
    have hsame : x = y := congrArg (fun k => (ofLex k).2) heq
    rw [hsame] at hxy
    exact lt_irrefl _ hxy
  · intro h
    apply orderBy_eq
    · intro a _ b _ h
      exact congrArg (fun k => (ofLex k).2) h
    · exact R.whole c
    · rw [List.pairwise_iff_getElem]
      intro i j hi hj hij
      have hmem : ∀ {k} (hk : k < (R.posted c).length), (R.posted c)[k] ∈ R.ids :=
        fun hk => (R.whole c).mem_iff.mp (List.getElem_mem hk)
      refine (h _ (hmem hi) _ (hmem hj) ?_).le
      simp only [Reordering.wanted, (posted_nodup R c).idxOf_getElem]
      omega

theorem byPlace_lt_iff {f : ℤ → Option ℤ} {x y m n : ℤ} (hx : f x = some m) (hy : f y = some n) :
    byPlace f x < byPlace f y ↔ m < n ∨ m = n ∧ x < y := by
  rw [byPlace, byPlace, hx, hy, Prod.Lex.toLex_lt_toLex]
  exact or_congr WithBot.coe_lt_coe (and_congr_left' Option.some_inj)

/-- A list at its own places is in the order it was posted in. -/
theorem order_wanted (R : Reordering) (c : Console) :
    R.order (fun id => some (R.wanted c id)) = R.posted c := by
  rw [order_eq_posted_iff]
  intro x _ y _ hxy
  exact (byPlace_lt_iff (f := fun id => some (R.wanted c id)) rfl rfl).mpr (.inl hxy)

/-- Different ids have different places in a list. -/
theorem eq_of_wanted_eq {x y : ℤ} (hx : x ∈ R.ids) (h : R.wanted c x = R.wanted c y) :
    x = y := by
  refine List.idxOf_inj ((R.whole c).mem_iff.mpr hx) |>.mp ?_
  simpa [Reordering.wanted] using h

/-- What the overlay gives is spelled out id by id. -/
theorem overlay_order_iff (R : Reordering) (last c : Console) :
    R.order (R.overlay last) = R.posted c ↔ R.Ordered last c := by
  have hkept {id : ℤ} (h : R.Kept last id) :
      R.overlay last id = some (R.wanted last.other id) := if_pos h
  have hmoved {id : ℤ} (h : ¬ R.Kept last id) : R.overlay last id = some (R.wanted last id) :=
    if_neg h
  have hdistinct {d : Console} {x y : ℤ} (hx : x ∈ R.ids) (hxy : x ≠ y) :
      R.wanted d x < R.wanted d y ∨ R.wanted d x = R.wanted d y ∧ x < y ↔
        R.wanted d x < R.wanted d y :=
    or_iff_left fun h => hxy (eq_of_wanted_eq hx h.1)
  have hne {x y : ℤ} (hxy : R.wanted c x < R.wanted c y) : x ≠ y := by
    rintro rfl
    exact lt_irrefl _ hxy
  rw [order_eq_posted_iff]
  constructor
  · intro h
    constructor
    · intro x hx y hy hxy hkx hky
      have hlt := (byPlace_lt_iff (hkept hkx) (hkept hky)).mp (h x hx y hy hxy)
      exact (hdistinct hx (hne hxy)).mp hlt
    · intro x hx y hy hxy hkx hky
      have hlt := (byPlace_lt_iff (hmoved hkx) (hmoved hky)).mp (h x hx y hy hxy)
      exact (hdistinct hx (hne hxy)).mp hlt
    · intro x hx y hy hxy hkx hky
      exact (byPlace_lt_iff (hkept hkx) (hmoved hky)).mp (h x hx y hy hxy)
    · intro x hx y hy hxy hkx hky
      exact (byPlace_lt_iff (hmoved hkx) (hkept hky)).mp (h x hx y hy hxy)
  · intro h x hx y hy hxy
    by_cases hkx : R.Kept last x
    · by_cases hky : R.Kept last y
      · exact (byPlace_lt_iff (hkept hkx) (hkept hky)).mpr (.inl (h.kept x hx y hy hxy hkx hky))
      · exact (byPlace_lt_iff (hkept hkx) (hmoved hky)).mpr (h.keptFirst x hx y hy hxy hkx hky)
    · by_cases hky : R.Kept last y
      · exact (byPlace_lt_iff (hmoved hkx) (hkept hky)).mpr (h.keptSecond x hx y hy hxy hkx hky)
      · exact (byPlace_lt_iff (hmoved hkx) (hmoved hky)).mpr (.inl (h.moved x hx y hy hxy hkx hky))

end Orders

/-- Where one statement stands: what it still has to do, what it wrote, and the rows it passed
over because its snapshot or a committed version already had the place. -/
structure Progress (R : Reordering) (c : Console) (snapshot place : ℤ → Option ℤ)
    (todo written : List ℤ) : Prop where
  todo_chosen : ∀ id ∈ todo, snapshot id ≠ some (R.wanted c id)
  written_chosen : ∀ id ∈ written, snapshot id ≠ some (R.wanted c id)
  passed : ∀ id ∈ R.ids, id ∉ todo → id ∉ written →
    snapshot id = some (R.wanted c id) ∨ place id = some (R.wanted c id)

section Statements

variable {R : Reordering} {c : Console} {snapshot place : ℤ → Option ℤ} {todo written : List ℤ}

theorem progress_start (R : Reordering) (c : Console) (place : ℤ → Option ℤ) :
    Progress R c place place (R.chosen c place) [] where
  todo_chosen id hid := of_decide_eq_true (List.mem_filter.mp hid).2
  written_chosen id hid := by cases hid
  passed id hid hnot _ := by
    left
    by_contra hne
    exact hnot (List.mem_filter.mpr ⟨hid, decide_eq_true hne⟩)

theorem Progress.process (h : Progress R c snapshot place todo written) {id : ℤ}
    (hid : id ∈ todo) :
    Progress R c snapshot place (todo.erase id)
      (if place id = some (R.wanted c id) then written else id :: written) where
  todo_chosen x hx := h.todo_chosen x (List.mem_of_mem_erase hx)
  written_chosen x hx := by
    split at hx
    · exact h.written_chosen x hx
    · rcases List.mem_cons.mp hx with rfl | hx
      · exact h.todo_chosen x hid
      · exact h.written_chosen x hx
  passed x hx hnot hskip := by
    by_cases hsame : x = id
    · subst hsame
      split at hskip
      · rename_i hplace
        exact Or.inr hplace
      · exact absurd List.mem_cons_self hskip
    · have htodo : x ∉ todo := fun hmem => hnot ((List.mem_erase_of_ne hsame).mpr hmem)
      apply h.passed x hx htodo
      intro hmem
      apply hskip
      split
      · exact hmem
      · exact List.mem_cons_of_mem _ hmem

/-- A statement that has nothing left to do leaves every id at `after`. -/
theorem Progress.commit (h : Progress R c snapshot place [] written) :
    Agree R (R.write c place written) (R.after c snapshot place) := by
  intro id hid
  simp only [Reordering.write, Reordering.after]
  by_cases hw : id ∈ written
  · rw [if_pos hw, if_neg (h.written_chosen id hw)]
  · rw [if_neg hw]
    rcases h.passed id hid List.not_mem_nil hw with hsnap | hplace
    · rw [if_pos hsnap]
    · rw [hplace, ite_self]

/-- Alone since its snapshot, a statement leaves the list as posted. -/
theorem after_same (R : Reordering) (c : Console) (place : ℤ → Option ℤ) :
    R.after c place place = fun id => some (R.wanted c id) := by
  funext id
  simp only [Reordering.after]
  split
  · rename_i h
    exact h
  · rfl

end Statements

/-- What a step does to the request that takes it. -/
inductive Effect (R : Reordering) (s : State) : State → Prop where
  | turn (c : Console) (p : Phase) : s.phase c ≠ .answered → p ≠ .answered →
      (∀ snapshot todo written, p ≠ .updating snapshot todo written) → Effect R s (s.setPhase c p)
  | start (c : Console) : s.phase c ≠ .answered →
      Effect R s (s.setPhase c (.updating s.place (R.chosen c s.place) []))
  | process (c : Console) (id : ℤ) (snapshot : ℤ → Option ℤ) (todo written : List ℤ) :
      s.phase c = .updating snapshot todo written → id ∈ todo →
      Effect R s (s.setPhase c (.updating snapshot (todo.erase id)
        (if s.place id = some (R.wanted c id) then written else id :: written)))
  | commit (c : Console) (snapshot : ℤ → Option ℤ) (written : List ℤ) :
      s.phase c = .updating snapshot [] written →
      Effect R s { place := R.write c s.place written, phase := (s.setPhase c .answered).phase }

/-- Who has answered, and what the committed places are by then. -/
inductive History (R : Reordering) (s : State) : Prop where
  | untouched : (∀ c, s.phase c ≠ .answered) → s.place = R.place →
      (∀ c snapshot todo written, s.phase c = .updating snapshot todo written →
        snapshot = R.place) → History R s
  | once (c : Console) : s.phase c = .answered → s.phase c.other ≠ .answered →
      Agree R s.place (fun id => some (R.wanted c id)) →
      (∀ snapshot todo written, s.phase c.other = .updating snapshot todo written →
        snapshot = R.place ∨ snapshot = s.place) → History R s
  | twice (c : Console) : (∀ d, s.phase d = .answered) →
      (Agree R s.place (fun id => some (R.wanted c id)) ∨ Agree R s.place (R.overlay c)) →
      History R s

structure Inv (R : Reordering) (s : State) : Prop where
  progress : ∀ c snapshot todo written, s.phase c = .updating snapshot todo written →
    Progress R c snapshot s.place todo written
  history : History R s

section Runs

variable {R : Reordering} {s t : State} {e : Event} {c d : Console} {p : Phase}

@[simp] theorem setPhase_same (s : State) (c : Console) (p : Phase) :
    (s.setPhase c p).phase c = p := if_pos rfl

theorem setPhase_ne (h : d ≠ c) : (s.setPhase c p).phase d = s.phase d := if_neg h

theorem step_effect (h : R.next s e = some t) : Effect R s t := by
  cases e with
  | check c =>
    simp only [Reordering.next, accepts_posted, if_true] at h
    split at h
    · rename_i hp
      obtain rfl := Option.some.inj h
      exact .turn c _ (by simp [hp]) (by simp) (by simp)
    · cases h
  | start c =>
    simp only [Reordering.next] at h
    split at h
    · rename_i hp
      obtain rfl := Option.some.inj h
      exact .start c (by simp [hp])
    · cases h
  | process c id =>
    simp only [Reordering.next] at h
    split at h
    · rename_i snapshot todo written hp
      split at h
      · rename_i hfree
        obtain rfl := Option.some.inj h
        exact .process c id snapshot todo written hp hfree.1
      · cases h
    · cases h
  | commit c =>
    simp only [Reordering.next] at h
    split at h
    · rename_i snapshot written hp
      obtain rfl := Option.some.inj h
      exact .commit c snapshot written hp
    · cases h
  | abort c =>
    simp only [Reordering.next] at h
    split at h
    · rename_i hp
      obtain rfl := Option.some.inj h
      exact .turn c _ (by simp [hp]) (by simp) (by simp)
    · cases h

/-- A request that has not answered moves on, without answering. -/
theorem History.move (h : History R s) (hc : s.phase c ≠ .answered) (hp : p ≠ .answered)
    (hsnap : ∀ snapshot todo written, p = .updating snapshot todo written →
      snapshot = s.place ∨ ∃ todo' written', s.phase c = .updating snapshot todo' written') :
    History R (s.setPhase c p) := by
  cases h with
  | untouched hnone hplace hsnaps =>
    refine .untouched ?_ hplace ?_
    · intro d
      by_cases hd : d = c
      · subst hd
        simpa using hp
      · rw [setPhase_ne hd]
        exact hnone d
    · intro d snapshot todo written hphase
      by_cases hd : d = c
      · subst hd
        rw [setPhase_same] at hphase
        rcases hsnap _ _ _ hphase with hnow | ⟨todo', written', hold⟩
        · rw [hnow, hplace]
        · exact hsnaps _ _ _ _ hold
      · rw [setPhase_ne hd] at hphase
        exact hsnaps _ _ _ _ hphase
  | once d hd hother hagree hsnaps =>
    have hcd : c = d.other := by
      rcases eq_or_eq_other d c with rfl | h
      · exact absurd hd hc
      · exact h
    subst hcd
    refine .once d ?_ ?_ hagree ?_
    · rw [setPhase_ne (other_ne d).symm]
      exact hd
    · simpa using hp
    · intro snapshot todo written hphase
      rw [setPhase_same] at hphase
      rcases hsnap _ _ _ hphase with hnow | ⟨todo', written', hold⟩
      · exact Or.inr hnow
      · exact hsnaps _ _ _ hold
  | twice d hall hagree => exact absurd (hall c) hc

theorem agree_trans {f g k : ℤ → Option ℤ} (h : Agree R f g) (h' : Agree R g k) : Agree R f k :=
  fun id hid => (h id hid).trans (h' id hid)

/-- On the ids of the table, `after` only reads the committed places there. -/
theorem after_congr {snapshot f g : ℤ → Option ℤ} (h : Agree R f g) :
    Agree R (R.after c snapshot f) (R.after c snapshot g) := by
  intro id hid
  simp only [Reordering.after, h id hid]

theorem History.commit (hi : Inv R s) {snapshot : ℤ → Option ℤ} {written : List ℤ}
    (hp : s.phase c = .updating snapshot [] written) :
    History R { place := R.write c s.place written
                phase := (s.setPhase c .answered).phase } := by
  have hcommit := (hi.progress _ _ _ _ hp).commit
  cases hi.history with
  | untouched hnone hplace hsnaps =>
    refine .once c (setPhase_same _ _ _) ?_ ?_ ?_
    · change (s.setPhase c .answered).phase c.other ≠ .answered
      rw [setPhase_ne (other_ne c)]
      exact hnone _
    · rw [hsnaps _ _ _ _ hp, hplace, after_same] at hcommit
      rw [hplace]
      exact hcommit
    · intro snapshot' todo' written' hphase
      change (s.setPhase c .answered).phase c.other = _ at hphase
      rw [setPhase_ne (other_ne c)] at hphase
      exact Or.inl (hsnaps _ _ _ _ hphase)
  | once d hd hother hagree hsnaps =>
    have hcd : c = d.other := by
      rcases eq_or_eq_other d c with rfl | h
      · rw [hd] at hp
        cases hp
      · exact h
    subst hcd
    refine .twice d.other ?_ ?_
    · intro a
      change (s.setPhase d.other .answered).phase a = .answered
      rcases eq_or_eq_other d a with rfl | rfl
      · rw [setPhase_ne (other_ne a).symm]
        exact hd
      · simp
    · rcases hsnaps _ _ _ hp with rfl | rfl
      · right
        have hoverlay := agree_trans hcommit (after_congr hagree)
        rw [Reordering.overlay, other_other]
        exact hoverlay
      · left
        rw [after_same] at hcommit
        exact hcommit
  | twice d hall hagree =>
    rw [hall c] at hp
    cases hp

/-- The progress of every request but the one that moves. -/
theorem Inv.progress_setPhase (hi : Inv R s)
    (hp : ∀ snapshot todo written, p = .updating snapshot todo written →
      Progress R c snapshot s.place todo written) :
    ∀ d snapshot todo written, (s.setPhase c p).phase d = .updating snapshot todo written →
      Progress R d snapshot s.place todo written := by
  intro d snapshot todo written hphase
  by_cases hd : d = c
  · subst hd
    exact hp _ _ _ (by simpa using hphase)
  · rw [setPhase_ne hd] at hphase
    exact hi.progress _ _ _ _ hphase

theorem inv_initial (R : Reordering) : Inv R R.initial where
  progress _ _ _ _ h := by cases h
  history := .untouched (fun _ h => by cases h) rfl fun _ _ _ _ h => by cases h

theorem inv_step (hi : Inv R s) (st : StepOf R.next s e t) : Inv R t := by
  cases step_effect st with
  | turn c p hc hp hnot =>
    constructor
    · exact hi.progress_setPhase fun _ _ _ h => absurd h (hnot _ _ _)
    · exact hi.history.move hc hp fun _ _ _ h => absurd h (hnot _ _ _)
  | start c hc =>
    constructor
    · apply hi.progress_setPhase
      rintro _ _ _ h
      cases h
      exact progress_start R c s.place
    · apply hi.history.move hc (by simp)
      rintro _ _ _ h
      cases h
      exact Or.inl rfl
  | process c id snapshot todo written hp hid =>
    constructor
    · apply hi.progress_setPhase
      rintro _ _ _ h
      cases h
      exact (hi.progress _ _ _ _ hp).process hid
    · apply hi.history.move (by simp [hp]) (by simp)
      rintro _ _ _ h
      cases h
      exact Or.inr ⟨_, _, hp⟩
  | commit c snapshot written hp =>
    refine ⟨?_, History.commit hi hp⟩
    intro d snapshot' todo' written' hphase
    change (s.setPhase c .answered).phase d = _ at hphase
    by_cases hd : d = c
    · subst hd
      simp at hphase
    rw [setPhase_ne hd] at hphase
    have hprogress := hi.progress _ _ _ _ hphase
    -- before any commit the other request has passed over nothing but its snapshot's places
    have hsnap : snapshot' = s.place := by
      cases hi.history with
      | untouched _ hplace hsnaps => rw [hsnaps _ _ _ _ hphase, hplace]
      | once a ha _ _ _ =>
        rcases eq_or_eq_other a c with rfl | rfl
        · simp [ha] at hp
        · rcases eq_or_eq_other a d with rfl | rfl
          · simp [ha] at hphase
          · exact absurd rfl hd
      | twice a hall _ => simp [hall c] at hp
    constructor
    · exact hprogress.todo_chosen
    · exact hprogress.written_chosen
    · intro id hid htodo hwritten
      rcases hprogress.passed id hid htodo hwritten with h | h
      · exact Or.inl h
      · exact Or.inl (by rw [hsnap, h])

theorem inv_run (h : Execution (StepOf R.next) R.initial s) : Inv R s :=
  h.invariant (fun _ _ _ hi st => inv_step hi st) (inv_initial R)

/-- Once both have answered: one list, or one list over what it passed over. -/
theorem answered_places (h : Execution (StepOf R.next) R.initial s)
    (hall : ∀ c, s.phase c = .answered) :
    ∃ c, Agree R s.place (fun id => some (R.wanted c id)) ∨ Agree R s.place (R.overlay c) := by
  cases (inv_run h).history with
  | untouched hnone => exact absurd (hall .left) (hnone _)
  | once c _ hother => exact absurd (hall _) hother
  | twice c _ hagree => exact ⟨c, hagree⟩

/-- A statement that no other one holds up runs to its commit. -/
theorem finish {snapshot : ℤ → Option ℤ} {todo written : List ℤ}
    (hp : s.phase c = .updating snapshot todo written)
    (hprogress : Progress R c snapshot s.place todo written)
    (hfree : ∀ id, s.locked c.other id = false) :
    ∃ t, Execution (StepOf R.next) s t ∧ t.phase c = .answered ∧
      t.phase c.other = s.phase c.other ∧ Agree R t.place (R.after c snapshot s.place) := by
  induction todo generalizing s written with
  | nil =>
    have hstep : StepOf R.next s (.commit c)
        { place := R.write c s.place written, phase := (s.setPhase c .answered).phase } := by
      simp only [StepOf, Reordering.next, hp]
    exact ⟨_, .head hstep (.refl _), setPhase_same s c _, setPhase_ne (other_ne c),
      hprogress.commit⟩
  | cons id todo ih =>
    have hstep : StepOf R.next s (.process c id) (s.setPhase c (.updating snapshot todo
        (if s.place id = some (R.wanted c id) then written else id :: written))) := by
      simp [StepOf, Reordering.next, hp, hfree]
    have hnext := hprogress.process List.mem_cons_self
    rw [List.erase_cons_head] at hnext
    obtain ⟨t, hrun, hc, hother, hagree⟩ := ih (setPhase_same s c _) hnext (by
      intro x
      rw [State.locked, setPhase_ne (other_ne c)]
      exact hfree x)
    refine ⟨t, .head hstep hrun, hc, ?_, hagree⟩
    rw [hother, setPhase_ne (other_ne c)]

theorem unlocked_of_ne_updating (h : ∀ snapshot todo written,
    s.phase c = .updating snapshot todo written → written = []) (id : ℤ) :
    s.locked c id = false := by
  unfold State.locked
  split
  · rename_i written hp
    rw [h _ _ _ hp]
    rfl
  · rfl

/-- Both statements have started, and nothing is written yet. -/
theorem both_start (R : Reordering) :
    ∃ s, Execution (StepOf R.next) R.initial s ∧ s.place = R.place ∧
      ∀ c, s.phase c = .updating R.place (R.chosen c R.place) [] := by
  have hcheck : ∀ (s : State) (c : Console), s.phase c = .posted →
      StepOf R.next s (.check c) (s.setPhase c .checked) := by
    intro s c hp
    simp [StepOf, Reordering.next, hp, accepts_posted]
  have hstart : ∀ (s : State) (c : Console), s.phase c = .checked →
      StepOf R.next s (.start c)
        (s.setPhase c (.updating s.place (R.chosen c s.place) [])) := by
    intro s c hp
    simp [StepOf, Reordering.next, hp]
  refine ⟨_, .head (hcheck _ .left rfl) (.head (hcheck _ .right rfl) (.head (hstart _ .left rfl)
    (.head (hstart _ .right rfl) (.refl _)))), rfl, ?_⟩
  intro c
  cases c <;> rfl

/-- Both statements start before either commits; `last` commits last. -/
theorem overlay_reached (R : Reordering) (last : Console) :
    ∃ s, Execution (StepOf R.next) R.initial s ∧ (∀ c, s.phase c = .answered) ∧
      Agree R s.place (R.overlay last) := by
  obtain ⟨s, hrun, hplace, hphase⟩ := both_start R
  have hfirst := (inv_run hrun).progress _ _ _ _ (hphase last.other)
  obtain ⟨t, hrun', hanswered, hother, hagree⟩ := finish (hphase last.other) hfirst (by
    apply unlocked_of_ne_updating
    intro snapshot todo written h
    rw [hphase] at h
    cases h
    rfl)
  rw [other_other] at hother
  rw [hplace, after_same] at hagree
  have hphase' := hother.trans (hphase last)
  have hsecond := (inv_run (hrun.trans hrun')).progress _ _ _ _ hphase'
  obtain ⟨u, hrun'', hlast, hkept, hfinal⟩ := finish hphase' hsecond (by
    apply unlocked_of_ne_updating
    intro snapshot todo written h
    rw [hanswered] at h
    cases h)
  refine ⟨u, (hrun.trans hrun').trans hrun'', ?_, agree_trans hfinal (after_congr hagree)⟩
  intro d
  rcases eq_or_eq_other last d with rfl | rfl
  · exact hlast
  · exact hkept.trans hanswered

/-- Reordering twice at once ends in a posted order exactly when, whichever request commits
last, one of the two lists stays in order. -/
theorem serialisable_iff (R : Reordering) :
    R.Serialisable ↔ ∀ last, ∃ c, R.Ordered last c := by
  simp only [← overlay_order_iff]
  constructor
  · intro h last
    obtain ⟨s, hrun, hall, hagree⟩ := overlay_reached R last
    obtain ⟨c, hc⟩ := h s hrun hall
    exact ⟨c, (order_congr hagree).symm.trans hc⟩
  · intro h s hrun hall
    obtain ⟨c, hagree | hagree⟩ := answered_places hrun hall
    · exact ⟨c, (order_congr hagree).trans (order_wanted R c)⟩
    · obtain ⟨d, hd⟩ := h c
      exact ⟨d, (order_congr hagree).trans hd⟩

/-- Three rules shown as 3, 2, 1; one console posts 2, 3, 1 and the other 3, 1, 2. -/
def threeRules : Reordering where
  book :=
    { units := [⟨"LAB", true⟩]
      rules :=
        [⟨1, "LAB", .uri, .prefixMatch, "1", 100, true, some 3⟩,
          ⟨2, "LAB", .uri, .prefixMatch, "2", 100, true, some 2⟩,
          ⟨3, "LAB", .uri, .prefixMatch, "3", 100, true, some 1⟩]
      codes := by decide
      ids := by decide }
  posted
    | .left => [2, 3, 1]
    | .right => [3, 1, 2]
  whole := by
    intro c
    cases c <;> decide

theorem threeRules_third_order : ¬ ∀ R : Reordering, R.Serialisable := by
  intro h
  obtain ⟨s, hrun, hall, hagree⟩ := overlay_reached threeRules .right
  obtain ⟨c, hc⟩ := h threeRules s hrun hall
  have horder : threeRules.order (threeRules.overlay .right) = [1, 3, 2] := by decide +kernel
  rw [order_congr hagree, horder] at hc
  cases c <;> exact absurd hc (by decide)

end Runs

end OrgUnitReorder
