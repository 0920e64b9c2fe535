import SIPMediaGW.SipInterleaving
import SIPMediaGW.SipLockExclusivity

/-! # When no gateway is returned

A call is hopeful while one of its remaining contacts can be locked. It then ends with a
gateway, unless other steps take what it has left. -/
namespace SipLockCompleteness

open LabelledExecutions
open SipInterleaving
open SipLocation
open SqlStatements

section Completeness

variable (S : Server)

/-- A call that returns nothing saw no available gateway, at its queries or at an instant
since. -/
structure Justified (s : System) (e : Event) : Prop where
  queries : e = .lockSelect [] → available S s.db = false
  updates : ∀ i call first, e = .lockUpdate i → s.locks[i]? = some call →
    call.contactList = [first] → s.touched S first = 0 → call.starved = true

def Hopeful (db : Database) (call : LockCall) : Prop :=
  ∃ contact ∈ call.contactList, ∃ r ∈ db.location,
    lockable S.collation db contact.contact contact.username r = true

/-- Where the queries return nothing, no available gateway has its name in the contact of a
call; and a step that takes what another call has left to try takes every available gateway,
unless that call saw an instant without one before. -/
structure Fits (s : System) (e : Event) : Prop where
  visible : e = .lockSelect [] → ∀ r ∈ s.db.location, availableRow S s.db r = true →
    inDialog S.collation s.db r.username = false
  others : ∀ j call, s.locks[j]? = some call → e ≠ .lockUpdate j → call.starved = false →
    Hopeful S s.db call → ¬ Hopeful S (s.effect S e) call →
    ∀ r ∈ s.left S e, availableRow S s.db r = false

/-- Every call in flight saw an instant without a gateway, or is hopeful. -/
def Served (s : System) : Prop :=
  ∀ call ∈ s.locks, call.starved = true ∨ Hopeful S s.db call

end Completeness

section Steps

variable {S : Server} {s t : System} {e : Event} {call : LockCall} {contactList : List Registration}

theorem mem_selects (h : Selects S.collation S.gwNamePart s.db contactList) {r : Registration}
    (hr : r ∈ contactList) : ∃ busy, r ∈ s.db.location ∧
      selectable S.collation S.gwNamePart s.db busy r = true := by
  have hcandidates : ∃ busy, Candidates S.collation S.gwNamePart s.db busy contactList := by
    rcases h with ⟨h, -⟩ | ⟨-, h⟩
    · exact ⟨true, h⟩
    · exact ⟨false, h⟩
  obtain ⟨busy, counts, hgroups, -, rfl⟩ := hcandidates
  obtain ⟨g, hg, rfl⟩ := List.mem_map.mp hr
  exact ⟨busy, List.mem_filter.mp (hgroups.member g hg)⟩

/-- Every contact of a selection can be locked at once. -/
theorem hopeful_of_selects (h : Selects S.collation S.gwNamePart s.db contactList)
    (hne : contactList ≠ []) (starved : Bool) : Hopeful S s.db ⟨contactList, starved⟩ := by
  obtain ⟨r, hr⟩ := List.exists_mem_of_ne_nil _ hne
  obtain ⟨busy, hmem, hselectable⟩ := mem_selects h hr
  refine ⟨r, hr, r, hmem, ?_⟩
  simp only [selectable, Bool.and_eq_true] at hselectable
  simp only [lockable, Collation.same, beq_self_eq_true, Bool.true_and, Bool.and_eq_true]
  exact hselectable.1.1

/-- An empty selection leaves only gateways that are locked or hidden. -/
theorem hidden_of_selects_nil (h : Selects S.collation S.gwNamePart s.db [])
    {r : Registration} (hr : r ∈ s.db.location) (havailable : availableRow S s.db r = true) :
    inDialog S.collation s.db r.username = true := by
  have hempty : ∀ busy, s.db.location.filter
      (selectable S.collation S.gwNamePart s.db busy) = [] := by
    have hnil : ∀ busy, Candidates S.collation S.gwNamePart s.db busy [] →
        s.db.location.filter (selectable S.collation S.gwNamePart s.db busy) = [] := by
      rintro busy ⟨counts, hgroups, -, hcounts⟩
      exact hgroups.eq_nil_iff.mp (List.map_eq_nil_iff.mp hcounts.symm)
    rcases h with ⟨-, hne⟩ | ⟨hbusy, hfree⟩
    · exact absurd rfl hne
    · intro busy
      cases busy with
      | true => exact hnil true hbusy
      | false => exact hnil false hfree
  by_contra hvisible
  rw [Bool.not_eq_true] at hvisible
  simp only [availableRow, Bool.and_eq_true] at havailable
  have hmem : r ∈ s.db.location.filter
      (selectable S.collation S.gwNamePart s.db (hasCall S.collation s.db r.vm)) := by
    refine List.mem_filter.mpr ⟨hr, ?_⟩
    simp only [selectable, hvisible, havailable.1.1, havailable.1.2, beq_self_eq_true,
      Bool.not_false, Bool.and_self]
  rw [hempty] at hmem
  cases hmem

/-- A trial that touches no row changes nothing. -/
theorem effect_of_untouched {i : ℕ} {first : Registration} (htrial : s.trial i = some first)
    (h : s.touched S first = 0) : s.effect S (.lockUpdate i) = s.db := by
  simp only [System.effect, htrial, Database.lockContact]
  rw [updateWhere_of_countP_eq_zero h]

theorem lockable_of_change {c : Collation} {db db' : Database} {contact username : String}
    {r r' : Registration} (h : lockable c db contact username r = true)
    (hcontact : r'.contact = r.contact) (hlocked : r'.locked = r.locked ∨ r'.locked = false)
    (hdialog : inDialog c db username = false → inDialog c db' username = false) :
    lockable c db' contact username r' = true := by
  simp only [lockable, Bool.and_eq_true, Bool.not_eq_true'] at h ⊢
  refine ⟨⟨?_, ?_⟩, hdialog h.2⟩
  · rw [hcontact]
    exact h.1.1
  · rcases hlocked with hsame | hfree
    · exact hsame.trans h.1.2
    · exact hfree

theorem inDialog_eraseIdx {c : Collation} {db : Database} {username : String} (i : ℕ)
    (h : inDialog c db username = false) :
    inDialog c { db with dialog := db.dialog.eraseIdx i } username = false := by
  rw [inDialog, List.any_eq_false] at h ⊢
  exact fun d hd => h d (List.mem_of_mem_eraseIdx hd)

/-- An update that locks rows has left alone what is available after it. -/
theorem available_of_locks {p : Registration → Bool} {f : Registration → Registration}
    {found : Registration} (hlocks : ∀ r, (f r).locked = true)
    (hmem : found ∈ updateWhere p f s.db.location) (havailable : availableRow S s.db found = true) :
    ∃ r ∈ s.db.location.filter fun r => !p r, availableRow S s.db r = true := by
  obtain ⟨before, hbefore, rfl⟩ := List.mem_map.mp hmem
  by_cases hp : p before = true
  · simp [hp, availableRow, hlocks] at havailable
  · rw [if_neg hp] at havailable
    exact ⟨before, List.mem_filter.mpr ⟨hbefore, by simpa using hp⟩, havailable⟩

/-- Only a lock, a call, the end of a registration or a stop takes what a call can still try;
what is available after it was available, and is left. -/
theorem available_left (hhope : Hopeful S s.db call) (hlost : ¬ Hopeful S (s.effect S e) call)
    (h : available S (s.effect S e) = true) :
    ∃ r ∈ s.left S e, availableRow S s.db r = true := by
  obtain ⟨contact, hcontact, r, hr, hlockable⟩ := hhope
  obtain ⟨found, hfound, havailable⟩ := List.any_eq_true.mp h
  cases e with
  | lockUpdate i =>
    cases htrial : s.trial i with
    | none =>
      simp only [System.effect, htrial] at hlost
      exact absurd ⟨contact, hcontact, r, hr, hlockable⟩ hlost
    | some first =>
      simp only [System.effect, htrial] at hfound havailable
      simp only [System.left, htrial]
      exact available_of_locks (fun _ => rfl) hfound havailable
  | scaleUpdate i =>
    cases hturn : s.turn i with
    | none =>
      simp only [System.effect, hturn] at hlost
      exact absurd ⟨contact, hcontact, r, hr, hlockable⟩ hlost
    | some turn =>
      obtain ⟨run, g⟩ := turn
      by_cases hcommits : s.commits S run g
      · simp only [System.effect, hturn, if_pos hcommits] at hfound havailable
        simp only [System.left, hturn, if_pos hcommits]
        exact available_of_locks (fun _ => rfl) hfound havailable
      · simp only [System.effect, hturn, if_neg hcommits] at hlost
        exact absurd ⟨contact, hcontact, r, hr, hlockable⟩ hlost
  | dialogStart d =>
    simp only [System.effect, availableRow, List.any_append, List.any_cons, List.any_nil,
      Bool.or_false, Bool.not_or, Bool.and_eq_true] at havailable
    refine ⟨found, List.mem_filter.mpr ⟨hfound, ?_⟩, ?_⟩
    · simpa [bne] using havailable.2.2
    · simp only [availableRow, Bool.and_eq_true]
      exact ⟨havailable.1, havailable.2.1⟩
  | unregister i => exact ⟨found, hfound, havailable⟩
  | unlock dstUser =>
    refine absurd ⟨contact, hcontact, _, List.mem_map_of_mem hr, ?_⟩ hlost
    refine lockable_of_change hlockable ?_ ?_ id
    · split <;> rfl
    · split
      · exact .inr rfl
      · exact .inl rfl
  | dialogEnd i =>
    exact absurd ⟨contact, hcontact, r, hr,
      lockable_of_change hlockable rfl (.inl rfl) (inDialog_eraseIdx i)⟩ hlost
  | register username contact' socket received =>
    exact absurd ⟨contact, hcontact, r, List.mem_append_left _ hr,
      lockable_of_change hlockable rfl (.inl rfl) id⟩ hlost
  | _ => exact absurd ⟨contact, hcontact, r, hr, hlockable⟩ hlost

theorem observe_starved (db : Database) (h : call.starved = true ∨ available S db = false) :
    (call.observe S db).starved = true := by
  rcases h with h | h
  · rw [LockCall.observe, h, Bool.true_or]
  · rw [LockCall.observe, h, Bool.not_false, Bool.or_true]

theorem served_step (h : Served S s) (hfits : Fits S s e) (hstep : Step S s e t) :
    Served S t := by
  obtain ⟨henabled, rfl⟩ := hstep
  intro seen hseen
  obtain ⟨call, hcall, rfl⟩ := List.mem_map.mp hseen
  rcases mem_calls henabled hcall with ⟨contactList, rfl, hne, rfl⟩ | ⟨j, hj, hother⟩ |
    ⟨i, first, rest, starved, rfl, hi, huntouched, rfl⟩
  · exact .inr (hopeful_of_selects henabled hne _)
  · rcases h call (List.mem_of_getElem? hj) with hstarved | hhope
    · exact .inl (observe_starved _ (.inl hstarved))
    · by_cases hstarved : call.starved = true
      · exact .inl (observe_starved _ (.inl hstarved))
      by_cases hafter : Hopeful S (s.effect S e) call
      · exact .inr hafter
      refine .inl (observe_starved _ (.inr ?_))
      by_contra hsome
      obtain ⟨r, hr, havailable⟩ :=
        available_left hhope hafter (Bool.not_eq_false _ ▸ hsome)
      have htaken := hfits.others j call hj hother (Bool.eq_false_iff.mpr hstarved) hhope hafter
      rw [htaken r hr] at havailable
      cases havailable
  · rcases h _ (List.mem_of_getElem? hi) with hstarved | ⟨contact, hcontact, r, hr, hlockable⟩
    · exact .inl (observe_starved _ (.inl hstarved))
    · have hdb := effect_of_untouched (trial_eq_some.mpr ⟨rest, starved, hi⟩) huntouched
      rcases List.mem_cons.mp hcontact with rfl | hcontact
      · exact absurd hlockable (List.countP_eq_zero.mp huntouched r hr)
      · refine .inr ?_
        change Hopeful S (s.effect S (.lockUpdate i)) ⟨rest, starved⟩
        rw [hdb]
        exact ⟨contact, hcontact, r, hr, hlockable⟩

theorem justified_step (h : Served S s) (hfits : Fits S s e) (henabled : Enabled S s e) :
    Justified S s e := by
  constructor
  · rintro rfl
    rw [available, List.any_eq_false]
    intro r hr havailable
    have hhidden := hidden_of_selects_nil henabled hr havailable
    rw [hfits.visible rfl r hr havailable] at hhidden
    cases hhidden
  · rintro i call first rfl hcall hlast huntouched
    rcases h call (List.mem_of_getElem? hcall) with hstarved | ⟨contact, hcontact, r, hr, hlockable⟩
    · exact hstarved
    · rw [hlast] at hcontact
      obtain rfl := List.mem_singleton.mp hcontact
      exact absurd hlockable (List.countP_eq_zero.mp huntouched r hr)

end Steps

section Runs

open SipLockExclusivity

end Runs

end SipLockCompleteness
