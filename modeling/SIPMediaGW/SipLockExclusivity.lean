import SIPMediaGW.SipInterleaving

/-! # Who may lock a gateway

A lock is a mark on the rows of one contact. It excludes other calls as long as an unlock only
reaches the rows of its own gateway, and a gateway has one row. -/
namespace SipLockExclusivity

open LabelledExecutions
open SipInterleaving
open SipLocation
open SqlStatements

section Exclusivity

variable (S : Server)

/-- A gateway that is returned is not held and not to stop, and an unlock leaves the rows of
other gateways as they were. -/
structure Safe (s : System) (e : Event) (t : System) : Prop where
  exclusive : ∀ contact, Returns S s e contact → contact.username ∉ s.held
  own : ∀ dstUser, e = .unlock dstUser →
    List.Forall₂ (fun r r' : Registration => r.username ≠ dstUser → r' = r)
      s.db.location t.db.location
  running : ∀ contact, Returns S s e contact →
    ∀ r ∈ s.db.location, r.username = contact.username → r.toStop = false

/-- The locked rows an unlock reaches are its gateway's, which is not to stop; a gateway
registers when it has no row and is not held; the rows under a contact are those of the gateway
it was read for. -/
def Fits (s : System) : Event → Prop
  | .unlock dstUser => ∀ r ∈ s.db.location, S.collation.likeAround dstUser r.contact = true →
      r.locked = true → r.username = dstUser ∧ r.toStop = false
  | .register username _ _ _ => (∀ r ∈ s.db.location, r.username ≠ username) ∧ username ∉ s.held
  | .lockUpdate i => ∀ first, s.trial i = some first → ∀ r ∈ s.db.location,
      lockable S.collation s.db first.contact first.username r = true →
      r.username = first.username
  | _ => True

/-- One row for each gateway, locked while the gateway is held. -/
structure Reserved (s : System) : Prop where
  single : (s.db.location.map Registration.username).Nodup
  held : ∀ r ∈ s.db.location, r.username ∈ s.held → r.locked = true

structure Consistent (s : System) : Prop extends Reserved s where
  stopped : ∀ r ∈ s.db.location, r.toStop = true → r.locked = true

end Exclusivity

section Steps

variable {S : Server} {s t : System} {e : Event} {r q : Registration}

theorem Reserved.eq_of_username (h : Reserved s) (hr : r ∈ s.db.location)
    (hq : q ∈ s.db.location) (hname : r.username = q.username) : r = q :=
  List.inj_on_of_nodup_map h.single hr hq hname

theorem single_effect (h : Reserved s) (hfits : Fits S s e) :
    ((s.effect S e).location.map Registration.username).Nodup := by
  rcases effect_location S s e with ⟨username, contact, socket, received, rfl, hloc⟩ |
    ⟨i, rfl, hloc⟩ | hloc
  · rw [hloc, List.map_append, List.map_singleton]
    refine List.nodup_append.mpr ⟨h.single, List.nodup_singleton _, ?_⟩
    rintro name hname fresh hfresh rfl
    obtain ⟨r, hr, hname⟩ := List.mem_map.mp hname
    rw [List.mem_singleton.mp hfresh] at hname
    exact hfits.1 r hr hname
  · rw [hloc]
    exact ((List.eraseIdx_sublist _ i).map _).nodup h.single
  · rw [hloc, List.map_map]
    have hname : Registration.username ∘ s.change S e = Registration.username :=
      funext fun r => change_username
    rw [hname]
    exact h.single

/-- A row keeps its lock but for an unlock that reaches it. -/
theorem locked_change (hlocked : r.locked = true)
    (hnot : ∀ dstUser, e = .unlock dstUser →
      S.collation.likeAround dstUser r.contact = false) :
    (s.change S e r).locked = true := by
  cases e with
  | lockUpdate i =>
    simp only [System.change]
    split
    · split
      · rfl
      · exact hlocked
    · exact hlocked
  | unlock dstUser =>
    simp only [System.change, hnot dstUser rfl]
    exact hlocked
  | scaleUpdate i =>
    simp only [System.change]
    split
    · split
      · rfl
      · exact hlocked
    · exact hlocked
  | _ => exact hlocked

theorem toStop_change (hstop : (s.change S e r).toStop = true) :
    r.toStop = true ∨ s.change S e r = stop r := by
  rcases change_eq S s e r with h | h | h | h
  · rw [h] at hstop
    exact .inl hstop
  · rw [h] at hstop
    exact .inl hstop
  · rw [h] at hstop
    exact .inl hstop
  · exact .inr h

theorem stopped_change (h : Consistent s) (hfits : Fits S s e) (hr : r ∈ s.db.location)
    (hstop : (s.change S e r).toStop = true) : (s.change S e r).locked = true := by
  rcases toStop_change hstop with hold | hnew
  · have hlocked := h.stopped r hr hold
    apply locked_change hlocked
    rintro dstUser rfl
    cases hlike : S.collation.likeAround dstUser r.contact with
    | false => rfl
    | true =>
      rw [(hfits r hr hlike hlocked).2] at hold
      cases hold
  · rw [hnew]
    rfl

/-- What a call returns is the gateway of a row it found unlocked. -/
theorem unlocked_of_returns {contact : Registration} (h : Returns S s e contact)
    (hfits : Fits S s e) :
    ∃ r ∈ s.db.location, r.username = contact.username ∧ r.locked = false ∧
      (s.change S e r).locked = true := by
  obtain ⟨i, rfl, htrial, htouched⟩ := h
  obtain ⟨r, hr, hlockable⟩ := List.countP_pos_iff.mp htouched
  refine ⟨r, hr, hfits contact htrial r hr hlockable, ?_, ?_⟩
  · simp only [lockable, Bool.and_eq_true, Bool.not_eq_true'] at hlockable
    exact hlockable.1.2
  · simp only [System.change, htrial, hlockable, if_true]
    rfl

theorem reserved_step (h : Reserved s) (hfits : Fits S s e) (hstep : Step S s e t) :
    Reserved t := by
  obtain ⟨-, rfl⟩ := hstep
  refine ⟨single_effect h hfits, ?_⟩
  intro r' hr' hheld
  rcases mem_holds hheld with ⟨hheld, hnot⟩ | ⟨contact, hreturns, hname⟩
  · rcases mem_effect hr' with ⟨username, contact, socket, received, rfl, rfl⟩ | ⟨r, hr, rfl⟩
    · exact absurd hheld hfits.2
    · rw [change_username] at hheld hnot
      have hlocked := h.held r hr hheld
      apply locked_change hlocked
      rintro dstUser rfl
      cases hlike : S.collation.likeAround dstUser r.contact with
      | false => rfl
      | true => exact absurd (congrArg Event.unlock (hfits r hr hlike hlocked).1.symm) hnot
  · obtain ⟨q, hq, hqname, -, hlocked⟩ := unlocked_of_returns hreturns hfits
    rcases mem_effect hr' with ⟨username, contact, socket, received, rfl, rfl⟩ | ⟨r, hr, rfl⟩
    · obtain ⟨i, hevent, -⟩ := hreturns
      cases hevent
    · rw [change_username, ← hqname] at hname
      rwa [h.eq_of_username hr hq hname]

theorem consistent_step (h : Consistent s) (hfits : Fits S s e) (hstep : Step S s e t) :
    Consistent t := by
  refine ⟨reserved_step h.toReserved hfits hstep, ?_⟩
  obtain ⟨-, rfl⟩ := hstep
  intro r' hr' hstop
  rcases mem_effect hr' with ⟨username, contact, socket, received, rfl, rfl⟩ | ⟨r, hr, rfl⟩
  · cases hstop
  · exact stopped_change h hfits hr hstop

theorem safe_step (h : Consistent s) (hfits : Fits S s e) (hstep : Step S s e t) :
    Safe S s e t := by
  obtain ⟨-, rfl⟩ := hstep
  constructor
  · intro contact hreturns hheld
    obtain ⟨r, hr, hname, hunlocked, -⟩ := unlocked_of_returns hreturns hfits
    rw [← hname] at hheld
    rw [h.held r hr hheld] at hunlocked
    cases hunlocked
  · rintro dstUser rfl
    apply List.forall₂_map_right_iff.mpr
    apply List.forall₂_same.mpr
    intro r hr hname
    change (if S.collation.likeAround dstUser r.contact then release r else r) = r
    split
    · rename_i hlike
      cases hlocked : r.locked with
      | true => exact absurd (hfits r hr hlike hlocked).1 hname
      | false =>
        rw [release, ← hlocked]
    · rfl
  · intro contact hreturns r hr hname
    obtain ⟨q, hq, hqname, hunlocked, -⟩ := unlocked_of_returns hreturns hfits
    obtain rfl := h.eq_of_username hr hq (hname.trans hqname.symm)
    cases hstop : r.toStop with
    | false => rfl
    | true =>
      rw [h.stopped r hr hstop] at hunlocked
      cases hunlocked

/-- From any tables in which a gateway has one row and those that are to stop are locked, in
every run whose steps fit, each step is safe. -/
theorem locks_exclusive (S : Server) (db : Database) (s t : System) (e : Event)
    (hsingle : (db.location.map Registration.username).Nodup)
    (hstopped : ∀ r ∈ db.location, r.toStop = true → r.locked = true)
    (hrun : Execution (Guarded (Fits S) (Step S)) (quiet db) s) (hfits : Fits S s e)
    (hstep : Step S s e t) : Safe S s e t := by
  have hquiet : Consistent (quiet db) :=
    ⟨⟨hsingle, fun _ _ h => by cases h⟩, hstopped⟩
  have hinv : Consistent s := hrun.guarded_invariant
    (fun _ _ _ h hfits hstep => consistent_step h hfits hstep) hquiet
  exact safe_step hinv hfits hstep

end Steps

section Runs

def server : Server := ⟨⟨Char.toLower⟩, "mediagw", "mediagw"⟩

def gateway (username address : String) : Registration where
  username := username
  contact := "sip:" ++ username ++ "@" ++ address
  socket := "udp:192.0.2.1:5060"
  received := some ("sip:" ++ address)
  locked := false
  toStop := false

def twoGateways : Database :=
  ⟨[gateway "mediagw.1" "10.0.0.1:5060", gateway "mediagw.10" "10.0.0.2:5060"], []⟩

theorem twoGateways_selects :
    Selects server.collation server.gwNamePart twoGateways twoGateways.location :=
  .inr ⟨candidates_nil (by decide), candidates_pair (by decide) (by decide)⟩

/-- Two workers read both gateways; the first one locks one, and the other tries the same. -/
def bothSelected : System :=
  [.lockSelect twoGateways.location, .lockSelect twoGateways.location, .lockUpdate 0,
    .lockUpdate 0].foldl (next server) (quiet twoGateways)

theorem fits_lockUpdate {S : Server} {s : System} {i : ℕ}
    (h : ∀ first ∈ s.trial i, ∀ r ∈ s.db.location,
      lockable S.collation s.db first.contact first.username r = true →
      r.username = first.username) : Fits S s (.lockUpdate i) :=
  fun first hfirst r hr hlockable => h first (Option.mem_def.mpr hfirst) r hr hlockable

theorem bothSelected_execution :
    Execution (Guarded (Fits server) (Step server)) (quiet twoGateways) bothSelected := by
  apply Execution.tail (e := .lockUpdate 0)
  · apply Execution.tail (e := .lockUpdate 0)
    · apply Execution.tail (e := .lockSelect twoGateways.location)
      · exact .tail (e := .lockSelect twoGateways.location) (.refl _)
          ⟨trivial, twoGateways_selects, rfl⟩
      · exact ⟨trivial, twoGateways_selects, rfl⟩
    · exact ⟨fits_lockUpdate (by decide), rfl, rfl⟩
  · exact ⟨fits_lockUpdate (by decide), rfl, rfl⟩

/-- The other worker then locks the gateway that is not held. -/
theorem two_workers_safe :
    bothSelected.held = ["mediagw.1"] ∧
    Returns server bothSelected (.lockUpdate 0) (gateway "mediagw.10" "10.0.0.2:5060") ∧
    Safe server bothSelected (.lockUpdate 0) (next server bothSelected (.lockUpdate 0)) := by
  refine ⟨by decide, ⟨0, rfl, by decide, by decide⟩, ?_⟩
  exact locks_exclusive server twoGateways bothSelected _ (.lockUpdate 0) (by decide) (by decide)
    bothSelected_execution (fits_lockUpdate (by decide)) ⟨rfl, rfl⟩

/-- The end of a failed call on `mediagw.1` unlocks `mediagw.10`. -/
theorem unlock_reaches_other_gateway :
    ¬ ∀ (S : Server) (db : Database) (s t : System) (e : Event),
      (db.location.map Registration.username).Nodup →
      (∀ r ∈ db.location, r.toStop = true → r.locked = true) →
      Execution (Step S) (quiet db) s → Step S s e t → Safe S s e t := by
  intro h
  have hsafe := h server ⟨[lock (gateway "mediagw.10" "10.0.0.2:5060")], []⟩ _ _
    (.unlock "mediagw.1") (by decide) (by decide) (.refl _) ⟨trivial, rfl⟩
  have hrows := hsafe.own "mediagw.1" rfl
  cases hrows with
  | cons hhead _ => exact absurd (hhead (by decide)) (by decide)

end Runs

end SipLockExclusivity
