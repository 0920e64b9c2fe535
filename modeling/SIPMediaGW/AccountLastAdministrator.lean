import SIPMediaGW.AccountConsole

/-! # The last enabled administrator

The check counts administrators and the write changes one row. What the check found still
holds at the write unless another write took an administrator's rights in between. -/
namespace AccountLastAdministrator

open AccountTable
open AccountConsole
open LabelledExecutions

def ActiveAdmin (t : UserTable) (name : String) : Prop :=
  ∃ a, t.getUser name = some a ∧ a.activeAdmin = true

def HasAdmin (t : UserTable) : Prop := ∃ name, ActiveAdmin t name

def OtherAdmin (t : UserTable) (name : String) : Prop :=
  ∃ other, other ≠ name ∧ ActiveAdmin t other

def KeepsAdmins (t t' : UserTable) : Prop := ∀ name, ActiveAdmin t name → ActiveAdmin t' name

section Counting

variable {t : UserTable} {name : String}

theorem activeAdmin_of_mem {a : Account} (h : a ∈ t.rows) (ha : a.activeAdmin = true) :
    ActiveAdmin t a.username := ⟨a, getUser_of_mem h, ha⟩

/-- Names are unique, so two administrators counted are two names. -/
theorem otherAdmin_of_count (h : 2 ≤ t.countActiveAdmins) (name : String) :
    OtherAdmin t name := by
  by_contra hnone
  have hsame : ∀ a ∈ t.rows.filter Account.activeAdmin, a.username = name := by
    intro a ha
    obtain ⟨hmem, hactive⟩ := List.mem_filter.mp ha
    by_contra hne
    exact hnone ⟨a.username, hne, activeAdmin_of_mem hmem hactive⟩
  have hnodup : ((t.rows.filter Account.activeAdmin).map Account.username).Nodup :=
    (List.filter_sublist.map Account.username).nodup t.unique
  have hrep : (t.rows.filter Account.activeAdmin).map Account.username =
      List.replicate (t.rows.filter Account.activeAdmin).length name := by
    rw [← List.length_map (f := Account.username)]
    apply List.eq_replicate_of_mem
    intro x hx
    obtain ⟨a, ha, rfl⟩ := List.mem_map.mp hx
    exact hsame a ha
  rw [hrep, List.nodup_replicate] at hnodup
  rw [UserTable.countActiveAdmins, List.countP_eq_length_filter] at h
  omega

theorem count_of_otherAdmin (h : ActiveAdmin t name) (ho : OtherAdmin t name) :
    2 ≤ t.countActiveAdmins := by
  obtain ⟨a, ha, hactive⟩ := h
  obtain ⟨other, hne, b, hb, hbactive⟩ := ho
  have hma := List.mem_filter.mpr ⟨mem_of_getUser ha, hactive⟩
  have hmb := List.mem_filter.mpr ⟨mem_of_getUser hb, hbactive⟩
  rw [UserTable.countActiveAdmins, List.countP_eq_length_filter]
  by_contra hlt
  have hle : (t.rows.filter Account.activeAdmin).length ≤ 1 := by omega
  have hab : b = a := by
    obtain ⟨i, hi, rfl⟩ := List.getElem_of_mem hma
    obtain ⟨j, hj, rfl⟩ := List.getElem_of_mem hmb
    have : i = j := by omega
    subst this
    rfl
  apply hne
  rw [← username_of_getUser hb, hab, username_of_getUser ha]

theorem otherAdmin_or_active {a : Account} (h : HasAdmin t) (found : t.getUser name = some a) :
    a.activeAdmin = true ∨ OtherAdmin t a.username := by
  obtain ⟨other, b, hb, hbactive⟩ := h
  by_cases hother : other = a.username
  · rw [hother, username_of_getUser found, found] at hb
    obtain rfl := Option.some.inj hb
    exact .inl hbactive
  · exact .inr ⟨other, hother, b, hb, hbactive⟩

end Counting

theorem KeepsAdmins.hasAdmin {t t' : UserTable} (h : KeepsAdmins t t') (ht : HasAdmin t) :
    HasAdmin t' := by
  obtain ⟨name, hname⟩ := ht
  exact ⟨name, h name hname⟩

theorem KeepsAdmins.otherAdmin {t t' : UserTable} {name : String} (h : KeepsAdmins t t')
    (ht : OtherAdmin t name) : OtherAdmin t' name := by
  obtain ⟨other, hne, hother⟩ := ht
  exact ⟨other, hne, h other hother⟩

theorem keepsAdmins_updateWhere {t : UserTable} {name : String} {set : Account → Account}
    (keepsName : ∀ a, (set a).username = a.username)
    (h : ∀ a, t.getUser name = some a → a.activeAdmin = true → (set a).activeAdmin = true) :
    KeepsAdmins t (t.updateWhere name set keepsName) := by
  intro other hother
  obtain ⟨a, ha, hactive⟩ := hother
  by_cases hname : other = name
  · subst hname
    refine ⟨set a, ?_, h a ha hactive⟩
    rw [getUser_updateWhere, if_pos rfl, ha, Option.map_some]
  · refine ⟨a, ?_, hactive⟩
    rwa [getUser_updateWhere, if_neg hname]

theorem keepsAdmins_insert {t t' : UserTable} {a : Account} (h : t.insert a = some t') :
    KeepsAdmins t t' := by
  intro other hother
  obtain ⟨b, hb, hactive⟩ := hother
  refine ⟨b, ?_, hactive⟩
  rw [getUser_insert h, if_neg, hb]
  rintro rfl
  rw [(insert_eq_some h).1] at hb
  cases hb

theorem keepsAdmins_setPassword (db : Database) (name hash : String) (mustChange : Bool)
    (line : Option AuditLine) :
    KeepsAdmins db.users (setPassword db name hash mustChange line).1.users :=
  keepsAdmins_updateWhere (withPassword_username hash mustChange) fun _ _ hactive => hactive

theorem keepsAdmins_bumpEpoch (db : Database) (name : String) :
    KeepsAdmins db.users (bumpEpoch db name).users :=
  keepsAdmins_updateWhere withBumpedEpoch_username fun _ _ hactive => hactive

theorem keepsAdmins_createUser {db db' : Database} {username createdBy : String} {role : Role}
    {source : Source} {hash externalId firstName lastName : Option String} {mustChange : Bool}
    {line : Option AuditLine} (h : createUser db username role source hash createdBy mustChange
      externalId firstName lastName line = some db') : KeepsAdmins db.users db'.users := by
  obtain ⟨t, inserted, rfl⟩ := Option.map_eq_some_iff.mp h
  exact keepsAdmins_insert inserted

/-- The bootstrap only writes to an empty table. -/
theorem ensureBootstrap_eq {db : Database} (h : HasAdmin db.users) (defaultHash : String) :
    ensureBootstrap db defaultHash = db := by
  obtain ⟨name, a, ha, -⟩ := h
  have hpos : db.users.countUsers ≠ 0 :=
    (List.length_pos_of_mem (mem_of_getUser ha)).ne'
  rw [ensureBootstrap, if_pos hpos]

/-- What a request that has read its target knows about the other administrators. -/
def Safe (t : UserTable) : Flight → Prop
  | .putFound _ _ a => a.activeAdmin = true ∨ OtherAdmin t a.username
  | .putRoleChecked _ _ a _ role =>
    (a.activeAdmin = true ∨ OtherAdmin t a.username) ∧
      (role = some .operator → OtherAdmin t a.username)
  | .putChecked _ a fields =>
    fields.role = some .operator ∨ fields.enabled = some false → OtherAdmin t a.username
  | .deleteFound _ a => a.activeAdmin = true ∨ OtherAdmin t a.username
  | .deleteChecked _ a => OtherAdmin t a.username
  | _ => True

structure Invariant (s : System) : Prop where
  someAdmin : HasAdmin s.db.users
  upToDate : ∀ f ∈ s.flights, f.stale = false → Safe s.db.users f.flight

theorem safe_of_unread {t : UserTable} {f : Flight} (h : f.hasRead = false) : Safe t f := by
  cases f <;> first | exact trivial | cases h

theorem Safe.mono {t t' : UserTable} (h : KeepsAdmins t t') {f : Flight} (hf : Safe t f) :
    Safe t' f := by
  cases f with
  | putFound => exact hf.imp_right h.otherAdmin
  | putRoleChecked => exact ⟨hf.1.imp_right h.otherAdmin, fun hr => h.otherAdmin (hf.2 hr)⟩
  | putChecked => exact fun hw => h.otherAdmin (hf hw)
  | deleteFound => exact hf.imp_right h.otherAdmin
  | deleteChecked => exact h.otherAdmin hf
  | _ => trivial

/-- A check that lets an enabled administrator go has counted another one. -/
theorem otherAdmin_of_spared {t : UserTable} {a : Account} (h : lastAdmin t a = false)
    (ha : a.activeAdmin = true ∨ OtherAdmin t a.username) : OtherAdmin t a.username := by
  rcases ha with hactive | hother
  · apply otherAdmin_of_count
    simp only [lastAdmin, hactive, Bool.true_and, decide_eq_false_iff_not] at h
    omega
  · exact hother

theorem role_of_roleChange {t : UserTable} {user : String} {a : Account} {patch : UserPatch}
    {role : Role} (h : roleChange t user a patch = .ok (some role)) : lastAdmin t a = false := by
  rw [roleChange] at h
  split at h
  · cases h
  · split at h
    · cases h
    · split at h
      · cases h
      · split at h
        · cases h
        · split at h
          · cases h
          · rename_i spared
            simpa using spared

theorem enabled_of_enabledChange {t : UserTable} {user : String} {a : Account}
    {patch : UserPatch} (h : enabledChange t user a patch = .ok (some false)) :
    lastAdmin t a = false := by
  rw [enabledChange] at h
  split at h
  · cases h
  · split at h
    · cases h
    · split at h
      · cases h
      · split at h
        · cases h
        · split at h
          · cases h
          · rename_i spared
            simpa using spared

/-- Each statement hands on what the next one needs. -/
theorem safe_next {db : Database} {f g : Flight} {done : Advance} (st : Statement db f done)
    (hnext : done.next = some g) (ht : HasAdmin db.users) (hf : Safe db.users f) :
    Safe db.users g := by
  cases st with
  | newUserChecked =>
    obtain rfl := Option.some.inj hnext
    trivial
  | putFound user name patch a found =>
    obtain rfl := Option.some.inj hnext
    exact otherAdmin_or_active ht found
  | roleChecked user patch a name role allowed =>
    obtain rfl := Option.some.inj hnext
    refine ⟨hf, ?_⟩
    intro hrole
    subst hrole
    exact otherAdmin_of_spared (role_of_roleChange allowed) hf
  | stateChecked user patch a name role enabled allowed =>
    obtain rfl := Option.some.inj hnext
    rintro (hrole | henabled)
    · exact hf.2 hrole
    · dsimp only at henabled
      subst henabled
      exact otherAdmin_of_spared (enabled_of_enabledChange allowed) hf.1
  | resetFound =>
    obtain rfl := Option.some.inj hnext
    trivial
  | deleteFound user name a found =>
    obtain rfl := Option.some.inj hnext
    exact otherAdmin_or_active ht found
  | deleteAllowed user a spared =>
    obtain rfl := Option.some.inj hnext
    exact otherAdmin_of_spared spared hf
  | _ => cases hnext

/-- A statement that takes no administrator's rights keeps them all. -/
theorem keepsAdmins_statement {db : Database} {f : Flight} {done : Advance}
    (st : Statement db f done) (h : f.takesRights db.users = false) :
    KeepsAdmins db.users done.db.users := by
  cases st with
  | passwordChanged => exact keepsAdmins_setPassword _ _ _ _ _
  | created _ _ _ _ inserted => exact keepsAdmins_createUser inserted
  | updated user a fields =>
    simp only [updateChecked, updateAccount]
    split
    · exact fun _ hname => hname
    · apply keepsAdmins_updateWhere (withFields_username fields)
      intro b hb hactive
      simpa [Flight.takesRights, hb, hactive] using h
  | passwordReset => exact keepsAdmins_setPassword _ _ _ _ _
  | deleted user a =>
    intro name hname
    obtain ⟨b, hb, hactive⟩ := hname
    refine ⟨b, ?_, hactive⟩
    simp only [deleteWritten, deleteUser, write, getUser_deleteWhere]
    rw [if_neg, hb]
    rintro rfl
    simp [Flight.takesRights, hb, hactive] at h
  | _ => exact fun _ hname => hname

/-- `t'` is `t` after a write that left `name` without an administrator's rights. -/
structure TakenFrom (name : String) (t t' : UserTable) : Prop where
  was : ActiveAdmin t name
  gone : ¬ ActiveAdmin t' name
  others : ∀ other, other ≠ name → t'.getUser other = t.getUser other

theorem TakenFrom.hasAdmin_iff {name : String} {t t' : UserTable} (h : TakenFrom name t t') :
    HasAdmin t' ↔ 2 ≤ t.countActiveAdmins := by
  constructor
  · rintro ⟨other, hother⟩
    have hne : other ≠ name := by
      rintro rfl
      exact h.gone hother
    rw [ActiveAdmin, h.others other hne] at hother
    exact count_of_otherAdmin h.was ⟨other, hne, hother⟩
  · intro hcount
    obtain ⟨other, hne, hother⟩ := otherAdmin_of_count hcount name
    refine ⟨other, ?_⟩
    rwa [ActiveAdmin, h.others other hne]

theorem takenFrom_updated {db : Database} {a b : Account} {fields : Fields}
    {line : Option AuditLine} (hb : db.users.getUser a.username = some b)
    (hactive : b.activeAdmin = true) (htaken : (withFields fields b).activeAdmin = false) :
    TakenFrom a.username db.users (updateAccount db a.username fields line).1.users := by
  have hgives : fields.isEmpty = false := by
    by_contra hempty
    simp only [Fields.isEmpty, Bool.not_eq_false, Bool.and_eq_true, Option.isNone_iff_eq_none]
      at hempty
    have hsame : (withFields fields b).activeAdmin = b.activeAdmin := by
      simp [withFields, Account.activeAdmin, hempty]
    rw [hsame, hactive] at htaken
    cases htaken
  refine ⟨⟨b, hb, hactive⟩, ?_, ?_⟩
  · rintro ⟨c, hc, hcactive⟩
    simp only [updateAccount, hgives, Bool.false_eq_true, if_false, write,
      getUser_updateWhere, if_pos, hb, Option.map_some, Option.some.injEq] at hc
    subst hc
    rw [htaken] at hcactive
    cases hcactive
  · intro other hne
    simp [updateAccount, hgives, write, getUser_updateWhere, hne]

theorem takenFrom_deleted {db : Database} {name : String} {line : Option AuditLine}
    (h : ActiveAdmin db.users name) :
    TakenFrom name db.users (deleteUser db name line).1.users := by
  refine ⟨h, ?_, ?_⟩
  · rintro ⟨c, hc, -⟩
    simp [deleteUser, write, getUser_deleteWhere] at hc
  · intro other hne
    simp [deleteUser, write, getUser_deleteWhere, hne]

theorem takenFrom_statement {db : Database} {f : Flight} {done : Advance}
    (st : Statement db f done) (h : f.takesRights db.users = true) :
    ∃ name, TakenFrom name db.users done.db.users := by
  cases st with
  | updated user a fields =>
    obtain ⟨b, hb, htaken⟩ := (Option.any_eq_true _ _).mp h
    simp only [Bool.and_eq_true, Bool.not_eq_true'] at htaken
    exact ⟨_, takenFrom_updated hb htaken.1 htaken.2⟩
  | deleted user a =>
    obtain ⟨b, hb, hactive⟩ := (Option.any_eq_true _ _).mp h
    exact ⟨_, takenFrom_deleted ⟨b, hb, hactive⟩⟩
  | _ => cases h

theorem activeAdmin_withFields {a : Account} {fields : Fields} (h : a.activeAdmin = true)
    (hrole : fields.role ≠ some .operator) (henabled : fields.enabled ≠ some false) :
    (withFields fields a).activeAdmin = true := by
  simp only [Account.activeAdmin, Bool.and_eq_true, beq_iff_eq] at h ⊢
  constructor
  · rcases hfr : fields.role with _ | role
    · simp [withFields, hfr, h.1]
    · cases role
      · simp [withFields, hfr]
      · exact absurd hfr hrole
  · rcases hfe : fields.enabled with _ | enabled
    · simp [withFields, hfe, h.2]
    · cases enabled
      · exact absurd hfe henabled
      · simp [withFields, hfe]

/-- A request that is up to date and takes rights knows of another administrator. -/
theorem count_of_safe {t : UserTable} {f : Flight} (hf : Safe t f)
    (h : f.takesRights t = true) : 2 ≤ t.countActiveAdmins := by
  cases f with
  | putChecked user a fields =>
    obtain ⟨b, hb, htaken⟩ := (Option.any_eq_true _ _).mp h
    simp only [Bool.and_eq_true, Bool.not_eq_true'] at htaken
    refine count_of_otherAdmin ⟨b, hb, htaken.1⟩ (hf ?_)
    by_contra hnone
    obtain ⟨hrole, henabled⟩ := not_or.mp hnone
    rw [activeAdmin_withFields htaken.1 hrole henabled] at htaken
    cases htaken.2
  | deleteChecked user a =>
    obtain ⟨b, hb, hactive⟩ := (Option.any_eq_true _ _).mp h
    exact count_of_otherAdmin ⟨b, hb, hactive⟩ hf
  | _ => cases h

/-- The condition on a step: a write that takes an administrator's rights is not preceded,
since its request read the account, by another one that does, or it finds at least two. -/
def checkedAtWrite (s : System) : Event → Bool
  | .advance i => (s.flights[i]?).all fun f =>
      ! f.flight.takesRights s.db.users || ! f.stale ||
        decide (2 ≤ s.db.users.countActiveAdmins)
  | _ => true

theorem count_of_checkedAtWrite {s : System} {i : ℕ} {f : InFlight} (hs : Invariant s)
    (hp : checkedAtWrite s (.advance i) = true) (hi : s.flights[i]? = some f)
    (h : f.flight.takesRights s.db.users = true) : 2 ≤ s.db.users.countActiveAdmins := by
  simp only [checkedAtWrite, hi, Option.all_some, h, Bool.not_true, Bool.false_or,
    Bool.or_eq_true, Bool.not_eq_true', decide_eq_true_eq] at hp
  rcases hp with hfresh | hcount
  · exact count_of_safe (hs.upToDate f (List.mem_of_getElem? hi) hfresh) h
  · exact hcount

theorem Invariant.frame {s t : System} (hs : Invariant s)
    (hk : KeepsAdmins s.db.users t.db.users) (hf : t.flights = s.flights) : Invariant t :=
  ⟨hk.hasAdmin hs.someAdmin, fun f hmem hfresh =>
    (hs.upToDate f (hf ▸ hmem) hfresh).mono hk⟩

theorem mem_completed {s : System} {i : ℕ} {f g : InFlight} {done : Advance}
    (h : g ∈ (completed s i f done).flights) :
    (∃ k ∈ s.flights, g = if f.flight.takesRights s.db.users then markStale k else k) ∨
      ∃ n, done.next = some n ∧ g = ⟨n, f.stale⟩ := by
  rcases List.mem_append.mp h with hold | hnew
  · left
    split at hold
    · obtain ⟨k, hk, rfl⟩ := List.mem_map.mp hold
      exact ⟨k, List.mem_of_mem_eraseIdx hk, by simp [*]⟩
    · exact ⟨g, List.mem_of_mem_eraseIdx hold, by simp [*]⟩
  · right
    cases hn : done.next with
    | none => simp [hn] at hnew
    | some n => exact ⟨n, rfl, by simpa [hn] using hnew⟩

theorem next_of_takesRights {db : Database} {f : Flight} {done : Advance}
    (st : Statement db f done) (h : f.takesRights db.users = true) : done.next = none := by
  cases st with
  | updated => rfl
  | deleted => rfl
  | _ => cases h

theorem advance_of_takesRights (cfg : Config) {db : Database} {f : Flight}
    (h : f.takesRights db.users = true) : ∃ done, advance cfg db f = .ok done := by
  cases f with
  | putChecked => exact ⟨_, rfl⟩
  | deleteChecked => exact ⟨_, rfl⟩
  | _ => cases h

theorem unread_of_markStale {f : InFlight} (h : (markStale f).stale = false) :
    f.flight.hasRead = false := (Bool.or_eq_false_iff.mp h).2

theorem invariant_advanced {s : System} {i : ℕ} {f : InFlight} {done : Advance}
    (hs : Invariant s) (hp : checkedAtWrite s (.advance i) = true)
    (inFlight : s.flights[i]? = some f) (st : Statement s.db f.flight done) :
    Invariant (completed s i f done) := by
  by_cases htakes : f.flight.takesRights s.db.users = true
  · obtain ⟨name, htaken⟩ := takenFrom_statement st htakes
    refine ⟨htaken.hasAdmin_iff.mpr (count_of_checkedAtWrite hs hp inFlight htakes),
      fun g hmem hfresh => ?_⟩
    -- the requests still up to date have not read their target yet
    rcases mem_completed hmem with ⟨k, -, rfl⟩ | ⟨n, hn, -⟩
    · rw [if_pos htakes] at hfresh ⊢
      exact safe_of_unread (unread_of_markStale (f := k) hfresh)
    · rw [next_of_takesRights st htakes] at hn
      cases hn
  · have hk := keepsAdmins_statement st (Bool.not_eq_true _ ▸ htakes)
    refine ⟨hk.hasAdmin hs.someAdmin, ?_⟩
    intro g hmem hfresh
    rcases mem_completed hmem with ⟨k, hold, rfl⟩ | ⟨n, hn, rfl⟩
    · rw [if_neg htakes] at hfresh ⊢
      exact (hs.upToDate k hold hfresh).mono hk
    · have hf := hs.upToDate f (List.mem_of_getElem? inFlight) hfresh
      exact (safe_next st hn hs.someAdmin hf).mono hk

theorem invariant_step {cfg : Config} {s t : System} {e : Event} (hs : Invariant s)
    (hp : checkedAtWrite s e = true) (h : Step cfg s e t) : Invariant t := by
  cases step_effect h with
  | ticked => exact hs.frame (fun _ hname => hname) rfl
  | bootstrapped defaultHash =>
    refine hs.frame ?_ rfl
    rw [ensureBootstrap_eq hs.someAdmin]
    exact fun _ hname => hname
  | signedIn => exact hs.frame (fun _ hname => hname) rfl
  | opened => exact hs.frame (fun _ hname => hname) rfl
  | signedOut k c => exact hs.frame (keepsAdmins_bumpEpoch _ _) rfl
  | admitted k r f unread =>
    refine ⟨hs.someAdmin, ?_⟩
    intro g hmem hfresh
    rcases List.mem_append.mp hmem with hold | hnew
    · exact hs.upToDate g hold hfresh
    · obtain rfl := List.mem_singleton.mp hnew
      exact safe_of_unread unread
  | refused i =>
    exact ⟨hs.someAdmin, fun g hmem hfresh =>
      hs.upToDate g (List.mem_of_mem_eraseIdx hmem) hfresh⟩
  | advanced i f done inFlight st => exact invariant_advanced hs hp inFlight st

/-- The runs whose only requests that write are updates and deletions. -/
def updateOrDelete (_ : System) : Event → Bool
  | .request _ (.updateUser _ _) | .request _ (.deleteUser _) => true
  | .request _ _ => false
  | _ => true

/-- From a table with an enabled administrator, every state reached has one. -/
def LastAdministratorSurvives (cfg : Config) : Prop :=
  ∀ db s, HasAdmin db.users →
    Execution (Guarded (fun u e => updateOrDelete u e = true) (Step cfg)) (quiet db) s →
    HasAdmin s.db.users

/-- In every run whose taking writes are checked at the write, whatever the other requests
do; and such a write leaves an administrator exactly when it finds two. -/
theorem an_administrator_remains_when_checked (cfg : Config) {db : Database} {s : System}
    (h0 : HasAdmin db.users)
    (h : Execution (Guarded (fun u e => checkedAtWrite u e = true) (Step cfg)) (quiet db) s) :
    HasAdmin s.db.users ∧
      ∀ i f t, s.flights[i]? = some f → f.flight.takesRights s.db.users = true →
        Step cfg s (.advance i) t →
        (HasAdmin t.db.users ↔ 2 ≤ s.db.users.countActiveAdmins) := by
  have hs : Invariant s := h.guarded_invariant
    (fun _ _ _ hi hp st => invariant_step hi hp st) ⟨h0, by simp [quiet]⟩
  refine ⟨hs.someAdmin, ?_⟩
  intro i f t hi htakes ht
  obtain ⟨done, hdone⟩ := advance_of_takesRights cfg htakes
  have hsome : some (completed s i f done) = some t := by
    simpa [Step, StepOf, next, hi, advanceFlight, hdone] using ht
  obtain rfl := Option.some.inj hsome
  obtain ⟨name, htaken⟩ := takenFrom_statement (advance_statement hdone) htakes
  exact htaken.hasAdmin_iff

theorem hasAdmin_iff_count (t : UserTable) : HasAdmin t ↔ 0 < t.countActiveAdmins := by
  rw [UserTable.countActiveAdmins, List.countP_pos_iff]
  constructor
  · rintro ⟨name, a, ha, hactive⟩
    exact ⟨a, mem_of_getUser ha, hactive⟩
  · rintro ⟨a, hmem, hactive⟩
    exact ⟨a.username, activeAdmin_of_mem hmem hactive⟩

def twoAdmins : Database :=
  ⟨⟨[someAccount "ada@sample.org" .admin, someAccount "bob@sample.org" .admin], by decide⟩, []⟩

def demotion : UserPatch := ⟨some "operator", none, none, none⟩

def demoteRun : List Event :=
  signedIn "ada@sample.org" ++ [.request 0 (.updateUser "bob@sample.org" demotion)] ++
    List.replicate 4 (.advance 0)

theorem demoting_one_keeps_the_other :
    ∃ s, runEvents (guardedNext checkedAtWrite (next plainConsole)) (quiet twoAdmins) demoteRun =
        some s ∧ s.db.users.countActiveAdmins = 1 ∧ HasAdmin s.db.users := by
  have hrun : (runEvents (guardedNext checkedAtWrite (next plainConsole)) (quiet twoAdmins)
      demoteRun).map (fun s => s.db.users.countActiveAdmins) = some 1 := by decide +kernel
  obtain ⟨s, hs, hcount⟩ := Option.map_eq_some_iff.mp hrun
  exact ⟨s, hs, hcount, (an_administrator_remains_when_checked plainConsole
    ((hasAdmin_iff_count _).mpr (by decide)) (runEvents_guarded hs)).1⟩

/-- The statements of two requests in turn, each demoting the other's caller. -/
def mutualDemotion : List Event :=
  signedIn "ada@sample.org" ++ signedIn "bob@sample.org" ++
    [.request 0 (.updateUser "bob@sample.org" demotion),
      .request 1 (.updateUser "ada@sample.org" demotion)] ++ List.replicate 8 (.advance 0)

theorem two_demotions_leave_no_administrator : ¬ LastAdministratorSurvives plainConsole := by
  intro h
  have hrun : (runEvents (guardedNext updateOrDelete (next plainConsole)) (quiet twoAdmins)
      mutualDemotion).map (fun s => s.db.users.countActiveAdmins) = some 0 := by decide +kernel
  obtain ⟨s, hs, hcount⟩ := Option.map_eq_some_iff.mp hrun
  have hadmin := h twoAdmins s ((hasAdmin_iff_count _).mpr (by decide)) (runEvents_guarded hs)
  rw [hasAdmin_iff_count, hcount] at hadmin
  omega

end AccountLastAdministrator
