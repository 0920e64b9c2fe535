import SIPMediaGW.SearchBox
import SIPMediaGW.TiedPages

/-! # The pages of the Journal and of the audit

Every page is a query of its own, and the database orders rows that the query leaves tied as it
likes. -/
namespace ListingPages

open Calendar
open CallsTable
open IngestMapping
open OrderedQuery
open PythonJson
open QualityCounts
open SearchBox
open TiedPages

section Journal

variable (py : IngestMapping.PythonText) (zone : Zone) (search : Search)
variable (table : List CallRecord) (today : Date)

/-- `searchCalls`, the rows of the query in the order that the database gives them. -/
def searchCallsIn (order : List CallRecord → List CallRecord) (request : CallsRequest) :
    Except Refusal Page := do
  let outcomes ← choices request.outcome OUTCOMES "outcome"
  let videos ← choices request.video VIDEO_STATES "video state"
  let (since, stop) ← callWindow py zone today request.start request.stop
  match callNumber request.q with
  | some id =>
    let rows := table.filter fun r => decide (r.stored.id = id)
    .ok ⟨rows.length, request.limit, 0, since, stop, rows⟩
  | none =>
    let rows := table.filter fun r => r.inWindow since stop &&
      (decide (request.q = "") || search request.q r) &&
      exactFilters request.reason outcomes videos r
    let page := ((order rows).drop request.offset).take request.limit
    .ok ⟨if page.isEmpty then 0 else rows.length, request.limit, request.offset, since, stop, page⟩

/-- The calls that a request is about. -/
def matchingCalls (request : CallsRequest) : Except Refusal (List CallRecord) := do
  let outcomes ← choices request.outcome OUTCOMES "outcome"
  let videos ← choices request.video VIDEO_STATES "video state"
  let (since, stop) ← callWindow py zone today request.start request.stop
  .ok (table.filter fun r => match callNumber request.q with
    | some id => decide (r.stored.id = id)
    | none => r.inWindow since stop && (decide (request.q = "") || search request.q r) &&
        exactFilters request.reason outcomes videos r)

end Journal

inductive LineType where
  | user
  | entity
  deriving DecidableEq

structure Line where
  type : LineType
  id : ℕ
  instant : ℤ
  actor : String
  action : String
  target : String
  detail : Json

/-- `user_audit` and `org_unit_audit`, a number for every line of each. -/
structure AuditTables where
  users : List Line
  entities : List Line
  users_type : ∀ line ∈ users, line.type = .user
  entities_type : ∀ line ∈ entities, line.type = .entity
  users_id : (users.map Line.id).Nodup
  entities_id : (entities.map Line.id).Nodup

def TYPES : List String := ["user", "entity"]

/-- A request the framework passes on. -/
structure AuditRequest where
  types : String
  start : Option String
  stop : Option String
  q : String
  limit : ℕ
  offset : ℕ
  types_length : types.length ≤ 40
  q_length : q.length ≤ 120
  limit_range : 1 ≤ limit ∧ limit ≤ 500

structure AuditPage where
  total : ℕ
  limit : ℕ
  offset : ℕ
  start : ℤ
  stop : ℤ
  lines : List Line

/-- `ORDER BY at DESC, id DESC`. -/
def lineKey (line : Line) : OrderDual ℤ ×ₗ OrderDual ℕ :=
  toLex (OrderDual.toDual line.instant, OrderDual.toDual line.id)

section Audit

variable (py : IngestMapping.PythonText) (zone : Zone) (f : Folding) (tables : AuditTables)
variable (today : Date)

/-- The lines that a request is about, and its window. -/
def matchingLines (request : AuditRequest) : Except Refusal (ℤ × ℤ × List Line) := do
  let wanted := ((split ',' request.types.toList).filter (· ≠ [])).map String.ofList
  if wanted = [] ∨ wanted.any fun value => value ∉ TYPES then
    .error ⟨400, "types must be user, entity or both"⟩
  else
    let stop := (← parseInstant py zone request.stop).getD
      (zone.instant (midnight today + dayUs - 1))
    let since := (← parseInstant py zone request.start).getD
      (zone.instant (midnight (today.subDays 29)))
    if stop < since then .error ⟨400, "end is before start"⟩
    else
      let q := strip request.q
      let pattern := likePattern q
      let lines := (if "user" ∈ wanted then tables.users else []) ++
        if "entity" ∈ wanted then tables.entities else []
      .ok (since, stop, lines.filter fun line =>
        decide (since ≤ line.instant) && decide (line.instant ≤ stop) &&
          (decide (q = "") || f.ilike line.actor pattern == some true ||
            f.ilike line.target pattern == some true))

/-- `readAudit`, the lines of the query in the order that the database gives them. -/
def readAuditIn (order : List Line → List Line) (request : AuditRequest) :
    Except Refusal AuditPage := do
  let (since, stop, lines) ← matchingLines py zone f tables today request
  let page := ((order lines).drop request.offset).take request.limit
  .ok ⟨if page.isEmpty then 0 else lines.length, request.limit, request.offset, since, stop, page⟩

end Audit

/-- The answers show every row once, and each of them the number of rows. -/
def ListsAll {α : Type} (rows : List α) (p : ℕ) (answers : ℕ → Except Refusal (ℕ × List α)) :
    Prop :=
  ∃ pages : ℕ → ℕ × List α, (∀ k, answers k = .ok (pages k)) ∧
    (∀ k, (pages k).1 = rows.length) ∧
    ∀ n, rows.length ≤ n * p → ((List.range n).flatMap fun k => (pages k).2).Perm rows

/-- The answers show every row once. -/
def ListsEach {α : Type} (rows : List α) (p : ℕ) (answers : ℕ → Except Refusal (ℕ × List α)) :
    Prop :=
  ∃ pages : ℕ → ℕ × List α, (∀ k, answers k = .ok (pages k)) ∧
    ∀ n, rows.length ≤ n * p → ((List.range n).flatMap fun k => (pages k).2).Perm rows

/-- A request for the page `k` of its size. -/
def callsPage (request : CallsRequest) (k : ℕ) : CallsRequest :=
  { request with offset := k * request.limit }

def auditPage (request : AuditRequest) (k : ℕ) : AuditRequest :=
  { request with offset := k * request.limit }

section Pages

variable {α κ : Type} [LinearOrder κ] {key : α → κ} {rows : List α} {p : ℕ}

/-- What a query shows of a page: the total on its first row, and its rows. -/
def shown (choice : ℕ → List α) (p k : ℕ) : ℕ × List α :=
  (totalOf (choice k) p k, pageAt (choice k) p k)

theorem listsEach_iff :
    (∀ choice : ℕ → List α, (∀ k, Sorted key rows (choice k)) →
      ListsEach rows p fun k => .ok (shown choice p k)) ↔ ListsOnce key rows p := by
  constructor
  · intro h choice hchoice
    obtain ⟨pages, hpages, honce⟩ := h choice hchoice
    have hshown : pages = shown choice p := by
      funext k
      exact (Except.ok.inj (hpages k)).symm
    rw [hshown] at honce
    exact honce
  · intro h choice hchoice
    exact ⟨shown choice p, fun k => rfl, h choice hchoice⟩

theorem listsAll_iff (hp : 0 < p) :
    (∀ choice : ℕ → List α, (∀ k, Sorted key rows (choice k)) →
      ListsAll rows p fun k => .ok (shown choice p k)) ↔ rows = [] := by
  constructor
  · intro h
    have htotals := @totalsTrue_iff _ _ _ key rows p hp
    apply htotals.mp
    intro l hl k
    obtain ⟨pages, hpages, htotal, -⟩ := h (fun _ => l) fun _ => hl
    rw [← htotal k, ← Except.ok.inj (hpages k)]
    rfl
  · rintro rfl choice hchoice
    refine ⟨shown choice p, fun k => rfl, fun k => ?_, ?_⟩
    · exact (totalsTrue_iff hp).mpr rfl (choice k) (hchoice k) k
    · exact listsOnce_nil key p choice hchoice

end Pages

section Answers

variable {py : IngestMapping.PythonText} {zone : Zone} {search : Search}
variable {table : List CallRecord} {today : Date} {request : CallsRequest} {rows : List CallRecord}

/-- What the pages of a search show, every query with an order of its own. -/
def journalAnswers (py : IngestMapping.PythonText) (zone : Zone) (search : Search)
    (table : List CallRecord) (today : Date) (request : CallsRequest)
    (choice : ℕ → List CallRecord) (k : ℕ) : Except Refusal (ℕ × List CallRecord) :=
  (searchCallsIn py zone search table today (fun _ => choice k) (callsPage request k)).map
    fun page => (page.total, page.calls)

/-- What a request that is not refused is about. -/
theorem matchingCalls_eq_ok (h : matchingCalls py zone search table today request = .ok rows) :
    ∃ os vs since stop, choices request.outcome OUTCOMES "outcome" = .ok os ∧
      choices request.video VIDEO_STATES "video state" = .ok vs ∧
      callWindow py zone today request.start request.stop = .ok (since, stop) ∧
      rows = table.filter fun r => match callNumber request.q with
        | some id => decide (r.stored.id = id)
        | none => r.inWindow since stop && (decide (request.q = "") || search request.q r) &&
            exactFilters request.reason os vs r := by
  obtain ⟨os, hos, h⟩ := bind_eq_ok h
  obtain ⟨vs, hvs, h⟩ := bind_eq_ok h
  obtain ⟨⟨since, stop⟩, hwindow, h⟩ := bind_eq_ok h
  exact ⟨os, vs, since, stop, hos, hvs, hwindow, (Except.ok.inj h).symm⟩

theorem journalAnswers_eq (hmatch : matchingCalls py zone search table today request = .ok rows)
    (hnumber : callNumber request.q = none) {choice : ℕ → List CallRecord} {k : ℕ}
    (hlength : (choice k).length = rows.length) :
    journalAnswers py zone search table today request choice k =
      .ok (shown choice request.limit k) := by
  obtain ⟨os, vs, since, stop, hos, hvs, hwindow, hrows⟩ := matchingCalls_eq_ok hmatch
  have hos' : choices (callsPage request k).outcome OUTCOMES "outcome" = .ok os := hos
  have hvs' : choices (callsPage request k).video VIDEO_STATES "video state" = .ok vs := hvs
  have hwindow' : callWindow py zone today (callsPage request k).start (callsPage request k).stop =
      .ok (since, stop) := hwindow
  have hnumber' : callNumber (callsPage request k).q = none := hnumber
  simp only [hnumber] at hrows
  rw [journalAnswers, searchCallsIn, hos', hvs', hwindow', shown, totalOf, hlength, hrows]
  simp only [bind, Except.bind, hnumber']
  rfl

theorem journalAnswers_number (hmatch : matchingCalls py zone search table today request = .ok rows)
    {id : ℕ} (hnumber : callNumber request.q = some id) (choice : ℕ → List CallRecord) (k : ℕ) :
    journalAnswers py zone search table today request choice k = .ok (rows.length, rows) := by
  obtain ⟨os, vs, since, stop, hos, hvs, hwindow, hrows⟩ := matchingCalls_eq_ok hmatch
  have hos' : choices (callsPage request k).outcome OUTCOMES "outcome" = .ok os := hos
  have hvs' : choices (callsPage request k).video VIDEO_STATES "video state" = .ok vs := hvs
  have hwindow' : callWindow py zone today (callsPage request k).start (callsPage request k).stop =
      .ok (since, stop) := hwindow
  have hnumber' : callNumber (callsPage request k).q = some id := hnumber
  simp only [hnumber] at hrows
  rw [journalAnswers, searchCallsIn, hos', hvs', hwindow', hrows]
  simp only [bind, Except.bind, hnumber']
  rfl

/-- The pages of a search list everything when there is nothing to list. -/
theorem journal_listsAll_iff
    (hmatch : matchingCalls py zone search table today request = .ok rows) :
    (∀ choice : ℕ → List CallRecord, (∀ k, Sorted startKey rows (choice k)) →
      ListsAll rows request.limit
        (journalAnswers py zone search table today request choice)) ↔ rows = [] := by
  have hp : 0 < request.limit := request.limit_range.1
  cases hnumber : callNumber request.q with
  | none =>
    rw [← @listsAll_iff _ _ _ startKey rows _ hp]
    apply forall₂_congr
    intro choice hchoice
    have hanswers : journalAnswers py zone search table today request choice =
        fun k => .ok (shown choice request.limit k) := by
      funext k
      exact journalAnswers_eq hmatch hnumber (hchoice k).perm.length_eq
    rw [hanswers]
  | some id =>
    constructor
    · intro h
      obtain ⟨pages, hpages, -, honce⟩ := h (fun _ => orderBy startKey rows)
        fun _ => sorted_orderBy startKey rows
      -- the second page shows the call again
      have hpage (k : ℕ) : (pages k).2 = rows := by
        rw [← Except.ok.inj ((journalAnswers_number hmatch hnumber _ k).symm.trans (hpages k))]
      have hlength := (honce (rows.length + 2)
        (Nat.le_trans (by omega) (Nat.le_mul_of_pos_right _ hp))).length_eq
      simp only [hpage, List.length_flatMap, List.map_const', List.length_range,
        List.sum_replicate_nat] at hlength
      by_contra hne
      have hpos := List.length_pos_iff.mpr hne
      have hmore : 2 * rows.length ≤ (rows.length + 2) * rows.length :=
        Nat.mul_le_mul_right _ (Nat.le_add_left 2 _)
      omega
    · rintro rfl choice _
      refine ⟨fun _ => (0, []), fun k => journalAnswers_number hmatch hnumber choice k,
        fun k => rfl, ?_⟩
      intro n _
      rw [List.flatMap_eq_nil_iff.mpr fun _ _ => rfl]

/-- Without a number, the pages of a search show every call once when no tie straddles a page. -/
theorem journal_listsEach_iff (hids : (table.map fun r => r.stored.id).Nodup)
    (hmatch : matchingCalls py zone search table today request = .ok rows)
    (hnumber : callNumber request.q = none) :
    (∀ choice : ℕ → List CallRecord, (∀ k, Sorted startKey rows (choice k)) →
      ListsEach rows request.limit
        (journalAnswers py zone search table today request choice)) ↔
      EndsUntied startKey rows request.limit := by
  have hnodup : rows.Nodup := by
    obtain ⟨os, vs, since, stop, -, -, -, rfl⟩ := matchingCalls_eq_ok hmatch
    exact (List.Nodup.of_map _ hids).filter _
  rw [← listsOnce_iff hnodup request.limit_range.1, ← listsEach_iff]
  apply forall₂_congr
  intro choice hchoice
  have hanswers : journalAnswers py zone search table today request choice =
      fun k => .ok (shown choice request.limit k) := by
    funext k
    exact journalAnswers_eq hmatch hnumber (hchoice k).perm.length_eq
  rw [hanswers]

end Answers

section AuditAnswers

variable {py : IngestMapping.PythonText} {zone : Zone} {f : Folding} {tables : AuditTables}
variable {today : Date} {request : AuditRequest} {since stop : ℤ} {lines : List Line}

def auditAnswers (py : IngestMapping.PythonText) (zone : Zone) (f : Folding)
    (tables : AuditTables) (today : Date) (request : AuditRequest) (choice : ℕ → List Line)
    (k : ℕ) : Except Refusal (ℕ × List Line) :=
  (readAuditIn py zone f tables today (fun _ => choice k) (auditPage request k)).map
    fun page => (page.total, page.lines)

theorem auditAnswers_eq
    (hmatch : matchingLines py zone f tables today request = .ok (since, stop, lines))
    {choice : ℕ → List Line} (hchoice : ∀ k, Sorted lineKey lines (choice k)) :
    auditAnswers py zone f tables today request choice =
      fun k => .ok (shown choice request.limit k) := by
  funext k
  have hmatch' : matchingLines py zone f tables today (auditPage request k) =
      .ok (since, stop, lines) := hmatch
  rw [auditAnswers, readAuditIn, hmatch', shown, totalOf, (hchoice k).perm.length_eq]
  rfl

theorem audit_listsAll_iff
    (hmatch : matchingLines py zone f tables today request = .ok (since, stop, lines)) :
    (∀ choice : ℕ → List Line, (∀ k, Sorted lineKey lines (choice k)) →
      ListsAll lines request.limit (auditAnswers py zone f tables today request choice)) ↔
      lines = [] := by
  rw [← @listsAll_iff _ _ _ lineKey lines _ request.limit_range.1]
  apply forall₂_congr
  intro choice hchoice
  rw [auditAnswers_eq hmatch hchoice]

theorem nodup_tables (tables : AuditTables) (users entities : Prop) [Decidable users]
    [Decidable entities] :
    ((if users then tables.users else []) ++ if entities then tables.entities else []).Nodup := by
  have hkept {c : Prop} [Decidable c] {l : List Line} (h : l.Nodup) :
      (if c then l else []).Nodup := by
    split
    · exact h
    · exact List.nodup_nil
  have hmem {c : Prop} [Decidable c] {l : List Line} {line : Line}
      (h : line ∈ if c then l else []) : line ∈ l := by
    split at h
    · exact h
    · cases h
  apply (hkept (List.Nodup.of_map _ tables.users_id)).append
    (hkept (List.Nodup.of_map _ tables.entities_id))
  intro line hline hline'
  have huser := tables.users_type line (hmem hline)
  have hentity := tables.entities_type line (hmem hline')
  rw [huser] at hentity
  cases hentity

theorem nodup_lines
    (hmatch : matchingLines py zone f tables today request = .ok (since, stop, lines)) :
    lines.Nodup := by
  unfold matchingLines at hmatch
  dsimp only at hmatch
  split at hmatch
  · cases hmatch
  · obtain ⟨last, -, hmatch⟩ := bind_eq_ok hmatch
    obtain ⟨first, -, hmatch⟩ := bind_eq_ok hmatch
    split at hmatch
    · cases hmatch
    · obtain ⟨-, hmatch⟩ := Prod.mk.inj (Except.ok.inj hmatch)
      obtain ⟨-, rfl⟩ := Prod.mk.inj hmatch
      exact (nodup_tables tables _ _).filter _

theorem audit_listsEach_iff
    (hmatch : matchingLines py zone f tables today request = .ok (since, stop, lines)) :
    (∀ choice : ℕ → List Line, (∀ k, Sorted lineKey lines (choice k)) →
      ListsEach lines request.limit (auditAnswers py zone f tables today request choice)) ↔
      EndsUntied lineKey lines request.limit := by
  rw [← listsOnce_iff (nodup_lines hmatch) request.limit_range.1, ← listsEach_iff]
  apply forall₂_congr
  intro choice hchoice
  rw [auditAnswers_eq hmatch hchoice]

end AuditAnswers

/-- The pages of a listing are complete, totals included, when there is nothing to list; the rows
alone are, when no tie straddles the end of a page. -/
theorem listings_complete_iff (py : IngestMapping.PythonText) (zone : Zone) (today : Date)
    (search : Search) (table : List CallRecord) (request : CallsRequest) (f : Folding)
    (tables : AuditTables) (auditRequest : AuditRequest) :
    (∀ rows, matchingCalls py zone search table today request = .ok rows →
      ((∀ choice : ℕ → List CallRecord, (∀ k, Sorted startKey rows (choice k)) →
        ListsAll rows request.limit
          (journalAnswers py zone search table today request choice)) ↔ rows = []) ∧
      ((table.map fun r => r.stored.id).Nodup → callNumber request.q = none →
        ((∀ choice : ℕ → List CallRecord, (∀ k, Sorted startKey rows (choice k)) →
          ListsEach rows request.limit
            (journalAnswers py zone search table today request choice)) ↔
          EndsUntied startKey rows request.limit))) ∧
    ∀ since stop lines, matchingLines py zone f tables today auditRequest =
        .ok (since, stop, lines) →
      ((∀ choice : ℕ → List Line, (∀ k, Sorted lineKey lines (choice k)) →
        ListsAll lines auditRequest.limit
          (auditAnswers py zone f tables today auditRequest choice)) ↔ lines = []) ∧
      ((∀ choice : ℕ → List Line, (∀ k, Sorted lineKey lines (choice k)) →
        ListsEach lines auditRequest.limit
          (auditAnswers py zone f tables today auditRequest choice)) ↔
        EndsUntied lineKey lines auditRequest.limit) := by
  constructor
  · intro rows hmatch
    exact ⟨journal_listsAll_iff hmatch, fun hids hnumber =>
      journal_listsEach_iff hids hmatch hnumber⟩
  · intro since stop lines hmatch
    exact ⟨audit_listsAll_iff hmatch, audit_listsEach_iff hmatch⟩

/-- A call that begins at noon. -/
def noonCall (id : ℕ) : CallRecord where
  stored := newCall id 1785600000000000
    { callColumns augustDays [] ⟨none, none, none, none, none⟩ with
      callStart := some 1785600000000000 } (.obj [])
  orgUnit := none

theorem unset_reason_length : ∀ r ∈ (none : Option String), r.length ≤ 300 := by
  rintro r ⟨⟩

theorem unset_choice_length : ∀ o ∈ (none : Option String), o.length ≤ 120 := by
  rintro o ⟨⟩

/-- The calls of the day, one on a page. -/
def tiedRequest : CallsRequest where
  start := none
  stop := none
  q := ""
  reason := none
  outcome := none
  video := none
  limit := 1
  offset := 0
  q_length := by decide
  reason_length := unset_reason_length
  outcome_length := unset_choice_length
  video_length := unset_choice_length
  limit_range := ⟨Nat.le_refl 1, Nat.le_add_left 1 499⟩

/-- The second query orders the two calls the other way. -/
def tiedChoice (k : ℕ) : List CallRecord :=
  if k = 1 then [noonCall 2, noonCall 1] else [noonCall 1, noonCall 2]

theorem sorted_tiedChoice (k : ℕ) : Sorted startKey [noonCall 1, noonCall 2] (tiedChoice k) := by
  have hfirst : Sorted startKey [noonCall 1, noonCall 2] [noonCall 1, noonCall 2] :=
    ⟨List.Perm.refl _, List.pairwise_pair.mpr (le_refl _)⟩
  by_cases hk : k = 1
  · rw [tiedChoice, if_pos hk]
    exact @sorted_swap _ _ _ _ _ [] [] _ _ hfirst rfl
  · rw [tiedChoice, if_neg hk]
    exact hfirst

theorem matchingCalls_noon (search : Search) :
    matchingCalls augustDays twoHoursEast search [noonCall 1, noonCall 2] augustDay tiedRequest =
      .ok [noonCall 1, noonCall 2] := by
  have hwindow : callWindow augustDays twoHoursEast augustDay tiedRequest.start tiedRequest.stop =
      .ok (1785535200000000, 1785621599999999) := augustDay_window
  rw [matchingCalls, hwindow]
  rfl

/-- One call is on both pages, the other on none, and the page after them has a total of 0. -/
theorem noonCalls_lost :
    let table := [noonCall 1, noonCall 2]
    let answers := journalAnswers augustDays twoHoursEast (fun _ _ => false) table augustDay
      tiedRequest tiedChoice
    answers 0 = .ok (2, [noonCall 1]) ∧ answers 1 = .ok (2, [noonCall 1]) ∧
      answers 2 = .ok (0, []) ∧ ¬ ListsEach table 1 answers ∧ ¬ ListsAll table 1 answers := by
  intro table answers
  have hanswers (k : ℕ) : answers k = .ok (shown tiedChoice 1 k) :=
    journalAnswers_eq (matchingCalls_noon _) (by decide) (sorted_tiedChoice k).perm.length_eq
  have hnot : ¬ ListsEach table 1 answers := by
    rintro ⟨pages, hpages, honce⟩
    have hpage (k : ℕ) : pages k = shown tiedChoice 1 k :=
      Except.ok.inj ((hpages k).symm.trans (hanswers k))
    have hmem : noonCall 2 ∈ (List.range 2).flatMap fun k => (pages k).2 :=
      (honce 2 (le_refl _)).mem_iff.mpr (List.mem_cons_of_mem _ List.mem_cons_self)
    obtain ⟨k, hk, hmem⟩ := List.mem_flatMap.mp hmem
    rw [hpage] at hmem
    have hfirst : (shown tiedChoice 1 k).2 = [noonCall 1] := by
      have hcases : k = 0 ∨ k = 1 := by
        have := List.mem_range.mp hk
        omega
      rcases hcases with rfl | rfl <;> rfl
    rw [hfirst] at hmem
    have hid := congrArg (fun r => r.stored.id) (List.mem_singleton.mp hmem)
    exact absurd hid (by decide)
  refine ⟨hanswers 0, hanswers 1, hanswers 2, hnot, ?_⟩
  rintro ⟨pages, hpages, -, honce⟩
  exact hnot ⟨pages, hpages, honce⟩

/-- The two listings at once: requests that find the two calls, and no line. -/
theorem noonCalls_listings :
    (∀ choice : ℕ → List CallRecord, (∀ k, Sorted startKey [noonCall 1, noonCall 2] (choice k)) →
      ListsAll [noonCall 1, noonCall 2] 1 (journalAnswers augustDays twoHoursEast (fun _ _ => false)
        [noonCall 1, noonCall 2] augustDay tiedRequest choice)) ↔
      [noonCall 1, noonCall 2] = [] :=
  ((listings_complete_iff augustDays twoHoursEast augustDay (fun _ _ => false)
    [noonCall 1, noonCall 2] tiedRequest asciiFolding ⟨[], [], nofun, nofun, .nil, .nil⟩
    ⟨"user,entity", none, none, "", 1, 0, by decide, by decide, by decide⟩).1 _
      (matchingCalls_noon _)).1

end ListingPages
