import Mathlib.Data.List.MinMax
import Mathlib.Data.List.Nodup
import SIPMediaGW.BackupRuns

/-! # No backup costs a good dump

Backups launched apart from each other, killed or failing at any command: what has the name of a
dump is a whole dump, it stays for its retention, and the newest one stays. -/
namespace BackupSafety

open BackupRuns
open FieldMap
open LabelledExecutions

section Retention

/-- How long the rotations let a dump be, in minutes; a manual one is not rotated. -/
def keepMinutes (cfg : Settings) : Kind → Option ℕ
  | .intraday => some (cfg.keepIntradayHours * 60)
  | .nightly => some (cfg.keepNightlyDays * 1440)
  | .manual => none

def Expired (cfg : Settings) (now : ℕ) (d : DumpName) (f : File) : Prop :=
  ∃ minutes, keepMinutes cfg d.kind = some minutes ∧ f.mtime + minutes * 60 < now

theorem Expired.later {cfg : Settings} {now now' : ℕ} {d : DumpName} {f : File}
    (h : Expired cfg now d f) (hnow : now ≤ now') : Expired cfg now' d f := by
  obtain ⟨minutes, hkeep, hold⟩ := h
  exact ⟨minutes, hkeep, by omega⟩

variable {cfg : Settings} {now : ℕ} {dir : Directory} {e : Entry}

theorem mem_findOlder {k : Kind} {minutes : ℕ} (hkeep : keepMinutes cfg k = some minutes)
    (h : e ∈ findOlder "gw_manager-" ("-" ++ k.text ++ ".dump") minutes now dir) :
    ∃ d f, e = .dump d ∧ dir.lookup (.dump d) = some f ∧ Expired cfg now d f := by
  obtain ⟨-, h⟩ := List.mem_filter.mp h
  obtain ⟨hglob, hold⟩ := Bool.and_eq_true_iff.mp h
  obtain ⟨d, rfl, rfl⟩ := (glob_path k e).mp hglob
  obtain ⟨f, hf, hold⟩ := (Option.any_eq_true _ _).mp hold
  exact ⟨d, f, rfl, hf, minutes, hkeep, of_decide_eq_true hold⟩

/-- What a rotation removes: dumps past their retention, and their counts. -/
theorem mem_toRemove (h : e ∈ toRemove cfg now dir) :
    ∃ d f, dir.lookup (.dump d) = some f ∧ Expired cfg now d f ∧
      (e = .dump d ∨ e = .counts d) := by
  obtain ⟨old, hold, he⟩ := List.mem_flatMap.mp h
  have hfound : ∃ d f, old = .dump d ∧ dir.lookup (.dump d) = some f ∧ Expired cfg now d f := by
    rcases List.mem_append.mp hold with hold | hold
    · exact mem_findOlder (k := .intraday) rfl hold
    · exact mem_findOlder (k := .nightly) rfl hold
  obtain ⟨d, f, rfl, hf, hexpired⟩ := hfound
  refine ⟨d, f, hf, hexpired, ?_⟩
  rcases List.mem_cons.mp he with rfl | he
  · exact .inl rfl
  · exact .inr (List.mem_singleton.mp he)

end Retention

/-- What one command does to the directory, to its backup, and to what `pg_dump` has finished. -/
inductive Effect (host : Host) (now : ℕ) (dir : Directory) (r : Run) :
    Directory → Run → List (List UInt8) → Prop where
  | wrote (f : File) : r.phase = .dumping → Effect host now dir r (put dir (.part r.dump) f) r []
  | dumped (f : File) : r.phase = .dumping → dir.lookup (.part r.dump) = some f →
      Effect host now dir r dir { r with phase := .checking } [f.content]
  | checked (f : File) : r.phase = .checking → dir.lookup (.part r.dump) = some f →
      f.content ≠ [] → listsCalls host f.content = true →
      Effect host now dir r dir { r with phase := .counting } []
  | counted (f : File) : r.phase = .counting →
      Effect host now dir r (put dir (.partCounts r.dump) f) { r with phase := .renamingCounts } []
  | notCounted (f : File) : Effect host now dir r (put dir (.partCounts r.dump) f) r.fail []
  | renamedCounts (f : File) : r.phase = .renamingCounts →
      Effect host now dir r (put (del dir (.partCounts r.dump)) (.counts r.dump) f)
        { r with phase := .renaming } []
  | renamed (f : File) : r.phase = .renaming → dir.lookup (.part r.dump) = some f →
      Effect host now dir r (put (del dir (.part r.dump)) (.dump r.dump) f)
        { r with phase := .finding, renamed := some f } []
  | found : r.phase = .finding → Effect host now dir r dir
      { r with phase := .removing (toRemove host.settings now dir) } []
  | removed (e : Entry) (todo : List Entry) : r.phase = .removing (e :: todo) →
      Effect host now dir r (del dir e) { r with phase := .removing todo } []
  | touched (f : File) : Effect host now dir r (put dir .lastSuccess f) r.fail []
  | left (e : Entry) (todo : List Entry) : r.phase = .leaving (e :: todo) →
      Effect host now dir r (del dir e) { r with phase := .leaving todo } []
  | moved (p : Phase) : (p = .touching ∧ (∃ todo, r.phase = .removing todo)) ∨ p = .done ∨
      p = .leaving (leftovers r.dump) → Effect host now dir r dir { r with phase := p } []

section Commands

variable {host : Host} {now : ℕ} {dir dir' : Directory} {r r' : Run} {a : Action}
  {fin : List (List UInt8)}

theorem command_effect (h : command host now dir r a = some (dir', r', fin)) :
    Effect host now dir r dir' r' fin := by
  cases a with
  | write bytes =>
    simp only [command] at h
    split at h
    · rename_i hphase hf
      cases h
      exact .wrote _ hphase
    · cases h
  | dumpExit ok =>
    simp only [command] at h
    split at h
    · rename_i f hphase hf
      split at h
      · cases h
        exact .dumped f hphase hf
      · cases h
        exact .moved _ (.inr (.inr rfl))
    · cases h
  | check =>
    simp only [command] at h
    split at h
    · rename_i f hphase hf
      split at h
      · rename_i hgood
        cases h
        exact .checked f hphase hf hgood.1 hgood.2
      · cases h
        exact .moved _ (.inr (.inr rfl))
    · cases h
  | counts bytes ok =>
    simp only [command] at h
    split at h
    · rename_i hphase
      cases ok with
      | true =>
        cases h
        exact .counted _ hphase
      | false =>
        cases h
        exact .notCounted _
    · cases h
  | renameCounts =>
    simp only [command] at h
    split at h
    · rename_i f hphase hf
      cases h
      exact .renamedCounts f hphase
    · cases h
  | rename =>
    simp only [command] at h
    split at h
    · rename_i f hphase hf
      cases h
      exact .renamed f hphase hf
    · cases h
  | find =>
    simp only [command] at h
    split at h
    · rename_i hphase
      cases h
      exact .found hphase
    · cases h
  | remove =>
    simp only [command] at h
    split at h
    · rename_i e todo hphase
      cases h
      exact .removed e todo hphase
    · rename_i hphase
      cases h
      exact .moved _ (.inl ⟨rfl, _, hphase⟩)
    · rename_i e todo hphase
      cases h
      exact .left e todo hphase
    · cases h
      exact .moved _ (.inr (.inl rfl))
    · cases h
  | touch =>
    simp only [command] at h
    split at h
    · cases h
      exact .touched _
    · cases h
  | error =>
    simp only [command] at h
    split at h
    · rename_i todo hphase
      cases h
      exact .moved _ (.inl ⟨rfl, _, hphase⟩)
    · cases h
    · cases h
      exact .moved _ (.inr (.inl rfl))
    · cases h
      exact .moved _ (.inr (.inr rfl))
  | kill =>
    cases h
    exact .moved _ (.inr (.inl rfl))

theorem Effect.dump_eq (h : Effect host now dir r dir' r' fin) : r'.dump = r.dump := by
  cases h <;> rfl

/-- The dump of a name appears when its own backup renames it, and goes when a rotation does. -/
theorem Effect.lookup_dump (h : Effect host now dir r dir' r' fin)
    (hleft : ∀ e todo, r.phase = .leaving (e :: todo) → e ∈ leftovers r.dump) (d : DumpName) :
    dir'.lookup (.dump d) = dir.lookup (.dump d) ∨
    (d = r.dump ∧ r.phase = .renaming ∧ dir'.lookup (.dump d) = dir.lookup (.part r.dump) ∧
      dir'.lookup (.dump d) = r'.renamed) ∨
    ∃ todo, r.phase = .removing (.dump d :: todo) ∧ dir'.lookup (.dump d) = none := by
  cases h with
  | wrote f => exact .inl (lookup_put_ne _ _ (by simp))
  | dumped | checked | found | moved => exact .inl rfl
  | counted f | notCounted f => exact .inl (lookup_put_ne _ _ (by simp))
  | renamedCounts f =>
    left
    rw [lookup_put_ne _ _ (by simp), lookup_del_ne _ (by simp)]
  | renamed f hphase hf =>
    by_cases hd : d = r.dump
    · subst hd
      exact .inr (.inl ⟨rfl, hphase, by rw [lookup_put_self, hf], lookup_put_self _ _ _⟩)
    · left
      rw [lookup_put_ne _ _ (by simpa using hd), lookup_del_ne _ (by simp)]
  | removed e todo hphase =>
    by_cases he : e = .dump d
    · subst he
      exact .inr (.inr ⟨todo, hphase, lookup_del_self _ _⟩)
    · exact .inl (lookup_del_ne _ (Ne.symm he))
  | touched f => exact .inl (lookup_put_ne _ _ (by simp))
  | left e todo hphase =>
    left
    apply lookup_del_ne
    rintro rfl
    simpa [leftovers] using hleft _ _ hphase

theorem Effect.lookup_counts (h : Effect host now dir r dir' r' fin)
    (hleft : ∀ e todo, r.phase = .leaving (e :: todo) → e ∈ leftovers r.dump) (d : DumpName) :
    dir'.lookup (.counts d) = dir.lookup (.counts d) ∨
    (dir'.lookup (.counts d)).isSome = true ∨
    ∃ todo, r.phase = .removing (.counts d :: todo) := by
  cases h with
  | wrote f => exact .inl (lookup_put_ne _ _ (by simp))
  | dumped | checked | found | moved => exact .inl rfl
  | counted f | notCounted f => exact .inl (lookup_put_ne _ _ (by simp))
  | renamedCounts f =>
    by_cases hd : d = r.dump
    · subst hd
      right
      left
      rw [lookup_put_self]
      rfl
    · left
      rw [lookup_put_ne _ _ (by simpa using hd), lookup_del_ne _ (by simp)]
  | renamed f =>
    left
    rw [lookup_put_ne _ _ (by simp), lookup_del_ne _ (by simp)]
  | removed e todo hphase =>
    by_cases he : e = .counts d
    · subst he
      exact .inr (.inr ⟨todo, hphase⟩)
    · exact .inl (lookup_del_ne _ (Ne.symm he))
  | touched f => exact .inl (lookup_put_ne _ _ (by simp))
  | left e todo hphase =>
    left
    apply lookup_del_ne
    rintro rfl
    simpa [leftovers] using hleft _ _ hphase

/-- A backup leaves the unfinished file of another alone. -/
theorem Effect.lookup_part (h : Effect host now dir r dir' r' fin)
    (hleft : ∀ e todo, r.phase = .leaving (e :: todo) → e ∈ leftovers r.dump)
    (hlist : ∀ e todo, r.phase = .removing (e :: todo) → ∃ d, e = .dump d ∨ e = .counts d)
    {d : DumpName} (hd : d ≠ r.dump) : dir'.lookup (.part d) = dir.lookup (.part d) := by
  cases h with
  | wrote f => exact lookup_put_ne _ _ (by simpa using hd)
  | dumped | checked | found | moved => rfl
  | counted f | notCounted f => exact lookup_put_ne _ _ (by simp)
  | renamedCounts f => rw [lookup_put_ne _ _ (by simp), lookup_del_ne _ (by simp)]
  | renamed f => rw [lookup_put_ne _ _ (by simp), lookup_del_ne _ (by simpa using hd)]
  | removed e todo hphase =>
    apply lookup_del_ne
    rintro rfl
    obtain ⟨_, he⟩ := hlist _ _ hphase
    simp at he
  | touched f => exact lookup_put_ne _ _ (by simp)
  | left e todo hphase =>
    apply lookup_del_ne
    rintro rfl
    exact hd (by simpa [leftovers] using hleft _ _ hphase)

end Commands

section Invariant

/-- A whole dump: `pg_dump` ended well on these bytes, and the check read them. -/
structure Good (host : Host) (finished : List (List UInt8)) (content : List UInt8) : Prop where
  finished : content ∈ finished
  given : content ≠ []
  listed : listsCalls host content = true

/-- A dump that was put under its name, now or before. -/
def Renamed (s : State) (d : DumpName) (f : File) : Prop :=
  ∃ r ∈ s.runs, r.dump = d ∧ r.renamed = some f

/-- What a backup has made sure of when it comes to a command. -/
def Ready (host : Host) (dir : Directory) (finished : List (List UInt8)) (r : Run) : Prop :=
  match r.phase with
  | .dumping => r.renamed = none
  | .checking => r.renamed = none ∧
      ∀ f, dir.lookup (.part r.dump) = some f → f.content ∈ finished
  | .counting | .renamingCounts => r.renamed = none ∧
      ∀ f, dir.lookup (.part r.dump) = some f → Good host finished f.content
  | .renaming => r.renamed = none ∧
      (∀ f, dir.lookup (.part r.dump) = some f → Good host finished f.content) ∧
      (dir.lookup (.counts r.dump)).isSome = true
  | .leaving todo => ∀ e ∈ todo, e ∈ leftovers r.dump
  | _ => True

structure Inv (host : Host) (s : State) : Prop where
  distinct : (s.runs.map Run.dump).Nodup
  ready : ∀ r ∈ s.runs, Ready host s.dir s.finished r
  good : ∀ d f, Renamed s d f → Good host s.finished f.content
  dumps : ∀ d f, s.dir.lookup (.dump d) = some f → Renamed s d f
  kept : ∀ d f, Renamed s d f → ¬ Expired host.settings s.now d f →
    s.dir.lookup (.dump d) = some f ∧ (s.dir.lookup (.counts d)).isSome = true
  listed : ∀ q ∈ s.runs, ∀ todo, q.phase = .removing todo → ∀ e ∈ todo,
    ∃ d f, Renamed s d f ∧ Expired host.settings s.now d f ∧ (e = .dump d ∨ e = .counts d)

variable {host : Host} {s t : State} {r r' q : Run} {i : ℕ} {d : DumpName} {f g : File}
  {dir' : Directory} {fin : List (List UInt8)}

theorem Good.more {finished more : List (List UInt8)} {content : List UInt8}
    (h : Good host finished content) : Good host (finished ++ more) content :=
  ⟨List.mem_append_left _ h.finished, h.given, h.listed⟩

/-- What a backup has made sure of stays while its own files are left alone. -/
theorem Ready.frame {dir : Directory} {finished more : List (List UInt8)}
    (h : Ready host dir finished r)
    (hpart : dir'.lookup (.part r.dump) = dir.lookup (.part r.dump))
    (hcounts : r.phase = .renaming → (dir.lookup (.counts r.dump)).isSome = true →
      (dir'.lookup (.counts r.dump)).isSome = true) :
    Ready host dir' (finished ++ more) r := by
  unfold Ready at h ⊢
  rw [hpart]
  split at h <;> rename_i hphase
  · exact h
  · exact ⟨h.1, fun f hf => List.mem_append_left _ (h.2 f hf)⟩
  · exact ⟨h.1, fun f hf => (h.2 f hf).more⟩
  · exact ⟨h.1, fun f hf => (h.2 f hf).more⟩
  · exact ⟨h.1, fun f hf => (h.2.1 f hf).more, hcounts hphase h.2.2⟩
  · exact h
  · trivial

/-- The backups of a run have names of their own. -/
theorem mem_runs_set (hdistinct : (s.runs.map Run.dump).Nodup) (hi : s.runs[i]? = some r)
    (hq : q ∈ s.runs.set i r') : q = r' ∨ (q ∈ s.runs ∧ q.dump ≠ r.dump) := by
  obtain ⟨j, hj, rfl⟩ := List.mem_iff_getElem.mp hq
  rw [List.length_set] at hj
  rw [List.getElem_set]
  split
  · exact .inl rfl
  · rename_i hne
    refine .inr ⟨List.getElem_mem hj, fun hdump => hne ?_⟩
    obtain ⟨hlt, hr⟩ := List.getElem?_eq_some_iff.mp hi
    have hi' : i < (s.runs.map Run.dump).length := by simpa using hlt
    have hj' : j < (s.runs.map Run.dump).length := by simpa using hj
    have hsame : (s.runs.map Run.dump)[i] = (s.runs.map Run.dump)[j] := by
      rw [List.getElem_map, List.getElem_map, hr, hdump]
    exact hdistinct.getElem_inj_iff.mp hsame

theorem mem_runs_of_ne (hi : s.runs[i]? = some r) (hq : q ∈ s.runs) (hne : q.dump ≠ r.dump) :
    q ∈ s.runs.set i r' := by
  obtain ⟨j, hj, rfl⟩ := List.mem_iff_getElem.mp hq
  have hij : i ≠ j := by
    rintro rfl
    rw [List.getElem?_eq_getElem hj] at hi
    exact hne (congrArg Run.dump (Option.some.inj hi))
  have hj' : j < (s.runs.set i r').length := by simpa using hj
  have hset : (s.runs.set i r')[j] = s.runs[j] := List.getElem_set_ne hij _
  rw [← hset]
  exact List.getElem_mem _

theorem mem_runs_self (hi : s.runs[i]? = some r) : r' ∈ s.runs.set i r' :=
  List.mem_set (List.getElem?_eq_some_iff.mp hi).1 _

theorem dump_inj (hdistinct : (s.runs.map Run.dump).Nodup) (hr : r ∈ s.runs) (hq : q ∈ s.runs)
    (h : q.dump = r.dump) : q = r := List.inj_on_of_nodup_map hdistinct hq hr h

theorem renamed_unique (hdistinct : (s.runs.map Run.dump).Nodup) (hf : Renamed s d f)
    (hg : Renamed s d g) : f = g := by
  obtain ⟨r, hr, rfl, hf⟩ := hf
  obtain ⟨q, hq, hqd, hg⟩ := hg
  obtain rfl := dump_inj hdistinct hr hq hqd
  exact Option.some.inj (hf.symm.trans hg)

/-- A backup puts its own dump under its name, beside the counts it has put there before. -/
structure Puts (s : State) (r : Run) (dir' : Directory) (f : File) : Prop where
  phase : r.phase = .renaming
  part : s.dir.lookup (.part r.dump) = some f
  dump : dir'.lookup (.dump r.dump) = some f
  counts : dir'.lookup (.counts r.dump) = s.dir.lookup (.counts r.dump)

theorem Effect.renamed_eq (h : Effect host s.now s.dir r dir' r' fin) :
    r'.renamed = r.renamed ∨ ∃ f, r'.renamed = some f ∧ Puts s r dir' f := by
  cases h with
  | renamed f hphase hf =>
    refine .inr ⟨f, rfl, hphase, hf, lookup_put_self _ _ _, ?_⟩
    rw [lookup_put_ne _ _ (by simp), lookup_del_ne _ (by simp)]
  | _ => exact .inl rfl

end Invariant

section Acts

variable {host : Host} {s : State} {r r' q : Run} {i : ℕ} {d : DumpName} {f : File}
  {dir' : Directory} {fin : List (List UInt8)}

/-- The state after a command of the backup at `i`. -/
def after (s : State) (i : ℕ) (dir' : Directory) (r' : Run) (fin : List (List UInt8)) :
    State :=
  { s with dir := dir', runs := s.runs.set i r', finished := s.finished ++ fin }

theorem unrenamed (h : Inv host s) (hr : r ∈ s.runs) (hphase : r.phase = .renaming) :
    r.renamed = none := by
  have hready := h.ready r hr
  rw [Ready, hphase] at hready
  exact hready.1

theorem Inv.left (h : Inv host s) (hr : r ∈ s.runs) (e : Entry) (todo : List Entry)
    (hphase : r.phase = .leaving (e :: todo)) : e ∈ leftovers r.dump := by
  have hready := h.ready r hr
  rw [Ready, hphase] at hready
  exact hready e List.mem_cons_self

theorem Inv.removes (h : Inv host s) (hr : r ∈ s.runs) (e : Entry) (todo : List Entry)
    (hphase : r.phase = .removing (e :: todo)) : ∃ d, e = .dump d ∨ e = .counts d := by
  obtain ⟨d, f, -, -, he⟩ := h.listed r hr _ hphase e List.mem_cons_self
  exact ⟨d, he⟩

theorem renamed_after (h : Inv host s) (hi : s.runs[i]? = some r)
    (eff : Effect host s.now s.dir r dir' r' fin) (hd : Renamed s d f) :
    Renamed (after s i dir' r' fin) d f := by
  obtain ⟨q, hq, rfl, hf⟩ := hd
  by_cases hne : q.dump = r.dump
  · obtain rfl := dump_inj h.distinct (List.mem_of_getElem? hi) hq hne
    refine ⟨r', mem_runs_self hi, eff.dump_eq, ?_⟩
    rcases eff.renamed_eq with hsame | ⟨g, -, hputs⟩
    · rw [hsame, hf]
    · rw [unrenamed h hq hputs.phase] at hf
      cases hf
  · exact ⟨q, mem_runs_of_ne hi hq hne, rfl, hf⟩

theorem renamed_before (h : Inv host s) (hi : s.runs[i]? = some r)
    (eff : Effect host s.now s.dir r dir' r' fin) (hd : Renamed (after s i dir' r' fin) d f) :
    Renamed s d f ∨ (d = r.dump ∧ Puts s r dir' f) := by
  obtain ⟨q, hq, rfl, hf⟩ := hd
  rcases mem_runs_set h.distinct hi hq with rfl | ⟨hq, -⟩
  · rcases eff.renamed_eq with hsame | ⟨g, hnew, hputs⟩
    · exact .inl ⟨r, List.mem_of_getElem? hi, eff.dump_eq.symm, by rw [← hsame, hf]⟩
    · obtain rfl := Option.some.inj (hnew.symm.trans hf)
      exact .inr ⟨eff.dump_eq, hputs⟩
  · exact .inl ⟨q, hq, rfl, hf⟩

/-- What the backup that ran a command has made sure of next. -/
theorem ready_after (h : Inv host s) (hr : r ∈ s.runs)
    (eff : Effect host s.now s.dir r dir' r' fin) :
    Ready host dir' (s.finished ++ fin) r' := by
  have hready := h.ready r hr
  cases eff with
  | wrote f hphase =>
    rw [Ready, hphase] at hready ⊢
    exact hready
  | dumped f hphase hf =>
    rw [Ready, hphase] at hready
    refine ⟨hready, fun g hg => ?_⟩
    obtain rfl := Option.some.inj (hf.symm.trans hg)
    exact List.mem_append_right _ List.mem_cons_self
  | checked f hphase hf hgiven hlisted =>
    rw [Ready, hphase] at hready
    refine ⟨hready.1, fun g hg => ?_⟩
    obtain rfl := Option.some.inj (hf.symm.trans hg)
    exact ⟨List.mem_append_left _ (hready.2 f hf), hgiven, hlisted⟩
  | counted f hphase =>
    rw [Ready, hphase] at hready
    refine ⟨hready.1, fun g hg => ?_⟩
    rw [lookup_put_ne _ _ (by simp)] at hg
    exact (hready.2 g hg).more
  | renamedCounts f hphase =>
    rw [Ready, hphase] at hready
    refine ⟨hready.1, fun g hg => ?_, ?_⟩
    · rw [lookup_put_ne _ _ (by simp), lookup_del_ne _ (by simp)] at hg
      exact (hready.2 g hg).more
    · rw [lookup_put_self]
      rfl
  | notCounted | touched => exact fun e he => he
  | renamed | found | removed => trivial
  | left e todo hphase =>
    rw [Ready, hphase] at hready
    exact fun x hx => hready x (List.mem_cons_of_mem _ hx)
  | moved p hp =>
    rcases hp with ⟨rfl, -⟩ | rfl | rfl
    · trivial
    · trivial
    · exact fun e he => he

/-- A dump that a rotation takes is past its retention. -/
theorem expired_of_removing (h : Inv host s) (hr : r ∈ s.runs) {e : Entry} {todo : List Entry}
    (hphase : r.phase = .removing (e :: todo)) (he : e = .dump d ∨ e = .counts d)
    (hd : Renamed s d f) : Expired host.settings s.now d f := by
  obtain ⟨d', g, hg, hexpired, he'⟩ := h.listed r hr _ hphase e List.mem_cons_self
  have hsame : d' = d := by
    rcases he with rfl | rfl <;> rcases he' with he' | he' <;> simp at he' <;> exact he'.symm
  subst hsame
  obtain rfl := renamed_unique h.distinct hd hg
  exact hexpired

/-- What a rotation lists, or has still to remove, is past its retention. -/
theorem listed_after (h : Inv host s) (hi : s.runs[i]? = some r)
    (eff : Effect host s.now s.dir r dir' r' fin) {todo : List Entry}
    (hphase : r'.phase = .removing todo) {e : Entry} (he : e ∈ todo) :
    ∃ d f, Renamed s d f ∧ Expired host.settings s.now d f ∧ (e = .dump d ∨ e = .counts d) := by
  cases eff with
  | wrote f hdumping =>
    rw [hdumping] at hphase
    cases hphase
  | found =>
    cases hphase
    obtain ⟨d, f, hf, hexpired, hname⟩ := mem_toRemove he
    exact ⟨d, f, h.dumps d f hf, hexpired, hname⟩
  | removed e' todo' hremoving =>
    cases hphase
    exact h.listed r (List.mem_of_getElem? hi) _ hremoving e (List.mem_cons_of_mem _ he)
  | moved p hp =>
    obtain rfl : p = .removing todo := hphase
    rcases hp with ⟨hp, -⟩ | hp | hp <;> cases hp
  | _ => cases hphase

theorem inv_act (h : Inv host s) (hi : s.runs[i]? = some r)
    (eff : Effect host s.now s.dir r dir' r' fin) : Inv host (after s i dir' r' fin) := by
  have hr : r ∈ s.runs := List.mem_of_getElem? hi
  constructor
  · obtain ⟨hlt, hget⟩ := List.getElem?_eq_some_iff.mp hi
    have hmap : (s.runs.set i r').map Run.dump = s.runs.map Run.dump := by
      have hlt' : i < (s.runs.map Run.dump).length := by simpa using hlt
      have hsame : (s.runs.map Run.dump)[i] = r'.dump := by
        rw [List.getElem_map, hget, eff.dump_eq]
      rw [List.map_set, ← hsame, List.set_getElem_self]
    exact hmap ▸ h.distinct
  · intro q hq
    rcases mem_runs_set h.distinct hi hq with rfl | ⟨hq, hne⟩
    · exact ready_after h hr eff
    · apply (h.ready q hq).frame (eff.lookup_part (h.left hr) (h.removes hr) hne)
      intro hphase hsome
      rcases eff.lookup_counts (h.left hr) q.dump with hsame | hnew | ⟨todo, hrem⟩
      · rwa [hsame]
      · exact hnew
      · -- the counts of a dump that is not there yet are in no list
        obtain ⟨d, g, ⟨p, hp, rfl, hg⟩, -, he⟩ := h.listed r hr _ hrem _ List.mem_cons_self
        have hpq : p = q := dump_inj h.distinct hq hp (by simpa [eq_comm] using he)
        rw [hpq, unrenamed h hq hphase] at hg
        cases hg
  · intro d f hd
    rcases renamed_before h hi eff hd with hd | ⟨rfl, hputs⟩
    · exact (h.good d f hd).more
    · have hready := h.ready r hr
      rw [Ready, hputs.phase] at hready
      exact (hready.2.1 f hputs.part).more
  · intro d f hf
    change dir'.lookup (.dump d) = some f at hf
    rcases eff.lookup_dump (h.left hr) d with hsame | ⟨rfl, -, -, hnew⟩ | ⟨todo, -, hnone⟩
    · rw [hsame] at hf
      exact renamed_after h hi eff (h.dumps d f hf)
    · exact ⟨r', mem_runs_self hi, eff.dump_eq, by rw [← hnew, hf]⟩
    · rw [hnone] at hf
      cases hf
  · intro d f hd hfresh
    change dir'.lookup (.dump d) = some f ∧ (dir'.lookup (.counts d)).isSome = true
    change ¬ Expired host.settings s.now d f at hfresh
    rcases renamed_before h hi eff hd with hold | ⟨rfl, hputs⟩
    · obtain ⟨hdump, hcounts⟩ := h.kept d f hold hfresh
      constructor
      · rcases eff.lookup_dump (h.left hr) d with hsame | ⟨rfl, hphase, -, -⟩ | ⟨todo, hrem, -⟩
        · rw [hsame, hdump]
        · obtain ⟨q, hq, hqd, hren⟩ := hold
          rw [dump_inj h.distinct hr hq hqd, unrenamed h hr hphase] at hren
          cases hren
        · exact absurd (expired_of_removing h hr hrem (.inl rfl) hold) hfresh
      · rcases eff.lookup_counts (h.left hr) d with hsame | hnew | ⟨todo, hrem⟩
        · rwa [hsame]
        · exact hnew
        · exact absurd (expired_of_removing h hr hrem (.inr rfl) hold) hfresh
    · have hready := h.ready r hr
      rw [Ready, hputs.phase] at hready
      exact ⟨hputs.dump, by rw [hputs.counts]; exact hready.2.2⟩
  · intro q hq todo hphase e he
    have hfound : ∃ d f, Renamed s d f ∧ Expired host.settings s.now d f ∧
        (e = .dump d ∨ e = .counts d) := by
      rcases mem_runs_set h.distinct hi hq with rfl | ⟨hq, -⟩
      · exact listed_after h hi eff hphase he
      · exact h.listed q hq todo hphase e he
    obtain ⟨d, f, hd, hexpired, hname⟩ := hfound
    exact ⟨d, f, renamed_after h hi eff hd, hexpired, hname⟩

end Acts

section Steps

variable {host : Host} {s t : State} {e : Event}

/-- What a step of the system is. -/
theorem next_cases (h : next host s e = some t) :
    (∃ seconds, e = .tick seconds ∧ t = { s with now := s.now + seconds }) ∨
    (∃ kind, e = .launch kind ∧
      t = { s with
        dir := put (put s.dir (.part (s.nextDump host kind)) ⟨[], s.now⟩)
          (.partErr (s.nextDump host kind)) ⟨[], s.now⟩
        runs := s.runs ++ [⟨s.nextDump host kind, .dumping, none⟩] }) ∨
    ∃ i a r dir' r' fin, e = .act i a ∧ s.runs[i]? = some r ∧
      command host s.now s.dir r a = some (dir', r', fin) ∧ t = after s i dir' r' fin := by
  cases e with
  | tick seconds =>
    cases h
    exact .inl ⟨seconds, rfl, rfl⟩
  | launch kind =>
    cases h
    exact .inr (.inl ⟨kind, rfl, rfl⟩)
  | act i a =>
    simp only [next] at h
    split at h
    · cases h
    · rename_i r hi
      obtain ⟨⟨dir', r', fin⟩, hcommand, rfl⟩ := Option.map_eq_some_iff.mp h
      exact .inr (.inr ⟨i, a, r, dir', r', fin, rfl, hi, hcommand, rfl⟩)

theorem inv_initial (host : Host) (now : ℕ) : Inv host (initial now) where
  distinct := List.nodup_nil
  ready _ h := absurd h List.not_mem_nil
  good := by
    rintro d f ⟨r, hr, -⟩
    cases hr
  dumps d f h := by cases h
  kept := by
    rintro d f ⟨r, hr, -⟩
    cases hr
  listed _ h := absurd h List.not_mem_nil

theorem inv_tick (h : Inv host s) (seconds : ℕ) :
    Inv host { s with now := s.now + seconds } := by
  have hlater : s.now ≤ s.now + seconds := Nat.le_add_right _ _
  refine ⟨h.distinct, h.ready, h.good, h.dumps, ?_, ?_⟩
  · intro d f hd hfresh
    exact h.kept d f hd fun hexpired => hfresh (hexpired.later hlater)
  · intro q hq todo hphase e he
    obtain ⟨d, f, hd, hexpired, hname⟩ := h.listed q hq todo hphase e he
    exact ⟨d, f, hd, hexpired.later hlater, hname⟩

theorem inv_launch (h : Inv host s) (kind : Kind)
    (hapart : s.nextDump host kind ∉ s.runs.map Run.dump) :
    Inv host { s with
      dir := put (put s.dir (.part (s.nextDump host kind)) ⟨[], s.now⟩)
        (.partErr (s.nextDump host kind)) ⟨[], s.now⟩
      runs := s.runs ++ [⟨s.nextDump host kind, .dumping, none⟩] } := by
  generalize s.nextDump host kind = d at hapart ⊢
  have hrenamed : ∀ d' f, Renamed { s with
      dir := put (put s.dir (.part d) ⟨[], s.now⟩) (.partErr d) ⟨[], s.now⟩
      runs := s.runs ++ [⟨d, .dumping, none⟩] } d' f ↔ Renamed s d' f := by
    intro d' f
    constructor
    · rintro ⟨r, hr, hd, hf⟩
      rcases List.mem_append.mp hr with hr | hr
      · exact ⟨r, hr, hd, hf⟩
      · rw [List.mem_singleton.mp hr] at hf
        cases hf
    · rintro ⟨r, hr, hd, hf⟩
      exact ⟨r, List.mem_append_left _ hr, hd, hf⟩
  constructor
  · rw [List.map_append, List.map_singleton, List.nodup_append]
    refine ⟨h.distinct, List.nodup_singleton _, ?_⟩
    rintro x hx y hy rfl
    rw [List.mem_singleton.mp hy] at hx
    exact hapart hx
  · intro r hr
    rcases List.mem_append.mp hr with hr | hr
    · have hne : r.dump ≠ d := fun heq => hapart (heq ▸ List.mem_map_of_mem hr)
      have hframe : Ready host (put (put s.dir (.part d) ⟨[], s.now⟩) (.partErr d) ⟨[], s.now⟩)
          (s.finished ++ []) r := by
        apply (h.ready r hr).frame
        · rw [lookup_put_ne _ _ (by simp), lookup_put_ne _ _ (by simpa using hne)]
        · intro _ hsome
          rwa [lookup_put_ne _ _ (by simp), lookup_put_ne _ _ (by simp)]
      rwa [List.append_nil] at hframe
    · rw [List.mem_singleton.mp hr]
      rfl
  · intro d' f hd
    exact h.good d' f ((hrenamed d' f).mp hd)
  · intro d' f hf
    apply (hrenamed d' f).mpr
    apply h.dumps d' f
    rwa [lookup_put_ne _ _ (by simp), lookup_put_ne _ _ (by simp)] at hf
  · intro d' f hd hfresh
    rw [lookup_put_ne _ _ (by simp), lookup_put_ne _ _ (by simp), lookup_put_ne _ _ (by simp),
      lookup_put_ne _ _ (by simp)]
    exact h.kept d' f ((hrenamed d' f).mp hd) hfresh
  · intro q hq todo hphase e he
    rcases List.mem_append.mp hq with hq | hq
    · obtain ⟨d', f, hd, hexpired, hname⟩ := h.listed q hq todo hphase e he
      exact ⟨d', f, (hrenamed d' f).mpr hd, hexpired, hname⟩
    · rw [List.mem_singleton.mp hq] at hphase
      cases hphase

theorem inv_next (h : Inv host s) (hapart : Apart host s e) (hstep : next host s e = some t) :
    Inv host t := by
  rcases next_cases hstep with ⟨seconds, -, rfl⟩ | ⟨kind, rfl, rfl⟩ |
    ⟨i, a, r, dir', r', fin, -, hi, hcommand, rfl⟩
  · exact inv_tick h seconds
  · exact inv_launch h kind (hapart kind rfl)
  · exact inv_act h hi (command_effect hcommand)

theorem inv_of_execution {now : ℕ}
    (h : Execution (Guarded (Apart host) (StepOf (next host))) (initial now) s) : Inv host s :=
  h.guarded_invariant (fun _ _ _ hinv hapart hstep => inv_next hinv hapart hstep)
    (inv_initial host now)

end Steps

section Newest

/-- A rotation starts while the dump of its own backup is younger than any retention. -/
def Prompt (host : Host) (s : State) (e : Event) : Prop :=
  ∀ i r f, e = .act i .find → s.runs[i]? = some r → r.renamed = some f →
    ∀ kind minutes, keepMinutes host.settings kind = some minutes →
      s.now ≤ f.mtime + minutes * 60

/-- A dump that is gone, or is going, is older than another one. -/
structure Superseded (s : State) : Prop where
  older : ∀ d f, Renamed s d f → s.dir.lookup (.dump d) = some f ∨
    ∃ d' f', Renamed s d' f' ∧ f.mtime < f'.mtime
  going : ∀ q ∈ s.runs, ∀ todo, q.phase = .removing todo → ∀ d f, .dump d ∈ todo →
    Renamed s d f → ∃ d' f', Renamed s d' f' ∧ f.mtime < f'.mtime
  finding : ∀ q ∈ s.runs, q.phase = .finding → ∃ f, q.renamed = some f

variable {host : Host} {s t u : State} {r r' : Run} {i : ℕ} {a : Action} {d : DumpName} {f : File}
  {dir' : Directory} {fin : List (List UInt8)} {e : Event}

theorem finding_after (eff : Effect host s.now s.dir r dir' r' fin)
    (hphase : r'.phase = .finding) : ∃ f, r'.renamed = some f := by
  cases eff with
  | wrote f hdumping =>
    rw [hdumping] at hphase
    cases hphase
  | renamed f => exact ⟨f, rfl⟩
  | moved p hp =>
    obtain rfl : p = .finding := hphase
    rcases hp with ⟨hp, -⟩ | hp | hp <;> cases hp
  | _ => cases hphase

/-- The dumps a rotation lists are older than the one it comes after. -/
theorem going_after (hinv : Inv host s) (h : Superseded s) (hi : s.runs[i]? = some r)
    (hprompt : r.phase = .finding → ∀ f, r.renamed = some f → ∀ kind minutes,
      keepMinutes host.settings kind = some minutes → s.now ≤ f.mtime + minutes * 60)
    (eff : Effect host s.now s.dir r dir' r' fin) {todo : List Entry}
    (hphase : r'.phase = .removing todo) (hd : .dump d ∈ todo) (hf : Renamed s d f) :
    ∃ d' f', Renamed s d' f' ∧ f.mtime < f'.mtime := by
  have hr : r ∈ s.runs := List.mem_of_getElem? hi
  cases eff with
  | wrote g hdumping =>
    rw [hdumping] at hphase
    cases hphase
  | found hfinding =>
    cases hphase
    obtain ⟨d', f', hlookup, ⟨minutes, hkeep, hold⟩, hname⟩ := mem_toRemove hd
    obtain rfl : d = d' := by simpa using hname
    obtain rfl := renamed_unique hinv.distinct (hinv.dumps d f' hlookup) hf
    obtain ⟨g, hg⟩ := h.finding r hr hfinding
    have hyoung := hprompt hfinding g hg d.kind minutes hkeep
    exact ⟨r.dump, g, ⟨r, hr, rfl, hg⟩, by omega⟩
  | removed e' todo' hremoving =>
    cases hphase
    exact h.going r hr _ hremoving d f (List.mem_cons_of_mem _ hd) hf
  | moved p hp =>
    obtain rfl : p = .removing todo := hphase
    rcases hp with ⟨hp, -⟩ | hp | hp <;> cases hp
  | _ => cases hphase

theorem superseded_act (hinv : Inv host s) (h : Superseded s) (hi : s.runs[i]? = some r)
    (hprompt : ∀ todo, r'.phase = .removing todo → r.phase = .finding → ∀ f,
      r.renamed = some f → ∀ kind minutes, keepMinutes host.settings kind = some minutes →
        s.now ≤ f.mtime + minutes * 60)
    (eff : Effect host s.now s.dir r dir' r' fin) : Superseded (after s i dir' r' fin) := by
  have hr : r ∈ s.runs := List.mem_of_getElem? hi
  have hmore : ∀ {f : File}, (∃ d' f', Renamed s d' f' ∧ f.mtime < f'.mtime) →
      ∃ d' f', Renamed (after s i dir' r' fin) d' f' ∧ f.mtime < f'.mtime := by
    rintro f ⟨d', f', hd, hlt⟩
    exact ⟨d', f', renamed_after hinv hi eff hd, hlt⟩
  constructor
  · intro d f hd
    change dir'.lookup (.dump d) = some f ∨ _
    rcases renamed_before hinv hi eff hd with hold | ⟨rfl, hputs⟩
    · rcases h.older d f hold with hthere | hgone
      · rcases eff.lookup_dump (hinv.left hr) d with hsame | ⟨rfl, hphase, -, -⟩ |
          ⟨todo, hrem, -⟩
        · exact .inl (hsame.trans hthere)
        · obtain ⟨q, hq, hqd, hren⟩ := hold
          rw [dump_inj hinv.distinct hr hq hqd, unrenamed hinv hr hphase] at hren
          cases hren
        · exact .inr (hmore (h.going r hr _ hrem d f List.mem_cons_self hold))
      · exact .inr (hmore hgone)
    · exact .inl hputs.dump
  · intro q hq todo hphase d f hmem hd
    have hlisted : ∃ d' g, Renamed s d' g ∧ Expired host.settings s.now d' g ∧
        (Entry.dump d = .dump d' ∨ Entry.dump d = .counts d') := by
      rcases mem_runs_set hinv.distinct hi hq with rfl | ⟨hq, -⟩
      · exact listed_after hinv hi eff hphase hmem
      · exact hinv.listed q hq todo hphase _ hmem
    -- the dump was put before: a list never has one that is put now
    obtain ⟨d', g, hg, -, hname⟩ := hlisted
    obtain rfl : d = d' := by simpa using hname
    have hold : Renamed s d f := by
      obtain rfl := renamed_unique (inv_act hinv hi eff).distinct hd
        (renamed_after hinv hi eff hg)
      exact hg
    apply hmore
    rcases mem_runs_set hinv.distinct hi hq with rfl | ⟨hq, -⟩
    · exact going_after hinv h hi (hprompt todo hphase) eff hphase hmem hold
    · exact h.going q hq todo hphase d f hmem hold
  · intro q hq hphase
    rcases mem_runs_set hinv.distinct hi hq with rfl | ⟨hq, -⟩
    · exact finding_after eff hphase
    · exact h.finding q hq hphase

theorem superseded_initial (now : ℕ) : Superseded (initial now) where
  older := by
    rintro d f ⟨r, hr, -⟩
    cases hr
  going _ h := absurd h List.not_mem_nil
  finding _ h := absurd h List.not_mem_nil

theorem superseded_launch (h : Superseded s) (kind : Kind) :
    Superseded { s with
      dir := put (put s.dir (.part (s.nextDump host kind)) ⟨[], s.now⟩)
        (.partErr (s.nextDump host kind)) ⟨[], s.now⟩
      runs := s.runs ++ [⟨s.nextDump host kind, .dumping, none⟩] } := by
  generalize s.nextDump host kind = d
  have hold : ∀ d' f, Renamed { s with
      dir := put (put s.dir (.part d) ⟨[], s.now⟩) (.partErr d) ⟨[], s.now⟩
      runs := s.runs ++ [⟨d, .dumping, none⟩] } d' f → Renamed s d' f := by
    rintro d' f ⟨r, hr, hd, hf⟩
    rcases List.mem_append.mp hr with hr | hr
    · exact ⟨r, hr, hd, hf⟩
    · rw [List.mem_singleton.mp hr] at hf
      cases hf
  have hmore : ∀ {f : File}, (∃ d' f', Renamed s d' f' ∧ f.mtime < f'.mtime) →
      ∃ d' f', Renamed { s with
        dir := put (put s.dir (.part d) ⟨[], s.now⟩) (.partErr d) ⟨[], s.now⟩
        runs := s.runs ++ [⟨d, .dumping, none⟩] } d' f' ∧ f.mtime < f'.mtime := by
    rintro f ⟨d', f', ⟨r, hr, hd, hf⟩, hlt⟩
    exact ⟨d', f', ⟨r, List.mem_append_left _ hr, hd, hf⟩, hlt⟩
  constructor
  · intro d' f hd
    rw [lookup_put_ne _ _ (by simp), lookup_put_ne _ _ (by simp)]
    exact (h.older d' f (hold d' f hd)).imp_right hmore
  · intro q hq todo hphase d' f hmem hd
    rcases List.mem_append.mp hq with hq | hq
    · exact hmore (h.going q hq todo hphase d' f hmem (hold d' f hd))
    · rw [List.mem_singleton.mp hq] at hphase
      cases hphase
  · intro q hq hphase
    rcases List.mem_append.mp hq with hq | hq
    · exact h.finding q hq hphase
    · rw [List.mem_singleton.mp hq] at hphase
      cases hphase

/-- Backups apart from each other whose rotations start in time. -/
def Timely (host : Host) (s : State) (e : Event) : Prop := Apart host s e ∧ Prompt host s e

/-- A backup comes to its rotation by `find`. -/
theorem find_of_removing (h : command host s.now s.dir r a = some (dir', r', fin))
    (hfinding : r.phase = .finding) {todo : List Entry} (hremoving : r'.phase = .removing todo) :
    a = .find := by
  cases a <;> simp only [command, hfinding, reduceCtorEq] at h
  case find => rfl
  all_goals
    cases h
    cases hremoving

theorem superseded_next (hinv : Inv host s) (h : Superseded s) (htimely : Timely host s e)
    (hstep : next host s e = some t) : Superseded t := by
  rcases next_cases hstep with ⟨seconds, -, rfl⟩ | ⟨kind, -, rfl⟩ |
    ⟨i, a, r, dir', r', fin, rfl, hi, hcommand, rfl⟩
  · exact ⟨h.older, h.going, h.finding⟩
  · exact superseded_launch h kind
  · refine superseded_act hinv h hi ?_ (command_effect hcommand)
    intro todo hremoving hfinding f hf
    obtain rfl := find_of_removing hcommand hfinding hremoving
    exact htimely.2 i r f rfl hi hf

end Newest

section Runs

variable {host : Host} {s u : State} {now : ℕ}

theorem renamed_of_execution (hinv : Inv host u)
    (h : Execution (Guarded (Apart host) (StepOf (next host))) u s) {d : DumpName} {f : File}
    (hd : Renamed u d f) : Renamed s d f := by
  refine (h.guarded_invariant (I := fun t => Inv host t ∧ Renamed t d f) ?_ ⟨hinv, hd⟩).2
  rintro v e w ⟨hv, hd⟩ hapart hstep
  refine ⟨inv_next hv hapart hstep, ?_⟩
  rcases next_cases hstep with ⟨seconds, -, rfl⟩ | ⟨kind, -, rfl⟩ |
    ⟨i, a, r, dir', r', fin, -, hi, hcommand, rfl⟩
  · exact hd
  · obtain ⟨r, hr, hrd, hf⟩ := hd
    exact ⟨r, List.mem_append_left _ hr, hrd, hf⟩
  · exact renamed_after hv hi (command_effect hcommand) hd

/-- Backups that run at once, are killed, or fail at any command: what is under the name of a
dump is what `pg_dump` left when it ended well, with the data of the calls in it; and it stays,
with its counts, while it is within its retention, a manual one for ever. -/
theorem dumps_whole_and_kept
    (before : Execution (Guarded (Apart host) (StepOf (next host))) (initial now) u)
    (after : Execution (Guarded (Apart host) (StepOf (next host))) u s) {d : DumpName} {f : File}
    (there : u.dir.lookup (.dump d) = some f) :
    Good host u.finished f.content ∧
      (d.kind = .manual ∨ ¬ Expired host.settings s.now d f →
        s.dir.lookup (.dump d) = some f ∧ (s.dir.lookup (.counts d)).isSome = true) := by
  have hu := inv_of_execution before
  have hs := inv_of_execution (before.trans after)
  have hd := hu.dumps d f there
  refine ⟨hu.good d f hd, fun hkeep => hs.kept d f (renamed_of_execution hu after hd) ?_⟩
  rintro ⟨minutes, hminutes, hold⟩
  rcases hkeep with hmanual | hfresh
  · rw [hmanual] at hminutes
    cases hminutes
  · exact hfresh ⟨minutes, hminutes, hold⟩

theorem superseded_of_execution
    (h : Execution (Guarded (Timely host) (StepOf (next host))) (initial now) s) :
    Inv host s ∧ Superseded s := by
  refine h.guarded_invariant (I := fun t => Inv host t ∧ Superseded t) ?_
    ⟨inv_initial host now, superseded_initial now⟩
  rintro v e w ⟨hinv, hsuperseded⟩ htimely hstep
  exact ⟨inv_next hinv htimely.1 hstep, superseded_next hinv hsuperseded htimely hstep⟩

/-- The newest of the dumps that were put under their name is there. -/
theorem newest_there (h : Superseded s) {d : DumpName} {f : File} (hd : Renamed s d f) :
    ∃ d' f', s.dir.lookup (.dump d') = some f' ∧ f.mtime ≤ f'.mtime := by
  have hfiles : ∀ g, g ∈ s.runs.filterMap Run.renamed ↔ ∃ d, Renamed s d g := by
    intro g
    rw [List.mem_filterMap]
    constructor
    · rintro ⟨r, hr, hg⟩
      exact ⟨r.dump, r, hr, rfl, hg⟩
    · rintro ⟨_, r, hr, -, hg⟩
      exact ⟨r, hr, hg⟩
  have hmem := (hfiles f).mpr ⟨d, hd⟩
  cases hmax : (s.runs.filterMap Run.renamed).argmax File.mtime with
  | none =>
    rw [List.argmax_eq_none.mp hmax] at hmem
    cases hmem
  | some g =>
    obtain ⟨d', hg⟩ := (hfiles g).mp (List.argmax_mem hmax)
    have hle : ∀ g' d'', Renamed s d'' g' → g'.mtime ≤ g.mtime := fun g' d'' hg' =>
      List.le_of_mem_argmax ((hfiles g').mpr ⟨d'', hg'⟩) hmax
    rcases h.older d' g hg with hthere | ⟨d'', g', hg', hlt⟩
    · exact ⟨d', g, hthere, hle f d hd⟩
    · exact absurd (hle g' d'' hg') (by omega)

/-- Where each rotation starts within the shortest retention after the dump of its own backup,
a directory that once has a dump always has one that is at least as recent, whatever fails. -/
theorem newest_dump_stays
    (before : Execution (Guarded (Timely host) (StepOf (next host))) (initial now) u)
    (after : Execution (Guarded (Timely host) (StepOf (next host))) u s) {d : DumpName} {f : File}
    (there : u.dir.lookup (.dump d) = some f) :
    ∃ d' f', s.dir.lookup (.dump d') = some f' ∧ f.mtime ≤ f'.mtime := by
  have hu := superseded_of_execution before
  have hs := superseded_of_execution (before.trans after)
  have hapart : Execution (Guarded (Apart host) (StepOf (next host))) u s :=
    after.mono fun _ _ _ step => ⟨step.1.1, step.2⟩
  exact newest_there hs.2 (renamed_of_execution hu.1 hapart (hu.1.dumps d f there))

end Runs

section Sample

/-- `Timely`, as a check of one event. -/
def timely (host : Host) (s : State) : Event → Bool
  | .launch kind => decide (s.nextDump host kind ∉ s.runs.map Run.dump)
  | .act i .find =>
    (s.runs[i]?.bind Run.renamed).all fun f => [Kind.intraday, .nightly, .manual].all fun kind =>
      (keepMinutes host.settings kind).all fun minutes => decide (s.now ≤ f.mtime + minutes * 60)
  | _ => true

theorem timely_of_timely {host : Host} {s : State} {e : Event} (h : timely host s e = true) :
    Timely host s e := by
  constructor
  · rintro kind rfl
    exact of_decide_eq_true h
  · rintro i r f rfl hi hf kind minutes hkeep
    simp only [timely, hi, Option.bind_some, hf, Option.all_some, List.all_cons, List.all_nil,
      Bool.and_true, Bool.and_eq_true] at h
    cases kind with
    | manual => cases hkeep
    | intraday =>
      obtain rfl := Option.some.inj hkeep
      exact of_decide_eq_true h.1
    | nightly =>
      obtain rfl := Option.some.inj hkeep
      exact of_decide_eq_true h.2.1

/-- Archives of one byte: the first lists the calls. -/
def sampleHost : Host where
  settings := ⟨48, 30⟩
  listing content := if content = [1] then "3270; 0 16513 TABLE DATA public calls gw" else ""
  stamp now := toString now

def wholeBackup (i : ℕ) (kind : Kind) : List Event :=
  [.launch kind, .act i (.write [1]), .act i (.dumpExit true), .act i .check,
    .act i (.counts [50] true), .act i .renameCounts, .act i .rename, .act i .find]

def runOf (s : State) (events : List Event) : Option State :=
  runEvents (guardedNext (timely sampleHost) (next sampleHost)) s events

theorem runOf_timely {s t : State} {events : List Event} (h : runOf s events = some t) :
    Execution (Guarded (Timely sampleHost) (StepOf (next sampleHost))) s t :=
  (runEvents_guarded h).mono fun _ _ _ step => ⟨timely_of_timely step.1, step.2⟩

theorem runOf_apart {s t : State} {events : List Event} (h : runOf s events = some t) :
    Execution (Guarded (Apart sampleHost) (StepOf (next sampleHost))) s t :=
  (runOf_timely h).mono fun _ _ _ step => ⟨step.1.1, step.2⟩

/-- A nightly backup that fails two hours after an intraday one. -/
def failingNight : List Event :=
  [.tick 7200, .launch .nightly, .act 1 (.write [2]), .act 1 (.dumpExit true), .act 1 .check,
    .act 1 .remove, .act 1 .remove, .act 1 .kill]

theorem dumps_whole_and_kept_night : ∃ u s, runOf (initial 100) (wholeBackup 0 .intraday) = some u ∧
    runOf u failingNight = some s ∧
    s.dir.lookup (.dump ⟨"100", .intraday⟩) = some ⟨[1], 100⟩ := by
  have hrun : (runOf (initial 100) (wholeBackup 0 .intraday)).any fun u =>
      decide (u.dir.lookup (.dump ⟨"100", .intraday⟩) = some ⟨[1], 100⟩) &&
        (runOf u failingNight).any fun s => decide (s.now = 7300) := by decide +kernel
  obtain ⟨u, hu, hrun⟩ := (Option.any_eq_true _ _).mp hrun
  obtain ⟨there, hnight⟩ := Bool.and_eq_true_iff.mp hrun
  obtain ⟨s, hs, hnow⟩ := (Option.any_eq_true _ _).mp hnight
  refine ⟨u, s, hu, hs, ?_⟩
  refine ((dumps_whole_and_kept (runOf_apart hu) (runOf_apart hs)
    (of_decide_eq_true there)).2 (.inr ?_)).1
  rintro ⟨minutes, hkeep, hold⟩
  obtain rfl : 48 * 60 = minutes := Option.some.inj hkeep
  rw [of_decide_eq_true hnow] at hold
  simp at hold

/-- Three days later the next backup takes the place of the first one. -/
def laterBackup : List Event :=
  .tick 259200 :: wholeBackup 1 .intraday ++
    [.act 1 .remove, .act 1 .remove, .act 1 .remove, .act 1 .touch]

theorem newest_dump_stays_later : ∃ u s,
    runOf (initial 100) (wholeBackup 0 .intraday) = some u ∧ runOf u laterBackup = some s ∧
    s.dir.lookup (.dump ⟨"100", .intraday⟩) = none ∧
    ∃ d' f', s.dir.lookup (.dump d') = some f' ∧ 100 ≤ f'.mtime := by
  have hrun : (runOf (initial 100) (wholeBackup 0 .intraday)).any fun u =>
      decide (u.dir.lookup (.dump ⟨"100", .intraday⟩) = some ⟨[1], 100⟩) &&
        (runOf u laterBackup).any fun s =>
          decide (s.dir.lookup (.dump ⟨"100", .intraday⟩) = none) := by decide +kernel
  obtain ⟨u, hu, hrun⟩ := (Option.any_eq_true _ _).mp hrun
  obtain ⟨there, hlater⟩ := Bool.and_eq_true_iff.mp hrun
  obtain ⟨s, hs, hgone⟩ := (Option.any_eq_true _ _).mp hlater
  exact ⟨u, s, hu, hs, of_decide_eq_true hgone,
    newest_dump_stays (runOf_timely hu) (runOf_timely hs) (of_decide_eq_true there)⟩

end Sample

end BackupSafety
