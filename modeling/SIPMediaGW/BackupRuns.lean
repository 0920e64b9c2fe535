import Mathlib.Data.List.Infix
import SIPMediaGW.FieldMap
import SIPMediaGW.LabelledExecutions

/-! # Backups of the database and their rotation

Several backups may run at once, each a shell script that goes from command to command and may
be killed between two of them. What `pg_dump` and `psql` write is the environment's; what
`pg_restore -l` prints of an archive is a function of its bytes. -/
namespace BackupRuns

open FieldMap

inductive Kind where
  | intraday
  | nightly
  | manual
  deriving DecidableEq, Repr

def Kind.text : Kind → String
  | .intraday => "intraday"
  | .nightly => "nightly"
  | .manual => "manual"

structure DumpName where
  stamp : String
  kind : Kind
  deriving DecidableEq, Repr

/-- The files a backup names, by what they are. -/
inductive Entry where
  | dump (d : DumpName)
  | counts (d : DumpName)
  | part (d : DumpName)
  | partErr (d : DumpName)
  | partCounts (d : DumpName)
  | lastSuccess
  deriving DecidableEq, Repr

/-- `gw_manager-$(date +%Y%m%d-%H%M)-$kind.dump`. -/
def DumpName.path (d : DumpName) : String :=
  "gw_manager-" ++ d.stamp ++ "-" ++ d.kind.text ++ ".dump"

def Entry.path : Entry → String
  | .dump d => d.path
  | .counts d => d.path ++ ".counts"
  | .part d => d.path ++ ".part"
  | .partErr d => d.path ++ ".part" ++ ".err"
  | .partCounts d => d.path ++ ".part" ++ ".counts"
  | .lastSuccess => "last-success"

structure File where
  content : List UInt8
  mtime : ℕ
  deriving DecidableEq, Repr

abbrev Directory := List (Entry × File)

structure Settings where
  keepIntradayHours : ℕ
  keepNightlyDays : ℕ

/-- `-name 'front*back'`. -/
def glob (front back : String) (name : String) : Bool :=
  front.toList.isPrefixOf name.toList && back.toList.isSuffixOf name.toList &&
    decide (front.length + back.length ≤ name.length)

/-- `find -name '…' -mmin +minutes`: strictly older. -/
def findOlder (front back : String) (minutes now : ℕ) (dir : Directory) : List Entry :=
  (keys dir).filter fun e => glob front back e.path &&
    (dir.lookup e).any fun f => decide (f.mtime + minutes * 60 < now)

/-- The two rotations, in the order they are printed. -/
def expiredDumps (cfg : Settings) (now : ℕ) (dir : Directory) : List Entry :=
  findOlder "gw_manager-" "-intraday.dump" (cfg.keepIntradayHours * 60) now dir ++
    findOlder "gw_manager-" "-nightly.dump" (cfg.keepNightlyDays * 1440) now dir

/-- `"$old.counts"`, for the names that the rotations print. -/
def countsOf : Entry → List Entry
  | .dump d => [.counts d]
  | _ => []

/-- `rm -f "$old" "$old.counts"`, name after name. -/
def toRemove (cfg : Settings) (now : ℕ) (dir : Directory) : List Entry :=
  (expiredDumps cfg now dir).flatMap fun e => e :: countsOf e

/-- What the exit trap removes. -/
def leftovers (d : DumpName) : List Entry := [.part d, .partErr d, .partCounts d]

/-- Where a backup stands: the command it runs next. -/
inductive Phase where
  | dumping
  | checking
  | counting
  | renamingCounts
  | renaming
  | finding
  | removing (todo : List Entry)
  | touching
  | leaving (todo : List Entry)
  | done
  deriving DecidableEq, Repr

/-- A backup, with the dump it has put under its name. -/
structure Run where
  dump : DumpName
  phase : Phase
  renamed : Option File
  deriving DecidableEq, Repr

/-- What the next command of one backup does. -/
inductive Action where
  | write (bytes : List UInt8)
  | dumpExit (ok : Bool)
  | check
  | counts (bytes : List UInt8) (ok : Bool)
  | renameCounts
  | rename
  | find
  | remove
  | touch
  | error
  | kill
  deriving DecidableEq, Repr

/-- `pg_restore -l`, and the settings of the environment. -/
structure Host where
  settings : Settings
  listing : List UInt8 → String
  /-- `date +%Y%m%d-%H%M`. -/
  stamp : ℕ → String

section Steps

variable (host : Host)

/-- `grep -q "TABLE DATA public calls "`. -/
def listsCalls (content : List UInt8) : Bool :=
  (host.listing content).toList.tails.any fun rest =>
    "TABLE DATA public calls ".toList.isPrefixOf rest

def Run.fail (r : Run) : Run := { r with phase := .leaving (leftovers r.dump) }

/-- The directory, the backup, and what `pg_dump` has finished, after the next command. -/
def command (now : ℕ) (dir : Directory) (r : Run) :
    Action → Option (Directory × Run × List (List UInt8))
  | .write bytes =>
    match r.phase, dir.lookup (.part r.dump) with
    | .dumping, some f => some (put dir (.part r.dump) ⟨f.content ++ bytes, now⟩, r, [])
    | _, _ => none
  | .dumpExit ok =>
    match r.phase, dir.lookup (.part r.dump) with
    | .dumping, some f =>
      if ok then some (dir, { r with phase := .checking }, [f.content])
      else some (dir, r.fail, [])
    | _, _ => none
  | .check =>
    match r.phase, dir.lookup (.part r.dump) with
    | .checking, some f =>
      if f.content ≠ [] ∧ listsCalls host f.content = true then
        some (dir, { r with phase := .counting }, [])
      else some (dir, r.fail, [])
    | _, _ => none
  | .counts bytes ok =>
    match r.phase with
    | .counting =>
      some (put dir (.partCounts r.dump) ⟨bytes, now⟩,
        if ok then { r with phase := .renamingCounts } else r.fail, [])
    | _ => none
  | .renameCounts =>
    match r.phase, dir.lookup (.partCounts r.dump) with
    | .renamingCounts, some f =>
      some (put (del dir (.partCounts r.dump)) (.counts r.dump) f,
        { r with phase := .renaming }, [])
    | _, _ => none
  | .rename =>
    match r.phase, dir.lookup (.part r.dump) with
    | .renaming, some f =>
      some (put (del dir (.part r.dump)) (.dump r.dump) f,
        { r with phase := .finding, renamed := some f }, [])
    | _, _ => none
  | .find =>
    match r.phase with
    | .finding => some (dir, { r with phase := .removing (toRemove host.settings now dir) }, [])
    | _ => none
  | .remove =>
    match r.phase with
    | .removing (e :: todo) => some (del dir e, { r with phase := .removing todo }, [])
    | .removing [] => some (dir, { r with phase := .touching }, [])
    | .leaving (e :: todo) => some (del dir e, { r with phase := .leaving todo }, [])
    | .leaving [] => some (dir, { r with phase := .done }, [])
    | _ => none
  | .touch =>
    match r.phase with
    | .touching => some (put dir .lastSuccess ⟨[], now⟩, r.fail, [])
    | _ => none
  | .error =>
    match r.phase with
    | .removing _ => some (dir, { r with phase := .touching }, [])
    | .done => none
    | .leaving _ => some (dir, { r with phase := .done }, [])
    | _ => some (dir, r.fail, [])
  | .kill => some (dir, { r with phase := .done }, [])

/-- The clock, the directory, the backups launched so far, and what `pg_dump` has left in its
file each time it ended well. -/
structure State where
  now : ℕ
  dir : Directory
  runs : List Run
  finished : List (List UInt8)

inductive Event where
  | tick (seconds : ℕ)
  | launch (kind : Kind)
  | act (i : ℕ) (a : Action)
  deriving DecidableEq, Repr

def initial (now : ℕ) : State := ⟨now, [], [], []⟩

/-- The name that a backup launched now gives its dump. -/
def State.nextDump (s : State) (kind : Kind) : DumpName := ⟨host.stamp s.now, kind⟩

/-- The redirections of `pg_dump` make its two files before it runs. -/
def next (s : State) : Event → Option State
  | .tick seconds => some { s with now := s.now + seconds }
  | .launch kind =>
    let d := s.nextDump host kind
    some { s with
      dir := put (put s.dir (.part d) ⟨[], s.now⟩) (.partErr d) ⟨[], s.now⟩
      runs := s.runs ++ [⟨d, .dumping, none⟩] }
  | .act i a =>
    match s.runs[i]? with
    | none => none
    | some r =>
      (command host s.now s.dir r a).map fun after =>
        { s with dir := after.1, runs := s.runs.set i after.2.1
                 finished := s.finished ++ after.2.2 }

/-- No two backups give their dump one name: none is launched twice in a minute of one kind. -/
def Apart (s : State) (e : Event) : Prop :=
  ∀ kind, e = .launch kind → s.nextDump host kind ∉ s.runs.map Run.dump

end Steps

section Names

/-- The end of a dump's name, which the rotation of its kind looks for. -/
def Kind.ending (k : Kind) : List Char := '-' :: (k.text.toList ++ ".dump".toList)

def tails : List (List Char) :=
  [[], ".counts".toList, ".part".toList, ".part.err".toList, ".part.counts".toList]

/-- The ends of two names say the same of their kind and of what they are. -/
theorem ending_suffix : ∀ k l : Kind, ∀ t ∈ tails, ∀ u ∈ tails,
    k.ending ++ t <:+ l.ending ++ u → k = l ∧ t = u := by
  intro k l
  cases k <;> cases l <;> decide +kernel

/-- What an entry has after the name of its dump. -/
def Entry.named : Entry → Option (DumpName × List Char)
  | .dump d => some (d, [])
  | .counts d => some (d, ".counts".toList)
  | .part d => some (d, ".part".toList)
  | .partErr d => some (d, ".part.err".toList)
  | .partCounts d => some (d, ".part.counts".toList)
  | .lastSuccess => none

theorem named_injective : Function.Injective Entry.named := by
  intro e f h
  cases e <;> cases f <;> simp [Entry.named] at h <;> simp [h]

theorem path_named {e : Entry} {d : DumpName} {t : List Char} (h : e.named = some (d, t)) :
    e.path.toList = "gw_manager-".toList ++ d.stamp.toList ++ (d.kind.ending ++ t) ∧
      t ∈ tails := by
  cases e <;> simp only [Entry.named, Option.some.injEq, Prod.mk.injEq, reduceCtorEq] at h <;>
    obtain ⟨rfl, rfl⟩ := h <;>
    simp [Entry.path, DumpName.path, Kind.ending, tails, String.toList_append]

theorem named_eq_none {e : Entry} (h : e.named = none) : e = .lastSuccess := by
  cases e <;> simp [Entry.named] at h
  rfl

/-- The pattern of a rotation is met by the dumps of its kind and by nothing else. -/
theorem glob_path (k : Kind) (e : Entry) :
    glob "gw_manager-" ("-" ++ k.text ++ ".dump") e.path = true ↔
      ∃ d, e = .dump d ∧ d.kind = k := by
  have hend : ("-" ++ k.text ++ ".dump").toList = k.ending := by
    simp [Kind.ending, String.toList_append]
  constructor
  · intro h
    simp only [glob, hend, Bool.and_eq_true] at h
    have hback := List.isSuffixOf_iff_suffix.mp h.1.2
    cases hn : e.named with
    | none =>
      rw [named_eq_none hn] at hback
      exact absurd hback (by cases k <;> decide)
    | some n =>
      obtain ⟨d, t⟩ := n
      obtain ⟨hpath, ht⟩ := path_named hn
      have hboth : k.ending ++ [] <:+ d.kind.ending ++ t ∨
          d.kind.ending ++ t <:+ k.ending ++ [] := by
        rw [List.append_nil]
        rw [hpath] at hback
        exact List.suffix_or_suffix_of_suffix hback (List.suffix_append _ _)
      have hsame : d.kind = k ∧ t = [] := by
        rcases hboth with hs | hs
        · obtain ⟨hk, hnil⟩ := ending_suffix _ _ [] (by decide) t ht hs
          exact ⟨hk.symm, hnil.symm⟩
        · exact ending_suffix _ _ t ht [] (by decide) hs
      refine ⟨d, named_injective ?_, hsame.1⟩
      rw [hn, hsame.2]
      rfl
  · rintro ⟨d, rfl, rfl⟩
    obtain ⟨hpath, -⟩ := path_named (e := .dump d) rfl
    rw [List.append_nil] at hpath
    have hfront : "gw_manager-".toList <+: (Entry.dump d).path.toList := by
      rw [hpath, List.append_assoc]
      exact List.prefix_append _ _
    have hback : d.kind.ending <:+ (Entry.dump d).path.toList := by
      rw [hpath]
      exact List.suffix_append _ _
    have hfit : "gw_manager-".length + ("-" ++ d.kind.text ++ ".dump").length ≤
        (Entry.dump d).path.length := by
      rw [← String.length_toList (s := (Entry.dump d).path), hpath, ← String.length_toList,
        ← String.length_toList, hend]
      simp only [List.length_append]
      omega
    simp only [glob, hend, Bool.and_eq_true, decide_eq_true_eq]
    exact ⟨⟨List.isPrefixOf_iff_prefix.mpr hfront, List.isSuffixOf_iff_suffix.mpr hback⟩, hfit⟩



end Names

end BackupRuns
