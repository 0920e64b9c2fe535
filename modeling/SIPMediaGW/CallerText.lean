import SIPMediaGW.CallUrl
import SIPMediaGW.LineMarks

/-! # What a caller writes, and the record of the call

`logParse` looks for its marks anywhere in a line before it reads the line as an event. The lines
of the events quote what the caller wrote. -/
namespace CallerText

open FieldMap
open LineMarks
open LogParser
open PythonJson

/-- An event of the control socket: no field name has an apostrophe, and the events of a call are
of its class. -/
structure PrintedEvent where
  dict : Dict
  eventType : String
  literal : PythonLiterals.Literal (.obj dict)
  plain : ∀ m ∈ dict, '\'' ∉ m.1.toList
  type_eq : field dict "type" = .str eventType
  class_call : strip eventType = "CALL_ESTABLISHED" ∨ strip eventType = "CALL_CLOSED" →
    field dict "class" = .str "call"

/-- A text without line breaks. -/
structure Echo where
  chars : List Char
  unbroken : ∀ c ∈ chars, isLineEnd c = false

/-- What `event_handler` prints. -/
inductive Printed where
  | event (e : PrintedEvent)
  | chatMessage (text : Echo)
  | chatAction (text : Echo)
  | dtmf (param : Echo)

def Printed.raw (tables : PythonLiterals.Tables) : Printed → List Char
  | .event e => PythonLiterals.repr tables (.obj e.dict) ++ ['\n']
  | .chatMessage text => "Received chat message: ".toList ++ text.chars ++ ['\n']
  | .chatAction text => "Received chat action: ".toList ++ text.chars ++ ['\n']
  | .dtmf param => "Received DTMF:".toList ++ param.chars ++ ['\n']

theorem raw_event (tables : PythonLiterals.Tables) (e : PrintedEvent) :
    (Printed.event e).raw tables = PythonLiterals.repr tables (.obj e.dict) ++ ['\n'] := rfl

structure Entry where
  now : ℤ
  printed : Printed

/-- The strings of an event that the caller chooses: a name, a user agent, the user of a URI. -/
inductive CallerField : String → Json → Json → Prop where
  | displayName (a b : String) : CallerField "peerdisplayname" (.str a) (.str b)
  | userAgent (a b : String) : CallerField "peeruseragent" (.str a) (.str b)
  | user (scheme a b host : String) :
      CallerField "peeruri" (.str (scheme ++ a ++ host)) (.str (scheme ++ b ++ host))

def SameFields (d d' : Dict) : Prop :=
  List.Forall₂ (fun m m' => m.1 = m'.1 ∧ (m.2 = m'.2 ∨ CallerField m.1 m.2 m'.2)) d d'

inductive SameButCaller : Printed → Printed → Prop where
  | event {e e' : PrintedEvent} (h : SameFields e.dict e'.dict) :
      SameButCaller (.event e) (.event e')
  | chatMessage (text text' : Echo) : SameButCaller (.chatMessage text) (.chatMessage text')
  | chatAction (text : Echo) : SameButCaller (.chatAction text) (.chatAction text)
  | dtmf (param : Echo) : SameButCaller (.dtmf param) (.dtmf param)

/-- Two streams that differ, place by place, in what the caller wrote. -/
structure TwoStreams where
  first : List Entry
  second : List Entry
  same : List.Forall₂ (fun l l' => SameButCaller l.printed l'.printed) first second

theorem TwoStreams.same_take (n : ℕ) (streams : TwoStreams) :
    List.Forall₂ (fun l l' => SameButCaller l.printed l'.printed) (streams.first.take n)
      (streams.second.take n) := List.forall₂_take n streams.same

/-- The two streams up to a place. -/
def TwoStreams.take (n : ℕ) (streams : TwoStreams) : TwoStreams :=
  ⟨streams.first.take n, streams.second.take n, streams.same_take n⟩

section Streams

variable (env : Environment)

def logOf (stream : List Entry) : List LogLine :=
  stream.map fun l => ⟨l.printed.raw env.tables, l.now⟩

def appended (stream : List Entry) : List Record := records (main env "Event" (logOf env stream))

def steeringTypes : List String := ["room", "browsing", "encoder"]

/-- The records of the room, the platform and the encoders. -/
def steering (rs : List Record) : List Record :=
  rs.filter fun r => decide (r.recordType ∈ steeringTypes)

def PrintedEvent.id (e : PrintedEvent) : String := fieldText env e.dict "id"

def PrintedEvent.Established (e : PrintedEvent) : Prop := strip e.eventType = "CALL_ESTABLISHED"

def PrintedEvent.Closed (e : PrintedEvent) : Prop := strip e.eventType = "CALL_CLOSED"

/-- No event before closed a call of the same id. -/
def ClosesAnew (before : List Entry) (e : PrintedEvent) : Prop :=
  e.Closed ∧ ∀ l ∈ before, ∀ e', l.printed = .event e' → e'.Closed → e'.id env ≠ e.id env

/-- The types of the records that the last line appends. -/
def AppendsTypes (before : List Entry) (l : Entry) (types : List String) : Prop :=
  ∃ rs : List Record, appended env (before ++ [l]) = appended env before ++ rs ∧
    rs.map Record.recordType = types

/-- Every call that is established or that closes is in the record. -/
structure LifecycleRecorded (stream : List Entry) : Prop where
  established : ∀ before l after e, stream = before ++ l :: after → l.printed = .event e →
    e.Established → AppendsTypes env before l ["call_start"]
  closed : ∀ before l after e, stream = before ++ l :: after → l.printed = .event e →
    ClosesAnew env before e → AppendsTypes env before l ["call_closed", "call_end"]

/-- What the caller wrote does not steer the record of the call. -/
structure TwoStreams.Unsteered (streams : TwoStreams) : Prop where
  same : steering (appended env streams.first) = steering (appended env streams.second)
  first : LifecycleRecorded env streams.first
  second : LifecycleRecorded env streams.second

/-- The line that the parser sees of what was printed. -/
def lineOf (l : Entry) : List Char := (cleanLines (l.printed.raw env.tables)).headD []

/-- Whether a gateway start was logged before. -/
def started (stream : List Entry) : Bool :=
  (stdin (logOf env stream)).any fun l => contains "Web browsing URL:" l.2

/-- A line of the lifecycle has none of the marks. -/
def LifecycleUnmarked (stream : List Entry) : Prop :=
  ∀ before l after e, stream = before ++ l :: after → l.printed = .event e →
    e.Established ∨ ClosesAnew env before e → Unmarked (started env before) (lineOf env l)

/-- The lines of one place have the same mark and the same text after it, or none has a mark; and
no line of the lifecycle has one. -/
structure TwoStreams.MarkedAlike (streams : TwoStreams) : Prop where
  same : ∀ before l after before' l' after', streams.first = before ++ l :: after →
    streams.second = before' ++ l' :: after' → before.length = before'.length → ∀ c,
      Marked (started env before) (lineOf env l) c ↔
        Marked (started env before') (lineOf env l') c
  first : LifecycleUnmarked env streams.first
  second : LifecycleUnmarked env streams.second

end Streams

section Lines

variable {cs line : List Char}

theorem stripAnsi_of_notMem (h : escapeCode ∉ cs) : stripAnsi 0 cs = cs := by
  induction cs with
  | nil => rfl
  | cons c cs ih =>
    obtain ⟨hc, hcs⟩ := not_or.mp (mt List.mem_cons.mpr h)
    rw [stripAnsi, if_neg (Ne.symm hc), ih hcs]

theorem stripAnsi_sublist (skip : ℕ) (cs : List Char) : (stripAnsi skip cs).Sublist cs := by
  induction cs generalizing skip with
  | nil => cases skip <;> exact List.Sublist.slnil
  | cons c cs ih =>
    cases skip with
    | succ skip => exact (ih skip).cons c
    | zero =>
      unfold stripAnsi
      split
      · split
        · exact (ih _).cons c
        · exact (ih 0).cons_cons c
      · exact (ih 0).cons_cons c

theorem isLineEnd_return : isLineEnd '\r' = true := by decide

/-- Without a carriage return, none becomes a new line. -/
theorem map_return (h : '\r' ∉ cs) : cs.map (fun c => if c = '\r' then '\n' else c) = cs := by
  refine (List.map_congr_left fun c hc => if_neg ?_).trans (List.map_id' cs)
  rintro rfl
  exact h hc

/-- A printed line that nothing has to be taken out of. -/
structure Clean (line : List Char) : Prop where
  nonempty : line ≠ []
  stripped : stripChars isSpace line = line
  chars : ∀ c ∈ line, c ≠ escapeCode ∧ c ≠ Char.ofNat 8 ∧ isLineEnd c = false

theorem Clean.notMem_return (h : Clean line) : '\r' ∉ line := by
  intro hmem
  have hfalse := (h.chars '\r' hmem).2.2
  rw [isLineEnd_return] at hfalse
  cases hfalse

theorem cleanLines_of_clean (h : Clean line) : cleanLines (line ++ ['\n']) = [line] := by
  have hescape : escapeCode ∉ line ++ ['\n'] := by
    intro hmem
    rcases List.mem_append.mp hmem with hmem | hmem
    · exact (h.chars _ hmem).1 rfl
    · exact absurd (List.mem_singleton.mp hmem) (by decide)
  have hback : (line ++ ['\n']).filter (· ≠ Char.ofNat 8) = line ++ ['\n'] := by
    refine List.filter_eq_self.mpr fun c hc => decide_eq_true ?_
    rcases List.mem_append.mp hc with hc | hc
    · exact (h.chars c hc).2.1
    · rw [List.mem_singleton.mp hc]
      decide
  have hreturn : '\r' ∉ line ++ ['\n'] := by
    intro hmem
    rcases List.mem_append.mp hmem with hmem | hmem
    · exact h.notMem_return hmem
    · exact absurd (List.mem_singleton.mp hmem) (by decide)
  have hlines : (line ++ ['\n']).splitOnP isLineEnd = [line, []] :=
    List.splitOnP_append_cons_of_forall_mem (fun c hc => (h.chars c hc).2.2) '\n' (by decide) []
  rw [cleanLines, stripAnsi_of_notMem hescape]
  rw [hback, map_return hreturn, hlines, List.map_cons, h.stripped]
  have hempty : stripChars isSpace [] = [] := rfl
  simp [hempty, h.nonempty]

/-- A text that has no break inside is one line, and keeps its first character. -/
theorem cleanLines_word {c : Char} {text : List Char} (hcode : c ≠ escapeCode)
    (hback : c ≠ Char.ofNat 8) (hblank : isSpace c = false) (hend : isLineEnd c = false)
    (htext : ∀ d ∈ text, isLineEnd d = false) :
    ∃ rest, cleanLines (c :: text ++ ['\n']) = [c :: rest] := by
  have hreturn : c ≠ '\r' := by
    rintro rfl
    rw [isLineEnd_return] at hend
    cases hend
  -- What is left of the text, and of the line break after it.
  obtain ⟨left, stop, hsplit, hleft, hstop⟩ := List.sublist_append_iff.mp
    (((List.filter_sublist (p := (· ≠ Char.ofNat 8))).trans
      (stripAnsi_sublist 0 (text ++ ['\n']))))
  have hplain : ∀ d ∈ c :: left, isLineEnd d = false :=
    List.forall_mem_cons.mpr ⟨hend, fun d hd => htext d (hleft.subset hd)⟩
  have hnone : '\r' ∉ c :: left ++ stop := by
    intro hmem
    rcases List.mem_append.mp hmem with hmem | hmem
    · exact absurd (hplain _ hmem) (by decide)
    · exact absurd (List.mem_singleton.mp (hstop.subset hmem)) (by decide)
  have hfilter : (c :: stripAnsi 0 (text ++ ['\n'])).filter (· ≠ Char.ofNat 8) =
      c :: left ++ stop := by
    rw [List.filter_cons, if_pos (decide_eq_true hback), hsplit, List.cons_append]
  -- Blanks go at the ends, so that the first character stays.
  have hfirst : ∃ rest, stripChars isSpace (c :: left) = c :: rest := by
    rw [stripChars, List.dropWhile_cons_of_neg (by simp [hblank])]
    cases hstripped : (c :: left).rdropWhile isSpace with
    | nil =>
      have hall := List.rdropWhile_eq_nil_iff.mp hstripped c List.mem_cons_self
      rw [hblank] at hall
      cases hall
    | cons d ds =>
      obtain ⟨tail, htail⟩ := List.rdropWhile_prefix isSpace (c :: left)
      rw [hstripped] at htail
      exact ⟨ds, by rw [(List.cons.inj htail).1]⟩
  obtain ⟨rest, hrest⟩ := hfirst
  have hempty : stripChars isSpace [] = [] := rfl
  refine ⟨rest, ?_⟩
  rw [cleanLines, List.cons_append, stripAnsi, if_neg hcode, hfilter, map_return hnone]
  rcases List.sublist_singleton.mp hstop with rfl | rfl
  · rw [List.append_nil, List.splitOnP_eq_singleton hplain]
    simp [hrest]
  · rw [List.splitOnP_append_cons_of_forall_mem hplain '\n' (by decide)]
    simp [hrest, hempty]

theorem stripChars_of_ends {blank : Char → Bool} {c d : Char} (hc : blank c = false)
    (hd : blank d = false) (cs : List Char) :
    stripChars blank (c :: cs ++ [d]) = c :: cs ++ [d] := by
  have hfront : (c :: cs ++ [d]).dropWhile blank = c :: cs ++ [d] := by
    rw [List.cons_append, List.dropWhile_cons_of_neg (by simp [hc])]
  rw [stripChars, hfront]
  exact List.rdropWhile_concat_neg _ _ _ (by simp [hd])

end Lines

section Events

variable {env : Environment} {tables : PythonLiterals.Tables}

theorem repr_obj (d : Dict) : PythonLiterals.repr tables (.obj d) =
    '{' :: BracketTexts.printMembers (d.map fun m =>
      (PythonLiterals.quoted tables.chars m.1, PythonLiterals.toRaw tables m.2)) ++ ['}'] := by
  rw [PythonLiterals.repr, PythonLiterals.toRaw, PythonLiterals.toRawMembers_eq,
    BracketTexts.Raw.print]

theorem quoted_plain {s : String} (h : '\'' ∉ s.toList) :
    (PythonLiterals.quoted tables.chars s).quote = '\'' :=
  if_neg fun hboth => h hboth.1

theorem quoted_type : (PythonLiterals.quoted tables.chars "type").print = "'type'".toList := by
  have hescape (c : Char) (hc : c ∈ "type".toList) :
      PythonLiterals.escapeChar tables.chars '\'' c = [c] := by
    have hvisible : tables.chars.isprintable c = true :=
      PythonLiterals.isprintable_of_all "type".toList (by decide) hc
    have hplain : ∀ d ∈ "type".toList,
        ¬ (d = '\'' ∨ d = '\\') ∧ d ≠ '\t' ∧ d ≠ '\n' ∧ d ≠ '\r' := by simp
    obtain ⟨hquote, htab, hfeed, hreturn⟩ := hplain c hc
    rw [PythonLiterals.escapeChar, if_neg hquote, if_neg htab, if_neg hfeed, if_neg hreturn,
      if_pos hvisible]
  have hbody : "type".toList.flatMap (PythonLiterals.escapeChar tables.chars '\'') =
      "type".toList :=
    (List.flatMap_congr hescape).trans (List.flatMap_singleton' _)
  have hquote : PythonLiterals.quoteOf "type".toList = '\'' := by decide
  rw [PythonLiterals.quoted, hquote, hbody]
  rfl

variable (e : PrintedEvent)

theorem PrintedEvent.type_mem : ∃ m ∈ e.dict, m.1 = "type" := by
  have hfield := e.type_eq
  rw [field] at hfield
  cases hlookup : e.dict.lookup "type" with
  | none =>
    rw [hlookup] at hfield
    cases hfield
  | some v =>
    have hkey : "type" ∈ keys e.dict := (mem_keys_iff e.dict "type").mpr (by rw [hlookup]; rfl)
    exact List.mem_map.mp hkey

variable (tables)

theorem PrintedEvent.contains_type :
    contains "'type'" (PythonLiterals.repr tables (.obj e.dict)) = true := by
  obtain ⟨m, hm, htype⟩ := e.type_mem
  have hprinted := BracketTexts.key_infix_printMembers (List.mem_map_of_mem
    (f := fun m : String × Json => (PythonLiterals.quoted tables.chars m.1,
      PythonLiterals.toRaw tables m.2)) hm)
  rw [htype, quoted_type] at hprinted
  rw [contains, isSome_after_iff, repr_obj]
  exact hprinted.trans (List.infix_append ['{'] _ ['}'])

/-- The first field name is in single quotes. -/
theorem PrintedEvent.repr_front : ∃ cs,
    PythonLiterals.repr tables (.obj e.dict) = '{' :: '\'' :: cs := by
  obtain ⟨m, hm, -⟩ := e.type_mem
  obtain ⟨m₀, d, hd⟩ := List.exists_cons_of_ne_nil (List.ne_nil_of_mem hm)
  have hplain : '\'' ∉ m₀.1.toList := e.plain m₀ (by rw [hd]; exact List.mem_cons_self)
  obtain ⟨rest, hprint, -⟩ := BracketTexts.printMembers_cons
    (PythonLiterals.quoted tables.chars m₀.1, PythonLiterals.toRaw tables m₀.2)
    (d.map fun m => (PythonLiterals.quoted tables.chars m.1, PythonLiterals.toRaw tables m.2))
  rw [repr_obj, hd, List.map_cons, hprint, BracketTexts.Quoted.print, quoted_plain hplain]
  exact ⟨_, rfl⟩

theorem PrintedEvent.clean : Clean (PythonLiterals.repr tables (.obj e.dict)) where
  nonempty := by
    obtain ⟨cs, hfront⟩ := e.repr_front tables
    rw [hfront]
    exact List.cons_ne_nil _ _
  stripped := by
    rw [repr_obj]
    exact stripChars_of_ends rfl rfl _
  chars c hc := by
    have hvisible := PythonLiterals.isprintable_repr e.literal c hc
    have hlow (h : c.toNat < 32) : False := by
      rw [tables.chars.ascii c (by omega), decide_eq_false (by omega), Bool.false_and] at hvisible
      cases hvisible
    refine ⟨?_, ?_, Bool.eq_false_iff.mpr fun hend => ?_⟩
    · rintro rfl
      exact hlow (by decide)
    · rintro rfl
      exact hlow (by decide)
    · have hspace : c ≠ ' ' := by
        rintro rfl
        exact absurd hend (by decide)
      have hblank : isSpace c = true := by
        simp only [isLineEnd, decide_eq_true_eq, List.mem_cons, List.not_mem_nil, or_false] at hend
        simp only [isSpace, Bool.or_eq_true, Bool.and_eq_true, decide_eq_true_eq, beq_iff_eq]
        omega
      rw [tables.chars.blank c hblank hspace] at hvisible
      cases hvisible

/-- What `event_handler` printed is what the parser reads. -/
theorem PrintedEvent.parseEventDict_repr :
    parseEventDict env (PythonLiterals.repr env.tables (.obj e.dict)) = some e.dict := by
  obtain ⟨cs, hfront⟩ := e.repr_front env.tables
  have hevent :
      afterFront "Event:".toList (PythonLiterals.repr env.tables (.obj e.dict)) = none := by
    rw [hfront]
    rfl
  have hlast : (PythonLiterals.repr env.tables (.obj e.dict)).getLast? = some '}' := by
    rw [repr_obj]
    exact List.getLast?_concat
  have hjson : JsonTexts.loads env.floatOf true (PythonLiterals.repr env.tables (.obj e.dict)) =
      none := by
    rw [hfront]
    exact JsonTexts.loads_single_quoted _ _ _
  have hliteral := PythonLiterals.literalEval_repr (t := env.tables) e.literal
  rw [parseEventDict, (e.clean env.tables).stripped, hevent]
  dsimp only
  rw [if_pos ⟨by rw [hfront]; rfl, hlast⟩, if_pos (by rw [e.contains_type]; rfl), hjson, hliteral]
  rfl

theorem PrintedEvent.dtmfMatch_repr :
    dtmfMatch (PythonLiterals.repr env.tables (.obj e.dict)) = none := by
  obtain ⟨cs, hfront⟩ := e.repr_front env.tables
  rw [hfront]
  rfl

end Events

section Runs

variable {env : Environment} {st : State} {now : ℤ} {line : List Char}

theorem steering_append (rs rs' : List Record) :
    steering (rs ++ rs') = steering rs ++ steering rs' := List.filter_append _ _

theorem records_append (as as' : List Action) :
    records (as ++ as') = records as ++ records as' := List.filterMap_append

theorem runLines_cons (pref : String) (st : State) (l : ℤ × List Char)
    (lines : List (ℤ × List Char)) :
    runLines env pref st (l :: lines) =
      ((runLines env pref (onLine env pref st l.1 l.2).1 lines).1,
        (onLine env pref st l.1 l.2).2 ++
          (runLines env pref (onLine env pref st l.1 l.2).1 lines).2) := rfl

theorem runLines_append (pref : String) (st : State) (lines lines' : List (ℤ × List Char)) :
    runLines env pref st (lines ++ lines') =
      ((runLines env pref (runLines env pref st lines).1 lines').1,
        (runLines env pref st lines).2 ++
          (runLines env pref (runLines env pref st lines).1 lines').2) := by
  induction lines generalizing st with
  | nil => rfl
  | cons l lines ih => rw [List.cons_append, runLines_cons, runLines_cons, ih, List.append_assoc]

/-- What an uncaptured line can do: the marks are left alone, and an id is kept only for an event
that closes. -/
structure Passes (env : Environment) (st : State) (line : List Char)
    (result : State × List Action) : Prop where
  started : result.1.gwStartLogged = st.gwStartLogged
  steering : steering (records result.2) = []
  closing : result.1.lastFinalCallId = st.lastFinalCallId ∨
    ∃ event, parseEventDict env line = some event ∧
      fieldText env event "type" = "CALL_CLOSED" ∧
      result.1.lastFinalCallId = some (fieldText env event "id")

theorem passes_of_state {actions : List Action} (h : steering (records actions) = []) :
    Passes env st line (st, actions) := ⟨rfl, h, Or.inl rfl⟩

theorem onCallEvent_passes {event : Dict} (hparse : parseEventDict env line = some event) :
    Passes env st line (onCallEvent env st now event) := by
  unfold onCallEvent
  dsimp only
  split
  · exact passes_of_state rfl
  split
  · exact passes_of_state rfl
  next hclosed =>
    split
    · exact passes_of_state rfl
    · refine ⟨rfl, rfl, ?_⟩
      dsimp only
      by_cases hid : fieldText env event "id" = ""
      · left
        rw [if_pos hid]
      · right
        rw [if_neg hid]
        exact ⟨event, hparse, not_not.mp hclosed, rfl⟩

theorem onEventLine_passes : Passes env st line (onEventLine env st now line) := by
  unfold onEventLine
  split
  · exact passes_of_state rfl
  split
  · exact passes_of_state rfl
  next event hparse =>
    split
    · exact passes_of_state rfl
    split
    · exact onCallEvent_passes hparse
    · exact passes_of_state rfl

theorem onLine_of_capture {c : Capture} (h : capture st.gwStartLogged line = some c) :
    onLine env "Event" st now line =
      ({ st with gwStartLogged := st.gwStartLogged || c.isGwStart },
        [.appendHistory (c.record env now)]) := by
  rw [onLine, h]

theorem onLine_of_none (h : capture st.gwStartLogged line = none) :
    onLine env "Event" st now line = onEventLine env st now line := by
  rw [onLine, h]
  rfl

/-- The first test takes every line with the URL mark until it has taken one. -/
theorem capture_started {logged : Bool} {c : Capture} (h : capture logged line = some c) :
    (logged || c.isGwStart) = (logged || contains "Web browsing URL:" line) := by
  cases logged with
  | true => rfl
  | false =>
    unfold capture at h
    cases hurl : contains "Web browsing URL:" line with
    | true =>
      rw [hurl] at h
      obtain rfl := Option.some.inj h
      rfl
    | false =>
      rw [hurl] at h
      simp only [Bool.not_false, Bool.and_false, Bool.false_eq_true, if_false] at h
      split at h
      · obtain rfl := Option.some.inj h
        rfl
      split at h
      · obtain rfl := Option.some.inj h
        rfl
      · obtain ⟨rest, -, rfl⟩ := Option.map_eq_some_iff.mp h
        rfl

theorem capture_none_started {logged : Bool} (h : capture logged line = none) :
    (logged || contains "Web browsing URL:" line) = logged := by
  unfold capture at h
  split at h
  · cases h
  · next hurl =>
    cases logged with
    | true => rfl
    | false => simpa using hurl

theorem onLine_started : (onLine env "Event" st now line).1.gwStartLogged =
    (st.gwStartLogged || contains "Web browsing URL:" line) := by
  cases h : capture st.gwStartLogged line with
  | some c =>
    rw [onLine_of_capture h]
    exact capture_started h
  | none => rw [onLine_of_none h, onEventLine_passes.started, capture_none_started h]

theorem onLine_closing (env : Environment) (st : State) (now : ℤ) (line : List Char) :
    (onLine env "Event" st now line).1.lastFinalCallId = st.lastFinalCallId ∨
    ∃ event, parseEventDict env line = some event ∧
      fieldText env event "type" = "CALL_CLOSED" ∧
      (onLine env "Event" st now line).1.lastFinalCallId = some (fieldText env event "id") := by
  cases h : capture st.gwStartLogged line with
  | some c =>
    rw [onLine_of_capture h]
    exact Or.inl rfl
  | none =>
    rw [onLine_of_none h]
    exact onEventLine_passes.closing

theorem runLines_started (lines : List (ℤ × List Char)) :
    (runLines env "Event" st lines).1.gwStartLogged =
      (st.gwStartLogged || lines.any fun l => contains "Web browsing URL:" l.2) := by
  induction lines generalizing st with
  | nil => exact (Bool.or_false _).symm
  | cons l lines ih =>
    obtain ⟨now, line⟩ := l
    rw [runLines, ih, onLine_started, List.any_cons, Bool.or_assoc]

/-- The id of the last close is that of a line that was read as one. -/
theorem runLines_closing {lines : List (ℤ × List Char)} {id : String}
    (h : (runLines env "Event" st lines).1.lastFinalCallId = some id) :
    st.lastFinalCallId = some id ∨ ∃ l ∈ lines, ∃ event, parseEventDict env l.2 = some event ∧
      fieldText env event "type" = "CALL_CLOSED" ∧ fieldText env event "id" = id := by
  induction lines generalizing st with
  | nil => exact Or.inl h
  | cons l lines ih =>
    obtain ⟨now, line⟩ := l
    rcases ih h with hlast | ⟨l, hl, hevent⟩
    · rcases onLine_closing env st now line with
        hsame | ⟨event, hparse, htype, hid⟩
      · exact Or.inl (hsame.symm.trans hlast)
      · exact Or.inr ⟨(now, line), List.mem_cons_self, event, hparse, htype,
          Option.some.inj (hid.symm.trans hlast)⟩
    · exact Or.inr ⟨l, List.mem_cons_of_mem _ hl, hevent⟩

theorem steering_capture (c : Capture) : steering [c.record env now] =
    (((some c).filter fun c => !c.isGwStart).map (Capture.record env 0)).toList := by
  cases c with
  | _ => rfl

/-- A line adds the record of its mark to those of the room, the platform and the encoders. -/
theorem onLine_steering (st : State) (now : ℤ) (line : List Char) :
    steering (records (onLine env "Event" st now line).2) =
      (((capture st.gwStartLogged line).filter fun c => !c.isGwStart).map
        (Capture.record env 0)).toList := by
  cases h : capture st.gwStartLogged line with
  | some c =>
    have hone : records [.appendHistory (c.record env now)] = [c.record env now] := rfl
    rw [onLine_of_capture h, hone, steering_capture]
  | none =>
    rw [onLine_of_none h, onEventLine_passes.steering]
    rfl

end Runs

section Streams

variable {env : Environment} {before : List Entry} {l : Entry} {e : PrintedEvent}

def stateAfter (env : Environment) (stream : List Entry) : State :=
  (runLines env "Event" .start (stdin (logOf env stream))).1

theorem stateAfter_started : (stateAfter env before).gwStartLogged = started env before :=
  (runLines_started _).trans (Bool.false_or _)

theorem appended_append : appended env (before ++ [l]) = appended env before ++
    records (runLines env "Event" (stateAfter env before) (stdin (logOf env [l]))).2 := by
  have hstdin : stdin (logOf env (before ++ [l])) =
      stdin (logOf env before) ++ stdin (logOf env [l]) := by
    rw [logOf, List.map_append, stdin, List.flatMap_append]
    rfl
  rw [appended, main, hstdin, runLines_append, records_append]
  rfl

/-- The other lines start with a word. -/
theorem raw_cases (env : Environment) (p : Printed) : (∃ e, p = .event e) ∨ ∃ text : List Char,
    p.raw env.tables = 'R' :: text ++ ['\n'] ∧ ∀ c ∈ text, isLineEnd c = false := by
  have hword (word : List Char) (hword : word.all (fun c => !isLineEnd c) = true) (text : Echo) :
      ∀ c ∈ word ++ text.chars, isLineEnd c = false := by
    intro c hc
    rcases List.mem_append.mp hc with hc | hc
    · simpa using List.all_eq_true.mp hword c hc
    · exact text.unbroken c hc
  cases p with
  | event e => exact Or.inl ⟨e, rfl⟩
  | chatMessage text =>
    exact Or.inr ⟨_, rfl, hword "eceived chat message: ".toList (by decide) text⟩
  | chatAction text => exact Or.inr ⟨_, rfl, hword "eceived chat action: ".toList (by decide) text⟩
  | dtmf param => exact Or.inr ⟨_, rfl, hword "eceived DTMF:".toList (by decide) param⟩

theorem cleanLines_event (h : l.printed = .event e) : cleanLines (l.printed.raw env.tables) =
    [PythonLiterals.repr env.tables (.obj e.dict)] := by
  rw [h, raw_event]
  exact cleanLines_of_clean (e.clean env.tables)

theorem lineOf_event (h : l.printed = .event e) :
    lineOf env l = PythonLiterals.repr env.tables (.obj e.dict) := by
  rw [lineOf, cleanLines_event h]
  rfl

/-- What is printed is one line. -/
theorem stdin_line (env : Environment) (l : Entry) :
    stdin (logOf env [l]) = [(l.now, lineOf env l)] := by
  have hone : ∃ line, cleanLines (l.printed.raw env.tables) = [line] := by
    rcases raw_cases env l.printed with ⟨e, he⟩ | ⟨text, hraw, htext⟩
    · exact ⟨_, cleanLines_event he⟩
    · rw [hraw]
      obtain ⟨rest, hrest⟩ := cleanLines_word (c := 'R') (by decide) (by decide) rfl rfl htext
      exact ⟨_, hrest⟩
  obtain ⟨line, hline⟩ := hone
  have hstdin : stdin (logOf env [l]) =
      (cleanLines (l.printed.raw env.tables)).map fun line => (l.now, line) :=
    List.append_nil _
  rw [hstdin, lineOf, hline]
  rfl

theorem appended_snoc (before : List Entry) (l : Entry) :
    appended env (before ++ [l]) = appended env before ++
      records (onLine env "Event" (stateAfter env before) l.now (lineOf env l)).2 := by
  rw [appended_append, stdin_line, runLines_cons]
  exact congrArg (fun as => appended env before ++ records as) (List.append_nil _)

theorem appendsTypes_iff {types : List String} : AppendsTypes env before l types ↔
    (records (onLine env "Event" (stateAfter env before) l.now (lineOf env l)).2).map
      Record.recordType = types := by
  constructor
  · rintro ⟨rs, happend, htypes⟩
    rw [appended_snoc] at happend
    rw [List.append_cancel_left happend, htypes]
  · exact fun htypes => ⟨_, appended_snoc before l, htypes⟩

theorem parseEventDict_of_head {c : Char} {line : List Char} (hhead : line.head? = some c)
    (hblank : isSpace c = false) (hevent : c ≠ 'E') (hbrace : c ≠ '{') :
    parseEventDict env line = none := by
  obtain ⟨rest, rfl⟩ : ∃ rest, line = c :: rest := by
    cases line with
    | nil => cases hhead
    | cons d rest => exact ⟨rest, by rw [Option.some.inj hhead]⟩
  have hstrip : stripChars isSpace (c :: rest) <+: c :: rest := by
    rw [stripChars, List.dropWhile_cons_of_neg (by simp [hblank])]
    exact List.rdropWhile_prefix isSpace _
  have hfront : afterFront "Event:".toList (stripChars isSpace (c :: rest)) = none := by
    refine if_neg fun hpre => hevent ?_
    obtain ⟨tail, htail⟩ := hpre.trans hstrip
    exact (List.cons.inj htail).1.symm
  have hopen : (stripChars isSpace (c :: rest)).head? ≠ some '{' := by
    intro hopen
    obtain ⟨tail, htail⟩ := hstrip
    cases hstripped : stripChars isSpace (c :: rest) with
    | nil =>
      rw [hstripped] at hopen
      cases hopen
    | cons d ds =>
      rw [hstripped] at hopen htail
      obtain rfl := Option.some.inj hopen
      exact hbrace (List.cons.inj htail).1.symm
  rw [parseEventDict, hfront]
  exact if_neg fun hboth => hopen hboth.1

/-- The events that the parser reads are those that were printed. -/
theorem printed_of_parse {stream : List Entry} {line : ℤ × List Char} {event : Dict}
    (hline : line ∈ stdin (logOf env stream)) (hparse : parseEventDict env line.2 = some event) :
    ∃ l ∈ stream, ∃ e, l.printed = .event e ∧ e.dict = event := by
  obtain ⟨logLine, hlog, hclean⟩ := List.mem_flatMap.mp hline
  obtain ⟨l, hl, rfl⟩ := List.mem_map.mp hlog
  obtain ⟨clean, hmem, rfl⟩ := List.mem_map.mp hclean
  dsimp only at hmem hparse
  rcases raw_cases env l.printed with ⟨e, he⟩ | ⟨text, hraw, htext⟩
  · rw [he, raw_event, cleanLines_of_clean (e.clean env.tables)] at hmem
    rw [List.mem_singleton.mp hmem, e.parseEventDict_repr] at hparse
    exact ⟨l, hl, e, he, Option.some.inj hparse⟩
  · obtain ⟨rest, hrest⟩ := cleanLines_word (c := 'R') (by decide) (by decide) rfl rfl htext
    rw [hraw, hrest] at hmem
    have hhead : clean.head? = some 'R' := by
      rw [List.mem_singleton.mp hmem]
      rfl
    rw [parseEventDict_of_head hhead (by decide) (by decide) (by decide)] at hparse
    cases hparse

theorem PrintedEvent.fieldText_type (e : PrintedEvent) :
    fieldText env e.dict "type" = strip e.eventType := by
  rw [fieldText, e.type_eq, HistoryPayload.orElse]
  split
  · rfl
  · next hempty =>
    have hnil : e.eventType = "" := by simpa [truthy] using hempty
    rw [hnil]
    rfl

theorem ClosesAnew.id_ne_last (h : ClosesAnew env before e) :
    ¬ (e.id env ≠ "" ∧ some (e.id env) = (stateAfter env before).lastFinalCallId) := by
  rintro ⟨-, hlast⟩
  rcases runLines_closing hlast.symm with hnone | ⟨line, hline, event, hparse, htype, hid⟩
  · cases hnone
  · obtain ⟨l, hl, e', hprinted, rfl⟩ := printed_of_parse hline hparse
    exact h.2 l hl e' hprinted (e'.fieldText_type.symm.trans htype) hid

/-- Past the marks, an event of a call reaches its branch. -/
theorem onLine_call {st : State} {now : ℤ}
    (hnone : capture st.gwStartLogged (PythonLiterals.repr env.tables (.obj e.dict)) = none)
    (htype : e.Established ∨ e.Closed) :
    onLine env "Event" st now (PythonLiterals.repr env.tables (.obj e.dict)) =
      onCallEvent env st now e.dict := by
  have hstats : isText (field e.dict "type") "MEDIA_STATS" = false := by
    rw [e.type_eq, isText]
    refine Bool.eq_false_iff.mpr fun heq => ?_
    have hstrip : strip e.eventType = "MEDIA_STATS" := by
      rw [eq_of_beq heq]
      decide
    rcases htype with htype | htype
    · exact absurd (hstrip.symm.trans htype) (by decide)
    · exact absurd (hstrip.symm.trans htype) (by decide)
  have hclass : isText (field e.dict "class") "call" = true := by
    rw [e.class_call htype]
    rfl
  rw [onLine_of_none hnone, onEventLine, e.dtmfMatch_repr, e.parseEventDict_repr]
  dsimp only
  rw [if_neg (by rw [hstats]; exact Bool.false_ne_true), if_pos hclass]

/-- A line that a mark takes appends nothing else. -/
theorem types_of_capture (env : Environment) {st : State} (now : ℤ) {line : List Char} {c : Capture}
    (h : capture st.gwStartLogged line = some c) :
    (records (onLine env "Event" st now line).2).map Record.recordType ∈
      [["gw_start"], ["encoder"], ["room"], ["browsing"]] := by
  rw [onLine_of_capture h]
  cases c with
  | _ => simp [records, Action.record?, Capture.record]

theorem established_iff (hl : l.printed = .event e) (he : e.Established) :
    AppendsTypes env before l ["call_start"] ↔
      Unmarked (started env before) (lineOf env l) := by
  rw [appendsTypes_iff, unmarked_iff, lineOf_event hl, ← stateAfter_started]
  cases hcapture : capture (stateAfter env before).gwStartLogged
      (PythonLiterals.repr env.tables (.obj e.dict)) with
  | some c =>
    refine iff_of_false (fun htypes => ?_) (by simp)
    have hmem := types_of_capture env l.now hcapture
    rw [htypes] at hmem
    exact absurd hmem (by decide)
  | none =>
    refine iff_of_true ?_ rfl
    rw [onLine_call hcapture (Or.inl he), onCallEvent]
    dsimp only
    rw [if_pos (e.fieldText_type.trans he)]
    rfl

theorem closed_iff (hl : l.printed = .event e) (he : ClosesAnew env before e) :
    AppendsTypes env before l ["call_closed", "call_end"] ↔
      Unmarked (started env before) (lineOf env l) := by
  rw [appendsTypes_iff, unmarked_iff, lineOf_event hl, ← stateAfter_started]
  cases hcapture : capture (stateAfter env before).gwStartLogged
      (PythonLiterals.repr env.tables (.obj e.dict)) with
  | some c =>
    refine iff_of_false (fun htypes => ?_) (by simp)
    have hmem := types_of_capture env l.now hcapture
    rw [htypes] at hmem
    exact absurd hmem (by decide)
  | none =>
    refine iff_of_true ?_ rfl
    have htype : fieldText env e.dict "type" = "CALL_CLOSED" := e.fieldText_type.trans he.1
    have hopen : fieldText env e.dict "type" ≠ "CALL_ESTABLISHED" := by
      rw [htype]
      decide
    rw [onLine_call hcapture (Or.inr he.1), onCallEvent]
    dsimp only
    rw [if_neg hopen, if_neg (not_not.mpr htype)]
    exact congrArg (fun r : State × List Action => (records r.2).map Record.recordType)
      (if_neg he.id_ne_last)

theorem lifecycleRecorded_iff (stream : List Entry) :
    LifecycleRecorded env stream ↔ LifecycleUnmarked env stream := by
  constructor
  · intro h before l after e hsplit hl htype
    rcases htype with he | he
    · exact (established_iff hl he).mp (h.established before l after e hsplit hl he)
    · exact (closed_iff hl he).mp (h.closed before l after e hsplit hl he)
  · intro h
    exact ⟨fun before l after e hsplit hl he =>
        (established_iff hl he).mpr (h before l after e hsplit hl (Or.inl he)),
      fun before l after e hsplit hl he =>
        (closed_iff hl he).mpr (h before l after e hsplit hl (Or.inr he))⟩

theorem record_injective (env : Environment) (now : ℤ) :
    Function.Injective (Capture.record env now) := by
  intro c c' h
  cases c with
  | _ => cases c' with
    | _ => simp_all [Capture.record]

/-- The mark that takes a line after others. -/
def markOf (env : Environment) (before : List Entry) (l : Entry) : Option Capture :=
  (capture (started env before) (lineOf env l)).filter fun c => !c.isGwStart

theorem marked_iff_markOf {c : Capture} :
    Marked (started env before) (lineOf env l) c ↔ markOf env before l = some c := by
  rw [marked_iff, markOf, Option.filter_eq_some_iff, Bool.not_eq_true']

theorem steering_snoc (before : List Entry) (l : Entry) :
    steering (appended env (before ++ [l])) = steering (appended env before) ++
      ((markOf env before l).map (Capture.record env 0)).toList := by
  rw [appended_snoc, steering_append, onLine_steering, stateAfter_started, markOf]

/-- A line adds the same record to both streams where it has the same mark. -/
theorem markOf_eq_iff {before' : List Entry} {l' : Entry}
    (h : steering (appended env before) = steering (appended env before')) :
    steering (appended env (before ++ [l])) = steering (appended env (before' ++ [l'])) ↔
      ∀ c, Marked (started env before) (lineOf env l) c ↔
        Marked (started env before') (lineOf env l') c := by
  rw [steering_snoc, steering_snoc, h, List.append_cancel_left_eq]
  have hrecords : ((markOf env before l).map (Capture.record env 0)).toList =
      ((markOf env before' l').map (Capture.record env 0)).toList ↔
      markOf env before l = markOf env before' l' := by
    refine ⟨fun heq => ?_, fun heq => by rw [heq]⟩
    have hmapped := congrArg List.head? heq
    rw [Option.head?_toList, Option.head?_toList] at hmapped
    exact Option.map_injective (record_injective env 0) hmapped
  rw [hrecords]
  simp only [marked_iff_markOf]
  exact Option.ext_iff

theorem LifecycleUnmarked.take {stream : List Entry} (h : LifecycleUnmarked env stream) (n : ℕ) :
    LifecycleUnmarked env (stream.take n) := by
  intro before l after e hsplit
  refine h before l (after ++ stream.drop n) e ?_
  calc stream = stream.take n ++ stream.drop n := (List.take_append_drop n stream).symm
    _ = before ++ l :: (after ++ stream.drop n) := by
      rw [hsplit, List.append_assoc, List.cons_append]

/-- The same lines in both streams have the same mark: up to every place, the records of the marks
are the same. -/
theorem TwoStreams.MarkedAlike.steering_take {streams : TwoStreams} (h : streams.MarkedAlike env)
    (n : ℕ) : steering (appended env (streams.first.take n)) =
      steering (appended env (streams.second.take n)) := by
  have hlength := streams.same.length_eq
  induction n with
  | zero => rfl
  | succ n ih =>
    rcases lt_or_ge n streams.first.length with hlt | hge
    · have hlt' : n < streams.second.length := hlength ▸ hlt
      have hsplit (stream : List Entry) (h : n < stream.length) :
          stream = stream.take n ++ stream[n] :: stream.drop (n + 1) := by
        rw [← List.drop_eq_getElem_cons h, List.take_append_drop]
      rw [List.take_succ_eq_append_getElem hlt, List.take_succ_eq_append_getElem hlt',
        markOf_eq_iff ih]
      refine h.same _ _ _ _ _ _ (hsplit _ hlt) (hsplit _ hlt') ?_
      rw [List.length_take_of_le hlt.le, List.length_take_of_le hlt'.le]
    · rw [List.take_of_length_le hge, List.take_of_length_le (hlength ▸ hge)] at ih
      rw [List.take_of_length_le (hge.trans n.le_succ),
        List.take_of_length_le (hlength ▸ hge.trans n.le_succ), ih]

/-- Two streams and all that they begin with are recorded alike where a mark takes the same of
both, and nothing of the lifecycle. -/
theorem unsteered_iff_marked_alike (env : Environment) (streams : TwoStreams) :
    (∀ n, (streams.take n).Unsteered env) ↔ streams.MarkedAlike env := by
  constructor
  · intro h
    refine ⟨?_, ?_, ?_⟩
    · intro before l after before' l' after' hfirst hsecond hlength
      have hbefore := (h before.length).same
      have hline := (h (before.length + 1)).same
      simp only [TwoStreams.take, hfirst, hsecond] at hbefore hline
      rw [List.take_left, hlength, List.take_left] at hbefore
      rw [List.take_length_add_append, hlength, List.take_length_add_append] at hline
      exact (markOf_eq_iff hbefore).mp hline
    · have hwhole : (streams.take streams.first.length).first = streams.first :=
        List.take_length
      exact (lifecycleRecorded_iff _).mp (hwhole ▸ (h streams.first.length).first)
    · have hwhole : (streams.take streams.second.length).second = streams.second :=
        List.take_length
      exact (lifecycleRecorded_iff _).mp (hwhole ▸ (h streams.second.length).second)
  · intro h n
    exact ⟨h.steering_take n, (lifecycleRecorded_iff _).mpr (h.first.take n),
      (lifecycleRecorded_iff _).mpr (h.second.take n)⟩

end Streams

/-- A call of `callUrl`'s example whose caller shows a name. -/
def namedCall (name : String) : PrintedEvent where
  dict := CallUrl.callEvent "CALL_ESTABLISHED" ++ [("peerdisplayname", .str name)]
  eventType := "CALL_ESTABLISHED"
  literal := by
    have hkeys : keys (CallUrl.callEvent "CALL_ESTABLISHED" ++ [("peerdisplayname", .str name)]) =
        ["event", "type", "class", "id", "peeruri", "accountaor", "peerdisplayname"] := rfl
    refine .obj (by rw [hkeys]; decide) fun m hm => ?_
    simp only [CallUrl.callEvent, List.cons_append, List.nil_append, List.mem_cons,
      List.not_mem_nil, or_false] at hm
    rcases hm with rfl | rfl | rfl | rfl | rfl | rfl | rfl
    · exact .bool true
    all_goals exact .str _
  plain := by
    intro m hm
    simp only [CallUrl.callEvent, List.cons_append, List.nil_append, List.mem_cons,
      List.not_mem_nil, or_false] at hm
    rcases hm with rfl | rfl | rfl | rfl | rfl | rfl | rfl <;> simp
  type_eq := rfl
  class_call _ := rfl

/-- The same call from `Ann` and from `room: 9`. -/
def namedStreams : TwoStreams where
  first := [⟨0, .event (namedCall "Ann")⟩]
  second := [⟨0, .event (namedCall "room: 9")⟩]
  same := by
    refine .cons (.event ?_) .nil
    refine List.rel_append (List.forall₂_same.mpr fun m _ => ⟨rfl, Or.inl rfl⟩) ?_
    exact .cons ⟨rfl, Or.inr (.displayName "Ann" "room: 9")⟩ .nil

theorem named_capture : capture false (PythonLiterals.repr CallUrl.plainTexts.tables
    (.obj (namedCall "room: 9").dict)) = some (.room "9'\x7d") := by
  decide +kernel

theorem namedCall_established (name : String) : (namedCall name).Established := by
  have hstrip : strip "CALL_ESTABLISHED" = "CALL_ESTABLISHED" := by decide
  exact hstrip

/-- The name is logged as a room, and the call is not. -/
theorem caller_text_steers : ¬ ∀ (env : Environment) (streams : TwoStreams),
    streams.Unsteered env := by
  intro h
  have he := namedCall_established "room: 9"
  have hrecorded := (h CallUrl.plainTexts namedStreams).second.established []
    ⟨0, .event (namedCall "room: 9")⟩ [] (namedCall "room: 9") rfl rfl he
  have hnone := unmarked_iff.mp ((established_iff rfl he).mp hrecorded)
  have hstart : started CallUrl.plainTexts [] = false := rfl
  rw [hstart, lineOf_event rfl, named_capture] at hnone
  cases hnone

end CallerText
