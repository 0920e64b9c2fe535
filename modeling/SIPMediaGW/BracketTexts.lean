import SIPMediaGW.FieldMap
import SIPMediaGW.PythonJson

/-! # Texts of nested lists and dictionaries

A reader that goes over the characters once, with a stack of the brackets still open. It keeps
the bodies of strings and the words between brackets as they are written: a `Reading` says what
they mean. JSON and the literals of Python are two lexicons of it. -/
namespace BracketTexts

open FieldMap
open PythonJson

structure Quoted where
  quote : Char
  body : List Char
  deriving DecidableEq

inductive Raw where
  | atom (token : List Char)
  | text (q : Quoted)
  | list (items : List Raw)
  | dict (members : List (Quoted × Raw))

structure Lexicon where
  quote : Char → Bool
  blank : Char → Bool

def isMark (c : Char) : Bool := decide (c ∈ ['[', ']', '{', '}', ',', ':'])

def Lexicon.atomChar (lex : Lexicon) (c : Char) : Bool :=
  !lex.quote c && !lex.blank c && !isMark c

/-- An open bracket: the items before, or the members before and perhaps the key of the next. -/
inductive Frame where
  | list (items : List Raw)
  | members (done : List (Quoted × Raw))
  | member (done : List (Quoted × Raw)) (key : Quoted)

inductive Mode where
  /-- A value begins, or the list closes that has just opened. -/
  | value
  /-- A key begins, or the dictionary closes that has just opened. -/
  | key
  | text (isKey escaped : Bool) (q : Quoted)
  | atom (token : List Char)
  | colon (key : Quoted)
  | done (r : Raw)

structure State where
  mode : Mode
  stack : List Frame

def State.start : State := ⟨.value, []⟩

/-- What follows a value. -/
def afterValue (r : Raw) (stack : List Frame) (c : Char) : Option State :=
  match stack with
  | .list items :: rest =>
    if c = ',' then some ⟨.value, .list (items ++ [r]) :: rest⟩
    else if c = ']' then some ⟨.done (.list (items ++ [r])), rest⟩
    else none
  | .member ms key :: rest =>
    if c = ',' then some ⟨.key, .members (ms ++ [(key, r)]) :: rest⟩
    else if c = '}' then some ⟨.done (.dict (ms ++ [(key, r)])), rest⟩
    else none
  | _ => none

/-- Only an empty list closes where a value is expected. -/
def emptyList (stack : List Frame) : Option State :=
  match stack with
  | .list [] :: rest => some ⟨.done (.list []), rest⟩
  | _ => none

def emptyDict (stack : List Frame) : Option State :=
  match stack with
  | .members [] :: rest => some ⟨.done (.dict []), rest⟩
  | _ => none

def afterKey (key : Quoted) (stack : List Frame) : Option State :=
  match stack with
  | .members ms :: rest => some ⟨.value, .member ms key :: rest⟩
  | _ => none

section Reader

variable (lex : Lexicon)

def step (st : State) (c : Char) : Option State :=
  match st.mode with
  | .value =>
    if lex.blank c then some st
    else if lex.quote c then some ⟨.text false false ⟨c, []⟩, st.stack⟩
    else if c = '[' then some ⟨.value, .list [] :: st.stack⟩
    else if c = '{' then some ⟨.key, .members [] :: st.stack⟩
    else if c = ']' then emptyList st.stack
    else if isMark c then none
    else some ⟨.atom [c], st.stack⟩
  | .key =>
    if lex.blank c then some st
    else if lex.quote c then some ⟨.text true false ⟨c, []⟩, st.stack⟩
    else if c = '}' then emptyDict st.stack
    else none
  | .text isKey escaped q =>
    if escaped then some ⟨.text isKey false ⟨q.quote, q.body ++ [c]⟩, st.stack⟩
    else if c = '\\' then some ⟨.text isKey true ⟨q.quote, q.body ++ [c]⟩, st.stack⟩
    else if c = q.quote then
      some ⟨if isKey then .colon q else .done (.text q), st.stack⟩
    else some ⟨.text isKey false ⟨q.quote, q.body ++ [c]⟩, st.stack⟩
  | .atom token =>
    if lex.atomChar c then some ⟨.atom (token ++ [c]), st.stack⟩
    else if lex.blank c then some ⟨.done (.atom token), st.stack⟩
    else afterValue (.atom token) st.stack c
  | .colon key =>
    if lex.blank c then some st else if c = ':' then afterKey key st.stack else none
  | .done r => if lex.blank c then some st else afterValue r st.stack c

def run (st : State) : List Char → Option State
  | [] => some st
  | c :: cs => (step lex st c).bind fun st' => run st' cs

def State.result (st : State) : Option Raw :=
  match st.mode, st.stack with
  | .done r, [] => some r
  | .atom token, [] => some (.atom token)
  | _, _ => none

def parse (cs : List Char) : Option Raw := (run lex .start cs).bind State.result

theorem run_append (st : State) (cs ds : List Char) :
    run lex st (cs ++ ds) = (run lex st cs).bind fun st' => run lex st' ds := by
  induction cs generalizing st with
  | nil => rfl
  | cons c cs ih =>
    rw [List.cons_append, run, run, Option.bind_assoc]
    exact congrArg _ (funext fun st' => ih st')

theorem run_of_step {st st' : State} {c : Char} (h : step lex st c = some st') (cs : List Char) :
    run lex st (c :: cs) = run lex st' cs := by
  rw [run, h, Option.bind_some]

end Reader

theorem run_cons {lex : Lexicon} {st st' : State} {c : Char} {cs : List Char}
    (h : run lex st (c :: cs) = some st') :
    ∃ st₁, step lex st c = some st₁ ∧ run lex st₁ cs = some st' := Option.bind_eq_some_iff.mp h

theorem run_append_some {lex : Lexicon} {st st' : State} {cs ds : List Char}
    (h : run lex st (cs ++ ds) = some st') :
    ∃ st₁, run lex st cs = some st₁ ∧ run lex st₁ ds = some st' := by
  rw [run_append] at h
  exact Option.bind_eq_some_iff.mp h

theorem Raw.induct {P : Raw → Prop} (atom : ∀ token, P (.atom token)) (text : ∀ q, P (.text q))
    (list : ∀ items, (∀ r ∈ items, P r) → P (.list items))
    (dict : ∀ members, (∀ m ∈ members, P m.2) → P (.dict members)) (r : Raw) : P r := by
  refine @Raw.rec P (fun items => ∀ r ∈ items, P r) (fun members => ∀ m ∈ members, P m.2)
    (fun m => P m.2) atom text list dict ?_ ?_ ?_ ?_ ?_ r
  · exact fun r hr => nomatch hr
  · exact fun r items hr hitems => List.forall_mem_cons.mpr ⟨hr, hitems⟩
  · exact fun m hm => nomatch hm
  · exact fun m members hm hmembers => List.forall_mem_cons.mpr ⟨hm, hmembers⟩
  · exact fun key r hr => hr

structure Reading where
  atom : List Char → Option Json
  text : List Char → Option String

mutual

def Raw.read (rd : Reading) : Raw → Option Json
  | .atom token => rd.atom token
  | .text q => (rd.text q.body).map Json.str
  | .list items => (readItems rd items).map Json.arr
  | .dict members => (readMembers rd members).map fun ms => Json.obj (putAll [] ms)

def readItems (rd : Reading) : List Raw → Option (List Json)
  | [] => some []
  | r :: items => (r.read rd).bind fun v => (readItems rd items).map fun vs => v :: vs

def readMembers (rd : Reading) : List (Quoted × Raw) → Option (List (String × Json))
  | [] => some []
  | (key, r) :: members =>
    (rd.text key.body).bind fun k => (r.read rd).bind fun v =>
      (readMembers rd members).map fun ms => (k, v) :: ms

end

/-- The body of a string: no quote outside an escape, and no escape left open. -/
def closed (quote : Char) : List Char → Bool
  | [] => true
  | ['\\'] => false
  | '\\' :: _ :: cs => closed quote cs
  | c :: cs => decide (c ≠ quote) && closed quote cs

def Quoted.print (q : Quoted) : List Char := q.quote :: q.body ++ [q.quote]

def separator : List Char := [',', ' ']

mutual

def Raw.print : Raw → List Char
  | .atom token => token
  | .text q => q.print
  | .list items => '[' :: printItems items ++ [']']
  | .dict members => '{' :: printMembers members ++ ['}']

def printItems : List Raw → List Char
  | [] => []
  | [r] => r.print
  | r :: items => r.print ++ separator ++ printItems items

def printMembers : List (Quoted × Raw) → List Char
  | [] => []
  | [(key, r)] => key.print ++ ':' :: ' ' :: r.print
  | (key, r) :: members => key.print ++ ':' :: ' ' :: r.print ++ separator ++ printMembers members

end

/-- The blanks that follow a comma and a colon. -/
structure Layout where
  item : List Char
  key : List Char

def spaced : Layout := ⟨[' '], [' ']⟩

mutual

def Raw.printWith (l : Layout) : Raw → List Char
  | .atom token => token
  | .text q => q.print
  | .list items => '[' :: printItemsWith l items ++ [']']
  | .dict members => '{' :: printMembersWith l members ++ ['}']

def printItemsWith (l : Layout) : List Raw → List Char
  | [] => []
  | [r] => r.printWith l
  | r :: items => r.printWith l ++ ',' :: l.item ++ printItemsWith l items

def printMembersWith (l : Layout) : List (Quoted × Raw) → List Char
  | [] => []
  | [(key, r)] => key.print ++ ':' :: l.key ++ r.printWith l
  | (key, r) :: members =>
    key.print ++ ':' :: l.key ++ r.printWith l ++ ',' :: l.item ++ printMembersWith l members

end

theorem printItemsWith_spaced {items : List Raw} (h : ∀ r ∈ items, r.printWith spaced = r.print) :
    printItemsWith spaced items = printItems items := by
  induction items with
  | nil => rfl
  | cons r items ih =>
    obtain ⟨hr, hitems⟩ := List.forall_mem_cons.mp h
    cases items with
    | nil => exact hr
    | cons r' items =>
      rw [printItemsWith, printItems, hr, ih hitems]
      · rfl
      · exact List.cons_ne_nil _ _
      · exact List.cons_ne_nil _ _

theorem printMembersWith_spaced {members : List (Quoted × Raw)}
    (h : ∀ m ∈ members, m.2.printWith spaced = m.2.print) :
    printMembersWith spaced members = printMembers members := by
  induction members with
  | nil => rfl
  | cons m members ih =>
    obtain ⟨hm, hmembers⟩ := List.forall_mem_cons.mp h
    have hcolon : m.1.print ++ ':' :: spaced.key ++ m.2.print =
        m.1.print ++ ':' :: ' ' :: m.2.print := List.append_assoc _ _ _
    cases members with
    | nil => rw [printMembersWith, printMembers, hm, hcolon]
    | cons m' members =>
      rw [printMembersWith, printMembers, hm, ih hmembers, hcolon]
      · rfl
      · exact List.cons_ne_nil _ _
      · exact List.cons_ne_nil _ _

theorem printWith_spaced (r : Raw) : r.printWith spaced = r.print := by
  induction r using Raw.induct with
  | atom | text => rfl
  | list items ih => rw [Raw.printWith, Raw.print, printItemsWith_spaced ih]
  | dict members ih => rw [Raw.printWith, Raw.print, printMembersWith_spaced ih]

/-- Blanks, quotes and marks are told apart. -/
structure Lexicon.Lawful (lex : Lexicon) : Prop where
  space : lex.blank ' ' = true
  quote_blank : ∀ c, lex.quote c = true → lex.blank c = false
  mark_blank : ∀ c, isMark c = true → lex.blank c = false
  mark_quote : ∀ c, isMark c = true → lex.quote c = false
  backslash : lex.quote '\\' = false

structure Quoted.WellFormed (lex : Lexicon) (q : Quoted) : Prop where
  quote : lex.quote q.quote = true
  body : closed q.quote q.body = true

inductive Raw.WellFormed (lex : Lexicon) : Raw → Prop where
  | atom {token : List Char} (nonempty : token ≠ [])
      (chars : ∀ c ∈ token, lex.atomChar c = true) : WellFormed lex (.atom token)
  | text {q : Quoted} (h : q.WellFormed lex) : WellFormed lex (.text q)
  | list {items : List Raw} (h : ∀ r ∈ items, WellFormed lex r) : WellFormed lex (.list items)
  | dict {members : List (Quoted × Raw)} (keys : ∀ m ∈ members, m.1.WellFormed lex)
      (values : ∀ m ∈ members, WellFormed lex m.2) : WellFormed lex (.dict members)

/-- A word ends where a mark follows. -/
def Delimited : Raw → List Char → Prop
  | .atom _, rest => ∃ c cs, rest = c :: cs ∧ isMark c = true
  | _, _ => True

theorem delimited_cons (r : Raw) {c : Char} (cs : List Char) (h : isMark c = true) :
    Delimited r (c :: cs) := by
  cases r with
  | atom token => exact ⟨c, cs, rfl, h⟩
  | _ => exact True.intro

section Print

variable {lex : Lexicon} {stack : List Frame} {rest : List Char}

/-- The end of a string that has been read. -/
def endMode (isKey : Bool) (q : Quoted) : Mode := if isKey then .colon q else .done (.text q)

theorem run_text (isKey : Bool) {quote : Char} {body : List Char} (before : List Char)
    (hquote : quote ≠ '\\') (h : closed quote body = true) :
    run lex ⟨.text isKey false ⟨quote, before⟩, stack⟩ (body ++ quote :: rest) =
      run lex ⟨endMode isKey ⟨quote, before ++ body⟩, stack⟩ rest := by
  fun_induction closed quote body generalizing before with
  | case1 =>
    rw [List.append_nil]
    exact run_of_step lex (by simp [step, hquote, endMode]) rest
  | case2 => cases h
  | case3 c cs ih =>
    have hescape : step lex ⟨.text isKey false ⟨quote, before⟩, stack⟩ '\\' =
        some ⟨.text isKey true ⟨quote, before ++ ['\\']⟩, stack⟩ := rfl
    have hescaped : step lex ⟨.text isKey true ⟨quote, before ++ ['\\']⟩, stack⟩ c =
        some ⟨.text isKey false ⟨quote, before ++ ['\\'] ++ [c]⟩, stack⟩ := rfl
    rw [List.cons_append, List.cons_append, run_of_step lex hescape, run_of_step lex hescaped,
      ih _ h]
    simp
  | case4 c cs hlast hescape ih =>
    rw [Bool.and_eq_true, decide_eq_true_eq] at h
    have hplain : c ≠ '\\' := by
      rintro rfl
      cases cs with
      | nil => exact hlast rfl rfl
      | cons d ds => exact hescape d ds rfl rfl
    have hstep : step lex ⟨.text isKey false ⟨quote, before⟩, stack⟩ c =
        some ⟨.text isKey false ⟨quote, before ++ [c]⟩, stack⟩ := by
      simp [step, hplain, h.1]
    rw [List.cons_append, run_of_step lex hstep, ih _ h.2]
    simp

theorem run_quoted (hlex : lex.Lawful) {q : Quoted} (h : q.WellFormed lex) (isKey : Bool)
    (hstart : step lex ⟨if isKey then .key else .value, stack⟩ q.quote =
      some ⟨.text isKey false ⟨q.quote, []⟩, stack⟩) :
    run lex ⟨if isKey then .key else .value, stack⟩ (q.print ++ rest) =
      run lex ⟨endMode isKey q, stack⟩ rest := by
  have hquote : q.quote ≠ '\\' := by
    intro heq
    have hbackslash := hlex.backslash
    rw [← heq, h.quote] at hbackslash
    cases hbackslash
  rw [Quoted.print, List.cons_append, List.cons_append, List.append_assoc,
    run_of_step lex hstart]
  exact run_text isKey [] hquote h.body

theorem run_atom {token : List Char} (before : List Char) {c : Char} (cs : List Char)
    (hlex : lex.Lawful) (h : ∀ d ∈ token, lex.atomChar d = true) (hc : isMark c = true) :
    run lex ⟨.atom before, stack⟩ (token ++ c :: cs) =
      run lex ⟨.done (.atom (before ++ token)), stack⟩ (c :: cs) := by
  induction token generalizing before with
  | nil =>
    have hblank := hlex.mark_blank c hc
    rw [List.append_nil, List.nil_append, run, run]
    simp [step, Lexicon.atomChar, hc, hblank]
  | cons d token ih =>
    obtain ⟨hd, htoken⟩ := List.forall_mem_cons.mp h
    have hstep : step lex ⟨.atom before, stack⟩ d = some ⟨.atom (before ++ [d]), stack⟩ := by
      simp [step, hd]
    rw [List.cons_append, run_of_step lex hstep, ih _ htoken]
    simp

theorem step_value_quote (hlex : lex.Lawful) {c : Char} (h : lex.quote c = true) :
    step lex ⟨.value, stack⟩ c = some ⟨.text false false ⟨c, []⟩, stack⟩ := by
  simp [step, hlex.quote_blank c h, h]

theorem step_key_quote (hlex : lex.Lawful) {c : Char} (h : lex.quote c = true) :
    step lex ⟨.key, stack⟩ c = some ⟨.text true false ⟨c, []⟩, stack⟩ := by
  simp [step, hlex.quote_blank c h, h]

theorem step_value_mark (hlex : lex.Lawful) {c : Char} (h : isMark c = true) :
    step lex ⟨.value, stack⟩ c =
      if c = '[' then some ⟨.value, .list [] :: stack⟩
      else if c = '{' then some ⟨.key, .members [] :: stack⟩
      else if c = ']' then emptyList stack else none := by
  simp [step, hlex.mark_blank c h, hlex.mark_quote c h, h]

theorem step_done_mark (hlex : lex.Lawful) (r : Raw) {c : Char} (h : isMark c = true) :
    step lex ⟨.done r, stack⟩ c = afterValue r stack c := by
  simp [step, hlex.mark_blank c h]

/-- Blanks before a value or a key. -/
theorem run_blanks {mode : Mode} (hmode : mode = .value ∨ mode = .key) {blanks : List Char}
    (h : ∀ c ∈ blanks, lex.blank c = true) (cs : List Char) :
    run lex ⟨mode, stack⟩ (blanks ++ cs) = run lex ⟨mode, stack⟩ cs := by
  induction blanks with
  | nil => rfl
  | cons c blanks ih =>
    obtain ⟨hc, hblanks⟩ := List.forall_mem_cons.mp h
    have hstep : step lex ⟨mode, stack⟩ c = some ⟨mode, stack⟩ := by
      rcases hmode with rfl | rfl <;> exact if_pos hc
    rw [List.cons_append, run_of_step lex hstep, ih hblanks]

structure Layout.Blank (lex : Lexicon) (l : Layout) : Prop where
  item : ∀ c ∈ l.item, lex.blank c = true
  key : ∀ c ∈ l.key, lex.blank c = true

theorem spaced_blank (hlex : lex.Lawful) : spaced.Blank lex where
  item _ hc := List.mem_singleton.mp hc ▸ hlex.space
  key _ hc := List.mem_singleton.mp hc ▸ hlex.space

/-- A printed value is read back, whatever is open around it. -/
def ReadBack (lex : Lexicon) (l : Layout) (r : Raw) : Prop :=
  ∀ stack rest, Delimited r rest →
    run lex ⟨.value, stack⟩ (r.printWith l ++ rest) = run lex ⟨.done r, stack⟩ rest

variable {l : Layout}

theorem run_items (hlex : lex.Lawful) (hl : l.Blank lex) {items : List Raw}
    (h : ∀ r ∈ items, ReadBack lex l r) (before : List Raw) (hempty : items = [] → before = []) :
    run lex ⟨.value, .list before :: stack⟩ (printItemsWith l items ++ ']' :: rest) =
      run lex ⟨.done (.list (before ++ items)), stack⟩ rest := by
  induction items generalizing before with
  | nil =>
    obtain rfl := hempty rfl
    refine run_of_step lex ?_ rest
    rw [step_value_mark hlex (by decide)]
    rfl
  | cons r items ih =>
    obtain ⟨hr, hitems⟩ := List.forall_mem_cons.mp h
    cases items with
    | nil =>
      rw [printItemsWith, hr _ _ (delimited_cons r rest (by decide))]
      refine run_of_step lex ?_ rest
      rw [step_done_mark hlex r (by decide)]
      rfl
    | cons r' items =>
      have hcomma : step lex ⟨.done r, .list before :: stack⟩ ',' =
          some ⟨.value, .list (before ++ [r]) :: stack⟩ := by
        rw [step_done_mark hlex r (by decide)]
        rfl
      have hprint : printItemsWith l (r :: r' :: items) ++ ']' :: rest =
          r.printWith l ++ ',' :: (l.item ++ (printItemsWith l (r' :: items) ++ ']' :: rest)) := by
        simp [printItemsWith]
      rw [hprint, hr _ _ (delimited_cons r _ (by decide)), run_of_step lex hcomma,
        run_blanks (.inl rfl) hl.item, ih hitems _ fun heq => nomatch heq]
      simp

/-- One member, up to the mark that follows its value. -/
theorem run_member (hlex : lex.Lawful) (hl : l.Blank lex) {key : Quoted} {r : Raw}
    (hkey : key.WellFormed lex) (hr : ReadBack lex l r) (before : List (Quoted × Raw)) {c : Char}
    (hc : isMark c = true) : run lex ⟨.key, .members before :: stack⟩
      (key.print ++ ':' :: l.key ++ r.printWith l ++ c :: rest) =
      run lex ⟨.done r, .member before key :: stack⟩ (c :: rest) := by
  have hcolon : step lex ⟨.colon key, .members before :: stack⟩ ':' =
      some ⟨.value, .member before key :: stack⟩ := by
    simp [step, hlex.mark_blank ':' (by decide), afterKey]
  have hquoted : run lex ⟨.key, .members before :: stack⟩
      (key.print ++ ':' :: (l.key ++ (r.printWith l ++ c :: rest))) =
      run lex ⟨.colon key, .members before :: stack⟩
        (':' :: (l.key ++ (r.printWith l ++ c :: rest))) :=
    run_quoted hlex hkey true (step_key_quote hlex hkey.quote)
  have hprint : key.print ++ ':' :: l.key ++ r.printWith l ++ c :: rest =
      key.print ++ ':' :: (l.key ++ (r.printWith l ++ c :: rest)) := by
    simp
  rw [hprint, hquoted]
  exact (run_of_step lex hcolon _).trans ((run_blanks (.inl rfl) hl.key _).trans
    (hr _ _ (delimited_cons r rest hc)))

theorem run_members (hlex : lex.Lawful) (hl : l.Blank lex) {members : List (Quoted × Raw)}
    (hkeys : ∀ m ∈ members, m.1.WellFormed lex) (h : ∀ m ∈ members, ReadBack lex l m.2)
    (before : List (Quoted × Raw)) (hempty : members = [] → before = []) :
    run lex ⟨.key, .members before :: stack⟩ (printMembersWith l members ++ '}' :: rest) =
      run lex ⟨.done (.dict (before ++ members)), stack⟩ rest := by
  induction members generalizing before with
  | nil =>
    obtain rfl := hempty rfl
    refine run_of_step lex ?_ rest
    simp [step, hlex.mark_blank '}' (by decide), hlex.mark_quote '}' (by decide), emptyDict]
  | cons m members ih =>
    obtain ⟨key, r⟩ := m
    obtain ⟨hkey, hkeys⟩ := List.forall_mem_cons.mp hkeys
    obtain ⟨hr, hmembers⟩ := List.forall_mem_cons.mp h
    cases members with
    | nil =>
      rw [printMembersWith, run_member hlex hl hkey hr before (by decide)]
      refine run_of_step lex ?_ rest
      rw [step_done_mark hlex r (by decide)]
      rfl
    | cons m members =>
      have hcomma : step lex ⟨.done r, .member before key :: stack⟩ ',' =
          some ⟨.key, .members (before ++ [(key, r)]) :: stack⟩ := by
        rw [step_done_mark hlex r (by decide)]
        rfl
      have hprint : printMembersWith l ((key, r) :: m :: members) ++ '}' :: rest =
          (key.print ++ ':' :: l.key ++ r.printWith l) ++
            ',' :: (l.item ++ (printMembersWith l (m :: members) ++ '}' :: rest)) := by
        simp [printMembersWith]
      rw [hprint, run_member hlex hl hkey hr before (by decide), run_of_step lex hcomma,
        run_blanks (.inr rfl) hl.item, ih hkeys hmembers _ fun heq => nomatch heq]
      simp

theorem readBack (hlex : lex.Lawful) (hl : l.Blank lex) {r : Raw} (h : r.WellFormed lex) :
    ReadBack lex l r := by
  induction h with
  | atom nonempty chars =>
    rintro stack rest ⟨c, cs, rfl, hc⟩
    rename_i token
    obtain ⟨d, token, rfl⟩ := List.exists_cons_of_ne_nil nonempty
    obtain ⟨hd, htoken⟩ := List.forall_mem_cons.mp chars
    have hfirst : step lex ⟨.value, stack⟩ d = some ⟨.atom [d], stack⟩ := by
      simp only [Lexicon.atomChar, Bool.and_eq_true, Bool.not_eq_true'] at hd
      obtain ⟨⟨hquote, hblank⟩, hmark⟩ := hd
      have hopen : d ≠ '[' ∧ d ≠ '{' ∧ d ≠ ']' := by
        refine ⟨?_, ?_, ?_⟩ <;> · rintro rfl; cases hmark
      simp [step, hquote, hblank, hmark, hopen.1, hopen.2.1, hopen.2.2]
    rw [Raw.printWith, List.cons_append, run_of_step lex hfirst, run_atom [d] cs hlex htoken hc]
    rfl
  | text h =>
    intro stack rest _
    exact run_quoted hlex h false (step_value_quote hlex h.quote)
  | list h ih =>
    intro stack rest _
    have hopen : step lex ⟨.value, stack⟩ '[' = some ⟨.value, .list [] :: stack⟩ := by
      rw [step_value_mark hlex (by decide)]
      rfl
    rw [Raw.printWith, List.cons_append, List.cons_append, List.append_assoc,
      run_of_step lex hopen]
    exact run_items hlex hl ih [] fun _ => rfl
  | dict keys values ih =>
    intro stack rest _
    have hopen : step lex ⟨.value, stack⟩ '{' = some ⟨.key, .members [] :: stack⟩ := by
      rw [step_value_mark hlex (by decide)]
      rfl
    rw [Raw.printWith, List.cons_append, List.cons_append, List.append_assoc,
      run_of_step lex hopen]
    exact run_members hlex hl keys ih [] fun _ => rfl

/-- Printing, then reading. -/
theorem parse_printWith_dict (hlex : lex.Lawful) (hl : l.Blank lex)
    {members : List (Quoted × Raw)} (h : (Raw.dict members).WellFormed lex) :
    parse lex ((Raw.dict members).printWith l) = some (.dict members) := by
  have hread := readBack hlex hl h [] [] True.intro
  rw [List.append_nil] at hread
  rw [parse, State.start, hread]
  rfl

theorem parse_print_dict (hlex : lex.Lawful) {members : List (Quoted × Raw)}
    (h : (Raw.dict members).WellFormed lex) :
    parse lex (Raw.dict members).print = some (.dict members) := by
  rw [← printWith_spaced]
  exact parse_printWith_dict hlex (spaced_blank hlex) h

end Print

theorem mem_printItems {items : List Raw} {c : Char} (h : c ∈ printItems items) :
    c ∈ separator ∨ ∃ r ∈ items, c ∈ r.print := by
  induction items with
  | nil => cases h
  | cons r items ih =>
    cases items with
    | nil => exact Or.inr ⟨r, List.mem_cons_self, h⟩
    | cons r' items =>
      rw [printItems] at h
      · rcases List.mem_append.mp h with h | h
        · rcases List.mem_append.mp h with h | h
          · exact Or.inr ⟨r, List.mem_cons_self, h⟩
          · exact Or.inl h
        · rcases ih h with h | ⟨r'', hr'', h⟩
          · exact Or.inl h
          · exact Or.inr ⟨r'', List.mem_cons_of_mem _ hr'', h⟩
      · exact List.cons_ne_nil _ _

/-- One member is printed at the front, and the others after it. -/
theorem printMembers_cons (m : Quoted × Raw) (members : List (Quoted × Raw)) :
    ∃ rest, printMembers (m :: members) = m.1.print ++ ':' :: ' ' :: m.2.print ++ rest ∧
      (rest = [] ∧ members = [] ∨ rest = separator ++ printMembers members) := by
  cases members with
  | nil => exact ⟨[], (List.append_nil _).symm, Or.inl ⟨rfl, rfl⟩⟩
  | cons m' members =>
    refine ⟨separator ++ printMembers (m' :: members), ?_, Or.inr rfl⟩
    rw [printMembers, List.append_assoc _ separator]
    exact List.cons_ne_nil _ _

theorem mem_printMembers {members : List (Quoted × Raw)} {c : Char} (h : c ∈ printMembers members) :
    c ∈ [',', ' ', ':'] ∨ ∃ m ∈ members, c ∈ m.1.print ∨ c ∈ m.2.print := by
  induction members with
  | nil => cases h
  | cons m members ih =>
    obtain ⟨rest, hprint, hrest⟩ := printMembers_cons m members
    rw [hprint] at h
    simp only [List.mem_append, List.mem_cons] at h
    rcases h with (h | rfl | rfl | h) | h
    · exact Or.inr ⟨m, List.mem_cons_self, Or.inl h⟩
    · exact Or.inl (by decide)
    · exact Or.inl (by decide)
    · exact Or.inr ⟨m, List.mem_cons_self, Or.inr h⟩
    · rcases hrest with ⟨rfl, -⟩ | rfl
      · cases h
      · rcases List.mem_append.mp h with h | h
        · exact Or.inl (by simp only [separator, List.mem_cons, List.not_mem_nil] at h ⊢; tauto)
        · rcases ih h with h | ⟨m', hm', h⟩
          · exact Or.inl h
          · exact Or.inr ⟨m', List.mem_cons_of_mem _ hm', h⟩

theorem member_infix_printMembers {members : List (Quoted × Raw)} {m : Quoted × Raw}
    (h : m ∈ members) : m.1.print ++ ':' :: ' ' :: m.2.print <:+: printMembers members := by
  induction members with
  | nil => cases h
  | cons m' members ih =>
    obtain ⟨rest, hprint, hrest⟩ := printMembers_cons m' members
    rcases List.mem_cons.mp h with rfl | h
    · rw [hprint]
      exact (List.prefix_append _ _).isInfix
    · rcases hrest with ⟨-, rfl⟩ | rfl
      · cases h
      · rw [hprint]
        exact (ih h).trans ((List.suffix_append _ _).trans (List.suffix_append _ _)).isInfix

theorem key_infix_printMembers {members : List (Quoted × Raw)} {m : Quoted × Raw}
    (h : m ∈ members) : m.1.print <:+: printMembers members :=
  (List.prefix_append _ _).isInfix.trans (member_infix_printMembers h)

theorem value_infix_printMembers {members : List (Quoted × Raw)} {m : Quoted × Raw}
    (h : m ∈ members) : m.2.print <:+: printMembers members := by
  have hsuffix : m.2.print <:+ m.1.print ++ ':' :: ' ' :: m.2.print :=
    (List.suffix_append [':', ' '] m.2.print).trans (List.suffix_append _ _)
  exact hsuffix.isInfix.trans (member_infix_printMembers h)

theorem item_infix_printItems {items : List Raw} {r : Raw} (h : r ∈ items) :
    r.print <:+: printItems items := by
  induction items with
  | nil => cases h
  | cons r' items ih =>
    cases items with
    | nil =>
      obtain rfl := List.mem_singleton.mp h
      exact List.infix_rfl
    | cons r'' items =>
      rw [printItems, List.append_assoc]
      · rcases List.mem_cons.mp h with rfl | h
        · exact (List.prefix_append _ _).isInfix
        · exact (ih h).trans ((List.suffix_append _ _).trans (List.suffix_append _ _)).isInfix
      · exact List.cons_ne_nil _ _

end BracketTexts
