import Mathlib.Data.List.DropRight
import Mathlib.Data.List.Nodup
import Mathlib.Logic.Function.Basic

/-! # The event server

Each client has a thread that reads it in chunks and pushes every chunk to the other clients,
one push at a time. Bytes in an inbox carry the client they come from. -/
namespace EventRelay

def bufferSize : ℕ := 1024

/-- A blank of `bytes.rstrip()`. -/
def isBlank (b : UInt8) : Bool := (9 ≤ b && b ≤ 13) || b == 32

def rstrip (data : List UInt8) : List UInt8 := data.rdropWhile isBlank

/-- The clients that are connected, and the listening socket, which is none of them. -/
structure Server (Client : Type) where
  serversocket : Client
  clients : List Client
  nodup : clients.Nodup
  listening : serversocket ∉ clients

/-- One `recv` of a client, and what each send of the push that follows does: it accepts
that many bytes, or raises. -/
structure Receipt (Client : Type) where
  writer : Client
  data : List UInt8
  some_data : data ≠ []
  fits : data.length ≤ bufferSize
  sends : Client → Option ℕ
  partial_send : ∀ client n, sends client = some n → n ≤ (rstrip data).length

/-- The buffer of each thread, and what each client has received so far. -/
structure State (Client : Type) where
  buffer : Client → List UInt8
  inbox : Client → List (Client × UInt8)

section Relay

variable {Client : Type} [DecidableEq Client] (server : Server Client)

/-- One turn of the loop of `push`: what a send accepts goes out, the rest is forgotten. -/
def sendTo (inDict : List UInt8) (fromSock : Client) (sends : Client → Option ℕ)
    (inbox : Client → List (Client × UInt8)) (client : Client) :
    Client → List (Client × UInt8) :=
  if client = server.serversocket ∨ client = fromSock then inbox
  else
    match sends client with
    | some n =>
      Function.update inbox client
        (inbox client ++ ((rstrip inDict).take n).map fun b => (fromSock, b))
    | none => inbox

def push (inDict : List UInt8) (fromSock : Client) (sends : Client → Option ℕ)
    (inbox : Client → List (Client × UInt8)) : Client → List (Client × UInt8) :=
  server.clients.foldl (sendTo server inDict fromSock sends) inbox

/-- One turn of the loop of `handleClient`. -/
def handleData (s : State Client) (r : Receipt Client) : State Client :=
  let buffer := s.buffer r.writer ++ r.data
  ⟨Function.update s.buffer r.writer [],
    if buffer ≠ [] then push server buffer r.writer r.sends s.inbox else s.inbox⟩

def start : State Client := ⟨fun _ => [], fun _ => []⟩

/-- The threads of the clients, in the order they push. -/
def serve (run : List (Receipt Client)) : State Client := run.foldl (handleData server) start

def received (s : State Client) (writer client : Client) : List UInt8 :=
  ((s.inbox client).filter fun e => decide (e.1 = writer)).map Prod.snd

/-- The stream of a client, as `recv` cut it. -/
def stream (run : List (Receipt Client)) (writer : Client) : List UInt8 :=
  ((run.filter fun r => decide (r.writer = writer)).map Receipt.data).flatten

end Relay

section Sends

variable {Client : Type}

/-- The bytes of one push that a client gets. -/
def accepted (r : Receipt Client) (client : Client) : List UInt8 :=
  (rstrip r.data).take ((r.sends client).getD 0)

theorem accepted_isPrefix (r : Receipt Client) (client : Client) : accepted r client <+: r.data :=
  (List.take_prefix _ _).trans (List.rdropWhile_prefix isBlank r.data)

/-- All of a chunk gets through where it does not end in a blank and the send takes it whole. -/
theorem accepted_eq_data_iff (r : Receipt Client) (client : Client) :
    accepted r client = r.data ↔
      (∀ b, r.data.getLast? = some b → isBlank b = false) ∧
        r.sends client = some r.data.length := by
  have hpos := List.length_pos_of_ne_nil r.some_data
  have htrim : rstrip r.data = r.data ↔ ∀ b, r.data.getLast? = some b → isBlank b = false := by
    rw [rstrip, List.rdropWhile_eq_self_iff]
    constructor
    · intro h b hb
      rw [List.getLast?_eq_some_getLast r.some_data] at hb
      obtain rfl := Option.some.inj hb
      exact Bool.eq_false_iff.mpr (h r.some_data)
    · intro h hne
      exact Bool.eq_false_iff.mp (h _ (List.getLast?_eq_some_getLast hne))
  constructor
  · intro heq
    have hlen := congrArg List.length heq
    have htrim_le : (rstrip r.data).length ≤ r.data.length :=
      (List.rdropWhile_prefix isBlank r.data).length_le
    rw [accepted, List.length_take] at hlen
    have hwhole : (rstrip r.data).length = r.data.length := by omega
    refine ⟨htrim.mp ((List.rdropWhile_prefix isBlank r.data).eq_of_length hwhole), ?_⟩
    cases hsend : r.sends client with
    | none =>
      rw [hsend, Option.getD_none] at hlen
      omega
    | some n =>
      have hle := r.partial_send client n hsend
      rw [hsend, Option.getD_some] at hlen
      exact congrArg some (by omega)
  · rintro ⟨hlast, hsend⟩
    rw [accepted, hsend, htrim.mpr hlast, Option.getD_some, List.take_length]

variable [DecidableEq Client] {server : Server Client}

theorem sendTo_ne {inDict : List UInt8} {fromSock : Client} {sends : Client → Option ℕ}
    {inbox : Client → List (Client × UInt8)} {client other : Client} (h : other ≠ client) :
    sendTo server inDict fromSock sends inbox client other = inbox other := by
  unfold sendTo
  split
  · rfl
  · cases sends client with
    | some n => exact Function.update_of_ne h _ _
    | none => rfl

theorem foldl_sendTo_notMem {inDict : List UInt8} {fromSock : Client} {sends : Client → Option ℕ}
    {clients : List Client} {other : Client} (h : other ∉ clients)
    (inbox : Client → List (Client × UInt8)) :
    clients.foldl (sendTo server inDict fromSock sends) inbox other = inbox other := by
  induction clients generalizing inbox with
  | nil => rfl
  | cons client rest ih =>
    rw [List.foldl_cons, ih (fun hmem => h (List.mem_cons_of_mem _ hmem))]
    exact sendTo_ne fun heq => h (heq ▸ List.mem_cons_self)

/-- A push adds to the inbox of a client once. -/
theorem push_inbox (r : Receipt Client) {client : Client} (hclient : client ∈ server.clients)
    (hne : client ≠ r.writer) (inbox : Client → List (Client × UInt8)) :
    push server r.data r.writer r.sends inbox client =
      inbox client ++ (accepted r client).map fun b => (r.writer, b) := by
  have hsocket : client ≠ server.serversocket := fun heq => server.listening (heq ▸ hclient)
  have hturn : ∀ inbox : Client → List (Client × UInt8),
      sendTo server r.data r.writer r.sends inbox client client =
        inbox client ++ (accepted r client).map fun b => (r.writer, b) := by
    intro inbox
    unfold sendTo accepted
    rw [if_neg (not_or.mpr ⟨hsocket, hne⟩)]
    cases r.sends client with
    | some n => exact Function.update_self _ _ _
    | none => simp
  obtain ⟨front, back, hsplit⟩ := List.append_of_mem hclient
  have hnodup := server.nodup
  rw [hsplit] at hnodup
  have hfront : client ∉ front := fun hmem =>
    List.disjoint_of_nodup_append hnodup hmem List.mem_cons_self
  have hback : client ∉ back := (List.nodup_cons.mp (List.nodup_append.mp hnodup).2.1).1
  rw [push, hsplit, List.foldl_append, List.foldl_cons, foldl_sendTo_notMem hback, hturn,
    foldl_sendTo_notMem hfront]

theorem push_inbox_writer (r : Receipt Client) (inbox : Client → List (Client × UInt8)) :
    push server r.data r.writer r.sends inbox r.writer = inbox r.writer := by
  unfold push
  induction server.clients generalizing inbox with
  | nil => rfl
  | cons client rest ih =>
    rw [List.foldl_cons, ih]
    by_cases heq : r.writer = client
    · rw [sendTo, if_pos (Or.inr heq.symm)]
    · exact sendTo_ne heq

end Sends

section Runs

variable {Client : Type} [DecidableEq Client] {server : Server Client}

theorem serve_append (run : List (Receipt Client)) (r : Receipt Client) :
    serve server (run ++ [r]) = handleData server (serve server run) r :=
  List.foldl_concat ..

/-- A thread pushes what it has read at once. -/
theorem buffer_serve (run : List (Receipt Client)) (client : Client) :
    (serve server run).buffer client = [] := by
  induction run using List.reverseRecOn with
  | nil => rfl
  | append_singleton run r ih =>
    rw [serve_append, handleData]
    by_cases heq : client = r.writer
    · rw [heq]
      exact Function.update_self _ _ _
    · exact (Function.update_of_ne heq _ _).trans ih

theorem inbox_serve_append (run : List (Receipt Client)) (r : Receipt Client) :
    (serve server (run ++ [r])).inbox =
      push server r.data r.writer r.sends (serve server run).inbox := by
  rw [serve_append, handleData, buffer_serve, List.nil_append]
  exact if_pos r.some_data

theorem received_serve {client writer : Client} (hclient : client ∈ server.clients)
    (hne : client ≠ writer) (run : List (Receipt Client)) :
    received (serve server run) writer client =
      ((run.filter fun r => decide (r.writer = writer)).map (accepted · client)).flatten := by
  induction run using List.reverseRecOn with
  | nil => rfl
  | append_singleton run r ih =>
    unfold received at ih ⊢
    rw [inbox_serve_append, List.filter_append, List.map_append, List.flatten_append, ← ih]
    by_cases hown : client = r.writer
    · have hother : r.writer ≠ writer := hown ▸ hne
      rw [hown, push_inbox_writer, List.filter_cons_of_neg (by simpa using hother)]
      exact (List.append_nil _).symm
    · rw [push_inbox r hclient hown, List.filter_append, List.map_append]
      congr 1
      by_cases hwriter : r.writer = writer
      · simp [hwriter, List.filter_map, Function.comp_def]
      · simp [hwriter, List.filter_map, Function.comp_def]

theorem length_flatten_le {α β : Type} {f g : α → List β} {l : List α}
    (h : ∀ a ∈ l, f a <+: g a) : (l.map f).flatten.length ≤ (l.map g).flatten.length := by
  induction l with
  | nil => exact le_refl _
  | cons a l ih =>
    simp only [List.map_cons, List.flatten_cons, List.length_append]
    exact Nat.add_le_add (h a List.mem_cons_self).length_le
      (ih fun b hb => h b (List.mem_cons_of_mem _ hb))

/-- What is forwarded of each chunk is a beginning of it: the whole is kept chunk by chunk. -/
theorem flatten_eq_iff_of_prefix {α β : Type} {f g : α → List β} {l : List α}
    (h : ∀ a ∈ l, f a <+: g a) :
    (l.map f).flatten = (l.map g).flatten ↔ ∀ a ∈ l, f a = g a := by
  constructor
  · induction l with
    | nil =>
      intro _ a ha
      cases ha
    | cons a l ih =>
      intro heq b hb
      have hrest : ∀ c ∈ l, f c <+: g c := fun c hc => h c (List.mem_cons_of_mem _ hc)
      have hhead := (h a List.mem_cons_self).length_le
      have htail := length_flatten_le hrest
      have hlen := congrArg List.length heq
      simp only [List.map_cons, List.flatten_cons, List.length_append] at hlen
      have hfirst : f a = g a := (h a List.mem_cons_self).eq_of_length (by omega)
      rcases List.mem_cons.mp hb with rfl | hb
      · exact hfirst
      · simp only [List.map_cons, List.flatten_cons, hfirst] at heq
        exact ih hrest (List.append_cancel_left heq) b hb
  · intro heq
    rw [List.map_congr_left heq]

/-- Every other client receives the stream of a writer exactly when no chunk of it ends in a
blank and each send takes its chunk whole. -/
theorem relay_faithful_iff (server : Server Client) (run : List (Receipt Client))
    (writer : Client) :
    (∀ client ∈ server.clients, client ≠ writer →
        received (serve server run) writer client = stream run writer) ↔
      ∀ client ∈ server.clients, client ≠ writer → ∀ r ∈ run, r.writer = writer →
        (∀ b, r.data.getLast? = some b → isBlank b = false) ∧
          r.sends client = some r.data.length := by
  refine forall_congr' fun client => forall_congr' fun hclient => forall_congr' fun hne => ?_
  rw [received_serve hclient hne, stream,
    flatten_eq_iff_of_prefix fun r _ => accepted_isPrefix r client]
  constructor
  · intro h r hr hwriter
    have hmem : r ∈ run.filter fun r => decide (r.writer = writer) :=
      List.mem_filter.mpr ⟨hr, decide_eq_true hwriter⟩
    exact (accepted_eq_data_iff r client).mp (h r hmem)
  · intro h r hr
    obtain ⟨hr, hwriter⟩ := List.mem_filter.mp hr
    exact (accepted_eq_data_iff r client).mpr (h r hr (by simpa using hwriter))

end Runs

def twoClients : Server ℕ := ⟨0, [1, 2], by decide, by decide⟩

/-- `b"2:\n"`, as the first chunk of a netstring; the send accepts what is left of it. -/
def lineFeedChunk : Receipt ℕ where
  writer := 1
  data := [50, 58, 10]
  some_data := by decide
  fits := by decide
  sends _ := some 2
  partial_send _ n h := by
    obtain rfl := Option.some.inj h
    decide

theorem line_feed_dropped :
    ¬ ∀ (Client : Type) (_ : DecidableEq Client) (server : Server Client)
      (run : List (Receipt Client)) (writer client : Client), client ∈ server.clients →
      client ≠ writer → received (serve server run) writer client = stream run writer := by
  intro h
  have hbytes := h ℕ inferInstance twoClients [lineFeedChunk] 1 2 (by decide) (by decide)
  exact absurd hbytes (by decide)

end EventRelay
