import SIPMediaGW.NetstringReader

/-! # When every frame comes out as it was sent -/
namespace NetstringFraming

open PythonJson Utf8Text NetstringReader

/-- A stream whose call `i` of `recv` returns at most `cuts i` bytes, and never times out. -/
def delivered (cuts : ℕ → ℕ) (bs : List UInt8) (i : ℕ) : Socket := ⟨bs, fun j => some (cuts j), i⟩

theorem recv_delivered (cuts : ℕ → ℕ) (bs : List UInt8) (i n : ℕ) :
    recv (delivered cuts bs i) n =
      (some (bs.take (min n (max 1 (cuts i)))),
        delivered cuts (bs.drop (min n (max 1 (cuts i)))) (i + 1)) := rfl

theorem readRest_zero (s : Socket) (received : List Char) :
    readRest s received 0 = (received, s) := by
  rw [readRest, dif_pos rfl]

theorem readRest_delivered {cuts : ℕ → ℕ} {bs : List UInt8} {i n m : ℕ} {received : List Char}
    (hn : n ≠ 0) (hm : m = min (min 1024 n) (max 1 (cuts i))) (hbs : bs ≠ []) :
    readRest (delivered cuts bs i) received n =
      match decode (bs.take m) with
      | none => (received, delivered cuts (bs.drop m) (i + 1))
      | some text =>
        readRest (delivered cuts (bs.drop m) (i + 1)) (received ++ text) (n - min 1024 n) := by
  have hne : bs.take m ≠ [] := by
    intro h
    rcases List.take_eq_nil_iff.mp h with h | h
    · omega
    · exact hbs h
  rw [readRest, dif_neg hn, readLen_eq, recv_delivered, ← hm]
  exact if_neg hne

theorem readRest_extends (cuts : ℕ → ℕ) (bs : List UInt8) (i : ℕ) (received : List Char) (n : ℕ) :
    ∃ text, (readRest (delivered cuts bs i) received n).1 = received ++ text ∧
      (encode text).length ≤ n := by
  induction n using Nat.strong_induction_on generalizing bs i received with
  | _ n ih =>
  by_cases hn : n = 0
  · subst hn
    exact ⟨[], by rw [readRest_zero, List.append_nil], by simp⟩
  by_cases hbs : bs = []
  · subst hbs
    refine ⟨[], ?_, by simp⟩
    rw [readRest, dif_neg hn, recv_delivered]
    simp
  rw [readRest_delivered hn rfl hbs]
  cases hd : decode (bs.take (min (min 1024 n) (max 1 (cuts i)))) with
  | none => exact ⟨[], by simp, by simp⟩
  | some piece =>
    obtain ⟨text, htext, hlength⟩ := ih (n - min 1024 n) (by omega)
      (bs.drop (min (min 1024 n) (max 1 (cuts i)))) (i + 1) (received ++ piece)
    refine ⟨piece ++ text, ?_, ?_⟩
    · simp only [htext, List.append_assoc]
    · have hpiece := congrArg List.length (encode_of_decode hd)
      rw [List.length_take] at hpiece
      rw [encode_append, List.length_append]
      omega

/-- The pieces of 1024 bytes, and the shorter last one, come whole and decode one by one. -/
def PiecesWhole (cuts : ℕ → ℕ) (i : ℕ) (bs : List UInt8) : Prop :=
  ∀ j, 1024 * j < bs.length →
    min 1024 (bs.length - 1024 * j) ≤ max 1 (cuts (i + j)) ∧
      (decode ((bs.drop (1024 * j)).take 1024)).isSome

def pieces (n : ℕ) : ℕ := (n + 1023) / 1024

theorem piecesWhole_step {cuts : ℕ → ℕ} {i : ℕ} {bs : List UInt8} (hbs : bs ≠ []) :
    PiecesWhole cuts i bs ↔
      (min 1024 bs.length ≤ max 1 (cuts i) ∧ (decode (bs.take 1024)).isSome) ∧
        PiecesWhole cuts (i + 1) (bs.drop 1024) := by
  have hlength := List.length_pos_iff.mpr hbs
  have hindex (j : ℕ) : i + (j + 1) = i + 1 + j := by omega
  have hoffset (j : ℕ) : 1024 * (j + 1) = 1024 + 1024 * j := by omega
  constructor
  · intro h
    refine ⟨by simpa using h 0 (by omega), ?_⟩
    intro j hj
    rw [List.length_drop] at hj
    have hnext := h (j + 1) (by omega)
    rwa [hindex, hoffset, ← Nat.sub_sub, ← List.length_drop, ← List.drop_drop] at hnext
  · rintro ⟨hfirst, hrest⟩ j hj
    cases j with
    | zero => simpa using hfirst
    | succ j =>
      rw [hindex, hoffset, ← Nat.sub_sub, ← List.length_drop, ← List.drop_drop]
      exact hrest j (by rw [List.length_drop]; omega)

/-- One turn of the loop inside a frame: `m` is what the call returns. -/
theorem readRest_step {cuts : ℕ → ℕ} {rest received : List Char} {more : List UInt8} {i m : ℕ}
    (hne : encode rest ≠ []) (hm : m = min (min 1024 (encode rest).length) (max 1 (cuts i))) :
    readRest (delivered cuts (encode rest ++ more) i) received (encode rest).length =
      match decode ((encode rest).take m) with
      | none => (received, delivered cuts ((encode rest).drop m ++ more) (i + 1))
      | some text =>
        readRest (delivered cuts ((encode rest).drop m ++ more) (i + 1)) (received ++ text)
          ((encode rest).length - 1024) := by
  have hpos := List.length_pos_iff.mpr hne
  have hle : m ≤ (encode rest).length := by omega
  have hleft : (encode rest).length - min 1024 (encode rest).length =
      (encode rest).length - 1024 := by omega
  rw [readRest_delivered (by omega) hm (List.append_ne_nil_of_left_ne_nil hne more),
    List.take_append_of_le_length hle, List.drop_append_of_le_length hle, hleft]

theorem readRest_whole_step {cuts : ℕ → ℕ} {rest received : List Char} {more : List UInt8} {i : ℕ}
    (hne : encode rest ≠ []) (hlong : min 1024 (encode rest).length ≤ max 1 (cuts i)) :
    readRest (delivered cuts (encode rest ++ more) i) received (encode rest).length =
      match decode ((encode rest).take 1024) with
      | none => (received, delivered cuts ((encode rest).drop 1024 ++ more) (i + 1))
      | some text =>
        readRest (delivered cuts ((encode rest).drop 1024 ++ more) (i + 1)) (received ++ text)
          ((encode rest).length - 1024) := by
  rw [readRest_step hne rfl, Nat.min_eq_left hlong, ← List.take_eq_take_min,
    ← List.drop_eq_drop_min]

theorem readRest_of_whole {cuts : ℕ → ℕ} {more : List UInt8} {received rest : List Char} {i : ℕ}
    (h : PiecesWhole cuts i (encode rest)) :
    readRest (delivered cuts (encode rest ++ more) i) received (encode rest).length =
      (received ++ rest, delivered cuts more (i + pieces (encode rest).length)) := by
  generalize hn : (encode rest).length = n
  induction n using Nat.strong_induction_on generalizing i received rest with
  | _ n ih =>
  subst hn
  by_cases hnil : encode rest = []
  · rw [hnil, encode_eq_nil_iff.mp hnil, List.length_nil, readRest_zero, List.append_nil]
    rfl
  obtain ⟨⟨hlong, hdecodes⟩, hafter⟩ := (piecesWhole_step hnil).mp h
  obtain ⟨piece, hpiece⟩ := Option.isSome_iff_exists.mp hdecodes
  obtain ⟨later, hlater, hdrop⟩ := exists_rest_of_decode_take hpiece
  have hpos := List.length_pos_iff.mpr hnil
  have hlength : (encode later).length = (encode rest).length - 1024 := by
    rw [hdrop, List.length_drop]
  have hcalls : i + pieces (encode rest).length = i + 1 + pieces (encode later).length := by
    rw [pieces, pieces, hlength]
    omega
  rw [readRest_whole_step hnil hlong, hpiece]
  simp only [← hdrop, ← hlength]
  rw [ih (encode later).length (by omega) (by rwa [hdrop]) rfl, hcalls, List.append_assoc, ← hlater]

/-- A short or undecodable piece is never made up for. -/
theorem whole_of_readRest {cuts : ℕ → ℕ} (more : List UInt8) (received : List Char)
    {rest : List Char} {i : ℕ}
    (h : (readRest (delivered cuts (encode rest ++ more) i) received (encode rest).length).1 =
      received ++ rest) : PiecesWhole cuts i (encode rest) := by
  generalize hn : (encode rest).length = n
  induction n using Nat.strong_induction_on generalizing i received rest with
  | _ n ih =>
  subst hn
  by_cases hnil : encode rest = []
  · rw [hnil]
    intro j hj
    exact absurd hj (Nat.not_lt_zero _)
  have hpos := List.length_pos_iff.mpr hnil
  have hstopped : received ≠ received ++ rest := by
    intro hsame
    rw [List.self_eq_append_right] at hsame
    exact hnil (encode_eq_nil_iff.mpr hsame)
  rw [piecesWhole_step hnil]
  by_cases hlong : min 1024 (encode rest).length ≤ max 1 (cuts i)
  · rw [readRest_whole_step hnil hlong] at h
    cases hpiece : decode ((encode rest).take 1024) with
    | none =>
      rw [hpiece] at h
      exact absurd h hstopped
    | some piece =>
      obtain ⟨later, hlater, hdrop⟩ := exists_rest_of_decode_take hpiece
      have hlength : (encode later).length = (encode rest).length - 1024 := by
        rw [hdrop, List.length_drop]
      rw [hpiece] at h
      simp only [← hdrop, ← hlength] at h
      have hsplit : received ++ rest = received ++ piece ++ later := by
        rw [hlater, List.append_assoc]
      refine ⟨⟨hlong, rfl⟩, ?_⟩
      rw [← hdrop]
      exact ih (encode later).length (by omega) (received ++ piece) (h.trans hsplit) rfl
  · rw [readRest_step hnil rfl] at h
    cases hpiece : decode ((encode rest).take
        (min (min 1024 (encode rest).length) (max 1 (cuts i)))) with
    | none =>
      rw [hpiece] at h
      exact absurd h hstopped
    | some piece =>
      -- The loop has counted more bytes than it got, so it cannot reach the end of the frame.
      rw [hpiece] at h
      obtain ⟨text, htext, hbound⟩ := readRest_extends cuts
        ((encode rest).drop (min (min 1024 (encode rest).length) (max 1 (cuts i))) ++ more) (i + 1)
        (received ++ piece) ((encode rest).length - 1024)
      have hall : rest = piece ++ text :=
        List.append_cancel_left (h.symm.trans (htext.trans (List.append_assoc _ _ _)))
      have hgot := congrArg List.length (encode_of_decode hpiece)
      have htotal : (encode rest).length = (encode piece).length + (encode text).length := by
        conv_lhs => rw [hall]
        rw [encode_append, List.length_append]
      rw [List.length_take] at hgot
      omega

theorem isDigit_of_mem_length (n : ℕ) : ∀ c ∈ Nat.toDigits 10 n, c.isDigit := fun _ hc =>
  Nat.isDigit_of_mem_toDigits (by decide) (by decide) hc

theorem lengthDigits_le_iff {n : ℕ} : (Nat.toDigits 10 n).length ≤ 7 ↔ n < 10000000 :=
  Nat.length_toDigits_le_iff (by decide) (by decide)

theorem length_encode_digits {cs : List Char} (h : ∀ c ∈ cs, c.isDigit) :
    (encode cs).length = cs.length := by
  apply length_encode_ascii
  intro c hc
  obtain ⟨-, hhigh⟩ := Char.isDigit_iff_toNat.mp (h c hc)
  rw [Char.utf8Size_eq_one_iff, UInt32.le_iff_toNat_le]
  exact Nat.le_trans hhigh (by decide)

theorem length_encode_frame (payload : List Char) :
    (encode (frame payload)).length =
      (Nat.toDigits 10 (encode payload).length).length + 2 + (encode payload).length := by
  have hcolon : (String.utf8EncodeChar ':').length = 1 := by decide
  have hcomma : (String.utf8EncodeChar ',').length = 1 := by decide
  rw [frame, encode_append, encode_cons, encode_append, encode_cons, encode_nil]
  simp only [List.length_append, length_encode_digits (isDigit_of_mem_length _), hcolon, hcomma,
    List.length_nil]
  omega

theorem skipToDigit_of_isDigit {c : Char} (h : c.isDigit) (cs : List Char) (preRead : ℤ) :
    skipToDigit (c :: cs) preRead = (c :: cs, preRead) := by
  rw [skipToDigit, if_pos (isDigit_of_ascii h)]

theorem findColon_of_digits {cs : List Char} (h : ∀ c ∈ cs, c.isDigit) :
    cs.findIdx? (· = ':') = none := by
  rw [List.findIdx?_eq_none_iff]
  intro c hc
  have hdigit := h c hc
  rw [decide_eq_false_iff_not]
  rintro rfl
  exact absurd hdigit (by decide)

theorem remaining_of_digits {received : List Char} {preRead : ℤ}
    (h : ∀ c ∈ received, c.isDigit) : remaining received preRead = some 0 := by
  rw [remaining, findColon_of_digits h]

theorem remaining_of_length {n : ℕ} {cs : List Char} {preRead : ℤ}
    (h : (Nat.toDigits 10 n).length ≤ maxStrDigits) :
    remaining (Nat.toDigits 10 n ++ ':' :: cs) preRead =
      some ((Nat.toDigits 10 n).length + 2 + n - preRead) := by
  have hcolon : (Nat.toDigits 10 n ++ ':' :: cs).findIdx? (· = ':') =
      some (Nat.toDigits 10 n).length := by
    rw [List.findIdx?_append, findColon_of_digits (isDigit_of_mem_length n)]
    simp [List.findIdx?_cons]
  rw [remaining, hcolon]
  simp only [List.take_left, intOfText_toDigits h, Option.map_some]

/-- What the first call brings: digits only, or the whole length and its colon. -/
theorem head_cases {payload later text rest : List Char}
    (h : frame payload ++ later = text ++ rest) :
    text <+: Nat.toDigits 10 (encode payload).length ∨
      ∃ cs, text = Nat.toDigits 10 (encode payload).length ++ ':' :: cs := by
  rw [frame, List.append_assoc, List.append_eq_append_iff] at h
  rcases h with ⟨cs, htext, hcs⟩ | ⟨cs, htext, -⟩
  · cases cs with
    | nil =>
      left
      exact ⟨[], by rw [htext, List.append_nil, List.append_nil]⟩
    | cons c cs =>
      right
      obtain ⟨rfl, -⟩ := List.cons_eq_cons.mp hcs
      exact ⟨cs, htext⟩
  · left
    exact ⟨cs, htext.symm⟩

theorem isDigit_of_head {text : List Char} {n : ℕ} (h : text <+: Nat.toDigits 10 n) :
    ∀ c ∈ text, c.isDigit := fun c hc => isDigit_of_mem_length n c (h.subset hc)

/-- Once the head holds the colon, what is left to read is the rest of the frame. -/
theorem remaining_of_head {payload text cs : List Char}
    (hcs : text = Nat.toDigits 10 (encode payload).length ++ ':' :: cs)
    (hhead : (encode text).length ≤ 8) :
    (Nat.toDigits 10 (encode payload).length).length ≤ 7 ∧
      remaining text 8 = some ((encode (frame payload)).length - 8 : ℤ) := by
  have hcolon : ':'.utf8Size = 1 := by decide
  rw [hcs, encode_append, encode_cons, List.length_append, List.length_append,
    length_encode_digits (isDigit_of_mem_length _), String.length_utf8EncodeChar, hcolon] at hhead
  have hdigits : (Nat.toDigits 10 (encode payload).length).length ≤ 7 := by omega
  refine ⟨hdigits, ?_⟩
  rw [hcs, remaining_of_length (hdigits.trans (by decide)), length_encode_frame]
  push_cast
  rfl

theorem getStatus_delivered {cuts : ℕ → ℕ} {payload later text : List Char} {i : ℕ}
    (h : decode ((encode (frame payload ++ later)).take (min 8 (max 1 (cuts i)))) = some text) :
    getStatus (delivered cuts (encode (frame payload ++ later)) i) =
      match remaining text 8 with
      | none => (text,
          delivered cuts ((encode (frame payload ++ later)).drop (min 8 (max 1 (cuts i)))) (i + 1))
      | some dataLen =>
        readRest (delivered cuts ((encode (frame payload ++ later)).drop
          (min 8 (max 1 (cuts i)))) (i + 1)) text dataLen.toNat := by
  obtain ⟨rest, hrest, -⟩ := exists_rest_of_decode_take h
  have hskip : skipToDigit text 8 = (text, 8) := by
    cases text with
    | nil => rfl
    | cons c cs =>
      have hdigits := isDigit_of_mem_length (encode payload).length
      cases hlength : Nat.toDigits 10 (encode payload).length with
      | nil => exact absurd hlength Nat.toDigits_ne_nil
      | cons d ds =>
        rw [hlength] at hdigits
        rw [frame, hlength] at hrest
        obtain ⟨rfl, -⟩ := List.cons_eq_cons.mp hrest
        exact skipToDigit_of_isDigit (hdigits d List.mem_cons_self) cs 8
  rw [getStatus, recv_delivered]
  cases hleft : remaining text 8 <;> simp only [h, hskip, hleft]

/-- The first call brings the first eight bytes of the frame, or the whole of a shorter one,
and each later call the piece that was asked for. -/
structure FrameWhole (cuts : ℕ → ℕ) (i : ℕ) (payload : List Char) (later : ℕ) : Prop where
  payload_short : (encode payload).length < 10000000
  head_whole : min (min 8 (max 1 (cuts i))) ((encode (frame payload)).length + later) =
    min 8 (encode (frame payload)).length
  head_decodes : (decode ((encode (frame payload)).take 8)).isSome
  rest_whole : PiecesWhole cuts (i + 1) ((encode (frame payload)).drop 8)

theorem take_head {xs ys : List UInt8} {k : ℕ}
    (h : min k (xs.length + ys.length) = min 8 xs.length) :
    (xs ++ ys).take k = xs.take 8 ∧ (xs ++ ys).drop k = xs.drop 8 ++ ys := by
  constructor
  · rw [List.take_eq_take_min, List.length_append, h,
      List.take_append_of_le_length (Nat.min_le_right _ _), ← List.take_eq_take_min]
  · rw [List.drop_eq_drop_min, List.length_append, h,
      List.drop_append_of_le_length (Nat.min_le_right _ _), ← List.drop_eq_drop_min]

theorem getStatus_of_head {cuts : ℕ → ℕ} {payload later text : List Char} {i : ℕ}
    (hshort : (encode payload).length < 10000000)
    (hhead : min (min 8 (max 1 (cuts i)))
      ((encode (frame payload)).length + (encode later).length) =
        min 8 (encode (frame payload)).length)
    (htext : decode ((encode (frame payload)).take 8) = some text) :
    ∃ rest, frame payload = text ++ rest ∧ encode rest = (encode (frame payload)).drop 8 ∧
      getStatus (delivered cuts (encode (frame payload ++ later)) i) =
        readRest (delivered cuts (encode rest ++ encode later) (i + 1)) text
          (encode rest).length := by
  obtain ⟨rest, hframe, hrest⟩ := exists_rest_of_decode_take htext
  refine ⟨rest, hframe, hrest, ?_⟩
  obtain ⟨htake, hdrop⟩ := take_head hhead
  rw [← encode_append] at htake hdrop
  rw [getStatus_delivered (htake ▸ htext), hdrop, ← hrest]
  have hgot := congrArg List.length (encode_of_decode htext)
  rw [List.length_take] at hgot
  rcases head_cases (List.append_nil (frame payload) ▸ hframe) with hprefix | ⟨cs, hcs⟩
  · have hdigits := lengthDigits_le_iff.mpr hshort
    have hlength := length_encode_frame payload
    have hfew := hprefix.length_le
    rw [length_encode_digits (isDigit_of_head hprefix)] at hgot
    omega
  · have hleft : ((encode (frame payload)).length - 8 : ℤ).toNat = (encode rest).length := by
      rw [hrest, List.length_drop]
      omega
    obtain ⟨-, hasked⟩ := remaining_of_head hcs (by omega)
    rw [hasked]
    simp only [hleft]

theorem getStatus_of_whole {cuts : ℕ → ℕ} {payload later : List Char} {i : ℕ}
    (h : FrameWhole cuts i payload (encode later).length) :
    getStatus (delivered cuts (encode (frame payload ++ later)) i) =
      (frame payload, delivered cuts (encode later)
        (i + 1 + pieces ((encode (frame payload)).length - 8))) := by
  obtain ⟨text, htext⟩ := Option.isSome_iff_exists.mp h.head_decodes
  obtain ⟨rest, hframe, hrest, hstatus⟩ := getStatus_of_head h.payload_short h.head_whole htext
  have hwhole := h.rest_whole
  rw [← hrest] at hwhole
  rw [hstatus, readRest_of_whole hwhole, ← hframe, hrest, List.length_drop]

theorem head_of_getStatus {cuts : ℕ → ℕ} {payload later : List Char} {i : ℕ}
    (h : (getStatus (delivered cuts (encode (frame payload ++ later)) i)).1 = frame payload) :
    (encode payload).length < 10000000 ∧
      min (min 8 (max 1 (cuts i))) ((encode (frame payload)).length + (encode later).length) =
        min 8 (encode (frame payload)).length ∧
      ∃ text, decode ((encode (frame payload)).take 8) = some text := by
  cases htext : decode ((encode (frame payload ++ later)).take (min 8 (max 1 (cuts i)))) with
  | none =>
    rw [getStatus, recv_delivered] at h
    simp only [htext] at h
    have hnonempty := congrArg List.length h
    simp [frame] at hnonempty
  | some text =>
    rw [getStatus_delivered htext] at h
    obtain ⟨rest, hrest, -⟩ := exists_rest_of_decode_take htext
    have hgot := congrArg List.length (encode_of_decode htext)
    rw [List.length_take, encode_append, List.length_append] at hgot
    rcases head_cases hrest with hprefix | ⟨cs, hcs⟩
    · -- Without a colon the head is returned as it is.
      rw [remaining_of_digits (isDigit_of_head hprefix)] at h
      simp only [Int.toNat_zero, readRest_zero] at h
      have hcolon : ':' ∈ text := by
        rw [h, frame]
        exact List.mem_append_right _ List.mem_cons_self
      exact absurd (isDigit_of_head hprefix _ hcolon) (by decide)
    · -- A head cut short leaves the frame short by as much.
      obtain ⟨hdigits, hasked⟩ := remaining_of_head hcs (by omega)
      obtain ⟨text', htext', hbound⟩ := readRest_extends cuts
        ((encode (frame payload ++ later)).drop (min 8 (max 1 (cuts i)))) (i + 1) text
        ((encode (frame payload)).length - 8 : ℤ).toNat
      rw [hasked] at h
      have htotal : (encode (frame payload)).length =
          (encode text).length + (encode text').length := by
        rw [← h, htext', encode_append, List.length_append]
      have hwhole : min (min 8 (max 1 (cuts i)))
          ((encode (frame payload)).length + (encode later).length) =
            min 8 (encode (frame payload)).length := by omega
      refine ⟨lengthDigits_le_iff.mp hdigits, hwhole, text, ?_⟩
      rwa [encode_append, (take_head hwhole).1] at htext

theorem whole_of_getStatus {cuts : ℕ → ℕ} {payload later : List Char} {i : ℕ}
    (h : (getStatus (delivered cuts (encode (frame payload ++ later)) i)).1 = frame payload) :
    FrameWhole cuts i payload (encode later).length := by
  obtain ⟨hshort, hwhole, text, htext⟩ := head_of_getStatus h
  obtain ⟨rest, hframe, hrest, hread⟩ := getStatus_of_head hshort hwhole htext
  refine ⟨hshort, hwhole, Option.isSome_of_eq_some htext, ?_⟩
  rw [← hrest]
  apply whole_of_readRest (encode later) text
  rw [← hread, h, hframe]

/-- Frame after frame: each is read by its head call and one call for each piece. -/
def FramesWhole (cuts : ℕ → ℕ) : ℕ → List (List Char) → Prop
  | _, [] => True
  | i, payload :: later =>
    FrameWhole cuts i payload (wire later).length ∧
      FramesWhole cuts (i + 1 + pieces ((encode (frame payload)).length - 8)) later

theorem wire_cons (payload : List Char) (later : List (List Char)) :
    wire (payload :: later) = encode (frame payload ++ later.flatMap frame) := rfl

theorem statuses_eq_iff (cuts : ℕ → ℕ) (i : ℕ) (payloads : List (List Char)) :
    (statuses payloads.length (delivered cuts (wire payloads) i)).1 = payloads.map frame ↔
      FramesWhole cuts i payloads := by
  induction payloads generalizing i with
  | nil => exact iff_of_true rfl trivial
  | cons payload later ih =>
    rw [List.length_cons, statuses, wire_cons, FramesWhole, List.map_cons]
    simp only [List.cons.injEq]
    constructor
    · rintro ⟨hfirst, hlater⟩
      have hwhole := whole_of_getStatus hfirst
      rw [getStatus_of_whole hwhole] at hlater
      exact ⟨hwhole, (ih _).mp hlater⟩
    · rintro ⟨hwhole, hlater⟩
      rw [getStatus_of_whole hwhole]
      exact ⟨rfl, (ih _).mpr hlater⟩

/-- The calls return the frames that were sent exactly when none of them is cut. -/
theorem frames_read_iff (cuts : ℕ → ℕ) (payloads : List (List Char)) :
    (statuses payloads.length ⟨wire payloads, fun i => some (cuts i), 0⟩).1 =
      payloads.map frame ↔ FramesWhole cuts 0 payloads :=
  statuses_eq_iff cuts 0 payloads

/-- Eight bytes a call: the ten asked for next are counted as read when eight came. -/
theorem a_short_read_cuts_the_frame :
    (statuses 1 ⟨wire ["\x7b\"event\":true\x7d".toList], fun _ => some 8, 0⟩).1 =
        ["14:\x7b\"event\":true".toList] ∧
      (statuses 1 ⟨wire ["\x7b\"event\":true\x7d".toList], fun _ => some 8, 0⟩).1 ≠
        ["\x7b\"event\":true\x7d".toList].map frame := by
  decide +kernel

end NetstringFraming
