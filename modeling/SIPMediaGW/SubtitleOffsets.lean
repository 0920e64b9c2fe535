import SIPMediaGW.Transcripts

/-! # Subtitles of the joined video

The script adds up the durations of the segments that have a transcript, as floats; the video has
the others as well. -/
namespace SubtitleOffsets

open LineTexts
open PythonArithmetic
open PythonJson
open Rounding
open Transcripts

/-- `HH:MM:SS,mmm` of a number of milliseconds. -/
def clock (ms : ℤ) : Text :=
  padded 2 (ms / 3600000) ++ ':' :: padded 2 (ms / 60000 % 60) ++
    ':' :: padded 2 (ms / 1000 % 60) ++ ',' :: padded 3 (ms % 1000)

section Clock

variable (q : ℚ)

theorem floorMod_nonneg {m : ℚ} (hm : 0 < m) : 0 ≤ floorMod q m := (remainder_bounds q hm).1

/-- Units of a remainder: as the units of the whole, and their remainder. -/
theorem floor_floorMod_mul {k : ℕ} (hk : 0 < k) {m n : ℕ} (hn : 0 < n) (hm : m * n = k) :
    (floorMod q k / n).floor = (q / n).floor % m := by
  have hk' : (k : ℚ) ≠ 0 := by exact_mod_cast hk.ne'
  have hn' : (n : ℚ) ≠ 0 := by exact_mod_cast hn.ne'
  have hm' : (k : ℚ) = m * n := by exact_mod_cast hm.symm
  have hsplit : floorMod q k / n = q / n - ((m * (q / k).floor : ℤ) : ℚ) := by
    unfold floorMod
    rw [hm']
    push_cast
    field_simp
  have hquotient : q / k = q / n / m := by
    rw [hm', div_div, mul_comm]
  have hfloor : (q / k).floor = (q / n).floor / m := by
    rw [hquotient]
    exact Int.floor_div_natCast (q / n) m
  have hsub : (floorMod q k / n).floor = (q / n).floor - m * (q / k).floor := by
    rw [hsplit]
    exact Int.floor_sub_intCast (q / n) _
  rw [hsub, hfloor, Int.emod_def]

theorem floor_second : q.floor = (q * 1000).floor / 1000 := by
  have hdiv : (q * 1000 / 1000).floor = (q * 1000).floor / 1000 :=
    Int.floor_div_natCast (q * 1000) 1000
  rwa [mul_div_cancel_right₀ _ (by norm_num)] at hdiv

theorem floor_hours : (q / 3600).floor = q.floor / 3600 := Int.floor_div_natCast q 3600

theorem floor_minutes : (floorMod q 3600 / 60).floor = q.floor / 60 % 60 := by
  have hunits := floor_floorMod_mul q (k := 3600) (by decide) (m := 60) (n := 60) (by decide) rfl
  have hfloor : (q / 60).floor = q.floor / 60 := Int.floor_div_natCast q 60
  rw [← hfloor]
  exact_mod_cast hunits

theorem truncate_secs : truncate (floorMod q 60) = q.floor % 60 := by
  have hunits := floor_floorMod_mul q (k := 60) (by decide) (m := 60) (n := 1) (by decide) rfl
  rw [truncate_of_nonneg (floorMod_nonneg q (by norm_num))]
  rw [Nat.cast_one, div_one, div_one] at hunits
  exact_mod_cast hunits

theorem floor_millis : (floorMod q 1 * 1000).floor = (q * 1000).floor % 1000 := by
  have hsplit : floorMod q 1 * 1000 = q * 1000 - ((1000 * q.floor : ℤ) : ℚ) := by
    unfold floorMod
    rw [div_one]
    push_cast
    ring
  have hsub : (floorMod q 1 * 1000).floor = (q * 1000).floor - 1000 * q.floor := by
    rw [hsplit]
    exact Int.floor_sub_intCast (q * 1000) _
  rw [hsub, floor_second q, Int.emod_def]

theorem truncate_millis : truncate (floorMod q 1 * 1000) = (floorMod q 1 * 1000).floor :=
  truncate_of_nonneg (mul_nonneg (floorMod_nonneg q one_pos) (by norm_num))

/-- Without roundings the printed instant is truncated to the millisecond. -/
theorem formatSrtTime_eq : formatSrtTime .exact q = clock (q * 1000).floor := by
  have hsecond := floor_second q
  have hminutes : q.floor / 60 = (q * 1000).floor / 60000 := by omega
  have hhours : q.floor / 3600 = (q * 1000).floor / 3600000 := by omega
  unfold formatSrtTime clock
  simp only [float_exact]
  rw [floor_hours, floor_minutes, truncate_secs, truncate_millis, floor_millis, hhours, hminutes,
    hsecond]

end Clock

/-- The numbers printed for a float are those of an instant. -/
structure SameFields (arithmetic : Arithmetic) (x instant : ℚ) : Prop where
  hours : (x / 3600).floor = (instant / 3600).floor
  minutes : (arithmetic.float (floorMod x 3600) / 60).floor = (floorMod instant 3600 / 60).floor
  secs : truncate (arithmetic.float (floorMod x 60)) = truncate (floorMod instant 60)
  millis : truncate (arithmetic.float (arithmetic.float (floorMod x 1) * 1000)) =
    truncate (floorMod instant 1 * 1000)

/-- A float is in the second of an instant and, up to half a unit of the last place, in the same
thousandth of it. Before the start of the video a remainder may be rounded up to a whole minute or
hour, and all fields count. -/
structure Kept (arithmetic : Arithmetic) (x instant : ℚ) : Prop where
  second : 0 ≤ x → x.floor = instant.floor
  thousandth : 0 ≤ x →
    (floorMod x 1 * 1000 + arithmetic.slack (floorMod x 1 * 1000)).floor =
      (floorMod instant 1 * 1000).floor
  before : x < 0 → SameFields arithmetic x instant

section Fields

variable {arithmetic : Arithmetic} {x instant : ℚ}

theorem float_floorMod {m : ℕ} (hfloat : arithmetic.float x = x) (hnonneg : 0 ≤ x) (hm : 0 < m)
    (hsmall : m < 2 ^ 53) : arithmetic.float (floorMod x m) = floorMod x m :=
  float_remainder hfloat hnonneg hm hsmall

/-- The remainders of a float are floats; only the thousandths of a second are rounded. -/
theorem truncate_thousandths (hfloat : arithmetic.float x = x) (hnonneg : 0 ≤ x) :
    truncate (arithmetic.float (arithmetic.float (floorMod x 1) * 1000)) =
      (floorMod x 1 * 1000 + arithmetic.slack (floorMod x 1 * 1000)).floor := by
  have hfraction : arithmetic.float (floorMod x 1) = floorMod x 1 := by
    exact_mod_cast float_floorMod (m := 1) hfloat hnonneg (by decide) (by decide)
  obtain ⟨hlow, hhigh⟩ := remainder_bounds x one_pos
  have hthousandths : 0 ≤ floorMod x 1 * 1000 := mul_nonneg hlow (by norm_num)
  have hbelow : floorMod x 1 * 1000 < 2 ^ 52 := by
    have hless : floorMod x 1 < 1 := hhigh
    linarith
  have hzero : arithmetic.float ((0 : ℤ) : ℚ) = (0 : ℤ) := float_intCast (by decide)
  have hfloat_nonneg : 0 ≤ arithmetic.float (floorMod x 1 * 1000) := by
    have hle := float_mono arithmetic hthousandths
    rwa [← Int.cast_zero, hzero] at hle
  rw [hfraction, truncate_of_nonneg hfloat_nonneg, floor_float hthousandths hbelow]

theorem sameFields_iff (hfloat : arithmetic.float x = x) :
    SameFields arithmetic x instant ↔ Kept arithmetic x instant := by
  rcases lt_or_ge x 0 with hneg | hnonneg
  · exact ⟨fun h => ⟨fun hx => absurd hneg (not_lt.mpr hx), fun hx => absurd hneg (not_lt.mpr hx),
      fun _ => h⟩, fun h => h.before hneg⟩
  have hhour : arithmetic.float (floorMod x 3600) = floorMod x 3600 := by
    exact_mod_cast float_floorMod (m := 3600) hfloat hnonneg (by decide) (by decide)
  have hminute : arithmetic.float (floorMod x 60) = floorMod x 60 := by
    exact_mod_cast float_floorMod (m := 60) hfloat hnonneg (by decide) (by decide)
  have hmillis := truncate_thousandths hfloat hnonneg
  constructor
  · intro h
    obtain ⟨hhours, hminutes, hsecs, hthousandths⟩ := h
    rw [floor_hours, floor_hours] at hhours
    rw [hhour, floor_minutes, floor_minutes] at hminutes
    rw [hminute, truncate_secs, truncate_secs] at hsecs
    rw [hmillis, truncate_millis] at hthousandths
    exact ⟨fun _ => by omega, fun _ => hthousandths, fun hx => absurd hx (not_lt.mpr hnonneg)⟩
  · intro h
    have hsecond := h.second hnonneg
    refine ⟨?_, ?_, ?_, ?_⟩
    · rw [floor_hours, floor_hours, hsecond]
    · rw [hhour, floor_minutes, floor_minutes, hsecond]
    · rw [hminute, truncate_secs, truncate_secs, hsecond]
    · rw [hmillis, truncate_millis, h.thousandth hnonneg]

end Fields

/-- The transcript of a segment: the first answer that was given. -/
def transcript (r : Recorded) : Option (List Passage) := (r.attempts.findSome? id).or r.last

/-- The passages of a transcript that are subtitles. -/
def passages (blacklist : List Text) (r : Recorded) : List Passage :=
  ((transcript r).getD []).filter fun ss => isSegmentAllowed ss.text blacklist

section Processing

variable {blacklist : List Text}

theorem foldl_processWhileRecording (attempts : List (Option (List Passage))) {s : Segment}
    (h : s.processed = false) :
    attempts.foldl (processWhileRecording blacklist) s =
      match attempts.findSome? id with
      | some ps => { s with txt := some (written blacklist ps), processed := true }
      | none => s := by
  induction attempts with
  | nil => rfl
  | cons response attempts ih =>
    have hfresh : ¬ s.processed = true := by simp [h]
    rw [List.foldl_cons]
    unfold processWhileRecording
    rw [if_neg hfresh]
    cases response with
    | none => exact ih
    | some ps =>
      -- A tagged segment is not transcribed again.
      have hkept (s : Segment) (hs : s.processed = true) :
          attempts.foldl (processWhileRecording blacklist) s = s := by
        clear ih
        induction attempts with
        | nil => rfl
        | cons response attempts ih =>
          have hturn : processWhileRecording blacklist s response = s := if_pos hs
          rw [List.foldl_cons, hturn]
          exact ih
      exact hkept _ rfl

theorem finished_eq (number : ℕ) (r : Recorded) : finished blacklist number r =
    { number := number
      recorded := r
      processed := true
      txt := (transcript r).map (written blacklist) } := by
  have hloop := @foldl_processWhileRecording blacklist r.attempts
    { number := number, recorded := r, processed := false, txt := none } rfl
  unfold finished transcript
  dsimp only
  rw [hloop]
  cases r.attempts.findSome? id with
  | some ps => rfl
  | none => cases r.last <;> simp [processAfterRecording]

theorem mem_directory {recorded : List Recorded} {s : Segment}
    (h : s ∈ directory blacklist recorded) :
    s.processed = true ∧ s.txt = (transcript s.recorded).map (written blacklist) := by
  obtain ⟨e, -, rfl⟩ := List.mem_map.mp h
  rw [finished_eq]
  exact ⟨rfl, rfl⟩

end Processing

section Names

variable {x y : Text}

theorem cons_le_cons_iff {c d : Char} {u v : Text} : c :: u ≤ d :: v ↔ c < d ∨ c = d ∧ u ≤ v := by
  rw [le_iff_lt_or_eq, List.cons_lt_cons_iff, le_iff_lt_or_eq, List.cons.injEq]
  tauto

/-- What follows a mark that neither text has does not change their order. -/
theorem append_le_append_iff {u v : Text} (hu : '.' ∉ u) (hv : '.' ∉ v) :
    u ++ '.' :: x ≤ v ++ '.' :: x ↔ u ++ '.' :: y ≤ v ++ '.' :: y := by
  induction u generalizing v with
  | nil =>
    cases v with
    | nil => simp
    | cons c v =>
      have hc : '.' ≠ c := List.ne_of_not_mem_cons hv
      simp [cons_le_cons_iff, hc]
  | cons c u ih =>
    have hc : '.' ≠ c := List.ne_of_not_mem_cons hu
    cases v with
    | nil => simp [cons_le_cons_iff, hc.symm]
    | cons d v =>
      simp only [List.cons_append, cons_le_cons_iff,
        ih (List.not_mem_of_not_mem_cons hu) (List.not_mem_of_not_mem_cons hv)]

theorem ofDigitChars_padded (width n : ℕ) :
    Nat.ofDigitChars 10 (padded width n) 0 = n := by
  have hsign : ¬ (n : ℤ) < 0 := by omega
  simp [padded, hsign, Nat.ofDigitChars_append]

theorem isDigit_of_mem_padded {width n : ℕ} {c : Char} (h : c ∈ padded width n) :
    c.isDigit = true := by
  have hsign : ¬ (n : ℤ) < 0 := by omega
  unfold padded at h
  rw [if_neg hsign] at h
  rcases List.mem_append.mp h with h | h
  · obtain ⟨-, rfl⟩ := List.mem_replicate.mp h
    decide
  · exact Nat.isDigit_of_mem_toDigits (by decide) (by decide) h

theorem padded_of_neg {width : ℕ} {n : ℤ} (h : n < 0) :
    padded width n = '-' :: padded (width - 1) (n.natAbs : ℕ) := by
  have hsign : ¬ ((n.natAbs : ℕ) : ℤ) < 0 := by omega
  unfold padded
  rw [if_pos h, if_neg hsign, Int.natAbs_natCast]
  rfl

theorem mem_padded {width : ℕ} {n : ℤ} {c : Char} (h : c ∈ padded width n) :
    c.isDigit = true ∨ c = '-' := by
  rcases lt_or_ge n 0 with hneg | hnonneg
  · rw [padded_of_neg hneg] at h
    rcases List.mem_cons.mp h with rfl | h
    · exact .inr rfl
    · exact .inl (isDigit_of_mem_padded h)
  · obtain ⟨k, rfl⟩ := Int.eq_ofNat_of_zero_le hnonneg
    exact .inl (isDigit_of_mem_padded h)

theorem notMem_padded {width : ℕ} {n : ℤ} {c : Char} (h : c.isDigit = false) (hsign : c ≠ '-') :
    c ∉ padded width n := by
  intro hc
  rcases mem_padded hc with hdigit | rfl
  · exact absurd (h.symm.trans hdigit) (by decide)
  · exact hsign rfl

theorem padded_injective {width : ℕ} {m n : ℤ} (h : padded width m = padded width n) : m = n := by
  have hnat {width i j : ℕ} (hij : padded width (i : ℕ) = padded width (j : ℕ)) : i = j := by
    have hvalue := congrArg (fun ds => Nat.ofDigitChars 10 ds 0) hij
    simpa only [ofDigitChars_padded] using hvalue
  have hminus {i : ℕ} : '-' ∉ padded width (i : ℕ) := fun hmem =>
    absurd (isDigit_of_mem_padded hmem) (by decide)
  rcases lt_or_ge m 0 with hm | hm <;> rcases lt_or_ge n 0 with hn | hn
  · rw [padded_of_neg hm, padded_of_neg hn] at h
    have habs := hnat (List.cons.inj h).2
    omega
  · obtain ⟨j, rfl⟩ := Int.eq_ofNat_of_zero_le hn
    rw [padded_of_neg hm] at h
    exact absurd (h ▸ List.mem_cons_self) hminus
  · obtain ⟨i, rfl⟩ := Int.eq_ofNat_of_zero_le hm
    rw [padded_of_neg hn] at h
    exact absurd (h.symm ▸ List.mem_cons_self) hminus
  · obtain ⟨i, rfl⟩ := Int.eq_ofNat_of_zero_le hm
    obtain ⟨j, rfl⟩ := Int.eq_ofNat_of_zero_le hn
    rw [hnat h]

theorem dot_notMem_stem (s : Segment) : '.' ∉ s.stem := by
  have hfront : '.' ∉ "segment_".toList := by decide
  intro h
  rcases List.mem_append.mp h with h | h
  · exact hfront h
  · exact absurd (isDigit_of_mem_padded h) (by decide)

/-- Files sorted by a name. -/
theorem pairwise_sorted (name : Segment → Text) (l : List Segment) :
    (l.mergeSort fun s t => decide (name s ≤ name t)).Pairwise fun s t => name s ≤ name t := by
  have hsorted := @List.pairwise_mergeSort _ (fun s t => decide (name s ≤ name t))
    (fun a b c hab hbc => decide_eq_true
      (le_trans (of_decide_eq_true hab) (of_decide_eq_true hbc)))
    (fun a b => by simpa using le_total (name a) (name b)) l
  exact hsorted.imp of_decide_eq_true

/-- Transcripts and tagged videos have the same order, however many there are. -/
theorem txtName_le_iff {s t : Segment} (hs : s.processed = true) (ht : t.processed = true) :
    s.txtName ≤ t.txtName ↔ s.mp4Name ≤ t.mp4Name := by
  unfold Segment.txtName Segment.mp4Name
  rw [if_pos hs, if_pos ht]
  exact append_le_append_iff (dot_notMem_stem s) (dot_notMem_stem t)

theorem mp4Name_injective {s t : Segment} (hs : s.processed = true) (ht : t.processed = true)
    (h : s.mp4Name = t.mp4Name) : s.number = t.number := by
  unfold Segment.mp4Name Segment.stem at h
  rw [if_pos hs, if_pos ht] at h
  have hpadded := List.append_cancel_left (List.append_cancel_right h)
  have hnumber := congrArg (fun ds => Nat.ofDigitChars 10 ds 0) hpadded
  simpa only [ofDigitChars_padded] using hnumber

theorem directory_eq_of_number {blacklist : List Text} {recorded : List Recorded} {s t : Segment}
    (hs : s ∈ directory blacklist recorded) (ht : t ∈ directory blacklist recorded)
    (h : s.number = t.number) : s = t := by
  obtain ⟨e, he, rfl⟩ := List.mem_map.mp hs
  obtain ⟨f, hf, rfl⟩ := List.mem_map.mp ht
  rw [finished_eq, finished_eq] at h
  have hrecorded : some e.1 = some f.1 := by
    rw [← List.mem_zipIdx_iff_getElem?.mp he, ← List.mem_zipIdx_iff_getElem?.mp hf]
    exact congrArg (recorded[·]?) h
  rw [Option.some.inj hrecorded]
  exact congrArg (finished blacklist · f.1) h

/-- The transcripts stand in the order of the segments of the video. -/
theorem txtFiles_eq (blacklist : List Text) (recorded : List Recorded) :
    txtFiles (directory blacklist recorded) =
      (segmentsList (directory blacklist recorded)).filter fun s => s.txt.isSome := by
  set dir := directory blacklist recorded with hdir
  have horder : ∀ s ∈ dir, ∀ t ∈ dir, s.txtName ≤ t.txtName ↔ s.mp4Name ≤ t.mp4Name :=
    fun s hs t ht => txtName_le_iff (mem_directory hs).1 (mem_directory ht).1
  have hsorted : (txtFiles dir).Pairwise fun s t => s.mp4Name ≤ t.mp4Name := by
    have htxt := pairwise_sorted Segment.txtName (dir.filter fun s => s.txt.isSome)
    refine htxt.imp_of_mem fun {s t} hs ht hle => ?_
    have hmem {u : Segment} (hu : u ∈ txtFiles dir) : u ∈ dir :=
      (List.mem_filter.mp (List.mem_mergeSort.mp hu)).1
    exact (horder s (hmem hs) t (hmem ht)).mp hle
  have hvideo := pairwise_sorted Segment.mp4Name dir
  have hperm : (txtFiles dir).Perm ((segmentsList dir).filter fun s => s.txt.isSome) :=
    (List.mergeSort_perm _ _).trans ((List.mergeSort_perm dir _).symm.filter _)
  refine hperm.eq_of_pairwise ?_ hsorted (hvideo.filter _)
  intro s t hs ht hst hts
  have hs' := (List.mem_filter.mp (List.mem_mergeSort.mp hs)).1
  have ht' := List.mem_mergeSort.mp (List.mem_filter.mp ht).1
  refine directory_eq_of_number hs' ht' ?_
  exact mp4Name_injective (mem_directory hs').1 (mem_directory ht').1 (le_antisymm hst hts)

end Names

/-- No line after the first is itself the line of a subtitle. -/
def Plain (text : Text) : Prop := ∀ line ∈ (pieces text).tail, matchLine line = none

/-- The instants of a passage in the video. -/
def place (total : ℚ) (ss : Passage) : ℚ × ℚ :=
  (hundredth ss.start + total, hundredth ss.stop + total)

/-- The floats the script takes for them. -/
def shifted (arithmetic : Arithmetic) (offset : ℚ) (ss : Passage) : ℚ × ℚ :=
  (arithmetic.float (arithmetic.float (hundredth ss.start) + offset),
    arithmetic.float (arithmetic.float (hundredth ss.stop) + offset))

/-- What a line says in front of its text. -/
def marks (ss : Passage) : Text :=
  '[' :: fixed2 ss.start ++ "s -> ".toList ++ fixed2 ss.stop ++ "s] ".toList

section Lines

variable {py : PythonFloat} {offset : ℚ} {ss : Passage} {ps : List Passage}

theorem mem_fixed2 {q : ℚ} {c : Char} (h : c ∈ fixed2 q) :
    c.isDigit = true ∨ c = '-' ∨ c = '.' := by
  have hdigit {n : ℕ} (hc : c ∈ Nat.toDigits 10 n) : c.isDigit = true :=
    Nat.isDigit_of_mem_toDigits (by decide) (by decide) hc
  rcases List.mem_append.mp h with h | h
  · rcases List.mem_append.mp h with h | h
    · split at h
      · exact .inr (.inl (List.mem_singleton.mp h))
      · exact absurd h List.not_mem_nil
    · exact .inl (hdigit h)
  · rcases List.mem_cons.mp h with rfl | h
    · exact .inr (.inr rfl)
    · exact .inl (isDigit_of_mem_padded h)

theorem notMem_fixed2 (q : ℚ) {c : Char} (h : c.isDigit = false) (hsign : c ≠ '-')
    (hpoint : c ≠ '.') : c ∉ fixed2 q := by
  intro hc
  rcases mem_fixed2 hc with hdigit | rfl | rfl
  · exact absurd (h.symm.trans hdigit) (by decide)
  · exact hsign rfl
  · exact hpoint rfl

theorem cut_append {c : Char} {sep l rest : Text} (h : c ∉ l) :
    cut (c :: sep) (l ++ c :: sep ++ rest) = some (l, rest) := by
  induction l with
  | nil =>
    have hfront : c :: sep <+: c :: (sep ++ rest) := ⟨rest, rfl⟩
    simp [cut, hfront]
  | cons d l ih =>
    have hne : c ≠ d := List.ne_of_not_mem_cons h
    have hfront : ¬ c :: sep <+: d :: (l ++ c :: sep ++ rest) := by
      rintro ⟨l', hl'⟩
      exact hne (List.cons.inj hl').1
    have htail := ih (List.not_mem_of_not_mem_cons h)
    rw [List.cons_append, List.cons_append, cut, if_neg hfront, htail]
    rfl

/-- What is printed shows each of its four numbers. -/
theorem formatSrtTime_eq_clock_iff {arithmetic : Arithmetic} {x instant : ℚ} :
    formatSrtTime arithmetic x = clock (instant * 1000).floor ↔
      SameFields arithmetic x instant := by
  have hcut {c : Char} (hdigit : c.isDigit = false) (hsign : c ≠ '-') {width width' : ℕ} {m n : ℤ}
      {u v : Text} (h : padded width m ++ c :: u = padded width' n ++ c :: v) :
      padded width m = padded width' n ∧ u = v := by
    have hfirst := @cut_append c [] _ u (@notMem_padded width m c hdigit hsign)
    have hsecond := @cut_append c [] _ v (@notMem_padded width' n c hdigit hsign)
    rw [List.append_assoc, List.singleton_append] at hfirst hsecond
    rw [h, hsecond] at hfirst
    exact Prod.mk.inj (Option.some.inj hfirst).symm
  rw [← formatSrtTime_eq]
  unfold formatSrtTime
  dsimp only
  simp only [float_exact]
  constructor
  · intro h
    simp only [List.append_assoc, List.cons_append] at h
    obtain ⟨hhours, h⟩ := hcut (by decide) (by decide) h
    obtain ⟨hminutes, h⟩ := hcut (by decide) (by decide) h
    obtain ⟨hsecs, hmillis⟩ := hcut (by decide) (by decide) h
    exact ⟨padded_injective hhours, padded_injective hminutes, padded_injective hsecs,
      padded_injective hmillis⟩
  · rintro ⟨hhours, hminutes, hsecs, hmillis⟩
    rw [hhours, hminutes, hsecs, hmillis]

theorem matchLine_marks (ss : Passage) (text : Text) :
    matchLine (marks ss ++ text) = some (fixed2 ss.start, fixed2 ss.stop, text) := by
  have hnotMem (q : ℚ) : 's' ∉ fixed2 q :=
    notMem_fixed2 q (by decide) (by decide) (by decide)
  have hfirst : cut "s -> ".toList
      (fixed2 ss.start ++ "s -> ".toList ++ (fixed2 ss.stop ++ "s] ".toList ++ text)) =
      some (fixed2 ss.start, fixed2 ss.stop ++ "s] ".toList ++ text) := cut_append (hnotMem _)
  have hsecond : cut "s] ".toList (fixed2 ss.stop ++ "s] ".toList ++ text) =
      some (fixed2 ss.stop, text) := cut_append (hnotMem _)
  have hline : marks ss ++ text =
      '[' :: (fixed2 ss.start ++ "s -> ".toList ++ (fixed2 ss.stop ++ "s] ".toList ++ text)) := by
    simp [marks]
  rw [hline, matchLine, hfirst]
  dsimp only [bind, Option.bind]
  rw [hsecond]

/-- The lines of what is written for a passage. -/
theorem textLines_transcriptLine (ss : Passage) (rest : Text) :
    ∃ first tail, pieces ss.text = first :: tail ∧
      textLines (transcriptLine ss ++ rest) = (marks ss ++ first) :: tail ++ textLines rest := by
  have hnotMem (c : Char) (hdigit : c.isDigit = false) (hother : c ∉ "-.[]s> ".toList) :
      c ∉ marks ss := by
    have hne : c ≠ '-' ∧ c ≠ '.' ∧ c ≠ '[' ∧ c ≠ ']' ∧ c ≠ 's' ∧ c ≠ '>' ∧ c ≠ ' ' := by
      simpa using hother
    obtain ⟨hminus, hpoint, hopen, hclose, hs, harrow, hblank⟩ := hne
    have hstart := notMem_fixed2 ss.start hdigit hminus hpoint
    have hstop := notMem_fixed2 ss.stop hdigit hminus hpoint
    simp [marks, hstart, hstop, hminus, hopen, hclose, hs, harrow, hblank]
  have hline : transcriptLine ss ++ rest = marks ss ++ (ss.text ++ '\n' :: rest) := by
    simp [transcriptLine, marks]
  obtain ⟨first, tail, hpieces⟩ := List.exists_cons_of_ne_nil (pieces_ne_nil ss.text)
  obtain ⟨first', tail', hlines, happend⟩ := textLines_append
    (hnotMem '\n' (by decide) (by decide)) (hnotMem '\r' (by decide) (by decide))
    (ss.text ++ '\n' :: rest)
  rw [textLines_append_feed, hpieces, List.cons_append] at hlines
  obtain ⟨rfl, rfl⟩ := List.cons.inj hlines
  exact ⟨first, tail, hpieces, by rw [hline, happend, List.cons_append]⟩

theorem readLines_skip {lines rest : List Text} {index : ℕ}
    (h : ∀ line ∈ lines, matchLine line = none) :
    readLines py offset index (lines ++ rest) = readLines py offset index rest := by
  induction lines with
  | nil => rfl
  | cons line lines ih =>
    obtain ⟨hline, hlines⟩ := List.forall_mem_cons.mp h
    rw [List.cons_append, readLines, hline]
    exact ih hlines

/-- A file yields one subtitle for each line that matches. -/
theorem length_readLines {lines : List Text} {index : ℕ} {subtitles : List Subtitle}
    (h : readLines py offset index lines = some subtitles) :
    subtitles.length = lines.countP fun line => (matchLine line).isSome := by
  induction lines generalizing index subtitles with
  | nil =>
    obtain rfl := Option.some.inj h
    rfl
  | cons line lines ih =>
    rw [readLines] at h
    rw [List.countP_cons]
    cases hline : matchLine line with
    | none =>
      rw [hline] at h
      simpa using ih h
    | some m =>
      obtain ⟨first, second, text⟩ := m
      rw [hline] at h
      obtain ⟨start, -, h⟩ := Option.bind_eq_some_iff.mp h
      obtain ⟨stop, -, h⟩ := Option.bind_eq_some_iff.mp h
      obtain ⟨others, hothers, h⟩ := Option.bind_eq_some_iff.mp h
      obtain rfl := Option.some.inj h
      simpa using ih hothers

/-- The subtitles of passages whose texts are plain. -/
theorem readLines_written (py : PythonFloat) (offset : ℚ) (index : ℕ)
    (h : ∀ ss ∈ ps, Plain ss.text) :
    ∃ subtitles,
      readLines py offset index (textLines (ps.flatMap transcriptLine)) = some subtitles ∧
      subtitles.map (fun c => ((c.startTime, c.endTime), c.index)) =
        (ps.map (shifted py.arithmetic offset)).zipIdx index := by
  induction ps generalizing index with
  | nil => exact ⟨[], rfl, rfl⟩
  | cons ss ps ih =>
    obtain ⟨hplain, hps⟩ := List.forall_mem_cons.mp h
    obtain ⟨first, tail, hpieces, hlines⟩ :=
      textLines_transcriptLine ss (ps.flatMap transcriptLine)
    obtain ⟨subtitles, hread, hplaces⟩ := ih (index + 1) hps
    have htail : ∀ line ∈ tail, matchLine line = none := by
      unfold Plain at hplain
      rwa [hpieces] at hplain
    refine ⟨⟨index, (shifted py.arithmetic offset ss).1, (shifted py.arithmetic offset ss).2,
      first⟩ :: subtitles, ?_, ?_⟩
    · rw [List.flatMap_cons, hlines, List.cons_append, readLines, matchLine_marks]
      dsimp only
      rw [py.float_fixed2, py.float_fixed2, readLines_skip htail, hread]
      rfl
    · rw [List.map_cons, hplaces]
      rfl

/-- A file has a line of a subtitle for every passage, and more where a text is not plain. -/
theorem countP_written (ps : List Passage) :
    ps.length ≤ (textLines (ps.flatMap transcriptLine)).countP
      (fun line => (matchLine line).isSome) ∧
    ((textLines (ps.flatMap transcriptLine)).countP (fun line => (matchLine line).isSome) =
      ps.length → ∀ ss ∈ ps, Plain ss.text) := by
  induction ps with
  | nil => exact ⟨Nat.zero_le _, nofun⟩
  | cons ss ps ih =>
    obtain ⟨first, tail, hpieces, hlines⟩ :=
      textLines_transcriptLine ss (ps.flatMap transcriptLine)
    obtain ⟨hle, hplain⟩ := ih
    rw [List.flatMap_cons, hlines, List.cons_append, List.countP_cons, List.countP_append,
      matchLine_marks, List.length_cons]
    simp only [Option.isSome_some, if_true]
    refine ⟨by omega, fun h => List.forall_mem_cons.mpr ⟨?_, hplain (by omega)⟩⟩
    have htail : tail.countP (fun line => (matchLine line).isSome) = 0 := by omega
    intro line hline
    rw [hpieces] at hline
    simpa using List.countP_eq_zero.mp htail line hline

end Lines

def duration (video : List Segment) : ℚ := (video.map fun s => s.recorded.duration).sum

/-- The subtitles of the video: every one at its own time after all earlier segments. -/
def placed (blacklist : List Text) (video : List Segment) : List (ℚ × ℚ) :=
  video.zipIdx.flatMap fun e =>
    (passages blacklist e.1.recorded).map (place (duration (video.take e.2)))

/-- The offset of the script after a segment: the time of one without a transcript is missing. -/
def nextOffset (arithmetic : Arithmetic) (offset : ℚ) (s : Segment) : ℚ :=
  if (transcript s.recorded).isSome then
    arithmetic.float (offset + arithmetic.float s.recorded.duration)
  else offset

/-- The transcripts are in step with the video: the floats the script takes for the instants of a
subtitle are in the same thousandths of a second, and no text of a subtitle has a line that is one
of a subtitle. -/
structure InStep (arithmetic : Arithmetic) (blacklist : List Text) (video : List Segment) :
    Prop where
  plain : ∀ s ∈ video, ∀ ss ∈ passages blacklist s.recorded, Plain ss.text
  kept : ∀ before s after, video = before ++ s :: after →
    ∀ ss ∈ passages blacklist s.recorded,
      Kept arithmetic (shifted arithmetic (before.foldl (nextOffset arithmetic) 0) ss).1
        (place (duration before) ss).1 ∧
      Kept arithmetic (shifted arithmetic (before.foldl (nextOffset arithmetic) 0) ss).2
        (place (duration before) ss).2

def clocks (instants : ℚ × ℚ) : Text × Text :=
  (clock (instants.1 * 1000).floor, clock (instants.2 * 1000).floor)

def printedTimes (arithmetic : Arithmetic) (times : ℚ × ℚ) : Text × Text :=
  (formatSrtTime arithmetic times.1, formatSrtTime arithmetic times.2)

section Files

variable {blacklist : List Text} {py : PythonFloat} {arithmetic : Arithmetic} {offset total : ℚ}
  {s : Segment} {video : List Segment}

/-- As `placed`, with seconds that went before. -/
def placedFrom (blacklist : List Text) (total : ℚ) : List Segment → List (ℚ × ℚ)
  | [] => []
  | s :: video => (passages blacklist s.recorded).map (place total) ++
      placedFrom blacklist (total + s.recorded.duration) video

/-- As `placedFrom`, where the script puts them. -/
def placedInStep (arithmetic : Arithmetic) (blacklist : List Text) (offset : ℚ) :
    List Segment → List (ℚ × ℚ)
  | [] => []
  | s :: video => (passages blacklist s.recorded).map (shifted arithmetic offset) ++
      placedInStep arithmetic blacklist (nextOffset arithmetic offset s) video

theorem duration_cons (s : Segment) (video : List Segment) :
    duration (s :: video) = s.recorded.duration + duration video := by
  rw [duration, List.map_cons, List.sum_cons, duration]

theorem placedFrom_eq (total : ℚ) (video : List Segment) : placedFrom blacklist total video =
    video.zipIdx.flatMap fun e =>
      (passages blacklist e.1.recorded).map (place (total + duration (video.take e.2))) := by
  induction video generalizing total with
  | nil => rfl
  | cons s video ih =>
    have hnext (i : ℕ) : total + duration ((s :: video).take (i + 1)) =
        total + s.recorded.duration + duration (video.take i) := by
      rw [List.take_succ_cons, duration_cons, add_assoc]
    have hzero : total + duration ((s :: video).take 0) = total := by simp [duration]
    rw [placedFrom, ih, List.zipIdx_cons', List.flatMap_cons, List.flatMap_map, hzero]
    simp only [Prod.map_fst, Prod.map_snd, id_eq, hnext]

theorem placed_eq (video : List Segment) :
    placed blacklist video = placedFrom blacklist 0 video := by
  rw [placedFrom_eq]
  simp only [zero_add, placed]

theorem passages_of_untranscribed (h : transcript s.recorded = none) :
    passages blacklist s.recorded = [] := by
  unfold passages
  rw [h]
  rfl

theorem written_eq {ps : List Passage} (h : transcript s.recorded = some ps) :
    written blacklist ps = (passages blacklist s.recorded).flatMap transcriptLine := by
  unfold written passages
  rw [h]
  rfl

theorem length_placedInStep (offset : ℚ) (video : List Segment) :
    (placedInStep arithmetic blacklist offset video).length =
      (placedFrom blacklist total video).length := by
  induction video generalizing offset total with
  | nil => rfl
  | cons s video ih =>
    rw [placedInStep, placedFrom, List.length_append, List.length_append, List.length_map,
      List.length_map, ih]

theorem printedTimes_eq_iff {ss : Passage} {instants : ℚ × ℚ} :
    printedTimes arithmetic (shifted arithmetic offset ss) = clocks instants ↔
      Kept arithmetic (shifted arithmetic offset ss).1 instants.1 ∧
      Kept arithmetic (shifted arithmetic offset ss).2 instants.2 := by
  rw [printedTimes, clocks, Prod.mk.injEq, formatSrtTime_eq_clock_iff, formatSrtTime_eq_clock_iff]
  exact and_congr (sameFields_iff (float_float arithmetic _))
    (sameFields_iff (float_float arithmetic _))

/-- The printed times are those of the video where each one is kept. -/
theorem printed_eq_iff :
    (placedInStep arithmetic blacklist offset video).map (printedTimes arithmetic) =
      (placedFrom blacklist total video).map clocks ↔
    ∀ before s after, video = before ++ s :: after → ∀ ss ∈ passages blacklist s.recorded,
      Kept arithmetic (shifted arithmetic (before.foldl (nextOffset arithmetic) offset) ss).1
        (place (total + duration before) ss).1 ∧
      Kept arithmetic (shifted arithmetic (before.foldl (nextOffset arithmetic) offset) ss).2
        (place (total + duration before) ss).2 := by
  induction video generalizing offset total with
  | nil => exact iff_of_true rfl fun before s after h => absurd h (by simp)
  | cons s video ih =>
    have hhead : ((passages blacklist s.recorded).map (shifted arithmetic offset)).map
          (printedTimes arithmetic) =
        ((passages blacklist s.recorded).map (place total)).map clocks ↔
        ∀ ss ∈ passages blacklist s.recorded,
          Kept arithmetic (shifted arithmetic offset ss).1 (place total ss).1 ∧
          Kept arithmetic (shifted arithmetic offset ss).2 (place total ss).2 := by
      rw [List.map_map, List.map_map, List.map_inj_left]
      exact forall₂_congr fun ss _ => printedTimes_eq_iff
    have hlength : (((passages blacklist s.recorded).map (shifted arithmetic offset)).map
          (printedTimes arithmetic)).length =
        (((passages blacklist s.recorded).map (place total)).map clocks).length := by
      simp only [List.length_map]
    rw [placedInStep, placedFrom, List.map_append, List.map_append,
      List.append_eq_append_iff_of_size_eq_left hlength, hhead, ih]
    constructor
    · rintro ⟨hfirst, hrest⟩ before t after hsplit
      cases before with
      | nil =>
        obtain ⟨rfl, rfl⟩ := List.cons.inj hsplit
        simpa [duration] using hfirst
      | cons u before =>
        obtain ⟨rfl, rfl⟩ := List.cons.inj hsplit
        rw [duration_cons, ← add_assoc, List.foldl_cons]
        exact hrest before t after rfl
    · intro h
      refine ⟨by simpa [duration] using h [] s video rfl, fun before t after hsplit => ?_⟩
      have hall := h (s :: before) t after (by rw [hsplit, List.cons_append])
      rwa [duration_cons, ← add_assoc, List.foldl_cons] at hall

/-- The files of segments whose texts are plain. -/
theorem readFiles_placed (py : PythonFloat) (offset : ℚ) (index : ℕ)
    (hfiles : ∀ s ∈ video, s.txt = (transcript s.recorded).map (written blacklist))
    (hplain : ∀ s ∈ video, ∀ ss ∈ passages blacklist s.recorded, Plain ss.text) :
    ∃ subtitles, readFiles py offset index (video.filter fun s => s.txt.isSome) = some subtitles ∧
      subtitles.map (fun c => ((c.startTime, c.endTime), c.index)) =
        (placedInStep py.arithmetic blacklist offset video).zipIdx index := by
  induction video generalizing offset index with
  | nil => exact ⟨[], rfl, rfl⟩
  | cons s video ih =>
    obtain ⟨htxt, hfiles⟩ := List.forall_mem_cons.mp hfiles
    obtain ⟨hs, hplain⟩ := List.forall_mem_cons.mp hplain
    rw [List.filter_cons, htxt, Option.isSome_map, placedInStep, nextOffset]
    cases htranscript : transcript s.recorded with
    | none =>
      obtain ⟨subtitles, hread, hplaces⟩ := ih offset index hfiles hplain
      refine ⟨subtitles, hread, ?_⟩
      rw [hplaces, passages_of_untranscribed htranscript]
      rfl
    | some ps =>
      obtain ⟨subtitles, hread, hplaces⟩ := readLines_written py offset index hs
      obtain ⟨others, hothers, hothersPlaces⟩ :=
        ih (py.arithmetic.float (offset + py.arithmetic.float s.recorded.duration))
          (index + subtitles.length) hfiles hplain
      have hlength :
          subtitles.length =
            ((passages blacklist s.recorded).map (shifted py.arithmetic offset)).length := by
        simpa using congrArg List.length hplaces
      refine ⟨subtitles ++ others, ?_, ?_⟩
      · rw [if_pos Option.isSome_some, readFiles, htxt, htranscript, Option.map_some,
          Option.getD_some, written_eq htranscript, hread]
        dsimp only [bind, Option.bind]
        rw [hothers]
      · rw [List.map_append, hplaces, hothersPlaces, List.zipIdx_append, ← hlength,
          Option.isSome_some, if_pos rfl]

/-- The lines of subtitles in the files of a video. -/
def matching (video : List Segment) : ℕ :=
  ((video.filter fun s => s.txt.isSome).map fun s =>
    (textLines (s.txt.getD [])).countP fun line => (matchLine line).isSome).sum

theorem length_readFiles {index : ℕ} {subtitles : List Subtitle}
    (h : readFiles py offset index (video.filter fun s => s.txt.isSome) = some subtitles) :
    subtitles.length = matching video := by
  unfold matching
  generalize video.filter (fun s => s.txt.isSome) = files at h ⊢
  induction files generalizing offset index subtitles with
  | nil =>
    obtain rfl := Option.some.inj h
    rfl
  | cons s files ih =>
    rw [readFiles] at h
    obtain ⟨first, hfirst, h⟩ := Option.bind_eq_some_iff.mp h
    obtain ⟨others, hothers, h⟩ := Option.bind_eq_some_iff.mp h
    obtain rfl := Option.some.inj h
    rw [List.length_append, length_readLines hfirst, ih hothers, List.map_cons, List.sum_cons]

/-- There are as many as there should be only where all texts are plain. -/
theorem matching_ge (offset : ℚ)
    (hfiles : ∀ s ∈ video, s.txt = (transcript s.recorded).map (written blacklist)) :
    (placedInStep arithmetic blacklist offset video).length ≤ matching video ∧
    (matching video = (placedInStep arithmetic blacklist offset video).length →
      ∀ s ∈ video, ∀ ss ∈ passages blacklist s.recorded, Plain ss.text) := by
  induction video generalizing offset with
  | nil => exact ⟨Nat.zero_le _, nofun⟩
  | cons s video ih =>
    obtain ⟨htxt, hfiles⟩ := List.forall_mem_cons.mp hfiles
    obtain ⟨hle, hplain⟩ := ih (nextOffset arithmetic offset s) hfiles
    unfold matching at hle hplain ⊢
    rw [placedInStep, List.length_append, List.length_map, List.filter_cons]
    cases htranscript : transcript s.recorded with
    | none =>
      rw [htranscript] at htxt
      rw [htxt, passages_of_untranscribed htranscript]
      simp only [Option.map_none, Option.isSome_none, Bool.false_eq_true, if_false, List.length_nil,
        zero_add] at hle hplain ⊢
      refine ⟨hle, fun h => List.forall_mem_cons.mpr ⟨?_, hplain h⟩⟩
      rw [passages_of_untranscribed htranscript]
      exact nofun
    | some ps =>
      obtain ⟨hcount, hall⟩ := countP_written (passages blacklist s.recorded)
      rw [htranscript, Option.map_some, written_eq htranscript] at htxt
      rw [htxt]
      simp only [Option.isSome_some, if_true, List.map_cons, List.sum_cons, htxt,
        Option.getD_some] at hle hplain ⊢
      refine ⟨by omega, fun h => List.forall_mem_cons.mpr ⟨hall (by omega), hplain (by omega)⟩⟩

end Files

/-- The script ends, its subtitles are those of the video, numbered from 1, and each prints its
instants truncated to the millisecond. -/
def Timed (py : PythonFloat) (blacklist : List Text) (recorded : List Recorded) : Prop :=
  ∃ subtitles, finalSubtitles py (directory blacklist recorded) = some subtitles ∧
    subtitles.map (fun c => (printedTimes py.arithmetic (c.startTime, c.endTime), c.index)) =
      ((placed blacklist (segmentsList (directory blacklist recorded))).map clocks).zipIdx 1

section Recordings

variable {py : PythonFloat} {blacklist : List Text} {recorded : List Recorded}

theorem txt_segmentsList : ∀ s ∈ segmentsList (directory blacklist recorded),
    s.txt = (transcript s.recorded).map (written blacklist) :=
  fun _ hs => (mem_directory (List.mem_mergeSort.mp hs)).2

theorem finalSubtitles_eq : finalSubtitles py (directory blacklist recorded) =
    readFiles py 0 1
      ((segmentsList (directory blacklist recorded)).filter fun s => s.txt.isSome) := by
  rw [finalSubtitles, txtFiles_eq]

/-- The subtitles of plain texts are printed where those of the video are. -/
theorem printed_places {index : ℕ} {subtitles : List Subtitle} {places : List (ℚ × ℚ)}
    (h : subtitles.map (fun c => ((c.startTime, c.endTime), c.index)) = places.zipIdx index) :
    subtitles.map (fun c => (printedTimes py.arithmetic (c.startTime, c.endTime), c.index)) =
      (places.map (printedTimes py.arithmetic)).zipIdx index := by
  rw [List.zipIdx_map, ← h, List.map_map]
  rfl

theorem Timed.inStep (h : Timed py blacklist recorded) :
    InStep py.arithmetic blacklist (segmentsList (directory blacklist recorded)) := by
  obtain ⟨subtitles, hread, htimes⟩ := h
  rw [finalSubtitles_eq] at hread
  rw [placed_eq] at htimes
  have hcount : matching (segmentsList (directory blacklist recorded)) =
      (placedInStep py.arithmetic blacklist 0
        (segmentsList (directory blacklist recorded))).length := by
    rw [length_placedInStep, ← length_readFiles hread]
    simpa using congrArg List.length htimes
  have hplain := (matching_ge 0 txt_segmentsList).2 hcount
  obtain ⟨subtitles', hread', hplaces'⟩ := readFiles_placed py 0 1 txt_segmentsList hplain
  obtain rfl := Option.some.inj (hread'.symm.trans hread)
  have hsame := congrArg (List.map Prod.fst) ((printed_places hplaces').symm.trans htimes)
  rw [List.zipIdx_map_fst, List.zipIdx_map_fst, printed_eq_iff] at hsame
  refine ⟨hplain, fun before s after hsplit ss hss => ?_⟩
  simpa only [zero_add] using hsame before s after hsplit ss hss

/-- `float()` of digits with a point among them and perhaps a sign. -/
def decimal (cs : Text) : Option ℚ :=
  let (sign, cs) := if cs.head? = some '-' then ((-1 : ℚ), cs.tail) else (1, cs)
  match cut ['.'] cs with
  | some (whole, fraction) =>
    if whole ≠ [] ∧ (whole ++ fraction).all Char.isDigit then
      some (sign * (Nat.ofDigitChars 10 (whole ++ fraction) 0 / 10 ^ fraction.length))
    else none
  | none => none

theorem length_padded_two {n : ℕ} (h : n < 100) : (padded 2 n).length = 2 := by
  have hall : ∀ n : Fin 100, (padded 2 (n : ℕ)).length = 2 := by decide
  exact hall ⟨n, h⟩

theorem decimal_fixed2 (q : ℚ) : decimal (fixed2 q) = some (hundredth q) := by
  set whole := Nat.toDigits 10 (hundredths q / 100) with hwhole
  set fraction := padded 2 (hundredths q % 100 : ℕ) with hfraction
  have hdigits {c : Char} (hc : c ∈ whole) : c.isDigit = true :=
    Nat.isDigit_of_mem_toDigits (by decide) (by decide) hc
  have hne : whole ≠ [] := Nat.toDigits_ne_nil
  have hpoint : '.' ∉ whole := fun h => absurd (hdigits h) (by decide)
  have hcut : cut ['.'] (whole ++ '.' :: fraction) = some (whole, fraction) := by
    simpa using @cut_append '.' [] whole fraction hpoint
  have hall : (whole ++ fraction).all Char.isDigit = true := by
    refine List.all_eq_true.mpr fun c hc => ?_
    rcases List.mem_append.mp hc with hc | hc
    · exact hdigits hc
    · exact isDigit_of_mem_padded hc
  have hlength : fraction.length = 2 := length_padded_two (Nat.mod_lt _ (by decide))
  have hvalue : Nat.ofDigitChars 10 (whole ++ fraction) 0 = hundredths q := by
    rw [Nat.ofDigitChars_append, Nat.ofDigitChars_ten_toDigits,
      Nat.ofDigitChars_eq_ofDigitChars_zero, hlength, hfraction, ofDigitChars_padded]
    omega
  have hhead : (whole ++ '.' :: fraction).head? ≠ some '-' := by
    obtain ⟨c, cs, hcs⟩ := List.exists_cons_of_ne_nil hne
    rw [hcs]
    rintro h
    obtain rfl := Option.some.inj h
    exact absurd (hdigits (hcs ▸ List.mem_cons_self)) (by decide)
  unfold decimal fixed2 hundredth
  rw [← hwhole, ← hfraction]
  by_cases hq : q < 0
  · rw [if_pos hq, if_pos hq, List.append_assoc]
    simp only [List.singleton_append, List.head?_cons, if_true, List.tail_cons, hcut]
    rw [if_pos ⟨hne, hall⟩, hvalue, hlength]
    norm_num
  · rw [if_neg hq, if_neg hq, List.nil_append, if_neg hhead]
    dsimp only
    rw [hcut]
    dsimp only
    rw [if_pos ⟨hne, hall⟩, hvalue, hlength]
    norm_num

def decimalFloat (arithmetic : Arithmetic) : PythonFloat where
  arithmetic := arithmetic
  float cs := (decimal cs).map arithmetic.float
  float_fixed2 q := by rw [decimal_fixed2, Option.map_some]

/-- Ten seconds that could not be transcribed, and a word in the segment after them. -/
def failedFirst : List Recorded :=
  [⟨10, [], none⟩, ⟨5, [], some [⟨1, 2, " Bonjour".toList⟩]⟩]

end Recordings

end SubtitleOffsets
