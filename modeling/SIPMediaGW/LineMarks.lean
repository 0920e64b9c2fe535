import SIPMediaGW.LogParser

/-! # The marks of a line

What `main()` looks for anywhere in a line, said of the text: which mark a line has, and what
follows it. -/
namespace LineMarks

open LogParser

/-- What follows a text at its first place in a line. -/
def FollowsFirst (mark line rest : List Char) : Prop :=
  mark ++ rest <:+ line ∧ ∀ rest', mark ++ rest' <:+ line → rest'.length ≤ rest.length

def encoderMarks : List (String × String) :=
  [("audio", "Set audio encoder:"), ("video", "Set video encoder:")]

/-- A line has the mark of an encoder, and something after it. -/
def EncoderAt (line : List Char) (media : String) (rest : List Char) : Prop :=
  rest ≠ [] ∧ ∃ mark, (media, mark) ∈ encoderMarks ∧ mark.toList ++ rest <:+ line

def EncoderFront (line : List Char) (media : String) (rest : List Char) : Prop :=
  rest ≠ [] ∧ ∃ mark, (media, mark) ∈ encoderMarks ∧ mark.toList ++ rest = line

/-- The line is that of a gateway start, of which the first one counts. -/
def StartsGateway (logged : Bool) (line : List Char) : Prop :=
  logged = false ∧ "Web browsing URL:".toList <:+: line

/-- The mark of a line, and the text after it: an encoder before a room, a room before a
platform, each at its first place. -/
inductive Marked (logged : Bool) (line : List Char) : Capture → Prop where
  | encoder (media : String) (rest : List Char) : ¬ StartsGateway logged line →
      EncoderAt line media rest →
      (∀ media' rest', EncoderAt line media' rest' → rest'.length ≤ rest.length) →
      Marked logged line (.encoder media (stripped rest))
  | room (rest : List Char) : ¬ StartsGateway logged line →
      (∀ media rest', ¬ EncoderAt line media rest') → FollowsFirst "room:".toList line rest →
      Marked logged line (.room (stripped rest))
  | browsing (rest : List Char) : ¬ StartsGateway logged line →
      (∀ media rest', ¬ EncoderAt line media rest') → ¬ "room:".toList <:+: line →
      FollowsFirst "browsing:".toList line rest → Marked logged line (.browsing (stripped rest))

def Unmarked (logged : Bool) (line : List Char) : Prop :=
  ¬ StartsGateway logged line ∧ ∀ c, ¬ Marked logged line c

section Marks

variable {logged : Bool} {mark line rest cs : List Char} {media : String} {c : Capture} {a : Char}

theorem suffix_cons_iff_of_other_front (h : ¬ mark <+: a :: cs) (rest : List Char) :
    mark ++ rest <:+ a :: cs ↔ mark ++ rest <:+ cs := by
  rw [List.suffix_cons_iff]
  refine or_iff_right fun heq => h ?_
  rw [← heq]
  exact List.prefix_append _ _

theorem after_eq_some_iff (hmark : mark ≠ []) :
    after mark line = some rest ↔ FollowsFirst mark line rest := by
  induction line with
  | nil =>
    rw [after, if_neg hmark]
    refine iff_of_false (by simp) fun h => ?_
    exact hmark (List.append_eq_nil_iff.mp (List.suffix_nil.mp h.1)).1
  | cons a cs ih =>
    by_cases hpre : mark <+: a :: cs
    · obtain ⟨tail, htail⟩ := hpre
      have hlength : ∀ rest', mark ++ rest' <:+ a :: cs → rest'.length ≤ tail.length := by
        intro rest' h
        have hle := h.length_le
        rw [← htail, List.length_append, List.length_append] at hle
        omega
      have hdrop : (a :: cs).drop mark.length = tail := by
        rw [← htail, List.drop_left]
      rw [after, if_pos ⟨tail, htail⟩, hdrop, Option.some.injEq]
      constructor
      · rintro rfl
        exact ⟨htail ▸ List.suffix_rfl, hlength⟩
      · rintro ⟨hsuffix, hfirst⟩
        have hle := hfirst tail (htail ▸ List.suffix_rfl)
        have heq : mark ++ rest = a :: cs := by
          refine hsuffix.eq_of_length_le ?_
          rw [← htail, List.length_append, List.length_append]
          omega
        exact List.append_cancel_left (htail.trans heq.symm)
    · rw [after, if_neg hpre, ih, FollowsFirst, FollowsFirst]
      simp only [suffix_cons_iff_of_other_front hpre]

theorem afterFront_eq_some_iff : afterFront mark line = some rest ↔ mark ++ rest = line := by
  unfold afterFront
  split
  · next hpre =>
    obtain ⟨tail, rfl⟩ := hpre
    rw [List.drop_left, Option.some.injEq, List.append_cancel_left_eq, eq_comm]
  · next hpre =>
    refine iff_of_false (by simp) fun heq => hpre ?_
    rw [← heq]
    exact List.prefix_append _ _

theorem encoderAt_cons : EncoderAt (a :: cs) media rest ↔
    EncoderFront (a :: cs) media rest ∨ EncoderAt cs media rest := by
  simp only [EncoderAt, EncoderFront, List.suffix_cons_iff, and_or_left, exists_or]

theorem encoderMatch_of_front (h : EncoderFront line media rest) :
    encoderMatch line = some (media, rest) := by
  obtain ⟨hne, mark, hmark, rfl⟩ := h
  obtain ⟨d, ds, rfl⟩ := List.exists_cons_of_ne_nil hne
  simp only [encoderMarks, List.mem_cons, List.not_mem_nil, or_false, Prod.mk.injEq] at hmark
  rcases hmark with ⟨rfl, rfl⟩ | ⟨rfl, rfl⟩ <;> rfl

theorem encoderMatch_cons (h : ∀ media rest, ¬ EncoderFront (a :: cs) media rest) :
    encoderMatch (a :: cs) = encoderMatch cs := by
  rw [encoderMatch]
  split
  · next d ds haudio =>
    exact absurd ⟨by simp, _, by simp [encoderMarks], afterFront_eq_some_iff.mp haudio⟩
      (h "audio" (d :: ds))
  · next d ds hvideo _ =>
    exact absurd ⟨by simp, _, by simp [encoderMarks], afterFront_eq_some_iff.mp hvideo⟩
      (h "video" (d :: ds))
  · rfl

theorem encoderMatch_eq_some_iff : encoderMatch line = some (media, rest) ↔
    EncoderAt line media rest ∧
      ∀ media' rest', EncoderAt line media' rest' → rest'.length ≤ rest.length := by
  induction line with
  | nil =>
    refine iff_of_false (by simp [encoderMatch]) fun h => ?_
    obtain ⟨⟨hne, mark, -, hsuffix⟩, -⟩ := h
    exact hne (List.append_eq_nil_iff.mp (List.suffix_nil.mp hsuffix)).2
  | cons a cs ih =>
    by_cases hfront : ∃ media rest, EncoderFront (a :: cs) media rest
    · obtain ⟨media₀, rest₀, h₀⟩ := hfront
      have hmarks {media : String} {mark : String} (h : (media, mark) ∈ encoderMarks) :
          mark.toList.length = 18 := by
        simp only [encoderMarks, List.mem_cons, List.not_mem_nil, or_false, Prod.mk.injEq] at h
        rcases h with ⟨-, rfl⟩ | ⟨-, rfl⟩ <;> rfl
      have hlength {media : String} {rest : List Char} (h : EncoderFront (a :: cs) media rest) :
          18 + rest.length = (a :: cs).length := by
        obtain ⟨-, mark, hmark, heq⟩ := h
        rw [← heq, List.length_append, hmarks hmark]
      have hfirst : ∀ media' rest', EncoderAt (a :: cs) media' rest' →
          rest'.length ≤ rest₀.length := by
        rintro media' rest' ⟨-, mark, hmark, hsuffix⟩
        have hle := hsuffix.length_le
        rw [List.length_append, hmarks hmark] at hle
        have := hlength h₀
        omega
      rw [encoderMatch_of_front h₀, Option.some.injEq, Prod.mk.injEq]
      constructor
      · rintro ⟨rfl, rfl⟩
        exact ⟨encoderAt_cons.mpr (.inl h₀), hfirst⟩
      · rintro ⟨⟨hne, mark, hmark, hsuffix⟩, hmost⟩
        have hle := hmost media₀ rest₀ (encoderAt_cons.mpr (.inl h₀))
        have heq : mark.toList ++ rest = a :: cs := by
          refine hsuffix.eq_of_length_le ?_
          rw [← hlength h₀, List.length_append, hmarks hmark]
          omega
        have hsame := (encoderMatch_of_front h₀).symm.trans
          (encoderMatch_of_front ⟨hne, mark, hmark, heq⟩)
        exact Prod.mk.inj (Option.some.inj hsame)
    · have hnone : ∀ media rest, ¬ EncoderFront (a :: cs) media rest :=
        fun media rest h => hfront ⟨media, rest, h⟩
      rw [encoderMatch_cons hnone, ih]
      simp only [encoderAt_cons, hnone, false_or]

theorem encoderMatch_eq_none_iff :
    encoderMatch line = none ↔ ∀ media rest, ¬ EncoderAt line media rest := by
  constructor
  · induction line with
    | nil =>
      rintro - media rest ⟨hne, mark, -, hsuffix⟩
      exact hne (List.append_eq_nil_iff.mp (List.suffix_nil.mp hsuffix)).2
    | cons a cs ih =>
      intro h media rest hat
      have hnone : ∀ media rest, ¬ EncoderFront (a :: cs) media rest := by
        intro media rest hfront
        rw [encoderMatch_of_front hfront] at h
        cases h
      rw [encoderMatch_cons hnone] at h
      exact (encoderAt_cons.mp hat).elim (hnone media rest) (ih h media rest)
  · intro h
    refine Option.eq_none_iff_forall_ne_some.mpr fun found hfound => ?_
    exact h found.1 found.2 (encoderMatch_eq_some_iff.mp hfound).1

theorem startsGateway_iff :
    (!logged && contains "Web browsing URL:" line) = true ↔ StartsGateway logged line := by
  rw [Bool.and_eq_true, Bool.not_eq_true', contains, isSome_after_iff, StartsGateway]

/-- The tests of `main()` find the marks. -/
theorem marked_iff : Marked logged line c ↔
    capture logged line = some c ∧ c.isGwStart = false := by
  unfold capture
  by_cases hstart : StartsGateway logged line
  · rw [if_pos (startsGateway_iff.mpr hstart)]
    constructor
    · rintro (⟨_, _, h, -, -⟩ | ⟨_, h, -, -⟩ | ⟨_, h, -, -, -⟩) <;> exact absurd hstart h
    · rintro ⟨h, hnot⟩
      obtain rfl := Option.some.inj h
      cases hnot
  rw [if_neg (mt startsGateway_iff.mp hstart)]
  cases hencoder : encoderMatch line with
  | some found =>
    obtain ⟨media, rest⟩ := found
    have hfound := encoderMatch_eq_some_iff.mp hencoder
    constructor
    · rintro (⟨media', rest', -, hat, hfirst⟩ | ⟨_, -, hno, -⟩ | ⟨_, -, hno, -, -⟩)
      · have hsame := hencoder.symm.trans (encoderMatch_eq_some_iff.mpr ⟨hat, hfirst⟩)
        obtain ⟨rfl, rfl⟩ := Prod.mk.inj (Option.some.inj hsame)
        exact ⟨rfl, rfl⟩
      · exact absurd hfound.1 (hno _ _)
      · exact absurd hfound.1 (hno _ _)
    · rintro ⟨h, -⟩
      obtain rfl := Option.some.inj h
      exact .encoder media rest hstart hfound.1 hfound.2
  | none =>
    have hno := encoderMatch_eq_none_iff.mp hencoder
    dsimp only
    cases hroom : after "room:".toList line with
    | some rest =>
      have hfound := (after_eq_some_iff (by simp)).mp hroom
      constructor
      · rintro (⟨_, _, -, hat, -⟩ | ⟨rest', -, -, hfirst⟩ | ⟨_, -, -, hout, -⟩)
        · exact absurd hat (hno _ _)
        · have hsame := hroom.symm.trans ((after_eq_some_iff (by simp)).mpr hfirst)
          obtain rfl := Option.some.inj hsame
          exact ⟨rfl, rfl⟩
        · exact absurd (isSome_after_iff.mp (by rw [hroom]; rfl)) hout
      · rintro ⟨h, -⟩
        obtain rfl := Option.some.inj h
        exact .room rest hstart hno hfound
    | none =>
      have hout : ¬ "room:".toList <:+: line := by
        rw [← isSome_after_iff, hroom]
        simp
      dsimp only
      rw [Option.map_eq_some_iff]
      constructor
      · rintro (⟨_, _, -, hat, -⟩ | ⟨rest', -, -, hfirst⟩ | ⟨rest', -, -, -, hfirst⟩)
        · exact absurd hat (hno _ _)
        · rw [(after_eq_some_iff (by simp)).mpr hfirst] at hroom
          cases hroom
        · exact ⟨⟨rest', (after_eq_some_iff (by simp)).mpr hfirst, rfl⟩, rfl⟩
      · rintro ⟨⟨rest, hbrowsing, rfl⟩, -⟩
        exact .browsing rest hstart hno hout ((after_eq_some_iff (by simp)).mp hbrowsing)

theorem startsGateway_of_capture (h : capture logged line = some c) (hgw : c.isGwStart = true) :
    StartsGateway logged line := by
  by_contra hstart
  rw [capture, if_neg (mt startsGateway_iff.mp hstart)] at h
  split at h
  · obtain rfl := Option.some.inj h
    cases hgw
  split at h
  · obtain rfl := Option.some.inj h
    cases hgw
  · obtain ⟨rest, -, rfl⟩ := Option.map_eq_some_iff.mp h
    cases hgw

theorem unmarked_iff : Unmarked logged line ↔ capture logged line = none := by
  constructor
  · rintro ⟨hstart, hno⟩
    refine Option.eq_none_iff_forall_ne_some.mpr fun c hc => ?_
    cases hgw : c.isGwStart with
    | false => exact hno c (marked_iff.mpr ⟨hc, hgw⟩)
    | true => exact hstart (startsGateway_of_capture hc hgw)
  · intro h
    refine ⟨fun hstart => ?_, fun c hc => ?_⟩
    · rw [capture, if_pos (startsGateway_iff.mpr hstart)] at h
      cases h
    · rw [(marked_iff.mp hc).1] at h
      cases h

end Marks

end LineMarks
