import SIPMediaGW.Binary64
import SIPMediaGW.IsoReading
import SIPMediaGW.SessionZones

/-! # The age of a call

The Manager takes the instant a gateway wrote at the start of a call, and its own clock, to the
local time before it subtracts them. Instants are microseconds of the Unix epoch. -/
namespace CallAges

open Binary64
open Calendar
open IngestMapping
open IsoInstants
open IsoReading
open PythonJson
open QualityCounts (dayUs epochDay)
open Rounding (truncate truncate_eq truncate_neg)
open ScalerTarget (digitPair)

/-- The zone of the system: the offset from UTC at each second, less than a day. -/
structure SystemZone where
  gmtoff : ℤ → ℤ
  gmtoff_lt : ∀ second, |gmtoff second| < 86400

/-- What the clock shows at an instant. -/
def SystemZone.clock (zone : SystemZone) (t : ℤ) : ℤ :=
  t + zone.gmtoff (t / secondUs) * secondUs

/-- The years 1 to 9999 of a `datetime`. -/
def InYears (wall : ℤ) : Prop :=
  -62135596800 * secondUs ≤ wall ∧ wall < 253402300800 * secondUs

instance (wall : ℤ) : Decidable (InYears wall) := inferInstanceAs (Decidable (_ ∧ _))

inductive Raised where
  | typeError
  | attributeError
  | overflowError
  deriving DecidableEq

/-- `value.astimezone().replace(tzinfo=None)`. -/
def astimezone (zone : SystemZone) (wall offset : ℤ) : Except Raised ℤ :=
  if InYears (wall - offset) ∧ InYears (zone.clock (wall - offset)) then
    .ok (zone.clock (wall - offset))
  else .error .overflowError

def noneLiterals : List Json := [.null, .str "", .str "None"]

def clean (value : Json) : Json := if value ∈ noneLiterals then .null else value

/-- `int(delta.total_seconds())`: the microseconds divided in binary64, then cut. -/
def wholeSeconds (delta : ℤ) : ℤ := truncate (nearest (delta / 1000000))

section Code

variable (zone : SystemZone)

/-- The local time of what `fromisoformat` reads. -/
def started (d : Datetime) : Except Raised ℤ :=
  match d.utcoffset with
  | some offset => astimezone zone d.wall offset
  | none => .ok d.wall

def callSeconds (callStarted : Json) (now : ℤ) : Except Raised (Option ℤ) :=
  let raw := clean callStarted
  if truthy raw then
    match raw with
    | .str text =>
      match fromisoformat text with
      | some d => (started zone d).map fun wall =>
        let seconds := wholeSeconds (now - wall)
        if 0 ≤ seconds then some seconds else none
      | none => .ok none
    | _ => .error .typeError
  else .ok none

/-- A gateway as the Manager shows it. -/
structure GatewayStatus where
  state : Json
  gw_id : String
  ip : Json
  type : Json
  status : Json
  room : Json
  browsing : Json
  peer_uri : Json
  peer_name : Json
  call_started : Json
  call_seconds : Option ℤ
  transcript_progress : Json
  pairing_code : Json

/-- The entry of a gateway; `g` is what the proxyAPI says of it. -/
def gatewayStatus (now : ℤ) (gwId : String) (g : Json) : Except Raised GatewayStatus :=
  match if truthy g then g else .obj [] with
  | .obj g => (callSeconds zone (field g "call_started") now).map fun seconds =>
    { state := if truthy (clean (field g "state")) then clean (field g "state") else .str "other"
      gw_id := gwId
      ip := clean (field g "gateway")
      type := clean (field g "type")
      status := clean (field g "status")
      room := clean (field g "room")
      browsing := clean (field g "browsing")
      peer_uri := clean (field g "peer_uri")
      peer_name := clean (field g "peer_name")
      call_started := clean (field g "call_started")
      call_seconds := seconds
      transcript_progress := clean (field g "transcript_progress")
      pairing_code := clean (field g "pairing_code") }
  | _ => .error .attributeError

/-- The answer of the proxyAPI; no body where it is not JSON. -/
structure Response where
  statusCode : ℕ
  body : Option Dict

inductive Failure where
  | unavailable (message : String)
  | raised (error : Raised)

structure Statuses where
  generated_at : String
  gateways : List GatewayStatus

/-- `now.isoformat(timespec="seconds")`. -/
def isoformat (wall : ℤ) : String :=
  let second := (wall % dayUs / secondUs).toNat
  String.ofList (isoDate (SessionZones.dateOf wall) ++ ['T'] ++ digitPair (second / 3600) ++
    [':'] ++ digitPair (second / 60 % 60) ++ [':'] ++ digitPair (second % 60))

def gatewayStatuses (now : ℤ) (raw : Dict) : List String → Except Raised (List GatewayStatus)
  | [] => .ok []
  | gwId :: rest => do
    let status ← gatewayStatus zone now gwId (field raw gwId)
    let statuses ← gatewayStatuses now raw rest
    .ok (status :: statuses)

/-- What is read of the proxyAPI at an instant; no response where it is unreachable. -/
def fetchStatuses (response : Option Response) (n : ℤ) : Except Failure Statuses :=
  match response with
  | none => .error (.unavailable "proxyAPI unreachable")
  | some response =>
    if response.statusCode = 401 then
      .error (.unavailable "proxyAPI rejected the admin token (check PROXYAPI_ADMIN_TOKEN)")
    else if response.statusCode ≠ 200 then
      .error (.unavailable ("proxyAPI returned " ++ toString response.statusCode))
    else match response.body with
      | none => .error (.unavailable "proxyAPI returned a non-JSON body")
      | some raw =>
        let now := zone.clock n
        let gwIds := (FieldMap.keys raw).mergeSort fun a b => decide (a ≤ b)
        match gatewayStatuses zone now raw gwIds with
        | .ok gateways => .ok ⟨isoformat now, gateways⟩
        | .error error => .error (.raised error)

end Code

section WholeSeconds

variable {t : ℤ}

/-- The float nearest to so many microseconds is the next whole second. -/
def Gains (t : ℤ) : Prop :=
  (secondUs - t % secondUs) * 2 ^ 53 ≤ secondUs * 2 ^ Nat.log 2 (t / secondUs).toNat

instance (t : ℤ) : Decidable (Gains t) := inferInstanceAs (Decidable (_ ≤ _))

/-- Floats tell microseconds apart for 544 years. -/
theorem not_gains (h : t < 2 ^ 34 * secondUs) : ¬ Gains t := by
  rw [secondUs_eq] at h
  have hlog : Nat.log 2 (t / 1000000).toNat < 34 := by
    by_cases hzero : (t / 1000000).toNat = 0
    · rw [hzero, Nat.log_zero_right]
      exact Nat.succ_pos 33
    · exact Nat.log_lt_of_lt_pow hzero (by omega)
  have hpow : (2 : ℤ) ^ Nat.log 2 (t / 1000000).toNat ≤ 2 ^ 33 :=
    pow_le_pow_right₀ one_le_two (by omega)
  rw [Gains, secondUs_eq]
  omega

theorem nonneg_of_gains (h : Gains t) : 0 ≤ t := by
  by_contra hneg
  exact not_gains (by rw [secondUs_eq]; omega) h

theorem half_ulp (h : secondUs ≤ t) :
    ulp (t / 1000000) / 2 = 2 ^ Nat.log 2 (t / secondUs).toNat / 2 ^ 53 := by
  have hone : (1 : ℚ) ≤ t / 1000000 := by
    rw [one_le_div (by norm_num)]
    exact_mod_cast h
  have hfloor : ⌊(t / 1000000 : ℚ)⌋₊ = (t / secondUs).toNat := by
    rw [← Int.floor_toNat]
    exact congrArg Int.toNat (Rat.floor_intCast_div_natCast t 1000000)
  rw [ulp, abs_of_nonneg (zero_le_one.trans hone), Int.log_of_one_le_right 2 hone, hfloor,
    zpow_sub₀ two_ne_zero, zpow_natCast, div_div]
  norm_num

theorem gains_iff (hpos : 0 < t) (hlt : t < 2 ^ 52 * secondUs) :
    ((t / secondUs + 1 : ℤ) : ℚ) ≤ nearest (t / 1000000) ↔ Gains t := by
  have hq : (0 : ℚ) < t / 1000000 := div_pos (by exact_mod_cast hpos) (by norm_num)
  have hbound : (t / 1000000 : ℚ) < 2 ^ 52 := by
    rw [div_lt_iff₀ (by norm_num)]
    exact_mod_cast hlt
  have hgap : ((t / secondUs + 1 : ℤ) : ℚ) - t / 1000000 =
      ((secondUs - t % secondUs : ℤ) : ℚ) / 1000000 := by
    rw [eq_div_iff (by norm_num), sub_mul, div_mul_cancel₀ _ (by norm_num)]
    have hdivision : (t / secondUs + 1) * 1000000 - t = secondUs - t % secondUs := by
      rw [secondUs_eq]
      omega
    exact_mod_cast hdivision
  rw [intCast_le_nearest_iff hq hbound, hgap]
  by_cases hone : secondUs ≤ t
  · rw [half_ulp hone, div_le_div_iff₀ (by norm_num) (by norm_num), Gains, mul_comm _ (1000000 : ℚ)]
    norm_cast
  · -- Below one second the floats are closer than the microseconds.
    have hsmall : |(t / 1000000 : ℚ)| < 2 ^ (0 : ℤ) := by
      rw [abs_of_pos hq, zpow_zero, div_lt_one (by norm_num)]
      exact_mod_cast not_le.mp hone
    have hunit := ulp_le hq.ne' hsmall
    have hmicro : (1 : ℚ) ≤ ((secondUs - t % secondUs : ℤ) : ℚ) := by
      rw [secondUs_eq]
      exact_mod_cast (by omega : 1 ≤ 1000000 - t % 1000000)
    refine iff_of_false (fun hle => ?_) (not_gains (by rw [secondUs_eq] at hone ⊢; omega))
    have hlow := div_le_div_of_nonneg_right hmicro (by norm_num : (0 : ℚ) ≤ 1000000)
    norm_num at hunit hlow hle
    linarith

/-- `int(total_seconds())` of a time that is not negative. -/
theorem wholeSeconds_of_nonneg (h : 0 ≤ t) (hlt : t < 2 ^ 52 * secondUs) :
    wholeSeconds t = t / secondUs + if Gains t then 1 else 0 := by
  have hlow : ((t / secondUs : ℤ) : ℚ) ≤ t / 1000000 := by
    rw [le_div_iff₀ (by norm_num)]
    exact_mod_cast (by rw [secondUs_eq]; omega : t / secondUs * 1000000 ≤ t)
  have hhigh : (t / 1000000 : ℚ) ≤ ((t / secondUs + 1 : ℤ) : ℚ) := by
    rw [div_le_iff₀ (by norm_num)]
    exact_mod_cast (by rw [secondUs_eq]; omega : t ≤ (t / secondUs + 1) * 1000000)
  have hnonneg : (0 : ℚ) ≤ ((t / secondUs : ℤ) : ℚ) := by
    exact_mod_cast Int.ediv_nonneg h (by decide)
  have hfloat : |t / secondUs| < 2 ^ 53 ∧ |t / secondUs + 1| < 2 ^ 53 := by
    rw [secondUs_eq] at hlt ⊢
    rw [abs_lt, abs_lt]
    omega
  have hbelow := nearest_mono hlow
  have habove := nearest_mono hhigh
  rw [nearest_intCast hfloat.1] at hbelow
  rw [nearest_intCast hfloat.2] at habove
  have hgains : ((t / secondUs + 1 : ℤ) : ℚ) ≤ nearest (t / 1000000) ↔ Gains t := by
    rcases h.eq_or_lt with rfl | hpos
    · refine iff_of_false (fun hle => ?_) (not_gains (by decide))
      have hzero := nearest_nonpos (q := ((0 : ℤ) : ℚ) / 1000000) (by norm_num)
      norm_num at hle hzero
      linarith
    · exact gains_iff hpos hlt
  have hstart := hnonneg.trans hbelow
  by_cases hgain : Gains t
  · have hnext := hgains.mpr hgain
    rw [wholeSeconds, if_pos hgain]
    exact truncate_eq hstart hnext (habove.trans_lt (lt_add_one _))
  · have hnext := not_le.mp (mt hgains.mp hgain)
    push_cast at hnext
    rw [wholeSeconds, if_neg hgain, add_zero]
    exact truncate_eq hstart hbelow hnext

theorem wholeSeconds_neg (t : ℤ) : wholeSeconds (-t) = -wholeSeconds t := by
  rw [wholeSeconds, wholeSeconds, Int.cast_neg, neg_div, nearest_neg, truncate_neg]

/-- The times whose whole seconds are a number that is not negative: `int()` cuts towards zero. -/
theorem wholeSeconds_eq_iff {k : ℤ} (hk : 0 ≤ k) (hlow : -(2 ^ 52 * secondUs) < t)
    (hhigh : t < 2 ^ 52 * secondUs) : wholeSeconds t = k ↔
      (0 ≤ t ∧ (t / secondUs + if Gains t then 1 else 0) = k) ∨ -secondUs < t ∧ t < 0 ∧ k = 0 := by
  by_cases h : 0 ≤ t
  · rw [wholeSeconds_of_nonneg h hhigh]
    constructor
    · exact fun heq => .inl ⟨h, heq⟩
    · rintro (⟨-, heq⟩ | ⟨-, hneg, -⟩)
      · exact heq
      · omega
  · have hwhole : wholeSeconds t = -(-t / secondUs + if Gains (-t) then 1 else 0) := by
      rw [← wholeSeconds_of_nonneg (by omega) (by omega), wholeSeconds_neg, neg_neg]
    rw [hwhole]
    by_cases hgain : Gains (-t)
    · have hfar : ¬ -t < 2 ^ 34 * secondUs := fun hlt => not_gains hlt hgain
      rw [if_pos hgain]
      rw [secondUs_eq] at hfar ⊢
      omega
    · rw [if_neg hgain, secondUs_eq]
      omega

end WholeSeconds

section Ages

variable {zone : SystemZone} {ms : Bool} {t : DateTime} {start s n : ℤ}

/-- An instant at which the clock shows a `datetime`. -/
structure Reading (zone : SystemZone) where
  instant : ℤ
  inYears : InYears (zone.clock instant)

/-- The age of a call that began at an instant, as the clock tells it at another. -/
structure TellsAge (zone : SystemZone) (text : String) (s n : ℤ) : Prop where
  whole : s ≤ n →
    callSeconds zone (.str text) (zone.clock n) = .ok (some ((n - s) / secondUs))
  absent : callSeconds zone (.str text) (zone.clock n) = .ok none → n < s

def offsetChange (zone : SystemZone) (start n : ℤ) : ℤ :=
  zone.gmtoff (n / secondUs) - zone.gmtoff (start / secondUs)

/-- The second that is gained where a text begins before the instant it was made of. -/
def cutSeconds (start s n : ℤ) : ℤ := (n - start) / secondUs - (n - s) / secondUs

/-- The offset gives back what the text and the float gain, to the second. -/
def OffsetKept (zone : SystemZone) (start s n : ℤ) : Prop :=
  let cut := cutSeconds start s n
  offsetChange zone start n = -cut ∧ ¬ Gains (n - start - cut * secondUs) ∨
    offsetChange zone start n = -(cut + 1) ∧ (Gains (n - start - (cut + 1) * secondUs) ∨
      n - s < secondUs ∧ (n - start) % secondUs ≠ 0)

/-- The reading is before the start, or the start has a local time and the offset is kept. -/
def AgeKept (zone : SystemZone) (start s n : ℤ) : Prop :=
  n < s ∨ InYears (zone.clock start) ∧ OffsetKept zone start s n

theorem clock_sub (zone : SystemZone) (start n : ℤ) :
    zone.clock n - zone.clock start = n - start + offsetChange zone start n * secondUs := by
  rw [SystemZone.clock, SystemZone.clock, offsetChange]
  ring

theorem inYears_written (ms : Bool) (t : DateTime) : InYears (written ms t) := by
  have hfirst : daysBeforeYear 1 = 0 := rfl
  have hlast : daysBeforeYear 10000 = 3652059 := rfl
  have hfrom := Date.daysBeforeYear_mono t.year_pos
  have hto := Date.daysBeforeYear_mono (by have := t.year_le; omega : t.date.year + 1 ≤ 10000)
  have hordinal : t.date.toordinal =
      daysBeforeYear t.date.year + daysBeforeMonth t.date.year t.date.month + t.date.day := rfl
  have hday := t.date.day_pos
  have hyear := t.date.toordinal_le_year
  have hhours := t.time.hours_lt
  have hminutes := t.time.minutes_lt
  have hseconds := t.time.seconds_lt
  have hkept : keptMicroseconds ms t < 1000000 := by
    have hlt := t.microsecond_lt
    unfold keptMicroseconds
    split <;> omega
  rw [InYears, written_eq, ScalerTarget.TimeOfDay.time]
  simp only [secondUs, dayUs, epochDay]
  omega

theorem clean_isoZ (ms : Bool) (t : DateTime) :
    clean (.str (isoZ ms t)) = .str (isoZ ms t) ∧ truthy (.str (isoZ ms t)) = true := by
  have hread := fromisoformat_isoZ ms t
  have hempty : isoZ ms t ≠ "" := by
    intro h
    rw [h] at hread
    cases hread
  have hnone : isoZ ms t ≠ "None" := by
    intro h
    rw [h] at hread
    cases hread
  constructor
  · rw [clean, if_neg]
    simp [noneLiterals, hempty, hnone]
  · simp [truthy, hempty]

theorem callSeconds_isoZ (h : InYears (zone.clock (written ms t))) (now : ℤ) :
    callSeconds zone (.str (isoZ ms t)) now =
      .ok (if 0 ≤ wholeSeconds (now - zone.clock (written ms t)) then
        some (wholeSeconds (now - zone.clock (written ms t))) else none) := by
  obtain ⟨hclean, htruthy⟩ := clean_isoZ ms t
  have hlocal : astimezone zone (written ms t) 0 = .ok (zone.clock (written ms t)) := by
    rw [astimezone, sub_zero, if_pos ⟨inYears_written ms t, h⟩]
  simp only [callSeconds, hclean, htruthy, if_true, fromisoformat_isoZ, started, hlocal, Except.map]

theorem callSeconds_overflow (h : ¬ InYears (zone.clock (written ms t))) (now : ℤ) :
    callSeconds zone (.str (isoZ ms t)) now = .error .overflowError := by
  obtain ⟨hclean, htruthy⟩ := clean_isoZ ms t
  have hlocal : astimezone zone (written ms t) 0 = .error .overflowError := by
    rw [astimezone, sub_zero, if_neg fun hboth => h hboth.2]
  simp only [callSeconds, hclean, htruthy, if_true, fromisoformat_isoZ, started, hlocal, Except.map]

/-- Both clocks show the years of a `datetime`, so floats hold whole seconds of the difference. -/
theorem clock_sub_bounds (hstart : InYears (zone.clock start)) (hn : InYears (zone.clock n)) :
    -(2 ^ 52 * secondUs) < zone.clock n - zone.clock start ∧
      zone.clock n - zone.clock start < 2 ^ 52 * secondUs := by
  obtain ⟨hlow, hhigh⟩ := hstart
  obtain ⟨hlow', hhigh'⟩ := hn
  rw [secondUs_eq] at *
  omega

/-- The whole seconds between two clocks are those elapsed exactly when the offset is kept. -/
theorem wholeSeconds_clock_iff (hstart : InYears (zone.clock start)) (hn : InYears (zone.clock n))
    (hs : s ≤ n) :
    wholeSeconds (zone.clock n - zone.clock start) = (n - s) / secondUs ↔
      OffsetKept zone start s n := by
  obtain ⟨hlow, hhigh⟩ := clock_sub_bounds hstart hn
  rw [wholeSeconds_eq_iff (by rw [secondUs_eq]; omega) hlow hhigh, clock_sub]
  unfold OffsetKept cutSeconds
  dsimp only
  -- In whole seconds, the change of the offset and the cut of the text shift the age.
  have hshift {change cut : ℤ} (h : change = -cut) :
      n - start + change * secondUs = n - start - cut * secondUs := by
    rw [h, neg_mul, ← sub_eq_add_neg]
  constructor
  · rintro (⟨hnonneg, hwhole⟩ | ⟨hclose, hneg, hzero⟩)
    · by_cases hgain : Gains (n - start + offsetChange zone start n * secondUs)
      · have hchange : offsetChange zone start n =
            -((n - start) / secondUs - (n - s) / secondUs + 1) := by
          rw [if_pos hgain, secondUs_eq] at hwhole
          rw [secondUs_eq]
          omega
        rw [hshift hchange] at hgain
        exact .inr ⟨hchange, .inl hgain⟩
      · have hchange : offsetChange zone start n =
            -((n - start) / secondUs - (n - s) / secondUs) := by
          rw [if_neg hgain, secondUs_eq] at hwhole
          rw [secondUs_eq]
          omega
        rw [hshift hchange] at hgain
        exact .inl ⟨hchange, hgain⟩
    · -- A difference of less than a second below zero is cut to zero.
      rw [secondUs_eq] at hclose hneg hzero ⊢
      exact .inr ⟨by omega, .inr ⟨by omega, by omega⟩⟩
  · rintro (⟨hchange, hgain⟩ | ⟨hchange, hgain | ⟨hzero, hrest⟩⟩)
    · rw [hshift hchange, if_neg hgain]
      rw [secondUs_eq]
      exact .inl ⟨by omega, by omega⟩
    · have hnonneg := nonneg_of_gains hgain
      rw [hshift hchange, if_pos hgain]
      rw [secondUs_eq] at hnonneg ⊢
      exact .inl ⟨by omega, by omega⟩
    · rw [hshift hchange]
      rw [secondUs_eq] at hzero hrest ⊢
      exact .inr ⟨by omega, by omega, by omega⟩

theorem tellsAge_iff (n : Reading zone) :
    TellsAge zone (isoZ ms t) s n.instant ↔ AgeKept zone (written ms t) s n.instant := by
  by_cases hs : s ≤ n.instant
  · by_cases hstart : InYears (zone.clock (written ms t))
    · have hwhole := wholeSeconds_clock_iff hstart n.inYears hs
      have hnonneg : 0 ≤ (n.instant - s) / secondUs := Int.ediv_nonneg (by omega) (by decide)
      constructor
      · intro h
        have hage := h.whole hs
        rw [callSeconds_isoZ hstart] at hage
        split at hage
        · exact .inr ⟨hstart, hwhole.mp (Option.some.inj (Except.ok.inj hage))⟩
        · cases hage
      · rintro (hbefore | ⟨-, hkept⟩)
        · omega
        · have hage := callSeconds_isoZ hstart (zone.clock n.instant)
          rw [hwhole.mpr hkept, if_pos hnonneg] at hage
          exact ⟨fun _ => hage, fun hnone => absurd (hage.symm.trans hnone) (by simp)⟩
    · constructor
      · intro h
        have hage := h.whole hs
        rw [callSeconds_overflow hstart] at hage
        cases hage
      · rintro (hbefore | ⟨hin, -⟩)
        · omega
        · exact absurd hin hstart
  · have hbefore : n.instant < s := by omega
    exact iff_of_true ⟨fun h => absurd h hs, fun _ => hbefore⟩ (.inl hbefore)

/-- The age counts from the instant that the text gives, or from the one that `isoZ` was given. -/
theorem callSeconds_age_iff (zone : SystemZone) (ms : Bool) (t : DateTime) (n : Reading zone) :
    (TellsAge zone (isoZ ms t) (written ms t) n.instant ↔
      AgeKept zone (written ms t) (written ms t) n.instant) ∧
    (TellsAge zone (isoZ ms t) (exact t) n.instant ↔
      AgeKept zone (written ms t) (exact t) n.instant) :=
  ⟨tellsAge_iff n, tellsAge_iff n⟩

end Ages

/-- Paris at the end of October 2026: at one o'clock UTC the clock goes from three to two. -/
def parisAutumn : SystemZone where
  gmtoff second := if second < 1792890000 then 7200 else 3600
  gmtoff_lt second := by split <;> decide

/-- Half an hour before. -/
def beforeChange : DateTime where
  date := (Date.first 2026 10 (by decide) (by decide)).withDay 25 (by decide) (by decide)
  time := { ScalerTarget.midnight with minutes := 30, minutes_lt := by decide }
  microsecond := 0
  year_pos := by decide
  year_le := by decide
  microsecond_lt := by decide

/-- Ten minutes after. -/
def afterChange : Reading parisAutumn where
  instant := 1792890600000000
  inYears := by decide

/-- Forty minutes into the call, the clock shows twenty minutes before its start. -/
theorem autumn_age_lost :
    isoZ false beforeChange = "2026-10-25T00:30:00Z" ∧
    written false beforeChange < afterChange.instant ∧
    callSeconds parisAutumn (.str "2026-10-25T00:30:00Z") (parisAutumn.clock afterChange.instant) =
      .ok none ∧
    ¬ TellsAge parisAutumn (isoZ false beforeChange) (written false beforeChange)
      afterChange.instant := by
  have htext : isoZ false beforeChange = "2026-10-25T00:30:00Z" := by decide
  have hbefore : written false beforeChange < afterChange.instant := by decide
  have hstart : InYears (parisAutumn.clock (written false beforeChange)) := by decide
  have hdelta : parisAutumn.clock afterChange.instant -
      parisAutumn.clock (written false beforeChange) = -1200000000 := by decide
  have hwhole : wholeSeconds (-1200000000) = -1200 := by
    rw [wholeSeconds_neg, wholeSeconds_of_nonneg (by decide) (by decide),
      if_neg (not_gains (by decide))]
    rfl
  have hage := callSeconds_isoZ hstart (parisAutumn.clock afterChange.instant)
  rw [hdelta, hwhole, if_neg (by decide)] at hage
  refine ⟨htext, hbefore, htext ▸ hage, fun h => ?_⟩
  have hnone := h.absent hage
  omega

section Pool

variable {zone : SystemZone} {ms : Bool} {t : DateTime} {now : ℤ}

/-- In a zone of whole minutes, for 544 years: exactly when the offset is the same. -/
theorem tellsAge_written_iff (n : Reading zone) (hminutes : ∀ second, zone.gmtoff second % 60 = 0)
    (hyoung : n.instant < written ms t + 2 ^ 34 * secondUs) :
    TellsAge zone (isoZ ms t) (written ms t) n.instant ↔
      n.instant < written ms t ∨ InYears (zone.clock (written ms t)) ∧
        zone.gmtoff (n.instant / secondUs) = zone.gmtoff (written ms t / secondUs) := by
  have hstart := hminutes (written ms t / secondUs)
  have hnow := hminutes (n.instant / secondUs)
  have hcut : cutSeconds (written ms t) (written ms t) n.instant = 0 := sub_self _
  have hgain : ¬ Gains (n.instant - written ms t - 0 * secondUs) := not_gains (by omega)
  rw [tellsAge_iff, AgeKept, OffsetKept, hcut]
  apply or_congr Iff.rfl
  apply and_congr Iff.rfl
  rw [offsetChange, neg_zero, zero_add]
  constructor
  · rintro (⟨hsame, -⟩ | ⟨hsecond, -⟩) <;> omega
  · exact fun hsame => .inl ⟨by omega, hgain⟩

theorem clean_clean (value : Json) : clean (clean value) = clean value := by
  by_cases h : value ∈ noneLiterals
  · rw [clean, clean, if_pos h]
    rfl
  · rw [clean, clean, if_neg h, if_neg h]

theorem callSeconds_clean (zone : SystemZone) (value : Json) (now : ℤ) :
    callSeconds zone (clean value) now = callSeconds zone value now := by
  rw [callSeconds, callSeconds, clean_clean]

theorem gatewayStatus_ok {gwId : String} {value : Json} {status : GatewayStatus}
    (h : gatewayStatus zone now gwId value = .ok status) :
    callSeconds zone status.call_started now = .ok status.call_seconds := by
  unfold gatewayStatus at h
  split at h
  · next g _ =>
    cases hage : callSeconds zone (field g "call_started") now with
    | error error =>
      rw [hage] at h
      cases h
    | ok seconds =>
      rw [hage] at h
      cases h
      rw [callSeconds_clean]
      exact hage
  · cases h

/-- Every age shown is that of the start shown beside it. -/
theorem callSeconds_of_mem {raw : Dict} {gwIds : List String} {statuses : List GatewayStatus}
    (h : gatewayStatuses zone now raw gwIds = .ok statuses) {status : GatewayStatus}
    (hmem : status ∈ statuses) :
    callSeconds zone status.call_started now = .ok status.call_seconds := by
  induction gwIds generalizing statuses with
  | nil =>
    cases h
    cases hmem
  | cons gwId rest ih =>
    rw [gatewayStatuses] at h
    cases hfirst : gatewayStatus zone now gwId (field raw gwId) with
    | error error =>
      rw [hfirst] at h
      cases h
    | ok first =>
      cases hrest : gatewayStatuses zone now raw rest with
      | error error =>
        rw [hfirst, hrest] at h
        cases h
      | ok others =>
        rw [hfirst, hrest] at h
        cases h
        rcases List.mem_cons.mp hmem with rfl | hmem
        · exact gatewayStatus_ok hfirst
        · exact ih hrest hmem

/-- An answer that is shown has status 200 and a body, and one entry for each of its keys. -/
theorem fetchStatuses_ok {response : Option Response} {n : ℤ} {pool : Statuses}
    (h : fetchStatuses zone response n = .ok pool) : ∃ raw,
      response = some ⟨200, some raw⟩ ∧
        gatewayStatuses zone (zone.clock n) raw
          ((FieldMap.keys raw).mergeSort fun a b => decide (a ≤ b)) = .ok pool.gateways := by
  cases response with
  | none => cases h
  | some response =>
    obtain ⟨statusCode, body⟩ := response
    unfold fetchStatuses at h
    dsimp only at h
    by_cases hdenied : statusCode = 401
    · rw [if_pos hdenied] at h
      cases h
    rw [if_neg hdenied] at h
    by_cases hfailed : statusCode ≠ 200
    · rw [if_pos hfailed] at h
      cases h
    rw [if_neg hfailed] at h
    obtain rfl := not_not.mp hfailed
    cases body with
    | none => cases h
    | some raw =>
      refine ⟨raw, rfl, ?_⟩
      dsimp only at h
      split at h
      · next gateways hgateways =>
        cases h
        exact hgateways
      · cases h

/-- The ages of a pool, for the calls whose start has kept its offset. -/
theorem fetchStatuses_tellsAge {n : Reading zone} {response : Option Response} {pool : Statuses}
    (h : fetchStatuses zone response n.instant = .ok pool) {status : GatewayStatus}
    (hmem : status ∈ pool.gateways) (hstarted : status.call_started = .str (isoZ ms t))
    (hle : written ms t ≤ n.instant)
    (hkept : AgeKept zone (written ms t) (written ms t) n.instant) :
    status.call_seconds = some ((n.instant - written ms t) / secondUs) := by
  obtain ⟨raw, -, hgateways⟩ := fetchStatuses_ok h
  have hage := callSeconds_of_mem hgateways hmem
  rw [hstarted, ((tellsAge_iff n).mpr hkept).whole hle] at hage
  exact (Except.ok.inj hage).symm

end Pool

end CallAges
