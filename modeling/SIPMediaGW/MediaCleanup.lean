import SIPMediaGW.MediaScaler

/-! # What the media cleanup makes of a stopped gateway

`downScale` dates a stopped gateway with the local clock, without an offset; `cleanup`
subtracts that date from an instant that has one. -/
namespace MediaCleanup

open FieldMap
open PythonJson
open ProxyRegistry
open Scaler
open MediaScaler
open StatefulExceptions

def isStopping (gw : Dict) : Bool := isText (field gw "gw_state") "stopping"

/-- Addresses are texts, and every stopping entry is one `downScale` wrote at the local time
of the instant it is noted with. -/
structure Written (dates : Dates) (localTime : ℤ → ℤ) (stoppedAt : String → ℤ) (r : Redis) :
    Prop where
  addresses : ∀ key address, (gwLoad (r.lookup key)).lookup "gw_ip" = some address →
    ∃ s, address = .str s
  stopping : ∀ key, isStopping (gwLoad (r.lookup key)) = true →
    ∃ gw, gwLoad (r.lookup key) =
      putAll gw (stoppingFields (.str (dates.isoformat ⟨localTime (stoppedAt key), none⟩)))

/-- A registry with the instants its gateways were stopped at, and a scan of it. -/
structure StoppedRegistry (dates : Dates) where
  redis : Redis
  localTime : ℤ → ℤ
  stoppedAt : String → ℤ
  written : Written dates localTime stoppedAt redis
  scan : List String
  scan_order : ScanOrder redis scan

variable {dates : Dates} {csp : Provider dates} {cfg : Config} {now : ℤ}

/-- The hosts of the entries that have been stopping for longer than the threshold. -/
def staleHosts (reg : StoppedRegistry dates) (cfg : Config) (now : ℤ) : List String :=
  (reg.scan.filter fun key => isStopping (gwLoad (reg.redis.lookup key)) &&
      decide (((now - reg.stoppedAt key : ℤ) : ℚ) / 1000000 >
        cfg.cleanupThresholdSeconds.getD 600)).map fun key =>
    match (gwLoad (reg.redis.lookup key)).lookup "gw_ip" with
    | some (.str address) => hostOf address
    | _ => ""

/-- The cleanup returns, has the stale hosts destroyed, and leaves the turn to `scale`. -/
def Completes (csp : Provider dates) (cfg : Config) (now : ℤ) (reg : StoppedRegistry dates) :
    Prop :=
  ∃ base : List ProviderCall,
    let after : World Redis :=
      ⟨reg.redis, (if staleHosts reg cfg now = [] then []
        else [.destroyInstances (staleHosts reg cfg now)]) ++ base⟩
    exec (cleanup csp cfg now reg.scan) ⟨reg.redis, []⟩ = (.ok (), after) ∧
      ∀ scale : MediaScaling Unit,
        exec (autoIteration (cleanup csp cfg now reg.scan) scale) ⟨reg.redis, []⟩ =
          exec (autoIteration (pure ()) scale) after

section Written

variable {localTime : ℤ → ℤ} {stoppedAt : String → ℤ} {r : Redis}

/-- Stopping one gateway writes its entry as the others were. -/
theorem Written.markStopping (h : Written dates localTime stoppedAt r) (key : String) (t : ℤ) :
    Written dates localTime (Function.update stoppedAt key t)
      (markStopping r key (gwLoad (r.lookup key))
        (.str (dates.isoformat ⟨localTime t, none⟩))) := by
  constructor
  · intro k address haddress
    by_cases hk : k = key
    · subst hk
      simp only [ProxyRegistry.markStopping, lookup_put_self, gwLoad, gwDumpMedia] at haddress
      rw [lookup_putAll_of_notMem _ _ (by simp [stoppingFields, keys])] at haddress
      exact h.addresses k address haddress
    · rw [ProxyRegistry.markStopping, lookup_put_ne _ _ hk] at haddress
      exact h.addresses k address haddress
  · intro k hstopping
    by_cases hk : k = key
    · subst hk
      rw [ProxyRegistry.markStopping, lookup_put_self, Function.update_self]
      exact ⟨_, rfl⟩
    · rw [ProxyRegistry.markStopping, lookup_put_ne _ _ hk] at hstopping ⊢
      rw [Function.update_of_ne hk]
      exact h.stopping k hstopping

end Written

section BaseCleanup

theorem unreachable_ok {inst : Instance} (h : inst ∈ csp.instances) (now : ℤ) :
    ∃ b, unreachable dates now inst = .ok b := by
  obtain ⟨wall, offset, hparse⟩ := csp.aware inst h
  unfold unreachable
  split
  · exact ⟨false, rfl⟩
  · refine ⟨decide (now - (wall - offset) > 600000000), ?_⟩
    simp only [parseDate, hparse]
    rfl

theorem exec_destroyInstances {ρ : Type} {ipList : List String}
    (h : ipList.all csp.ipAddress = true) (w : World ρ) :
    exec (csp.destroyInstances ipList) w =
      (.ok (), { w with calls := w.calls ++ [.destroyInstances ipList] }) := by
  rw [Provider.destroyInstances, exec_bind_ok (exec_modify _ _), if_pos h, exec_pure]

theorem exec_destroyInstances_error {ρ : Type} {ipList : List String}
    (h : ipList.all csp.ipAddress = false) (w : World ρ) :
    exec (csp.destroyInstances ipList) w =
      (.error .valueError, { w with calls := w.calls ++ [.destroyInstances ipList] }) := by
  rw [Provider.destroyInstances, exec_bind_ok (exec_modify _ _), h]
  rfl

theorem exec_cleanupInstance {ρ : Type} {inst : Instance} (h : inst ∈ csp.instances)
    (cfg : Config) (now : ℤ) (w : World ρ) :
    ∃ more, exec (csp.cleanupInstance cfg now inst) w =
      (.ok (), { w with calls := w.calls ++ more }) := by
  obtain ⟨expired, hexpired⟩ := unreachable_ok h now
  unfold Provider.cleanupInstance
  split
  · rw [exec_bind_ok (by rw [hexpired, exec_liftM])]
    split
    · have hplain : [inst.priv].all csp.ipAddress = true := by
        simp [csp.private_addresses inst h]
      exact ⟨_, exec_destroyInstances hplain w⟩
    · exact ⟨[], by simp⟩
  · exact ⟨[], by simp⟩

/-- The cleanup of instances adds to the provider's calls and does nothing else. -/
theorem exec_baseCleanup {ρ : Type} (csp : Provider dates) (cfg : Config) (now : ℤ)
    (w : World ρ) :
    ∃ base, exec (csp.cleanup cfg now) w = (.ok (), { w with calls := w.calls ++ base }) := by
  have hloop : ∀ instances : List Instance, instances ⊆ csp.instances → ∀ w : World ρ,
      ∃ base, exec (forM instances (csp.cleanupInstance cfg now)) w =
        (.ok (), { w with calls := w.calls ++ base }) := by
    intro instances
    induction instances with
    | nil =>
      intro _ w
      exact ⟨[], by simp⟩
    | cons inst rest ih =>
      intro hsub w
      obtain ⟨more, hmore⟩ := exec_cleanupInstance (hsub List.mem_cons_self) cfg now w
      obtain ⟨base, hbase⟩ := ih (List.subset_of_cons_subset hsub)
        { w with calls := w.calls ++ more }
      refine ⟨more ++ base, ?_⟩
      rw [List.forM_cons, exec_bind_ok hmore, hbase, List.append_assoc]
  exact hloop csp.instances (List.Subset.refl _) w

end BaseCleanup

section Stale

variable {reg : StoppedRegistry dates} {key : String} {scan : List String}

theorem gwIpOf_ok (h : ((gwLoad (reg.redis.lookup key)).lookup "gw_ip").isSome = true) :
    ∃ address, gwIpOf (gwLoad (reg.redis.lookup key)) = .ok address := by
  obtain ⟨address, hlookup⟩ := Option.isSome_iff_exists.mp h
  obtain ⟨s, rfl⟩ := reg.written.addresses key address hlookup
  exact ⟨s, by simp only [gwIpOf, hlookup]⟩

theorem gwIpOf_error (h : ((gwLoad (reg.redis.lookup key)).lookup "gw_ip").isSome = false) :
    gwIpOf (gwLoad (reg.redis.lookup key)) = .error (.keyError "gw_ip") := by
  rw [Option.isSome_eq_false_iff, Option.isNone_iff_eq_none] at h
  simp only [gwIpOf, h]

/-- The date of a stopping entry is a text without an offset. -/
theorem startTime_of_stopping (h : isStopping (gwLoad (reg.redis.lookup key)) = true) :
    ∃ s wall, field (gwLoad (reg.redis.lookup key)) "start_time" = .str s ∧ s ≠ "" ∧
      dates.parse s = some ⟨wall, none⟩ := by
  obtain ⟨gw, hgw⟩ := reg.written.stopping key h
  obtain ⟨wall, hparse⟩ := dates.parse_naive (reg.localTime (reg.stoppedAt key))
  refine ⟨_, wall, ?_, dates.isoformat_ne _, hparse⟩
  rw [hgw, field, lookup_putAll]
  rfl

theorem staleAddress_none
    (hip : ((gwLoad (reg.redis.lookup key)).lookup "gw_ip").isSome = true)
    (hnone : isStopping (gwLoad (reg.redis.lookup key)) = false) :
    staleAddress dates cfg now (gwLoad (reg.redis.lookup key)) = .ok none := by
  obtain ⟨address, haddress⟩ := gwIpOf_ok hip
  have hstate : isText (field (gwLoad (reg.redis.lookup key)) "gw_state") "stopping" = false :=
    hnone
  simp only [staleAddress, haddress, hstate, Bool.false_and]
  rfl

/-- Subtracting the date of a stopping entry raises, as does an entry without an address. -/
theorem staleAddress_error
    (hbad : ((gwLoad (reg.redis.lookup key)).lookup "gw_ip").isSome = false ∨
      isStopping (gwLoad (reg.redis.lookup key)) = true) :
    ∃ e, staleAddress dates cfg now (gwLoad (reg.redis.lookup key)) = .error e := by
  cases hip : ((gwLoad (reg.redis.lookup key)).lookup "gw_ip").isSome with
  | false =>
    refine ⟨.keyError "gw_ip", ?_⟩
    simp only [staleAddress, gwIpOf_error hip]
    rfl
  | true =>
    obtain ⟨address, haddress⟩ := gwIpOf_ok hip
    have hstopping : isStopping (gwLoad (reg.redis.lookup key)) = true := by
      rcases hbad with h | h
      · rw [hip] at h
        cases h
      · exact h
    obtain ⟨s, wall, hdate, hne, hparse⟩ := startTime_of_stopping hstopping
    have hstate : isText (field (gwLoad (reg.redis.lookup key)) "gw_state") "stopping" = true :=
      hstopping
    have htruthy : truthy (.str s) = true := by simpa [truthy] using hne
    refine ⟨.typeError, ?_⟩
    simp only [staleAddress, haddress, hstate, hdate, htruthy, parseDate, hparse, elapsed]
    rfl

/-- A scan that meets no stopping entry finds nothing stale. -/
theorem staleAddresses_nil
    (h : ∀ key ∈ scan, staleAddress dates cfg now (gwLoad (reg.redis.lookup key)) = .ok none) :
    staleAddresses dates cfg now reg.redis scan = .ok [] := by
  induction scan with
  | nil => rfl
  | cons key scan ih =>
    have hrest := ih fun k hk => h k (List.mem_cons_of_mem _ hk)
    simp only [staleAddresses, h key List.mem_cons_self, hrest]
    rfl

/-- One entry that raises stops the whole scan. -/
theorem staleAddresses_error {e : PyError} (hkey : key ∈ scan)
    (h : staleAddress dates cfg now (gwLoad (reg.redis.lookup key)) = .error e) :
    ∃ e', staleAddresses dates cfg now reg.redis scan = .error e' := by
  induction scan with
  | nil => cases hkey
  | cons k scan ih =>
    cases hhead : staleAddress dates cfg now (gwLoad (reg.redis.lookup k)) with
    | error e' =>
      refine ⟨e', ?_⟩
      simp only [staleAddresses, hhead]
      rfl
    | ok found =>
      rcases List.mem_cons.mp hkey with rfl | hkey
      · rw [h] at hhead
        cases hhead
      · obtain ⟨e', he'⟩ := ih hkey
        refine ⟨e', ?_⟩
        simp only [staleAddresses, hhead, he']
        rfl

end Stale

/-- Dates with one local time, 24 September 2026 at 08:20:48. -/
def plainDates : Dates where
  isoformat d :=
    if d.wall = 1790238048000000 then "2026-09-24T08:20:48" else "1970-01-01T00:00:00"
  parse s :=
    if s = "2026-09-24T08:20:48" then some ⟨1790238048000000, none⟩ else some ⟨0, none⟩
  isoformat_ne d := by
    split <;> decide
  parse_naive wall := by
    split <;> exact ⟨_, rfl⟩

/-- A provider without instances, whose addresses have no port. -/
def plainProvider : Provider plainDates where
  instType := ["4", "8"]
  instances := []
  ipAddress address := decide (':' ∉ address.toList)
  private_addresses _ h := by cases h
  aware _ h := by cases h

def plainConfig : Config where
  cpuPerGw := 4
  gwNamePrefix := "mediagw"
  cleanerBlacklist := []
  cleanupThresholdSeconds := some 600

theorem plain_sizes :
    ∀ size ∈ plainProvider.instType, ∃ k : ℤ, 0 < k ∧ intOfText size = some (k * 1) := by
  intro size hsize
  rcases List.mem_pair.mp hsize with rfl | rfl
  · exact ⟨4, by decide, by decide⟩
  · exact ⟨8, by decide, by decide⟩

theorem plain_offered : plainProvider.instType ≠ [] := by decide

theorem plain_cpu_pos : 0 < plainConfig.cpuPerGw := by norm_num [plainConfig]

/-- An idle gateway, before and after `downScale` stops it at 08:20:48 UTC. -/
def idleGateway : Redis :=
  [("gw1", gwDumpMedia [("gw_ip", .str "10.0.0.1:8080"), ("gw_state", .str "stopped")])]

theorem idleGateway_written : Written plainDates id (fun _ => 0) idleGateway where
  addresses key address h := by
    by_cases hk : key = "gw1"
    · subst hk
      exact ⟨_, (Option.some.inj h).symm⟩
    · have hkb : (key == "gw1") = false := beq_eq_false_iff_ne.mpr hk
      simp [idleGateway, List.lookup_cons, hkb, gwLoad] at h
  stopping key h := by
    by_cases hk : key = "gw1"
    · subst hk
      exact absurd h (by decide)
    · have hkb : (key == "gw1") = false := beq_eq_false_iff_ne.mpr hk
      simp [idleGateway, List.lookup_cons, hkb, gwLoad, isStopping, field, isText] at h

def stoppedGateway : StoppedRegistry plainDates where
  redis := markStopping idleGateway "gw1" (gwLoad (idleGateway.lookup "gw1"))
    (.str (plainDates.isoformat ⟨1790238048000000, none⟩))
  localTime := id
  stoppedAt := Function.update (fun _ => 0) "gw1" 1790238048000000
  written := idleGateway_written.markStopping "gw1" 1790238048000000
  scan := ["gw1"]
  scan_order := by decide

end MediaCleanup
