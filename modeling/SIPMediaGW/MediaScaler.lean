import SIPMediaGW.ProxyRegistry
import SIPMediaGW.Scaler

/-! # The media scaler

Gateways are counted, stopped and cleaned up from their registry entries. A scan visits the
keys in any order, some of them more than once. -/
namespace MediaScaler

open FieldMap
open PythonJson
open ProxyRegistry
open Scaler
open StatefulExceptions

abbrev MediaScaling (α : Type) := Scaling Redis α

/-- `address.split(':', 1)[0]`. -/
def hostOf (address : String) : String :=
  String.ofList (address.toList.takeWhile (· ≠ ':'))

/-- `gw["gw_ip"]`, a text where there is one. -/
def gwIpOf (gw : Dict) : Except PyError String :=
  match gw.lookup "gw_ip" with
  | none => .error (.keyError "gw_ip")
  | some (.str address) => .ok address
  | some _ => .error .typeError

section Scans

variable {dates : Dates} (csp : Provider dates)

/-- The loop of `downScale`: the addresses of the gateways it stops, up to `numGW`. `now` is
the local time, which has no offset. -/
def stopIdle (dates : Dates) (now : ℤ) : List String → ℤ → MediaScaling (List String)
  | [], _ => pure []
  | key :: rest, numGW => do
    if numGW ≤ 0 then pure []
    else
      let gw := gwLoad ((← get).store.lookup key)
      let gwIp ← liftM (gwIpOf gw)
      if isFree gw then
        modify fun w =>
          { w with store := markStopping w.store key gw (.str (dates.isoformat ⟨now, none⟩)) }
        let ipList ← stopIdle dates now rest (numGW - 1)
        pure (hostOf gwIp :: ipList)
      else stopIdle dates now rest numGW

def downScale (now : ℤ) (scan : List String) (numGW : ℤ) : MediaScaling Unit := do
  let ipList ← stopIdle dates now scan numGW
  if ipList ≠ [] then csp.destroyInstances ipList

section Stopping

variable {I : World Redis → Prop} {now : ℤ}

/-- The loop keeps what each stopped gateway leaves. -/
theorem keeps_stopIdle (hmark : ∀ w key, I w → I { w with
      store := markStopping w.store key (gwLoad (w.store.lookup key))
        (.str (dates.isoformat ⟨now, none⟩)) }) (scan : List String) (numGW : ℤ) :
    Keeps I (stopIdle dates now scan numGW) := by
  induction scan generalizing numGW with
  | nil => exact keeps_pure _
  | cons key rest ih =>
    unfold stopIdle
    split
    · exact keeps_pure _
    · apply keeps_get_bind
      intro w hw
      cases hip : gwIpOf (gwLoad (w.store.lookup key)) with
      | error e =>
        rw [exec_bind_error (by rw [hip, exec_liftM])]
        exact hw
      | ok gwIp =>
        rw [exec_bind_ok (by rw [hip, exec_liftM])]
        split
        · rw [exec_bind_ok (exec_modify _ _)]
          exact (ih _).bind (fun _ => keeps_pure _) _ (hmark w key hw)
        · exact ih _ _ hw

theorem keeps_downScale (hmark : ∀ w key, I w → I { w with
      store := markStopping w.store key (gwLoad (w.store.lookup key))
        (.str (dates.isoformat ⟨now, none⟩)) })
    (hdestroy : ∀ ipList w, I w → I { w with calls := w.calls ++ [.destroyInstances ipList] })
    (scan : List String) (numGW : ℤ) : Keeps I (downScale csp now scan numGW) := by
  refine (keeps_stopIdle hmark scan numGW).bind fun ipList => ?_
  split
  · exact keeps_destroyInstances csp (hdestroy ipList)
  · exact keeps_pure _

end Stopping

/-- The address of an entry that has been stopping for longer than the threshold. -/
def staleAddress (dates : Dates) (cfg : Config) (now : ℤ) (gw : Dict) :
    Except PyError (Option String) := do
  let gwIp ← gwIpOf gw
  if isText (field gw "gw_state") "stopping" && truthy (field gw "start_time") then
    match field gw "start_time" with
    | .str lastUpdate =>
      let date ← parseDate dates lastUpdate
      let age ← elapsed now date
      .ok (if (age : ℚ) / 1000000 > cfg.cleanupThresholdSeconds.getD 600 then some gwIp else none)
    | _ => .error .typeError
  else .ok none

def staleAddresses (dates : Dates) (cfg : Config) (now : ℤ) (r : Redis) :
    List String → Except PyError (List String)
  | [] => .ok []
  | key :: rest => do
    let found ← staleAddress dates cfg now (gwLoad (r.lookup key))
    let ipList ← staleAddresses dates cfg now r rest
    .ok (found.toList ++ ipList)

def cleanup (cfg : Config) (now : ℤ) (scan : List String) : MediaScaling Unit := do
  let ipList ← liftM (staleAddresses dates cfg now (← get).store scan)
  if ipList ≠ [] then csp.destroyInstances ipList
  csp.cleanup cfg now

/-- Every key a scan returns counts. -/
def getCurrentCapacity (scan : List String) : MediaScaling ℤ := pure scan.length

def getReadyToRunCapacity (scan : List String) : MediaScaling ℤ := do
  let store := (← get).store
  pure (scan.countP fun key => isFree (gwLoad (store.lookup key)))

end Scans

end MediaScaler
