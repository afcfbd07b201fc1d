import TunnelControl.Proofs.Tunnel.RequestMaking

namespace TunnelControl

open Netlink

def ControlReply.errno : ControlReply → Int
  | .granted _ => 0
  | .refused errno => errno

/-- Why a socket cannot be set up. -/
def Script.fault? (script : Script) : Option Int :=
  if script.openErrno ≠ 0 then some script.openErrno
  else if script.bindErrno ≠ 0 then some script.bindErrno
  else if script.addressErrno ≠ 0 then some script.addressErrno
  else none

theorem Netlink.Socket.establish_eq (protocol : Protocol) (script : Script) :
    establish protocol script =
      (match script.fault? with
        | some errno => .error (.io errno)
        | none => .ok (ofScript script),
        [.opened protocol script.openErrno]) := by
  unfold establish Script.fault?
  dsimp only
  split
  · rfl
  · split
    · rfl
    · split <;> rfl

namespace Host

variable (host : Host)

/-- How the socket that is opened next behaves. -/
def script (protocol : Protocol) : Script :=
  host.scripts.headD (host.spare protocol)

def index (name : String) : UInt32 :=
  if '\x00' ∈ name.toList then 0 else (host.indices.lookup name).getD 0

def receiveSize (settings : Settings) : Nat :=
  max settings.receiveBuffer.toNat Socket.leastBuffer

def nextSocket (protocol : Protocol) (settings : Settings) : Socket :=
  (Socket.ofScript (host.script protocol)).withBuffer settings.receiveBuffer.toNat

theorem run_openControl :
    openControl.run host =
      (if host.controls.headD 0 ≠ 0 then .error (.controlSocket (host.controls.headD 0)) else .ok (),
        { host with controls := host.controls.tail }.note
          [.controlOpened (host.controls.headD 0)]) := by
  rw [openControl, run_get_bind]
  change ExceptT.run (ite _ _ _ : Operation Unit) _ = _
  split <;> rfl

theorem run_control (code : ControlCode) (record : Bytes) (classify : Int → Failure) :
    (control code record classify).run host =
      (match host.controlReplies.headD (.granted []) with
        | .granted data => .ok (ControlRecord.answered record data)
        | .refused errno => .error (classify errno),
        { host with controlReplies := host.controlReplies.tail }.note
          [.controlled code record (host.controlReplies.headD (.granted [])).errno]) := by
  rw [control, run_get_bind]
  dsimp only
  split
  · rename_i hreply
    rw [hreply]
    rfl
  · rename_i hreply
    rw [hreply]
    rfl

theorem run_indexOf (name : String) :
    (indexOf name).run host =
      (if host.index name = 0 then .error (.deviceNotFound name none) else .ok (host.index name),
        host) := by
  rw [indexOf, run_get_bind]
  change ExceptT.run (ite (host.index name = 0) _ _ : Operation UInt32) _ = _
  split <;> rfl

/-- The machine once it was asked for the next socket. -/
def opening (protocol : Protocol) : Host :=
  { host with scripts := host.scripts.tail }.note [.opened protocol (host.script protocol).openErrno]

theorem run_openSocket (protocol : Protocol) (settings : Settings) :
    (openSocket protocol settings).run host =
      (match (host.script protocol).fault? with
        | some errno => .error (.netlinkSocket (.io errno))
        | none => .ok (host.nextSocket protocol settings),
        host.opening protocol) := by
  rw [openSocket, run_get_bind]
  simp only [Socket.establish_eq, opening, script]
  cases (host.scripts.headD (host.spare protocol)).fault? <;> rfl

theorem opened_of_run_openSocket {host after : Host} {protocol : Protocol} {settings : Settings}
    {socket : Socket} (h : (openSocket protocol settings).run host = (.ok socket, after)) :
    (host.script protocol).fault? = none ∧ socket = host.nextSocket protocol settings ∧
      after = host.opening protocol := by
  rw [run_openSocket] at h
  cases hfault : (host.script protocol).fault? with
  | some errno =>
      rw [hfault] at h
      cases h
  | none =>
      rw [hfault] at h
      cases h
      exact ⟨rfl, rfl, rfl⟩

end Host

namespace SocketOperation

variable {host : Host} {protocol : Protocol} {settings : Settings} {α : Type}
  {run : SocketOperation α}

theorem run_onNewSocket_of_fault {errno : Int} (h : (host.script protocol).fault? = some errno) :
    (onNewSocket protocol settings run).run host =
      (.error (.netlinkSocket (.io errno)), host.opening protocol) := by
  have hopen := host.run_openSocket protocol settings
  rw [h] at hopen
  rw [onNewSocket, Exchange.run_bind_of_error hopen]

theorem run_onNewSocket_of_opened (h : (host.script protocol).fault? = none) :
    (onNewSocket protocol settings run).run host =
      (run.run' (host.nextSocket protocol settings)).run (host.opening protocol) := by
  have hopen := host.run_openSocket protocol settings
  rw [h] at hopen
  rw [onNewSocket, Exchange.run_bind_of_ok hopen]

end SocketOperation

theorem Script.openErrno_of_fault? {script : Script} (h : script.fault? = none) :
    script.openErrno = 0 := by
  unfold fault? at h
  split at h
  · cases h
  · rename_i hopen
    exact not_not.mp hopen

end TunnelControl
