import TunnelControl.Proofs.Address.SubnetGrammar
import TunnelControl.Proofs.Host.HostRun
import TunnelControl.Proofs.Interface.AddressExchange

/-!
The steps on the way to the addresses of an interface. Each slot's text is read before the kernel is
asked for anything on its behalf. What a step meets can be read off the machine as it is at first.
-/

namespace TunnelControl

open Netlink

inductive AssignmentStep where
  | splitting (text : String)
  | readingAddress (family : Family) (text : String)
  | readingLength (family : Family) (text : String)
  | openingControl
  | settingAddress (record : Bytes)
  | settingMask (record : Bytes)
  | indexing
  | openingSocket
  | sending (frame : Bytes)
  | awaiting (frame : Bytes)
deriving DecidableEq, Repr

def failureOf {ε α : Type} (classify : ε → Failure) : Except ε α → Option Failure
  | .ok _ => none
  | .error error => some (classify error)

def ControlReply.failure? (classify : Int → Failure) : ControlReply → Option Failure
  | .granted _ => none
  | .refused errno => some (classify errno)

namespace AssignmentStep

def kind : AssignmentStep → Failure.Kind
  | splitting _ => .unfitText
  | readingAddress _ _ => .badAddress
  | readingLength _ _ => .badLength
  | openingControl => .controlSocket
  | settingAddress _ => .assignAddress
  | settingMask _ => .assignMask
  | indexing => .deviceNotFound
  | openingSocket => .netlinkSocket
  | sending _ | awaiting _ => .request

section

variable (settings : Settings) (name : String) (host : Host)

/-- The failure of a step that fails. Of the records the address is the first, and the frame is the
first on its socket. -/
def failure? : AssignmentStep → Option Failure
  | splitting text => failureOf .ofSubnetFault (Subnet.split text)
  | readingAddress family text => failureOf .ofSubnetFault (Subnet.addressOfText family text)
  | readingLength family text => failureOf .ofSubnetFault (Subnet.lengthOfText family text)
  | openingControl =>
      if host.controls.headD 0 ≠ 0 then some (.controlSocket (host.controls.headD 0)) else none
  | settingAddress _ =>
      (host.controlReplies.headD (.granted [])).failure? (.assignAddress name)
  | settingMask _ =>
      (host.controlReplies.tail.headD (.granted [])).failure? (.assignMask name)
  | indexing => if host.index name = 0 then some (.deviceNotFound name none) else none
  | openingSocket => (host.script .route).fault?.map fun errno => .netlinkSocket (.io errno)
  | sending _ =>
      let errno := (host.script .route).sends.headD 0
      if errno ≠ 0 then some (.request (.io errno)) else none
  | awaiting frame =>
      failureOf .request <| Acknowledgement.ending 1 (Host.receiveSize settings)
        ((host.nextSocket .route settings).queueBehind frame)

/-- What a step leaves in the trace, however it ends. -/
def events : AssignmentStep → List Event
  | openingControl => [.controlOpened (host.controls.headD 0)]
  | settingAddress record =>
      [.controlled .assignAddress record (host.controlReplies.headD (.granted [])).errno]
  | settingMask record =>
      [.controlled .assignMask record (host.controlReplies.tail.headD (.granted [])).errno]
  | openingSocket => [.opened .route (host.script .route).openErrno]
  | sending frame => [.sent frame ((host.script .route).sends.headD 0)]
  | awaiting frame =>
      (Acknowledgement.awaited 1 (Host.receiveSize settings)
        ((host.nextSocket .route settings).queueBehind frame)).map
          (Arrival.receipt (Host.receiveSize settings))
  | splitting _ | readingAddress _ _ | readingLength _ _ | indexing => []

/-! The steps in order. -/

def reading (family : Family) (text : String) : List AssignmentStep :=
  splitting text ::
    match Subnet.split text with
    | .ok (address, length) => [readingAddress family address, readingLength family length]
    | .error _ => []

def requesting (subnet : Subnet) : List AssignmentStep :=
  match subnet.address with
  | .v4 address =>
      [openingControl, settingAddress (ControlRecord.withAddress name address),
        settingMask (ControlRecord.withAddress name
          (Mask.ofPrefixLength 4 subnet.length.toNat))]
  | .v6 address =>
      let frame := AddressRequest.bytes host.processId (host.index name) address subnet.length
        settings.acknowledgeIPv6
      [indexing, openingSocket, sending frame] ++
        if settings.acknowledgeIPv6 then [awaiting frame] else []

/-- The steps of one slot. An empty text takes none, and one that cannot be read only those that
read it. -/
def slot (family : Family) (text : String) : List AssignmentStep :=
  if text.isEmpty then []
  else
    reading family text ++
      match Subnet.ofTextIn family text with
      | .ok subnet => requesting settings name host subnet
      | .error _ => []

def course (addresses : InterfaceAddresses) : List AssignmentStep :=
  slot settings name host .v4 addresses.ipv4 ++ slot settings name host .v6 addresses.ipv6

end

variable {settings : Settings} {name : String} {host : Host}

theorem kind_of_failureOf {ε α : Type} {classify : ε → Failure} {kind : Failure.Kind}
    {result : Except ε α} {failure : Failure} (h : failureOf classify result = some failure)
    (hkind : ∀ error, result = .error error → (classify error).kind = kind) :
    failure.kind = kind := by
  cases result with
  | ok value => cases h
  | error error =>
      cases h
      exact hkind error rfl

theorem kind_of_failure? {step : AssignmentStep} {failure : Failure}
    (h : step.failure? settings name host = some failure) : failure.kind = step.kind := by
  cases step with
  | splitting text => exact kind_of_failureOf h fun _ => Subnet.kind_of_split
  | readingAddress family text => exact kind_of_failureOf h fun _ => Subnet.kind_of_addressOfText
  | readingLength family text => exact kind_of_failureOf h fun _ => Subnet.kind_of_lengthOfText
  | awaiting frame => exact kind_of_failureOf h fun _ _ => rfl
  | openingControl | indexing | sending =>
      simp only [failure?] at h
      split at h <;> cases h
      rfl
  | settingAddress record =>
      simp only [failure?] at h
      cases hreply : host.controlReplies.headD (.granted []) <;> rw [hreply] at h <;> cases h
      rfl
  | settingMask record =>
      simp only [failure?] at h
      cases hreply : host.controlReplies.tail.headD (.granted []) <;> rw [hreply] at h <;> cases h
      rfl
  | openingSocket =>
      obtain ⟨errno, -, rfl⟩ := Option.map_eq_some_iff.mp h
      rfl

end AssignmentStep

end TunnelControl
