import TunnelControl.Proofs.Tunnel.RequestMaking

/-!
The stages of an operation. An operation opens sockets, looks interfaces up and runs exchanges, one
after the other, and what an exchange is for decides what it means that it failed.
-/

namespace TunnelControl

open Netlink

namespace Tunnel

/-! Stages. -/

/-- What an exchange on an open socket is for. -/
inductive Errand where
  | resolving (family : String)
  | fetching (family : FamilyInfo) (name : String)
  | configuring (family : FamilyInfo) (name : String) (change part : DeviceChange)
      (hpart : part ∈ change.requests)
  | adding (name : String)
  | removing (name : String) (index : UInt32)
  | listing

namespace Errand

def request : Errand → Request
  | resolving family => .lookup family
  | fetching family name => .getDevice family.id name
  | configuring family name change part hpart => .setDevice family.id name change part hpart
  | adding name => .addLink name
  | removing _ index => .removeLink index
  | listing => .listLinks

def Result : Errand → Type
  | resolving _ => FamilyInfo
  | fetching _ _ => Snapshot
  | listing => List Link
  | configuring _ _ _ _ _ | adding _ | removing _ _ => Unit

def exchange : (errand : Errand) → Exchange errand.Result
  | resolving family => Socket.resolve family
  | fetching family name => Socket.device family name
  | configuring family name _ part _ =>
      Socket.command family.id TunnelFamily.setDevice TunnelFamily.version (part.attributes name)
  | adding name => Socket.addLink name
  | removing _ index => Socket.removeLink index
  | listing => Socket.tunnelLinks

def failure : Errand → Error → Failure
  | resolving _, error | listing, error => .request error
  | fetching _ name, error => .deviceNotFound name (some error)
  | configuring _ name _ _ _, error => .configureDevice name error
  | adding name, error => .addDevice name error
  | removing name _, error =>
      if error = .kernel Errno.noEntry ∨ error = .kernel Errno.noDevice then
        .deviceNotFound name none
      else .deleteDevice name error

theorem makesOnly_exchange (errand : Errand) : Socket.MakesOnly errand.request errand.exchange := by
  cases errand with
  | resolving family =>
      exact Socket.makesOnly_ask (.lookup family) (FamilyInfo.listener family) ()
  | fetching family name => exact Socket.makesOnly_device family name
  | configuring family name change part hpart =>
      exact Socket.makesOnly_request (.setDevice family.id name change part hpart)
  | adding name => exact Socket.makesOnly_addLink name
  | removing name index => exact Socket.makesOnly_removeLink index
  | listing => exact Socket.makesOnly_tunnelLinks

end Errand

inductive Stage where
  | opening (protocol : Protocol)
  | indexing (name : String)
  | asking (errand : Errand)

namespace Stage

/-- What the stage leaves in the trace, once it was tried. -/
def RecordedAs : Stage → List Event → Prop
  | opening protocol, events => ∃ errno, events = [.opened protocol errno]
  | indexing _, events => events = []
  | asking errand, events => errand.request.RecordedAs events

variable (settings : Settings)

inductive Passes : Stage → Option Socket → Host → Option Socket → Host → Prop
  | opening {protocol : Protocol} {socket : Option Socket} {host after : Host} {opened : Socket}
      (h : (Host.openSocket protocol settings).run host = (.ok opened, after)) :
      Passes (.opening protocol) socket host (some opened.cleared) after
  | indexing {name : String} {socket : Option Socket} {host after : Host} {index : UInt32}
      (h : (Host.indexOf name).run host = (.ok index, after)) :
      Passes (.indexing name) socket host socket after
  | asking {errand : Errand} {socket next : Socket} {host : Host} {result : errand.Result}
      (h : errand.exchange.run socket.cleared = (.ok result, next)) :
      Passes (.asking errand) (some socket) host (some next.cleared) (host.noteExchange next)

/-- The stage fails, and what it is for decides what the failure is. -/
inductive Fails : Stage → Option Socket → Host → Failure → Host → Prop
  | opening {protocol : Protocol} {socket : Option Socket} {host after : Host} {error : Error}
      (h : (Host.openSocket protocol settings).run host = (.error (.netlinkSocket error), after)) :
      Fails (.opening protocol) socket host (.netlinkSocket error) after
  | indexing {name : String} {socket : Option Socket} {host after : Host}
      (h : (Host.indexOf name).run host = (.error (.deviceNotFound name none), after)) :
      Fails (.indexing name) socket host (.deviceNotFound name none) after
  | asking {errand : Errand} {socket next : Socket} {host : Host} {error : Error}
      (h : errand.exchange.run socket.cleared = (.error error, next)) :
      Fails (.asking errand) (some socket) host (errand.failure error) (host.noteExchange next)

variable {settings} {stage : Stage} {socket next : Option Socket} {host after : Host}
  {failure : Failure}

theorem Passes.exists_events (h : stage.Passes settings socket host next after) :
    ∃ events, after.trace = host.trace ++ events ∧ stage.RecordedAs events := by
  cases h with
  | @opening protocol _ _ _ _ h =>
      obtain ⟨_, errno, hrun, -⟩ := Host.exists_run_openSocket protocol settings host
      rw [h] at hrun
      cases hrun
      exact ⟨_, rfl, errno, rfl⟩
  | @indexing name _ _ _ _ h =>
      obtain ⟨_, hrun, -⟩ := Host.exists_run_indexOf name host
      rw [h] at hrun
      cases hrun
      exact ⟨[], (List.append_nil _).symm, rfl⟩
  | @asking errand socket next host result h =>
      obtain ⟨events, htrace, hevents⟩ := errand.makesOnly_exchange socket.cleared
      rw [h] at htrace hevents
      refine ⟨events, congrArg (host.trace ++ ·) htrace, hevents.resolve_right ?_⟩
      rintro ⟨-, error, herror⟩
      cases herror

/-- A stage that fails is recorded as any other, unless it fails before anything is sent. -/
theorem Fails.exists_events (h : stage.Fails settings socket host failure after) :
    ∃ events, after.trace = host.trace ++ events ∧ (stage.RecordedAs events ∨ events = []) := by
  cases h with
  | @opening protocol _ _ _ _ h =>
      obtain ⟨_, errno, hrun, -⟩ := Host.exists_run_openSocket protocol settings host
      rw [h] at hrun
      cases hrun
      exact ⟨_, rfl, .inl ⟨errno, rfl⟩⟩
  | @indexing name _ _ _ h =>
      obtain ⟨_, hrun, -⟩ := Host.exists_run_indexOf name host
      rw [h] at hrun
      cases hrun
      exact ⟨[], (List.append_nil _).symm, .inr rfl⟩
  | @asking errand socket next host error h =>
      obtain ⟨events, htrace, hevents⟩ := errand.makesOnly_exchange socket.cleared
      rw [h] at htrace
      exact ⟨events, congrArg (host.trace ++ ·) htrace, hevents.imp_right And.left⟩

theorem Fails.exists_configuring {name : String} {error : Error}
    (h : stage.Fails settings socket host (.configureDevice name error) after) :
    ∃ family change part hpart, stage = .asking (.configuring family name change part hpart) := by
  generalize hfailure : Failure.configureDevice name error = failure at h
  cases h with
  | opening => cases hfailure
  | indexing => cases hfailure
  | @asking errand _ _ _ error =>
      cases errand with
      | configuring family other change part hpart =>
          cases hfailure
          exact ⟨family, change, part, hpart, rfl⟩
      | removing other index =>
          rw [Errand.failure] at hfailure
          split at hfailure <;> cases hfailure
      | resolving family => cases hfailure
      | fetching family other => cases hfailure
      | adding other => cases hfailure
      | listing => cases hfailure

end Stage

/-! Courses. -/

variable (settings : Settings)

/-- Stages are passed one after the other. Between them random bytes are drawn and warnings given,
and nothing else happens. -/
inductive PassesAll : Option Socket → Host → List Stage → Option Socket → Host → Prop
  | nil {socket : Option Socket} {host : Host} : PassesAll socket host [] socket host
  | drawing {socket last : Option Socket} {host after : Host} {stages : List Stage} (count : Nat)
      (rest : PassesAll socket { host with entropy := host.entropy.drop count } stages last after) :
      PassesAll socket host stages last after
  | warning {socket last : Option Socket} {host after : Host} {stages : List Stage}
      (warnings : List Warning)
      (rest : PassesAll socket { host with warnings := host.warnings ++ warnings } stages last
        after) :
      PassesAll socket host stages last after
  | cons {socket next last : Option Socket} {host middle after : Host} {stage : Stage}
      {stages : List Stage} (first : stage.Passes settings socket host next middle)
      (rest : PassesAll next middle stages last after) :
      PassesAll socket host (stage :: stages) last after

def StopsIn (socket : Option Socket) (host : Host) (course : List Stage) (failure : Failure)
    (after : Host) : Prop :=
  ∃ front stage next middle, front ++ [stage] <+: course ∧
    PassesAll settings socket host front next middle ∧
    stage.Fails settings next middle failure after

variable {settings} {socket next last : Option Socket} {host middle after : Host}
  {front back : List Stage} {failure : Failure}

namespace PassesAll

theorem append (hfront : PassesAll settings socket host front next middle)
    (hback : PassesAll settings next middle back last after) :
    PassesAll settings socket host (front ++ back) last after := by
  induction hfront with
  | nil => exact hback
  | drawing count _ ih => exact .drawing count (ih hback)
  | warning warnings _ ih => exact .warning warnings (ih hback)
  | cons first _ ih => exact .cons first (ih hback)

/-- The trace is that of the stages, one after the other. -/
theorem exists_events (h : PassesAll settings socket host front next after) :
    ∃ events, after.trace = host.trace ++ events.flatten ∧
      List.Forall₂ Stage.RecordedAs front events := by
  induction h with
  | nil => exact ⟨[], (List.append_nil _).symm, .nil⟩
  | drawing count _ ih => exact ih
  | warning warnings _ ih => exact ih
  | cons first _ ih =>
      obtain ⟨events, htrace, hevents⟩ := first.exists_events
      obtain ⟨later, hlater, hrest⟩ := ih
      refine ⟨events :: later, ?_, .cons hevents hrest⟩
      rw [hlater, htrace, List.append_assoc, List.flatten_cons]

end PassesAll

namespace StopsIn

theorem of_fails {stage : Stage} (h : stage.Fails settings socket host failure after) :
    StopsIn settings socket host [stage] failure after :=
  ⟨[], stage, socket, host, List.prefix_rfl, .nil, h⟩

theorem append_right (h : StopsIn settings socket host front failure after) (back : List Stage) :
    StopsIn settings socket host (front ++ back) failure after := by
  obtain ⟨passed, stage, next, middle, hprefix, hrest⟩ := h
  exact ⟨passed, stage, next, middle, hprefix.trans (List.prefix_append front back), hrest⟩

theorem append_left (hfront : PassesAll settings socket host front next middle)
    (h : StopsIn settings next middle back failure after) :
    StopsIn settings socket host (front ++ back) failure after := by
  obtain ⟨passed, stage, reached, before, hprefix, hpassed, hfails⟩ := h
  refine ⟨front ++ passed, stage, reached, before, ?_, hfront.append hpassed, hfails⟩
  rw [List.append_assoc]
  exact (List.prefix_append_right_inj front).mpr hprefix

end StopsIn

end Tunnel

end TunnelControl
