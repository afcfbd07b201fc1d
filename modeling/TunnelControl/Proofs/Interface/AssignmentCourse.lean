import TunnelControl.Proofs.Address.SubnetReading
import TunnelControl.Proofs.Interface.AssignmentSteps

namespace TunnelControl

open Netlink AssignmentStep

/-- The operation performs the steps, or those up to the first that fails. What the steps meet is
read off the machine as it was at first, which may have been used since. -/
inductive Performs {α : Type} (settings : Settings) (name : String) (host : Host)
    (operation : Operation α) (current : Host) (steps : List AssignmentStep)
    (reaches : α → Host → Prop) : Prop
  | finished {value : α} {after : Host} (hrun : operation.run current = (.ok value, after))
      (hsteps : ∀ step ∈ steps, step.failure? settings name host = none)
      (htrace : after.trace = current.trace ++ steps.flatMap (events settings host))
      (hreaches : reaches value after)
  | stopped (passed : List AssignmentStep) (step : AssignmentStep) (rest : List AssignmentStep)
      {failure : Failure} {after : Host} (hrun : operation.run current = (.error failure, after))
      (hsteps : steps = passed ++ step :: rest)
      (hpassed : ∀ earlier ∈ passed, earlier.failure? settings name host = none)
      (hfails : step.failure? settings name host = some failure)
      (htrace : after.trace = current.trace ++ (passed ++ [step]).flatMap (events settings host))

/-- The machine still gives what it gave at first, but for the records that were answered. -/
structure Host.Keeps (host : Host) (replies : List ControlReply) (current : Host) : Prop where
  replies_eq : current.controlReplies = replies
  scripts_eq : current.scripts = host.scripts
  spare_eq : current.spare = host.spare
  indices_eq : current.indices = host.indices
  processId_eq : current.processId = host.processId

variable {settings : Settings} {name : String} {host current : Host} {α β : Type}

namespace Host.Keeps

variable {replies : List ControlReply}

theorem script_eq (h : host.Keeps replies current) (protocol : Protocol) :
    current.script protocol = host.script protocol := by
  rw [Host.script, Host.script, h.scripts_eq, h.spare_eq]

theorem index_eq (h : host.Keeps replies current) (name : String) :
    current.index name = host.index name := by
  rw [Host.index, Host.index, h.indices_eq]

end Host.Keeps

namespace Performs

variable {operation : Operation α} {steps front back : List AssignmentStep}
  {reaches : α → Host → Prop} {last : β → Host → Prop} {step : AssignmentStep}

theorem pure {value : α} (h : reaches value current) :
    Performs settings name host (Pure.pure value) current [] reaches :=
  .finished rfl nofun (List.append_nil _).symm h

theorem of_passes {value : α} {after : Host} (hrun : operation.run current = (.ok value, after))
    (hstep : step.failure? settings name host = none)
    (htrace : after.trace = current.trace ++ step.events settings host)
    (hreaches : reaches value after) :
    Performs settings name host operation current [step] reaches :=
  .finished hrun (List.forall_mem_singleton.mpr hstep) (by simpa using htrace) hreaches

theorem of_fails {failure : Failure} {after : Host}
    (hrun : operation.run current = (.error failure, after))
    (hstep : step.failure? settings name host = some failure)
    (htrace : after.trace = current.trace ++ step.events settings host) :
    Performs settings name host operation current [step] reaches :=
  .stopped [] step [] hrun rfl nofun hstep (by simpa using htrace)

theorem bind {first : Operation α} {next : α → Operation β}
    (hfirst : Performs settings name host first current front reaches)
    (hnext : ∀ value after, reaches value after →
      Performs settings name host (next value) after back last) :
    Performs settings name host (first >>= next) current (front ++ back) last := by
  cases hfirst with
  | stopped passed step rest hrun hsteps hpassed hfails htrace =>
      refine .stopped passed step (rest ++ back) (Exchange.run_bind_of_error hrun) ?_ hpassed
        hfails htrace
      rw [hsteps, List.append_assoc]
      rfl
  | finished hrun hsteps htrace hreaches =>
      cases hnext _ _ hreaches with
      | finished hlater hback hend hlast =>
          refine .finished ((Exchange.run_bind_of_ok hrun).trans hlater) ?_ ?_ hlast
          · exact List.forall_mem_append.mpr ⟨hsteps, hback⟩
          · rw [hend, htrace, List.flatMap_append, List.append_assoc]
      | stopped passed step rest hlater hback hpassed hfails hend =>
          refine .stopped (front ++ passed) step rest ((Exchange.run_bind_of_ok hrun).trans hlater)
            ?_ (List.forall_mem_append.mpr ⟨hsteps, hpassed⟩) hfails ?_
          · rw [hback, List.append_assoc]
          · simp [hend, htrace]

theorem of_run_eq {other : Operation α} (hrun : operation.run current = other.run current)
    (h : Performs settings name host other current steps reaches) :
    Performs settings name host operation current steps reaches := by
  cases h with
  | finished hother hsteps htrace hreached =>
      exact .finished (hrun.trans hother) hsteps htrace hreached
  | stopped passed step rest hother hsteps hpassed hfails htrace =>
      exact .stopped passed step rest (hrun.trans hother) hsteps hpassed hfails htrace

end Performs

/-! Reading a text. -/

def Host.reads : Except Subnet.Fault α → Operation α
  | .ok value => pure value
  | .error fault => throw (.ofSubnetFault fault)

theorem Host.reads_bind (result : Except Subnet.Fault α) (next : α → Except Subnet.Fault β) :
    reads (result >>= next) = reads result >>= fun value => reads (next value) := by
  cases result <;> rfl

theorem performs_reads {result : Except Subnet.Fault α} {step : AssignmentStep}
    (hstep : step.failure? settings name host = failureOf .ofSubnetFault result)
    (hevents : step.events settings host = []) :
    Performs settings name host (Host.reads result) current [step]
      fun value after => result = .ok value ∧ after = current := by
  have htrace : current.trace = current.trace ++ step.events settings host := by
    rw [hevents, List.append_nil]
  cases result with
  | error fault => exact .of_fails rfl hstep htrace
  | ok value => exact .of_passes rfl hstep htrace ⟨rfl, rfl⟩

theorem performs_readSlot (family : Family) (text : String) :
    Performs settings name host (Host.readSlot family text) current (reading family text)
      fun subnet after => Subnet.ofTextIn family text = .ok subnet ∧ after = current := by
  have hreads : Host.readSlot family text = Host.reads (Subnet.ofTextIn family text) := by
    rw [Host.readSlot]
    cases Subnet.ofTextIn family text <;> rfl
  rw [hreads, Subnet.ofTextIn, Host.reads_bind]
  refine (performs_reads rfl rfl).bind ?_
  rintro ⟨addressText, lengthText⟩ _ ⟨hsplit, rfl⟩
  rw [hsplit]
  dsimp only
  rw [Host.reads_bind]
  refine (performs_reads rfl rfl).bind ?_
  rintro address _ ⟨haddress, rfl⟩
  simp only [bind, Except.bind, haddress]
  refine performs_reads ?_ rfl
  rw [failure?]
  cases Subnet.lengthOfText family lengthText <;> rfl

/-! Asking the kernel. -/

theorem performs_openControl :
    Performs settings name host Host.openControl host [openingControl]
      fun _ after => host.Keeps host.controlReplies after := by
  have hrun := host.run_openControl
  by_cases hopen : host.controls.headD 0 ≠ 0
  · rw [if_pos hopen] at hrun
    exact .of_fails hrun (if_pos hopen) rfl
  · rw [if_neg hopen] at hrun
    exact .of_passes hrun (if_neg hopen) rfl ⟨rfl, rfl, rfl, rfl, rfl⟩

theorem performs_control {replies : List ControlReply} {step : AssignmentStep}
    {code : ControlCode} {record : Bytes} {classify : Int → Failure}
    (hstep : step.failure? settings name host =
      (replies.headD (.granted [])).failure? classify)
    (hevents : step.events settings host =
      [.controlled code record (replies.headD (.granted [])).errno])
    (hkeeps : host.Keeps replies current) :
    Performs settings name host (Host.control code record classify) current [step]
      fun _ after => host.Keeps replies.tail after := by
  have hrun := current.run_control code record classify
  rw [hkeeps.replies_eq] at hrun
  have htrace := congrArg (current.trace ++ ·) hevents.symm
  cases hreply : replies.headD (.granted []) with
  | refused errno =>
      rw [hreply] at hrun hstep htrace
      exact .of_fails hrun hstep htrace
  | granted data =>
      rw [hreply] at hrun hstep htrace
      exact .of_passes hrun hstep htrace
        ⟨rfl, hkeeps.scripts_eq, hkeeps.spare_eq, hkeeps.indices_eq, hkeeps.processId_eq⟩

theorem performs_assignIPv4 (address : IPv4) (length : UInt8) :
    Performs settings name host (Host.assignIPv4 name address length) host
      (requesting settings name host ⟨.v4 address, length⟩)
      fun _ after => ∃ replies, host.Keeps replies after := by
  refine performs_openControl.bind fun _ opened hopened =>
    (performs_control rfl rfl hopened).bind fun _ addressed haddressed => ?_
  have hdone : ∀ (masked : Host) (replies : List ControlReply), host.Keeps replies masked →
      Performs settings name host (Pure.pure ()) masked [] fun _ after =>
        ∃ replies, host.Keeps replies after :=
    fun _ replies hmasked => .pure ⟨replies, hmasked⟩
  exact (performs_control rfl rfl haddressed).bind fun _ masked => hdone masked _

theorem performs_indexOf {replies : List ControlReply} (hkeeps : host.Keeps replies current) :
    Performs settings name host (Host.indexOf name) current [indexing]
      fun index after => index = host.index name ∧ after = current := by
  have hrun := current.run_indexOf name
  have htrace : current.trace = current.trace ++ [] := (List.append_nil _).symm
  rw [hkeeps.index_eq] at hrun
  by_cases hindex : host.index name = 0
  · rw [if_pos hindex] at hrun
    exact .of_fails hrun (if_pos hindex) htrace
  · rw [if_neg hindex] at hrun
    exact .of_passes hrun (if_neg hindex) htrace ⟨rfl, rfl⟩

theorem performs_openSocket {replies : List ControlReply} (hkeeps : host.Keeps replies current) :
    Performs settings name host (Host.openSocket .route settings) current [openingSocket]
      fun socket _ => socket = host.nextSocket .route settings := by
  have hrun := current.run_openSocket .route settings
  rw [Host.nextSocket, Host.opening, hkeeps.script_eq] at hrun
  cases hfault : (host.script .route).fault? with
  | some errno =>
      rw [hfault] at hrun
      exact .of_fails hrun (by simp [failure?, hfault]) rfl
  | none =>
      rw [hfault] at hrun
      exact .of_passes hrun (by simp [failure?, hfault]) rfl rfl

/-- Whether an answer is awaited behind the frame depends on the settings. -/
theorem performs_addressExchange {address : IPv6} {length : UInt8} {frame : Bytes}
    (hframe : AddressRequest.bytes host.processId (host.index name) address length
      settings.acknowledgeIPv6 = frame) :
    Performs settings name host
      ((SocketOperation.exchange .request (AddressRequest.exchange host.processId (host.index name)
        address length settings.acknowledgeIPv6)).run' (host.nextSocket .route settings)) current
      (sending frame :: if settings.acknowledgeIPv6 then [awaiting frame] else [])
      fun _ _ => True := by
  let socket := (host.nextSocket .route settings).cleared
  have hrun := MakesOn.run_run' (SocketOperation.exchange .request
    (AddressRequest.exchange host.processId (host.index name) address length
      settings.acknowledgeIPv6)) (host.nextSocket .route settings) current
  by_cases hsend : socket.sends.headD 0 = 0
  · have hsent : (sending frame).failure? settings name host = none :=
      if_neg (not_not.mpr hsend)
    have hhanded : (sending frame).events settings host = [.sent frame 0] :=
      congrArg (fun errno => [Event.sent frame errno]) hsend
    obtain ⟨after, hexchange, htrace⟩ := AddressRequest.run_exchange_of_sent hsend
    rw [hframe] at hexchange htrace
    cases hwaits : settings.acknowledgeIPv6 with
    | false =>
        rw [hwaits] at hrun hexchange htrace
        rw [MakesOn.run_exchange_of_ok .request hexchange] at hrun
        refine .finished hrun (List.forall_mem_singleton.mpr hsent) ?_ trivial
        exact congrArg (current.trace ++ ·) (htrace.trans hhanded.symm)
    | true =>
        rw [hwaits] at hrun hexchange htrace
        rw [if_pos rfl] at hexchange htrace
        have hall : after.trace =
            [sending frame, awaiting frame].flatMap (events settings host) := by
          rw [htrace, List.flatMap_cons, hhanded, List.flatMap_singleton]
          rfl
        cases hending : Acknowledgement.ending 1 socket.bufferSize (socket.queueBehind frame) with
        | ok _ =>
            rw [hending] at hexchange
            rw [MakesOn.run_exchange_of_ok .request hexchange] at hrun
            have hanswered : (awaiting frame).failure? settings name host = none :=
              congrArg (failureOf .request) hending
            refine .finished hrun ?_ (congrArg (current.trace ++ ·) hall) trivial
            simp [hsent, hanswered]
        | error error =>
            rw [hending] at hexchange
            rw [MakesOn.run_exchange_of_error .request hexchange] at hrun
            have hrefused : (awaiting frame).failure? settings name host =
                some (.request error) := congrArg (failureOf .request) hending
            exact .stopped [sending frame] _ [] hrun rfl
              (List.forall_mem_singleton.mpr hsent) hrefused (congrArg (current.trace ++ ·) hall)
  · have hunsent : (sending frame).failure? settings name host =
        some (.request (.io (socket.sends.headD 0))) := if_pos hsend
    obtain ⟨after, hexchange, htrace⟩ := AddressRequest.run_exchange_of_unsent hsend
    rw [hframe] at htrace
    rw [MakesOn.run_exchange_of_error .request hexchange] at hrun
    exact .stopped [] _ _ hrun rfl nofun hunsent (congrArg (current.trace ++ ·) htrace)

theorem performs_assignIPv6 {replies : List ControlReply} (hkeeps : host.Keeps replies current)
    (address : IPv6) (length : UInt8) :
    Performs settings name host (Host.assignIPv6 settings name address length) current
      (requesting settings name host ⟨.v6 address, length⟩) fun _ _ => True := by
  refine (performs_indexOf hkeeps).bind ?_
  rintro _ middle ⟨rfl, rfl⟩
  refine .of_run_eq (Host.run_get_bind _ middle) ?_
  refine (performs_openSocket hkeeps).bind ?_
  rintro _ opened rfl
  rw [hkeeps.processId_eq]
  exact performs_addressExchange rfl

/-! Both slots. -/

theorem performs_assignSlot {family : Family} {text : String} {reaches : Unit → Host → Prop}
    (hempty : reaches () current)
    (hassign : ∀ subnet, subnet.address.family = family →
      Performs settings name host (Host.assign settings name subnet) current
        (requesting settings name host subnet) reaches) :
    Performs settings name host (Host.assignSlot settings name family text) current
      (slot settings name host family text) reaches := by
  unfold Host.assignSlot slot
  split
  · exact .pure hempty
  · refine (performs_readSlot family text).bind ?_
    rintro subnet _ ⟨hread, rfl⟩
    rw [hread]
    exact hassign subnet (Subnet.of_ofTextIn hread).1

theorem performs_assignSlot_v4 (text : String) :
    Performs settings name host (Host.assignSlot settings name .v4 text) host
      (slot settings name host .v4 text) fun _ after => ∃ replies, host.Keeps replies after := by
  refine performs_assignSlot ⟨host.controlReplies, rfl, rfl, rfl, rfl, rfl⟩ fun subnet hfamily => ?_
  obtain ⟨address, length⟩ := subnet
  cases address with
  | v4 octets => exact performs_assignIPv4 octets length
  | v6 octets => cases hfamily

theorem performs_assignSlot_v6 {replies : List ControlReply} (hkeeps : host.Keeps replies current)
    (text : String) :
    Performs settings name host (Host.assignSlot settings name .v6 text) current
      (slot settings name host .v6 text) fun _ _ => True := by
  refine performs_assignSlot trivial fun subnet hfamily => ?_
  obtain ⟨address, length⟩ := subnet
  cases address with
  | v4 octets => cases hfamily
  | v6 octets => exact performs_assignIPv6 hkeeps octets length

theorem performs_assignAddresses (settings : Settings) (name : String)
    (addresses : InterfaceAddresses) (host : Host) :
    Performs settings name host (Host.assignAddresses settings name addresses) host
      (course settings name host addresses) fun _ _ => True := by
  refine (performs_assignSlot_v4 addresses.ipv4).bind fun _ middle hmiddle => ?_
  obtain ⟨replies, hkeeps⟩ := hmiddle
  exact performs_assignSlot_v6 hkeeps addresses.ipv6

/-! Texts that cannot be read. -/

theorem run_assignSlot_of_fault {family : Family} {text : String} {fault : Subnet.Fault}
    (htext : text ≠ "") (hfault : Subnet.ofTextIn family text = .error fault) :
    (Host.assignSlot settings name family text).run current =
      (.error (.ofSubnetFault fault), current) := by
  have hempty : ¬ text.isEmpty = true := fun h => htext (String.isEmpty_iff.mp h)
  simp only [Host.assignSlot, if_neg hempty, Host.readSlot, hfault]
  rfl

theorem flatMap_events_reading (family : Family) (text : String) :
    (reading family text).flatMap (events settings host) = [] := by
  rw [reading]
  split <;> simp [events]

theorem ControlReply.errno_eq_zero {classify : Int → Failure} {reply : ControlReply}
    (h : reply.failure? classify = none) : reply.errno = 0 := by
  cases reply with
  | granted data => rfl
  | refused errno => cases h

def AssignmentStep.granted (name : String) (address : IPv4) (length : UInt8) : List Event :=
  [.controlOpened 0, .controlled .assignAddress (ControlRecord.withAddress name address) 0,
    .controlled .assignMask
      (ControlRecord.withAddress name (Mask.ofPrefixLength 4 length.toNat)) 0]

theorem flatMap_events_requesting {address : IPv4} {length : UInt8}
    (h : ∀ step ∈ requesting settings name host ⟨.v4 address, length⟩,
      step.failure? settings name host = none) :
    (requesting settings name host ⟨.v4 address, length⟩).flatMap (events settings host) =
      granted name address length := by
  obtain ⟨hopen, hrest⟩ := List.forall_mem_cons.mp h
  obtain ⟨haddress, hrest⟩ := List.forall_mem_cons.mp hrest
  have hmask := List.forall_mem_singleton.mp hrest
  have hcontrol : host.controls.headD 0 = 0 := by
    simpa [failure?] using hopen
  simp only [requesting, List.flatMap_cons, List.flatMap_nil, events, hcontrol,
    ControlReply.errno_eq_zero haddress, ControlReply.errno_eq_zero hmask]
  rfl

theorem flatMap_events_slot {text : String}
    (h : ∀ step ∈ slot settings name host .v4 text, step.failure? settings name host = none)
    (hread : ∀ fault, text ≠ "" → Subnet.ofTextIn .v4 text ≠ .error fault) :
    text = "" ∧ (slot settings name host .v4 text).flatMap (events settings host) = [] ∨
      ∃ address length, Subnet.ofTextIn .v4 text = .ok ⟨.v4 address, length⟩ ∧
        (slot settings name host .v4 text).flatMap (events settings host) =
          granted name address length := by
  by_cases htext : text = ""
  · subst htext
    exact .inl ⟨rfl, rfl⟩
  · have hempty : ¬ text.isEmpty = true := fun hnone => htext (String.isEmpty_iff.mp hnone)
    cases hsubnet : Subnet.ofTextIn .v4 text with
    | error fault => exact absurd hsubnet (hread fault htext)
    | ok subnet =>
        obtain ⟨hfamily, -⟩ := Subnet.of_ofTextIn hsubnet
        obtain ⟨address, length⟩ := subnet
        cases address with
        | v6 octets => cases hfamily
        | v4 octets =>
            simp only [slot, if_neg hempty, hsubnet] at h ⊢
            refine .inr ⟨octets, length, rfl, ?_⟩
            rw [List.flatMap_append, flatMap_events_reading, List.nil_append]
            exact flatMap_events_requesting (List.forall_mem_append.mp h).2

namespace Host

theorem run_assignAddresses_of_fault_v4 {addresses : InterfaceAddresses} {fault : Subnet.Fault}
    (htext : addresses.ipv4 ≠ "") (hfault : Subnet.ofTextIn .v4 addresses.ipv4 = .error fault) :
    (assignAddresses settings name addresses).run host = (.error (.ofSubnetFault fault), host) :=
  Exchange.run_bind_of_error (run_assignSlot_of_fault htext hfault)

theorem run_assignAddresses_of_fault_v6 {addresses : InterfaceAddresses} {fault : Subnet.Fault}
    (htext : addresses.ipv6 ≠ "") (hfault : Subnet.ofTextIn .v6 addresses.ipv6 = .error fault)
    (hpasses : ∀ step ∈ slot settings name host .v4 addresses.ipv4,
      step.failure? settings name host = none) :
    ∃ after events,
      (assignAddresses settings name addresses).run host =
        (.error (.ofSubnetFault fault), after) ∧
      after.trace = host.trace ++ events ∧
      (addresses.ipv4 = "" ∧ events = [] ∨ ∃ address length,
        Subnet.ofTextIn .v4 addresses.ipv4 = .ok ⟨.v4 address, length⟩ ∧
          events = granted name address length) := by
  have hfirst : Performs settings name host _ host _ _ := performs_assignSlot_v4 addresses.ipv4
  cases hfirst with
  | stopped passed step rest hrun hsteps hpassed hfails htrace =>
      have hpass := hpasses step (by simp [hsteps])
      rw [hfails] at hpass
      cases hpass
  | @finished _ after hrun hsteps htrace hreaches =>
      refine ⟨after, _, ?_, htrace, flatMap_events_slot hsteps fun other hother hfails => ?_⟩
      · exact (Exchange.run_bind_of_ok hrun).trans (run_assignSlot_of_fault htext hfault)
      · cases hrun.symm.trans (run_assignSlot_of_fault hother hfails)

/-- The steps are taken in order up to the first that fails, and its failure tells which it was. A
text that cannot be read leaves the machine as it was, or with what the slot before asked for. -/
theorem assignAddresses_follows_course (settings : Settings) (name : String)
    (addresses : InterfaceAddresses) (host : Host) :
    (∃ outcome after events,
      (assignAddresses settings name addresses).run host = (outcome, after) ∧
      after.trace = host.trace ++ events ∧
      (outcome = .ok () ↔ ∀ step ∈ course settings name host addresses,
        step.failure? settings name host = none) ∧
      (outcome = .ok () ∧
          events = (course settings name host addresses).flatMap
            (AssignmentStep.events settings host) ∨
        ∃ passed step rest failure,
          course settings name host addresses = passed ++ step :: rest ∧
          (∀ earlier ∈ passed, earlier.failure? settings name host = none) ∧
          step.failure? settings name host = some failure ∧ failure.kind = step.kind ∧
          outcome = .error failure ∧
          events = (passed ++ [step]).flatMap (AssignmentStep.events settings host))) ∧
    (∀ fault, addresses.ipv4 ≠ "" → Subnet.ofTextIn .v4 addresses.ipv4 = .error fault →
      (assignAddresses settings name addresses).run host =
        (.error (.ofSubnetFault fault), host)) ∧
    ∀ fault, addresses.ipv6 ≠ "" → Subnet.ofTextIn .v6 addresses.ipv6 = .error fault →
      (∀ step ∈ slot settings name host .v4 addresses.ipv4,
        step.failure? settings name host = none) →
      ∃ after events,
        (assignAddresses settings name addresses).run host =
          (.error (.ofSubnetFault fault), after) ∧
        after.trace = host.trace ++ events ∧
        (addresses.ipv4 = "" ∧ events = [] ∨ ∃ address length,
          Subnet.ofTextIn .v4 addresses.ipv4 = .ok ⟨.v4 address, length⟩ ∧
            events = granted name address length) := by
  refine ⟨?_, fun fault => run_assignAddresses_of_fault_v4,
    fun fault => run_assignAddresses_of_fault_v6⟩
  cases performs_assignAddresses settings name addresses host with
  | finished hrun hsteps htrace =>
      exact ⟨_, _, _, hrun, htrace, iff_of_true rfl hsteps, .inl ⟨rfl, rfl⟩⟩
  | stopped passed step rest hrun hsteps hpassed hfails htrace =>
      refine ⟨_, _, _, hrun, htrace, iff_of_false nofun fun hall => ?_, .inr ⟨passed, step, rest,
        _, hsteps, hpassed, hfails, kind_of_failure? hfails, rfl, rfl⟩⟩
      have hpass := hall step (by simp [hsteps])
      rw [hfails] at hpass
      cases hpass

example :
    let host : Host := { controlReplies := [.granted [], .refused 1] }
    (course {} "wg0" host { ipv4 := "10.0.0.1/24", ipv6 := "fd00::1" }).map
        (AssignmentStep.failure? {} "wg0" host) =
      [none, none, none, none, none, some (.assignMask "wg0" 1), none, none, none,
        some (.deviceNotFound "wg0" none), none, none] := by
  decide +kernel

end Host

end TunnelControl
