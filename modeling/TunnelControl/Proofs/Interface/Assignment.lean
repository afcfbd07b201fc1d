import TunnelControl.Proofs.Interface.AddressListing
import TunnelControl.Proofs.Tunnel.RequestMaking

namespace TunnelControl

open Netlink Netlink.Attribute

namespace Event

def control? : Event → Option (ControlCode × Bytes)
  | .controlled code record _ => some (code, record)
  | _ => none

def frame? : Event → Option Bytes
  | .sent frame _ => some frame
  | _ => none

def records (events : List Event) : List (ControlCode × Bytes) :=
  events.filterMap control?

def frames (events : List Event) : List Bytes :=
  events.filterMap frame?

theorem records_append (front back : List Event) :
    records (front ++ back) = records front ++ records back :=
  List.filterMap_append

theorem frames_append (front back : List Event) :
    frames (front ++ back) = frames front ++ frames back :=
  List.filterMap_append

theorem records_receipts (size : Nat) (heard : List Arrival) :
    records (heard.map (Arrival.receipt size)) = [] :=
  Arrival.filterMap_receipts size (fun _ _ => rfl) heard

theorem frames_receipts (size : Nat) (heard : List Arrival) :
    frames (heard.map (Arrival.receipt size)) = [] :=
  Arrival.filterMap_receipts size (fun _ _ => rfl) heard

end Event

/-! The bytes in a record. -/

namespace ControlRecord

def addressField (record : Bytes) : Bytes :=
  (record.drop (nameSize + 4)).take 4

theorem length_nameField (name : String) : (nameField name).length = nameSize := by
  have hfront : ((Utf8.encode name).take (nameSize - 1)).length ≤ nameSize :=
    Nat.le_trans (List.length_take_le _ _) (by decide)
  rw [nameField, List.length_append, List.length_replicate]
  omega

theorem addressField_withAddress (name : String) (address : IPv4) :
    addressField (withAddress name address) = address.bytes := by
  have hbody : ∀ rest : Bytes,
      (Bytes.word16 Family.v4.code ++ [0, 0] ++ address.bytes ++ rest).drop 4 =
        address.bytes ++ rest := by
    intro rest
    rw [List.append_assoc]
    exact List.drop_left' rfl
  rw [addressField, withAddress, make, ← List.drop_drop, ← length_nameField name, List.drop_left,
    hbody, List.take_left' address.size_eq]

end ControlRecord

/-! What an operation leaves in the trace, and how it ends. -/

def Leaves {α : Type} (program : Operation α) (post : List Event → Except Failure α → Prop) :
    Prop :=
  ∀ host, ∃ events, (program.run host).2.trace = host.trace ++ events ∧
    post events (program.run host).1

namespace Leaves

variable {α β : Type} {program first : Operation α} {next : α → Operation β}
  {post : List Event → Except Failure α → Prop} {later : List Event → Except Failure β → Prop}

theorem mono {other : List Event → Except Failure α → Prop} (h : Leaves program post)
    (hpost : ∀ events outcome, post events outcome → other events outcome) :
    Leaves program other := by
  intro host
  obtain ⟨events, htrace, hevents⟩ := h host
  exact ⟨events, htrace, hpost _ _ hevents⟩

theorem pure (value : α) :
    Leaves (Pure.pure value : Operation α) fun events outcome => events = [] ∧ outcome = .ok value :=
  fun _ => ⟨[], (List.append_nil _).symm, rfl, rfl⟩

theorem bind (hfirst : Leaves first post) (hnext : ∀ value, Leaves (next value) later) :
    Leaves (first >>= next) fun events outcome =>
      (∃ failure, outcome = .error failure ∧ post events (.error failure)) ∨
        ∃ front back value, events = front ++ back ∧ post front (.ok value) ∧ later back outcome := by
  intro host
  obtain ⟨front, hfront, hpost⟩ := hfirst host
  rcases hrun : first.run host with ⟨failure | value, middle⟩
  · rw [hrun] at hfront hpost
    rw [Exchange.run_bind_of_error hrun]
    exact ⟨front, hfront, .inl ⟨failure, rfl, hpost⟩⟩
  · rw [hrun] at hfront hpost
    obtain ⟨back, hback, hlater⟩ := hnext value middle
    rw [Exchange.run_bind_of_ok hrun]
    refine ⟨front ++ back, ?_, .inr ⟨front, back, value, rfl, hpost, hlater⟩⟩
    rw [hback, hfront, List.append_assoc]

end Leaves

namespace Host

open Event

/-! The older family. -/

theorem leaves_openControl :
    Leaves openControl fun events outcome => records events = [] ∧ frames events = [] ∧
      ∀ failure, outcome = .error failure → failure.kind = .controlSocket := by
  intro host
  refine ⟨[.controlOpened (host.controls.headD 0)], ?_, rfl, rfl, ?_⟩
  · rw [openControl, run_get_bind]
    change (ExceptT.run (ite _ _ _ : Operation Unit) _).2.trace = _
    split <;> rfl
  · intro failure hfailure
    rw [openControl, run_get_bind] at hfailure
    change (ExceptT.run (ite _ _ _ : Operation Unit) _).1 = _ at hfailure
    split at hfailure <;> cases hfailure
    rfl

theorem leaves_control (code : ControlCode) (record : Bytes) (classify : Int → Failure) :
    Leaves (control code record classify) fun events outcome =>
      records events = [(code, record)] ∧ frames events = [] ∧
        ∀ failure, outcome = .error failure → ∃ errno, failure = classify errno := by
  intro host
  rw [control, run_get_bind]
  dsimp only
  split
  · refine ⟨[.controlled code record 0], rfl, rfl, rfl, ?_⟩
    intro failure hfailure
    cases hfailure
  · rename_i errno _
    refine ⟨[.controlled code record errno], rfl, rfl, rfl, ?_⟩
    intro failure hfailure
    cases hfailure
    exact ⟨errno, rfl⟩

/-- The requests that set an address of the older family and its mask. -/
def assignments (name : String) (address : IPv4) (length : UInt8) : List (ControlCode × Bytes) :=
  [(.assignAddress, ControlRecord.withAddress name address),
    (.assignMask, ControlRecord.withAddress name (Mask.ofPrefixLength 4 length.toNat))]

/-- Both requests are made, or the operation failed before the second. -/
def Assigns (name : String) (address : IPv4) (length : UInt8) (events : List Event)
    (outcome : Except Failure Unit) : Prop :=
  records events = assignments name address length ∨
    records events <+: assignments name address length ∧ ∃ failure, outcome = .error failure ∧
      (failure.kind = .controlSocket ∨ failure.kind = .assignAddress)

theorem leaves_assignIPv4 (name : String) (address : IPv4) (length : UInt8) :
    Leaves (assignIPv4 name address length) fun events outcome =>
      Assigns name address length events outcome ∧ frames events = [] := by
  have haddress := leaves_control .assignAddress (ControlRecord.withAddress name address)
    (.assignAddress name)
  have hmask := leaves_control .assignMask
    (ControlRecord.withAddress name (Mask.ofPrefixLength 4 length.toNat)) (.assignMask name)
  refine (leaves_openControl.bind fun _ => haddress.bind fun _ => hmask.bind fun _ =>
    .pure ()).mono ?_
  rintro events outcome (⟨failure, rfl, hrecords, hframes, hkind⟩ |
    ⟨opening, events, -, rfl, ⟨hopening, hquiet, -⟩, ⟨failure, rfl, hrecords, hframes, hkind⟩ |
      ⟨setting, events, -, rfl, ⟨hsetting, hsilent, -⟩, hmasked⟩⟩)
  · refine ⟨.inr ⟨?_, failure, rfl, .inl (hkind failure rfl)⟩, hframes⟩
    rw [hrecords]
    exact List.nil_prefix
  · obtain ⟨errno, rfl⟩ := hkind failure rfl
    refine ⟨.inr ⟨?_, _, rfl, .inr rfl⟩, ?_⟩
    · rw [records_append, hopening, hrecords]
      exact ⟨_, rfl⟩
    · rw [frames_append, hquiet, hframes]
      rfl
  · have hlast : records events = [(.assignMask,
        ControlRecord.withAddress name (Mask.ofPrefixLength 4 length.toNat))] ∧
        frames events = [] := by
      rcases hmasked with ⟨failure, -, hrecords, hframes, -⟩ |
        ⟨masking, nothing, -, rfl, ⟨hrecords, hframes, -⟩, rfl, -⟩
      · exact ⟨hrecords, hframes⟩
      · rw [List.append_nil]
        exact ⟨hrecords, hframes⟩
    refine ⟨.inl ?_, ?_⟩
    · rw [records_append, records_append, hopening, hsetting, hlast.1]
      rfl
    · rw [frames_append, frames_append, hquiet, hsilent, hlast.2]
      rfl

end Host

/-! The newer family. -/

/-- One request for the address is sent, or the operation failed before. -/
def Requests (address : IPv6) (length : UInt8) (acknowledge : Bool) {ε : Type}
    (events : List Event) (outcome : Except ε Unit) : Prop :=
  (∃ index frame, Event.frames events = [frame] ∧
    (Request.addAddress index address length acknowledge).WellFormed frame) ∨
  Event.frames events = [] ∧ ∃ error, outcome = .error error

theorem Request.RecordedAs.events_eq {request : Request} {events : List Event}
    (h : request.RecordedAs events) :
    Event.records events = [] ∧
      ∃ frame, Event.frames events = [frame] ∧ request.WellFormed frame := by
  obtain ⟨frame, errno, size, heard, hframe, rfl⟩ := h
  exact ⟨Event.records_receipts size heard, frame,
    congrArg (frame :: ·) (Event.frames_receipts size heard), hframe⟩

namespace Host

open Event

theorem leaves_openSocket (protocol : Protocol) (settings : Settings) :
    Leaves (openSocket protocol settings) fun events _ =>
      records events = [] ∧ frames events = [] := by
  intro host
  obtain ⟨_, _, hrun, -⟩ := exists_run_openSocket protocol settings host
  rw [hrun]
  exact ⟨_, rfl, rfl, rfl⟩

theorem leaves_indexOf (name : String) :
    Leaves (indexOf name) fun events _ => events = [] := by
  intro host
  obtain ⟨_, hrun, -⟩ := exists_run_indexOf name host
  rw [hrun]
  exact ⟨[], (List.append_nil _).symm, rfl⟩

theorem leaves_addressExchange (processId index : UInt32) (address : IPv6) (length : UInt8)
    (acknowledge : Bool) (socket : Socket) :
    Leaves ((SocketOperation.exchange .request
        (AddressRequest.exchange processId index address length acknowledge)).run' socket)
      fun events outcome =>
        records events = [] ∧ Requests address length acknowledge events outcome := by
  intro host
  obtain ⟨events, htrace, hevents⟩ :=
    Socket.makesOnly_addressRequest processId index address length acknowledge socket.cleared
  rcases hrun : (AddressRequest.exchange processId index address length acknowledge).run
    socket.cleared with ⟨outcome, after⟩
  rw [hrun] at htrace hevents
  obtain ⟨hrecords, hrequests⟩ :
      records events = [] ∧ Requests address length acknowledge events outcome := by
    rcases hevents with hrecorded | ⟨rfl, herror⟩
    · obtain ⟨hrecords, frame, hframes, hwritten⟩ := hrecorded.events_eq
      exact ⟨hrecords, .inl ⟨index, frame, hframes, hwritten⟩⟩
    · exact ⟨rfl, .inr ⟨rfl, herror⟩⟩
  have hnoted : (host.noteExchange after).trace = host.trace ++ events :=
    congrArg (host.trace ++ ·) htrace
  rw [MakesOn.run_run']
  cases outcome with
  | ok value =>
      rw [MakesOn.run_exchange_of_ok _ hrun]
      exact ⟨events, hnoted, hrecords, hrequests.imp_right fun hunsent =>
        absurd hunsent.2 nofun⟩
  | error error =>
      rw [MakesOn.run_exchange_of_error _ hrun]
      exact ⟨events, hnoted, hrecords, hrequests.imp_right fun hunsent =>
        ⟨hunsent.1, .request error, rfl⟩⟩

theorem leaves_assignIPv6 (settings : Settings) (name : String) (address : IPv6)
    (length : UInt8) :
    Leaves (assignIPv6 settings name address length) fun events outcome =>
      records events = [] ∧ Requests address length settings.acknowledgeIPv6 events outcome := by
  have hprocess : Leaves (get : Operation Host) fun events _ => events = [] :=
    fun _ => ⟨[], (List.append_nil _).symm, rfl⟩
  refine ((leaves_indexOf name).bind fun index => hprocess.bind fun host =>
    (leaves_openSocket .route settings).bind fun socket =>
      leaves_addressExchange host.processId index address length settings.acknowledgeIPv6
        socket).mono ?_
  rintro events outcome (⟨failure, rfl, rfl⟩ | ⟨_, _, -, rfl, rfl, ⟨failure, rfl, rfl⟩ |
    ⟨_, _, -, rfl, rfl, ⟨failure, rfl, hrecords, hframes⟩ |
      ⟨opening, events, -, rfl, ⟨hrecords, hframes⟩, hquiet, hrequests⟩⟩⟩)
  · exact ⟨rfl, .inr ⟨rfl, failure, rfl⟩⟩
  · exact ⟨rfl, .inr ⟨rfl, failure, rfl⟩⟩
  · exact ⟨hrecords, .inr ⟨hframes, failure, rfl⟩⟩
  · rw [List.nil_append, List.nil_append, Requests, records_append, frames_append, hrecords,
      hframes, hquiet]
    exact ⟨rfl, hrequests⟩

/-! Both slots. -/

/-- What a slot leaves follows from what its text is read as: nothing without a text that can be
read, and otherwise what the subnet's family asks for. -/
theorem leaves_assignSlot {settings : Settings} {name text : String} {family : Family}
    {quiet silent : List Event → Prop}
    {asks : Subnet → List Event → Except Failure Unit → Prop} (hquiet : quiet [])
    (hsilent : silent [])
    (hassign : ∀ subnet, subnet.address.family = family →
      Leaves (assign settings name subnet) fun events outcome =>
        asks subnet events outcome ∧ quiet events) :
    Leaves (assignSlot settings name family text) fun events outcome =>
      quiet events ∧ (text = "" → silent events) ∧
        ∀ subnet, Subnet.ofTextIn family text = .ok subnet → asks subnet events outcome := by
  unfold assignSlot
  split
  · rename_i htext
    obtain rfl := String.isEmpty_iff.mp htext
    have hunread : ∀ subnet, Subnet.ofTextIn family "" ≠ .ok subnet := by
      cases family <;> exact nofun
    refine (Leaves.pure ()).mono ?_
    rintro events outcome ⟨rfl, rfl⟩
    exact ⟨hquiet, fun _ => hsilent, fun subnet hsubnet => absurd hsubnet (hunread subnet)⟩
  · rename_i htext
    cases hread : Subnet.ofTextIn family text with
    | error fault =>
        have hslot : readSlot family text = throw (.ofSubnetFault fault) := by
          rw [readSlot, hread]
        rw [hslot]
        intro host
        exact ⟨[], (List.append_nil _).symm, hquiet, fun _ => hsilent, nofun⟩
    | ok subnet =>
        have hslot : readSlot family text = pure subnet := by rw [readSlot, hread]
        rw [hslot, pure_bind]
        refine (hassign subnet (Subnet.of_ofTextIn hread).1).mono ?_
        rintro events outcome ⟨hasks, hother⟩
        refine ⟨hother, fun h => absurd (String.isEmpty_iff.mpr h) htext, fun found hfound => ?_⟩
        cases hfound
        exact hasks

theorem leaves_assignSlot_v4 (settings : Settings) (name text : String) :
    Leaves (assignSlot settings name .v4 text) fun events outcome =>
      frames events = [] ∧ (text = "" → records events = []) ∧
        ∀ subnet, Subnet.ofTextIn .v4 text = .ok subnet →
          ∃ address, subnet.address = .v4 address ∧
            Assigns name address subnet.length events outcome := by
  refine leaves_assignSlot rfl rfl fun subnet hfamily => ?_
  obtain ⟨address, length⟩ := subnet
  cases address with
  | v4 octets =>
      exact (leaves_assignIPv4 name octets length).mono fun _ _ h => ⟨⟨octets, rfl, h.1⟩, h.2⟩
  | v6 octets => cases hfamily

theorem leaves_assignSlot_v6 (settings : Settings) (name text : String) :
    Leaves (assignSlot settings name .v6 text) fun events outcome =>
      records events = [] ∧ (text = "" → frames events = []) ∧
        ∀ subnet, Subnet.ofTextIn .v6 text = .ok subnet →
          ∃ address, subnet.address = .v6 address ∧
            Requests address subnet.length settings.acknowledgeIPv6 events outcome := by
  refine leaves_assignSlot rfl rfl fun subnet hfamily => ?_
  obtain ⟨address, length⟩ := subnet
  cases address with
  | v4 octets => cases hfamily
  | v6 octets =>
      exact (leaves_assignIPv6 settings name octets length).mono
        fun _ _ h => ⟨⟨octets, rfl, h.2⟩, h.1⟩

theorem leaves_assignAddresses (settings : Settings) (name : String)
    (addresses : InterfaceAddresses) :
    Leaves (assignAddresses settings name addresses) fun events outcome =>
      (addresses.ipv4 = "" → records events = []) ∧
      (addresses.ipv6 = "" → frames events = []) ∧
      (∀ subnet, Subnet.ofTextIn .v4 addresses.ipv4 = .ok subnet →
        ∃ address, subnet.address = .v4 address ∧
          Assigns name address subnet.length events outcome) ∧
      ∀ subnet, Subnet.ofTextIn .v6 addresses.ipv6 = .ok subnet →
        ∃ address, subnet.address = .v6 address ∧
          Requests address subnet.length settings.acknowledgeIPv6 events outcome := by
  refine ((leaves_assignSlot_v4 settings name addresses.ipv4).bind fun _ =>
    leaves_assignSlot_v6 settings name addresses.ipv6).mono ?_
  rintro events outcome (⟨failure, rfl, hframes, hempty, hassigns⟩ |
    ⟨front, back, ⟨⟩, rfl, ⟨hframes, hempty, hassigns⟩, hrecords, hnothing, hrequests⟩)
  · refine ⟨hempty, fun _ => hframes, hassigns, fun subnet hsubnet => ?_⟩
    obtain ⟨hfamily, -⟩ := Subnet.of_ofTextIn hsubnet
    obtain ⟨address, length⟩ := subnet
    cases address with
    | v4 octets => cases hfamily
    | v6 octets => exact ⟨octets, rfl, .inr ⟨hframes, failure, rfl⟩⟩
  · have hback : records (front ++ back) = records front := by
      rw [records_append, hrecords, List.append_nil]
    have hfront : frames (front ++ back) = frames back := by
      rw [frames_append, hframes, List.nil_append]
    refine ⟨fun h => hback.trans (hempty h), fun h => hfront.trans (hnothing h), ?_, ?_⟩
    · intro subnet hsubnet
      obtain ⟨address, haddress, hassigned | ⟨-, failure, hfailure, -⟩⟩ := hassigns subnet hsubnet
      · exact ⟨address, haddress, .inl (hback.trans hassigned)⟩
      · cases hfailure
    · intro subnet hsubnet
      obtain ⟨address, haddress, hrequested⟩ := hrequests subnet hsubnet
      refine ⟨address, haddress, ?_⟩
      rw [Requests, hfront]
      exact hrequested

end Host

/-- Where the last address of the family is given by these bytes and this mask, the interface is
read as having the subnet, in a text that is read as the subnet again. -/
def Subnet.ReadsBack (subnet : Subnet) (name : String) (address mask : Bytes) : Prop :=
  ∀ (host : Host) (entries : List InterfaceEntry) (entry : InterfaceEntry),
    host.addresses = .ok entries →
    InterfaceEntry.IsLast name subnet.address.family entries entry →
    entry.address = some address → entry.mask = some mask →
      ∃ found after, (Host.addressesOf name).run host = (.ok found, after) ∧
        found.slot subnet.address.family = subnet.text ∧
        Subnet.ofText subnet.text = .ok subnet ∧
        Subnet.ofTextIn subnet.address.family subnet.text = .ok subnet

theorem Subnet.readsBack {subnet : Subnet} (hfits : subnet.Fits) (name : String) :
    subnet.ReadsBack name subnet.address.bytes
      (Mask.ofPrefixLength subnet.address.family.size subnet.length.toNat).bytes := by
  intro host entries entry haddresses hlast haddress hmask
  have hsubnet := InterfaceEntry.subnet?_eq hfits hlast.1.family_eq haddress hmask
  have hrun : ((Host.addressesOf name).run host).1 =
      .ok (InterfaceEntry.addressesOf name entries) := by
    rw [Host.addressesOf, Host.run_get_bind, haddresses]
    rfl
  obtain ⟨after, hfound⟩ := Exchange.exists_run_of_fst hrun
  exact ⟨_, after, hfound, InterfaceEntry.slot_addressesOf hlast hsubnet rfl,
    Subnet.ofText_text hfits, Subnet.ofTextIn_text hfits⟩

theorem Request.WellFormed.address_read {index : UInt32} {address : IPv6} {length : UInt8}
    {acknowledge : Bool} {frame : Bytes}
    (h : (Request.addAddress index address length acknowledge).WellFormed frame) :
    ∃ (header : Netlink.Header) (record : AddressHeader) (payload rest : Bytes),
      Message.ofDatagram frame = [.ok ⟨header, payload⟩] ∧
      header.type = MessageType.newAddress ∧
      AddressHeader.take? payload = some (record, rest) ∧ record.prefixLength = length ∧
      Attribute.views rest = [⟨AddressRequest.addressAttribute, address.bytes⟩,
        ⟨AddressRequest.localAttribute, address.bytes⟩] := by
  obtain ⟨header, -, htype, -, -, hread⟩ := h.read
  exact ⟨header, _, _, _, hread, htype, AddressHeader.take?_bytes_append _ _, rfl,
    Attribute.views_encodeAll h.fits⟩

namespace Host

open Event

/-- The requests of each slot carry the address and the length that its text was read as: a listing
with their bytes is read as the same subnet, whatever stands in the other slot. -/
theorem assignAddresses_reads_back (settings : Settings) (name : String)
    (addresses : InterfaceAddresses) (host : Host) :
    ∃ events outcome after,
      (assignAddresses settings name addresses).run host = (outcome, after) ∧
      after.trace = host.trace ++ events ∧
      (addresses.ipv4 = "" → records events = []) ∧
      (addresses.ipv6 = "" → frames events = []) ∧
      (∀ subnet, Subnet.ofTextIn .v4 addresses.ipv4 = .ok subnet →
        subnet.address.family = .v4 ∧ ∃ first second,
          (records events = [(.assignAddress, first), (.assignMask, second)] ∨
            records events <+: [(.assignAddress, first), (.assignMask, second)] ∧
              ∃ failure, outcome = .error failure ∧
                (failure.kind = .controlSocket ∨ failure.kind = .assignAddress)) ∧
          subnet.ReadsBack name (ControlRecord.addressField first)
            (ControlRecord.addressField second)) ∧
      ∀ subnet, Subnet.ofTextIn .v6 addresses.ipv6 = .ok subnet →
        subnet.address.family = .v6 ∧
          ((∃ (frame : Bytes) (header : Netlink.Header) (record : AddressHeader)
              (payload rest address : Bytes),
            frames events = [frame] ∧ Message.ofDatagram frame = [.ok ⟨header, payload⟩] ∧
            header.type = MessageType.newAddress ∧
            AddressHeader.take? payload = some (record, rest) ∧
            Attribute.views rest = [⟨AddressRequest.addressAttribute, address⟩,
              ⟨AddressRequest.localAttribute, address⟩] ∧
            subnet.ReadsBack name address
              (Mask.ofPrefixLength 16 record.prefixLength.toNat).bytes) ∨
          frames events = [] ∧ ∃ failure, outcome = .error failure) := by
  obtain ⟨events, htrace, hempty, hnothing, hassigns, hrequests⟩ :=
    leaves_assignAddresses settings name addresses host
  refine ⟨events, _, _, rfl, htrace, hempty, hnothing, ?_, ?_⟩
  · intro subnet hsubnet
    obtain ⟨hfamily, hfits⟩ := Subnet.of_ofTextIn hsubnet
    obtain ⟨octets, haddress, hassigned⟩ := hassigns subnet hsubnet
    have hreads := Subnet.readsBack hfits name
    rw [haddress] at hreads
    refine ⟨hfamily, _, _, hassigned, ?_⟩
    rw [ControlRecord.addressField_withAddress, ControlRecord.addressField_withAddress]
    exact hreads
  · intro subnet hsubnet
    obtain ⟨hfamily, hfits⟩ := Subnet.of_ofTextIn hsubnet
    obtain ⟨octets, haddress, hrequested⟩ := hrequests subnet hsubnet
    have hreads := Subnet.readsBack hfits name
    rw [haddress] at hreads
    refine ⟨hfamily, hrequested.imp_left ?_⟩
    rintro ⟨index, frame, hframe, hwritten⟩
    obtain ⟨header, record, payload, rest, hread, htype, htake, hlength, hviews⟩ :=
      hwritten.address_read
    rw [← hlength] at hreads
    exact ⟨frame, header, record, payload, rest, octets.bytes, hframe, hread, htype, htake, hviews,
      hreads⟩

theorem assignAddresses_reads_back_both_slots :
    let entry (family : Family) (address mask : Bytes) : InterfaceEntry :=
      ⟨some "wg0", family.code, some address, some mask⟩
    let run := (assignAddresses {} "wg0" ⟨"10.1.2.3/24", "fd00::1/64"⟩).run
      { indices := [("wg0", 5)] }
    run.1 = .ok () ∧ ∃ (first second frame payload rest address : Bytes)
      (header : Netlink.Header) (record : AddressHeader) (found : InterfaceAddresses)
      (after : Host),
      records run.2.trace = [(.assignAddress, first), (.assignMask, second)] ∧
      frames run.2.trace = [frame] ∧ Message.ofDatagram frame = [.ok ⟨header, payload⟩] ∧
      AddressHeader.take? payload = some (record, rest) ∧
      Attribute.views rest = [⟨AddressRequest.addressAttribute, address⟩,
        ⟨AddressRequest.localAttribute, address⟩] ∧
      let entries : List InterfaceEntry :=
        [entry .v4 [9, 9, 9, 9] [255, 0, 0, 0],
          entry .v6 address (Mask.ofPrefixLength 16 record.prefixLength.toNat).bytes,
          entry .v4 (ControlRecord.addressField first) (ControlRecord.addressField second), {}]
      (addressesOf "wg0").run { addresses := .ok entries } = (.ok found, after) ∧
        found.slot .v4 = "10.1.2.3/24" ∧ found.slot .v6 = "fd00::1/64" := by
  intro entry run
  have hok : run.1 = .ok () := by decide +kernel
  have hold : Subnet.ofTextIn .v4 "10.1.2.3/24" = .ok ⟨.v4 ⟨[10, 1, 2, 3], rfl⟩, 24⟩ := by
    decide +kernel
  have hnew : Subnet.ofTextIn .v6 "fd00::1/64" =
      .ok ⟨.v6 ⟨[0xFD, 0, 0, 0, 0, 0, 0, 0, 0, 0, 0, 0, 0, 0, 0, 1], rfl⟩, 64⟩ := by
    decide +kernel
  obtain ⟨events, outcome, after, hrun, htrace, -, -, hassigned, hrequested⟩ :=
    assignAddresses_reads_back {} "wg0" ⟨"10.1.2.3/24", "fd00::1/64"⟩ { indices := [("wg0", 5)] }
  have hrun' : run = (outcome, after) := hrun
  rw [hrun'] at hok ⊢
  dsimp only at hok
  subst hok
  rw [List.nil_append] at htrace
  obtain ⟨-, first, second, hrecords, hreads⟩ := hassigned _ hold
  obtain ⟨-, hframes⟩ := hrequested _ hnew
  have hboth : records events = [(.assignAddress, first), (.assignMask, second)] := by
    rcases hrecords with hall | ⟨-, failure, hfailure, -⟩
    · exact hall
    · cases hfailure
  rcases hframes with
    ⟨frame, header, record, payload, rest, address, hframe, hmessage, -, htake, hviews, hback⟩ |
      ⟨-, failure, hfailure⟩
  · let entries : List InterfaceEntry :=
      [entry .v4 [9, 9, 9, 9] [255, 0, 0, 0],
        entry .v6 address (Mask.ofPrefixLength 16 record.prefixLength.toNat).bytes,
        entry .v4 (ControlRecord.addressField first) (ControlRecord.addressField second), {}]
    have hunnamed : ∀ family, ¬ ({} : InterfaceEntry).Names "wg0" family :=
      fun family hnames => nomatch hnames.name_eq
    have hlast4 : InterfaceEntry.IsLast "wg0" .v4 entries
        (entry .v4 (ControlRecord.addressField first) (ControlRecord.addressField second)) :=
      ⟨⟨rfl, rfl, nofun⟩, [_, _], [{}], rfl, List.forall_mem_singleton.mpr (hunnamed .v4)⟩
    have hlast6 : InterfaceEntry.IsLast "wg0" .v6 entries
        (entry .v6 address (Mask.ofPrefixLength 16 record.prefixLength.toNat).bytes) := by
      refine ⟨⟨rfl, rfl, nofun⟩, [_], [_, {}], rfl, List.forall_mem_cons.mpr
        ⟨fun hnames => ?_, List.forall_mem_singleton.mpr (hunnamed .v6)⟩⟩
      exact absurd hnames.family_eq (show Family.code .v4 ≠ Family.code .v6 by decide)
    obtain ⟨found, listed, hlisted, hslot4, -⟩ :=
      hreads { addresses := .ok entries } entries _ rfl hlast4 rfl rfl
    obtain ⟨same, _, hsame, hslot6, -⟩ :=
      hback { addresses := .ok entries } entries _ rfl hlast6 rfl rfl
    rw [hlisted] at hsame
    cases hsame
    rw [htrace]
    exact ⟨rfl, first, second, frame, payload, rest, address, header, record, found, listed, hboth,
      hframe, hmessage, htake, hviews, hlisted, hslot4.trans (by decide +kernel),
      hslot6.trans (by decide +kernel)⟩
  · cases hfailure

end Host

end TunnelControl
