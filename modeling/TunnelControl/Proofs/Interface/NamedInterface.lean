import TunnelControl.Proofs.Interface.Assignment
import TunnelControl.Proofs.Interface.AssignmentCourse
import TunnelControl.Proofs.Text.Utf8

/-!
The interface that a record means. The kernel reads the name in a record up to the first zero, and
the field of the name has room for fifteen bytes, while interfaces are looked up and listed under
their whole names.
-/

namespace TunnelControl

open Netlink

namespace ControlRecord

def name (record : Bytes) : Bytes :=
  Bytes.untilZero (record.take nameSize)

theorem name_make {text : String} (h : '\x00' ∉ text.toList) (body : Bytes) :
    name (make text body) = (Utf8.encode text).take 15 := by
  have hzero : (0 : UInt8) ∉ (Utf8.encode text).take 15 :=
    fun hmem => Utf8.zero_notMem_encode h (List.mem_of_mem_take hmem)
  have hroom : nameSize - ((Utf8.encode text).take 15).length =
      15 - ((Utf8.encode text).take 15).length + 1 := by
    have hlength := List.length_take_le 15 (Utf8.encode text)
    rw [nameSize]
    omega
  have hfield : nameField text = (Utf8.encode text).take 15 ++
      0 :: List.replicate (15 - ((Utf8.encode text).take 15).length) 0 := by
    rw [← List.replicate_succ, ← hroom]
    rfl
  rw [name, make, ← length_nameField text, List.take_left, hfield]
  exact Bytes.untilZero_append_zero hzero _

theorem name_answered {record : Bytes} (h : nameSize ≤ record.length) (data : Bytes) :
    name (answered record data) = name record := by
  have hfront : (record.take nameSize).length = nameSize := List.length_take_of_le h
  rw [name, answered, List.append_assoc, List.take_left' hfront, name]

theorem name_raised (record : Bytes) : name (raised record) = name record := by
  rw [name, raised, List.take_modify, List.modify_eq_self (List.length_take_le _ _), name]

end ControlRecord

/-! The names of interfaces as bytes. -/

namespace Host

/-- The number of the interface whose name is these bytes, zero without one. -/
def numberOf (host : Host) (data : Bytes) : UInt32 :=
  ((host.indices.find? fun entry => Utf8.encode entry.1 = data).map (·.2)).getD 0

theorem lookup_eq_find? (name : String) (indices : List (String × UInt32)) :
    indices.lookup name =
      (indices.find? fun entry => Utf8.encode entry.1 = Utf8.encode name).map (·.2) := by
  induction indices with
  | nil => rfl
  | cons entry indices ih =>
      obtain ⟨other, index⟩ := entry
      by_cases hname : other = name
      · simp [hname]
      · have hencoded : Utf8.encode other ≠ Utf8.encode name :=
          fun h => hname (Utf8.encode_injective h)
        simp [List.lookup_cons, hencoded, ih, beq_false_of_ne (Ne.symm hname)]

theorem index_eq_numberOf {name : String} (h : '\x00' ∉ name.toList) (host : Host) :
    host.index name = host.numberOf (Utf8.encode name) := by
  rw [index, if_neg h, numberOf, lookup_eq_find?]

end Host

namespace InterfaceEntry

def addressesUnder (data : Bytes) (entries : List InterfaceEntry) : InterfaceAddresses :=
  let named := entries.filter fun entry => entry.name.map Utf8.encode = some data
  (named.filterMap subnet?).foldl InterfaceAddresses.put {}

theorem addressesOf_eq (name : String) (entries : List InterfaceEntry) :
    addressesOf name entries = addressesUnder (Utf8.encode name) entries := by
  have hnamed : (fun entry : InterfaceEntry => decide (entry.name = some name)) =
      fun entry => decide (entry.name.map Utf8.encode = some (Utf8.encode name)) := by
    funext entry
    rw [decide_eq_decide]
    cases entry.name with
    | none => simp
    | some other => simp [Function.Injective.eq_iff fun _ _ => Utf8.encode_injective]
  rw [addressesOf, addressesUnder, hnamed]

end InterfaceEntry

/-! Bringing an interface up. -/

/-- Every record that the operation hands over is allowed, it sends nothing, and what it ends with
is as stated. -/
def Controls {α : Type} (allowed : Bytes → Prop) (result : α → Prop) (operation : Operation α) :
    Prop :=
  ∀ host, ∃ events, (operation.run host).2.trace = host.trace ++ events ∧
    (∀ code record errno, .controlled code record errno ∈ events → allowed record) ∧
    (∀ frame errno, .sent frame errno ∉ events) ∧
    ∀ value, (operation.run host).1 = .ok value → result value

namespace Controls

variable {α β : Type} {allowed : Bytes → Prop} {result : α → Prop} {last : β → Prop}

theorem bind {first : Operation α} {next : α → Operation β}
    (hfirst : Controls allowed result first)
    (hnext : ∀ value, result value → Controls allowed last (next value)) :
    Controls allowed last (first >>= next) := by
  intro host
  obtain ⟨front, htrace, hallowed, hsent, hresult⟩ := hfirst host
  rcases hrun : first.run host with ⟨failure | value, middle⟩
  · rw [hrun] at htrace
    rw [Exchange.run_bind_of_error hrun]
    exact ⟨front, htrace, hallowed, hsent, nofun⟩
  · rw [hrun] at htrace hresult
    obtain ⟨back, hback, hlater, hquiet, hlast⟩ := hnext value (hresult value rfl) middle
    rw [Exchange.run_bind_of_ok hrun]
    refine ⟨front ++ back, ?_, ?_, ?_, hlast⟩
    · rw [hback, htrace, List.append_assoc]
    · intro code record errno hmem
      exact (List.mem_append.mp hmem).elim (hallowed code record errno)
        (hlater code record errno)
    · intro frame errno hmem
      exact (List.mem_append.mp hmem).elim (hsent frame errno) (hquiet frame errno)

theorem pure (value : α) (h : result value) :
    Controls allowed result (Pure.pure value : Operation α) :=
  fun _ => ⟨[], (List.append_nil _).symm, nofun, nofun, fun _ hvalue => Except.ok.inj hvalue ▸ h⟩

theorem openControl : Controls allowed (fun _ => True) Host.openControl := by
  intro host
  rw [Host.run_openControl]
  exact ⟨_, rfl, by simp, by simp, fun _ _ => trivial⟩

theorem control {record : Bytes} (hrecord : allowed record) (code : ControlCode)
    (classify : Int → Failure) :
    Controls allowed (fun answer => ∃ data, answer = ControlRecord.answered record data)
      (Host.control code record classify) := by
  intro host
  rw [Host.run_control]
  refine ⟨_, rfl, ?_, by simp, ?_⟩
  · intro other found errno hmem
    cases List.mem_singleton.mp hmem
    exact hrecord
  · intro answer hanswer
    dsimp only at hanswer
    split at hanswer
    · exact ⟨_, (Except.ok.inj hanswer).symm⟩
    · cases hanswer

theorem bringUp {name : String} (h : '\x00' ∉ name.toList) :
    Controls (fun record => ControlRecord.name record = (Utf8.encode name).take 15) (fun _ => True)
      (Host.bringUp name) := by
  let allowed := fun record => ControlRecord.name record = (Utf8.encode name).take 15
  have hmade : allowed (ControlRecord.make name []) := ControlRecord.name_make h []
  have hsize : ControlRecord.nameSize ≤ (ControlRecord.make name []).length := by
    rw [ControlRecord.make, List.length_append, ControlRecord.length_nameField]
    exact Nat.le_add_right _ _
  refine openControl.bind fun _ _ => (control hmade .readFlags _).bind ?_
  rintro _ ⟨data, rfl⟩
  have hraised : allowed
      (ControlRecord.raised (ControlRecord.answered (ControlRecord.make name []) data)) := by
    change ControlRecord.name _ = _
    rw [ControlRecord.name_raised, ControlRecord.name_answered hsize]
    exact hmade
  exact (control hraised .writeFlags _).bind fun _ _ => pure () trivial

end Controls

/-! Assigning addresses. -/

namespace AssignmentStep

variable {settings : Settings} {name : String} {host : Host} {step : AssignmentStep}

theorem mem_slot {family : Family} {text : String}
    (h : step ∈ slot settings name host family text) :
    step ∈ reading family text ∨ ∃ subnet, step ∈ requesting settings name host subnet := by
  unfold slot at h
  split at h
  · cases h
  · refine (List.mem_append.mp h).imp_right fun hmem => ?_
    split at hmem
    · exact ⟨_, hmem⟩
    · cases hmem

theorem mem_course {addresses : InterfaceAddresses}
    (h : step ∈ course settings name host addresses) :
    (∃ family text, step ∈ reading family text) ∨
      ∃ subnet, step ∈ requesting settings name host subnet := by
  rcases List.mem_append.mp h with hslot | hslot
  · exact (mem_slot hslot).imp_left fun hmem => ⟨_, _, hmem⟩
  · exact (mem_slot hslot).imp_left fun hmem => ⟨_, _, hmem⟩

theorem events_of_mem_reading {family : Family} {text : String} (h : step ∈ reading family text) :
    step.events settings host = [] := by
  have hnone := @flatMap_events_reading settings host family text
  exact List.flatMap_eq_nil_iff.mp hnone step h

theorem eq_of_controlled_mem_events {code : ControlCode} {record : Bytes} {errno : Int}
    (h : .controlled code record errno ∈ step.events settings host) :
    step = settingAddress record ∨ step = settingMask record := by
  cases step with
  | settingAddress other =>
      simp only [events, List.mem_singleton, Event.controlled.injEq] at h
      exact .inl (h.2.1 ▸ rfl)
  | settingMask other =>
      simp only [events, List.mem_singleton, Event.controlled.injEq] at h
      exact .inr (h.2.1 ▸ rfl)
  | awaiting frame =>
      obtain ⟨arrival, -, harrival⟩ := List.mem_map.mp h
      cases arrival <;> cases harrival
  | splitting | readingAddress | readingLength | openingControl | indexing | openingSocket
  | sending => simp [events] at h

theorem eq_of_sent_mem_events {frame : Bytes} {errno : Int}
    (h : .sent frame errno ∈ step.events settings host) : step = sending frame := by
  cases step with
  | sending other =>
      simp only [events, List.mem_singleton, Event.sent.injEq] at h
      exact h.1 ▸ rfl
  | awaiting other =>
      obtain ⟨arrival, -, harrival⟩ := List.mem_map.mp h
      cases arrival <;> cases harrival
  | splitting | readingAddress | readingLength | openingControl | indexing | openingSocket
  | settingAddress | settingMask => simp [events] at h

theorem name_of_mem_course (hname : '\x00' ∉ name.toList) {addresses : InterfaceAddresses}
    (h : step ∈ course settings name host addresses) {code : ControlCode} {record : Bytes}
    {errno : Int} (hmem : .controlled code record errno ∈ step.events settings host) :
    ControlRecord.name record = (Utf8.encode name).take 15 := by
  rcases mem_course h with ⟨family, text, hreading⟩ | ⟨⟨address, length⟩, hrequesting⟩
  · rw [events_of_mem_reading hreading] at hmem
    cases hmem
  · have hbody : ∃ body, record = ControlRecord.make name body := by
      cases address with
      | v4 octets =>
          rcases eq_of_controlled_mem_events hmem with rfl | rfl
          · have hrecord : record = ControlRecord.withAddress name octets := by
              simpa [requesting] using hrequesting
            exact ⟨_, hrecord⟩
          · have hrecord : record =
                ControlRecord.withAddress name (Mask.ofPrefixLength 4 length.toNat) := by
              simpa [requesting] using hrequesting
            exact ⟨_, hrecord⟩
      | v6 octets =>
          rcases eq_of_controlled_mem_events hmem with rfl | rfl
          · cases hwaits : settings.acknowledgeIPv6 <;> simp [requesting, hwaits] at hrequesting
          · cases hwaits : settings.acknowledgeIPv6 <;> simp [requesting, hwaits] at hrequesting
    obtain ⟨body, rfl⟩ := hbody
    exact ControlRecord.name_make hname body

theorem wellFormed_of_mem_course {addresses : InterfaceAddresses}
    (h : step ∈ course settings name host addresses) {frame : Bytes} {errno : Int}
    (hmem : .sent frame errno ∈ step.events settings host) :
    ∃ address length acknowledge,
      (Request.addAddress (host.index name) address length acknowledge).WellFormed frame := by
  rcases mem_course h with ⟨family, text, hreading⟩ | ⟨⟨address, length⟩, hrequesting⟩
  · rw [events_of_mem_reading hreading] at hmem
    cases hmem
  · obtain rfl := eq_of_sent_mem_events hmem
    cases address with
    | v4 octets => simp [requesting] at hrequesting
    | v6 octets =>
        have hframe : frame = AddressRequest.bytes host.processId (host.index name) octets length
            settings.acknowledgeIPv6 := by
          cases hwaits : settings.acknowledgeIPv6 <;> simpa [requesting, hwaits] using hrequesting
        exact ⟨octets, length, settings.acknowledgeIPv6, Request.wellFormed_of_finish
          (hframe ▸ AddressRequest.frame_eq host.processId (host.index name) octets length
            settings.acknowledgeIPv6)⟩

end AssignmentStep

theorem Host.exists_events_assignAddresses (settings : Settings) (name : String)
    (addresses : InterfaceAddresses) (host : Host) :
    ∃ events, ((assignAddresses settings name addresses).run host).2.trace = host.trace ++ events ∧
      ∀ event ∈ events, ∃ step ∈ AssignmentStep.course settings name host addresses,
        event ∈ step.events settings host := by
  cases performs_assignAddresses settings name addresses host with
  | finished hrun hsteps htrace =>
      rw [hrun]
      exact ⟨_, htrace, fun event hmem => List.mem_flatMap.mp hmem⟩
  | stopped passed step rest hrun hsteps hpassed hfails htrace =>
      rw [hrun]
      refine ⟨_, htrace, fun event hmem => ?_⟩
      obtain ⟨taken, htaken, hevent⟩ := List.mem_flatMap.mp hmem
      refine ⟨taken, ?_, hevent⟩
      rw [hsteps, List.append_cons]
      exact List.mem_append_left rest htaken

/-! What is asked for by record. -/

namespace Host

/-- The bytes mean the interface that the name means where a number is looked up, in the frames that
are sent under this number, and in a list of addresses. -/
structure Means (host : Host) (name : String) (events : List Event) (data : Bytes) : Prop where
  whole : data = Utf8.encode name
  looked_up : ((indexOf name).run host).1 =
    if host.numberOf data = 0 then .error (.deviceNotFound name none) else .ok (host.numberOf data)
  sent : ∀ frame errno, .sent frame errno ∈ events → ∃ address length acknowledge,
    (Request.addAddress (host.numberOf data) address length acknowledge).WellFormed frame
  listed : ∀ entries,
    InterfaceEntry.addressesOf name entries = InterfaceEntry.addressesUnder data entries

theorem means_of_short {host : Host} {name : String} {events : List Event}
    (hname : '\x00' ∉ name.toList) (hshort : name.utf8ByteSize ≤ 15)
    (hsent : ∀ frame errno, .sent frame errno ∈ events → ∃ address length acknowledge,
      (Request.addAddress (host.index name) address length acknowledge).WellFormed frame) :
    host.Means name events ((Utf8.encode name).take 15) := by
  have hwhole : (Utf8.encode name).take 15 = Utf8.encode name :=
    List.take_of_length_le (Utf8.length_encode name ▸ hshort)
  have hnumber := index_eq_numberOf hname host
  refine ⟨hwhole, ?_, ?_, ?_⟩
  · rw [hwhole, ← hnumber, run_indexOf]
  · rw [hwhole, ← hnumber]
    exact hsent
  · rw [hwhole]
    exact InterfaceEntry.addressesOf_eq name

/-- A record names the first fifteen bytes of the name, and thereby the whole of a name that has no
more. -/
theorem records_name_interface {name : String} (hname : '\x00' ∉ name.toList)
    (settings : Settings) (addresses : InterfaceAddresses) (host : Host) :
    ∀ operation ∈ [bringUp name, assignAddresses settings name addresses], ∃ events,
      (operation.run host).2.trace = host.trace ++ events ∧
      ∀ code record errno, .controlled code record errno ∈ events →
        ControlRecord.name record = (Utf8.encode name).take 15 ∧
        (name.utf8ByteSize ≤ 15 → host.Means name events (ControlRecord.name record)) := by
  intro operation hoperation
  rcases List.mem_pair.mp hoperation with rfl | rfl
  · obtain ⟨events, htrace, hnamed, hquiet, -⟩ := Controls.bringUp hname host
    refine ⟨events, htrace, fun code record errno hmem => ?_⟩
    rw [hnamed code record errno hmem]
    exact ⟨rfl, fun hshort => means_of_short hname hshort fun frame number hsent =>
      absurd hsent (hquiet frame number)⟩
  · obtain ⟨events, htrace, hsteps⟩ := exists_events_assignAddresses settings name addresses host
    refine ⟨events, htrace, fun code record errno hmem => ?_⟩
    obtain ⟨step, hstep, hevent⟩ := hsteps _ hmem
    rw [AssignmentStep.name_of_mem_course hname hstep hevent]
    refine ⟨rfl, fun hshort => means_of_short hname hshort fun frame number hsent => ?_⟩
    obtain ⟨sending, hsending, hframe⟩ := hsteps _ hsent
    exact AssignmentStep.wellFormed_of_mem_course hsending hframe

theorem records_name_interface_wg0 :
    '\x00' ∉ "wg0".toList ∧ "wg0".utf8ByteSize ≤ 15 ∧ ∃ events code record errno,
      ((assignAddresses {} "wg0" { ipv4 := "10.0.0.1/24", ipv6 := "fd00::1/64" }).run
        { indices := [("wg0", 7)] }).2.trace = [] ++ events ∧
      .controlled code record errno ∈ events ∧
      Means { indices := [("wg0", 7)] } "wg0" events (ControlRecord.name record) := by
  have hname : '\x00' ∉ "wg0".toList := by decide
  obtain ⟨events, htrace, hmeans⟩ := records_name_interface hname {}
    { ipv4 := "10.0.0.1/24", ipv6 := "fd00::1/64" } { indices := [("wg0", 7)] } _
    (List.mem_pair.mpr (.inr rfl))
  have hmem : .controlled .assignAddress
      (ControlRecord.withAddress "wg0" ⟨[10, 0, 0, 1], rfl⟩) 0 ∈ events := by
    have hall := htrace.symm
    rw [List.nil_append] at hall
    rw [hall]
    decide +kernel
  exact ⟨hname, by decide, events, _, _, _, htrace, hmem, (hmeans _ _ _ hmem).2 (by decide)⟩

/-- Of a longer name the rest is lost: another interface is asked for than the one that is looked
up. What stands behind a zero is lost in the same way. -/
theorem record_names_other_interface :
    (∃ record, .controlled .assignAddress record 0 ∈
        ((assignAddresses {} "wireguard-tunnel" { ipv4 := "10.0.0.1/24" }).run {}).2.trace ∧
      ControlRecord.name record = Utf8.encode "wireguard-tunne" ∧
      ControlRecord.name record ≠ Utf8.encode "wireguard-tunnel") ∧
    ((indexOf "wireguard-tunnel").run { indices := [("wireguard-tunne", 7)] }).1 =
      .error (.deviceNotFound "wireguard-tunnel" none) ∧
    ∃ record, .controlled .readFlags record 0 ∈ ((bringUp "wg0\x00x").run {}).2.trace ∧
      ControlRecord.name record = Utf8.encode "wg0" ∧
      ControlRecord.name record ≠ Utf8.encode "wg0\x00x" := by
  refine ⟨⟨ControlRecord.withAddress "wireguard-tunnel" ⟨[10, 0, 0, 1], rfl⟩, ?_, ?_, ?_⟩, ?_,
    ControlRecord.make "wg0\x00x" [], ?_, ?_, ?_⟩
  all_goals decide +kernel

end Host

end TunnelControl
