import TunnelControl.Proofs.Device.RequestSize
import TunnelControl.Proofs.Netlink.Acknowledgement

namespace TunnelControl.Netlink

/-! How a row of requests ends. -/

/-- So many requests were to be sent; each was acknowledged up to the end, or to one that failed. -/
inductive Concludes (size : Nat) : Nat → List Transmission → Except Error Unit → Prop
  | finished : Concludes size 0 [] (.ok ())
  | failed {transmission : Transmission} {error : Error} (count : Nat)
      (h : transmission.outcome? size = some (.error error)) :
      Concludes size (count + 1) [transmission] (.error error)
  | acknowledged {transmission : Transmission} {count : Nat} {transmissions : List Transmission}
      {outcome : Except Error Unit} (h : transmission.Acknowledged size)
      (rest : Concludes size count transmissions outcome) :
      Concludes size (count + 1) (transmission :: transmissions) outcome

namespace Concludes

variable {size count : Nat} {transmissions : List Transmission} {outcome : Except Error Unit}

theorem not_acknowledged {transmission : Transmission} {error : Error}
    (h : transmission.outcome? size = some (.error error)) : ¬ transmission.Acknowledged size := by
  rw [Transmission.acknowledged_iff, h]
  exact nofun

theorem acknowledged_of_mem_dropLast (h : Concludes size count transmissions outcome) :
    ∀ transmission ∈ transmissions.dropLast, transmission.Acknowledged size := by
  induction h with
  | finished => exact nofun
  | failed count h => exact nofun
  | @acknowledged transmission count transmissions outcome h rest ih =>
      cases transmissions with
      | nil => exact nofun
      | cons second transmissions => exact List.forall_mem_cons.mpr ⟨h, ih⟩

theorem eq_ok_iff (h : Concludes size count transmissions outcome) :
    outcome = .ok () ↔ transmissions.length = count ∧
      ∀ transmission ∈ transmissions, transmission.Acknowledged size := by
  induction h with
  | finished => exact ⟨fun _ => ⟨rfl, nofun⟩, fun _ => rfl⟩
  | failed count h =>
      refine ⟨nofun, fun hall => ?_⟩
      exact absurd (hall.2 _ List.mem_cons_self) (not_acknowledged h)
  | acknowledged h rest ih =>
      rw [ih, List.length_cons, Nat.succ_inj, List.forall_mem_cons]
      exact ⟨fun hall => ⟨hall.1, h, hall.2⟩, fun hall => ⟨hall.1, hall.2.2⟩⟩

theorem exists_last_of_error {error : Error} (h : Concludes size count transmissions outcome)
    (herror : outcome = .error error) :
    ∃ before last, transmissions = before ++ [last] ∧
      last.outcome? size = some (.error error) := by
  induction h with
  | finished => cases herror
  | failed count h =>
      cases herror
      exact ⟨[], _, rfl, h⟩
  | @acknowledged transmission _ _ _ h rest ih =>
      obtain ⟨before, last, rfl, hlast⟩ := ih herror
      exact ⟨transmission :: before, last, rfl, hlast⟩

end Concludes

namespace Socket

open Exchange

/-- Frames go from the socket one after the other. -/
inductive TransmitsAll : Socket → List Transmission → Socket → Prop
  | nil (socket : Socket) : TransmitsAll socket [] socket
  | cons {socket next after : Socket} {transmission : Transmission}
      {transmissions : List Transmission} (first : socket.Transmits transmission next)
      (rest : TransmitsAll next transmissions after) :
      TransmitsAll socket (transmission :: transmissions) after

theorem Transmits.settings_eq {socket after : Socket} {transmission : Transmission}
    (h : socket.Transmits transmission after) :
    after.port = socket.port ∧ after.bufferSize = socket.bufferSize ∧
      after.sequence = socket.sequence + 1 := by
  cases h <;> exact ⟨rfl, rfl, rfl⟩

theorem TransmitsAll.trace_eq {socket after : Socket} {transmissions : List Transmission}
    (h : socket.TransmitsAll transmissions after) :
    after.trace =
      socket.trace ++ transmissions.flatMap (Transmission.events socket.bufferSize) := by
  induction h with
  | nil socket => exact (List.append_nil _).symm
  | cons first rest ih =>
      obtain ⟨-, hsize, -⟩ := first.settings_eq
      rw [ih, first.trace_eq, hsize, List.flatMap_cons, List.append_assoc]

/-! The requests of a change. -/

variable (family : FamilyInfo) {name : String}

def changeFrame (name : String) (port number : UInt32) (part : DeviceChange) :
    Except Error Bytes :=
  (((commanded (.acknowledged family.id) TunnelFamily.setDevice TunnelFamily.version
    (part.attributes name)).setSequence number).setPort port).finish

def changeFrames (name : String) (port number : UInt32) (parts : List DeviceChange) :
    List (UInt32 × Except Error Bytes) :=
  parts.mapIdx fun place part =>
    (number + UInt32.ofNat place, changeFrame family name port (number + UInt32.ofNat place) part)

theorem changeFrames_cons (name : String) (port number : UInt32) (part : DeviceChange)
    (parts : List DeviceChange) :
    changeFrames family name port number (part :: parts) =
      (number, changeFrame family name port number part) ::
        changeFrames family name port (number + 1) parts := by
  have hnumber : ∀ place, number + UInt32.ofNat (place + 1) = number + 1 + UInt32.ofNat place := by
    intro place
    rw [UInt32.ofNat_add, UInt32.add_assoc, UInt32.add_comm (UInt32.ofNat place)]
    rfl
  have hzero : number + UInt32.ofNat 0 = number := UInt32.add_zero number
  simp only [changeFrames, List.mapIdx_cons, hnumber, hzero]

theorem exists_part_of_prefix {port number : UInt32} {parts : List DeviceChange}
    {before : List Transmission} {last : Transmission}
    (h : (before ++ [last]).map (fun transmission => (transmission.number, .ok transmission.frame))
      <+: changeFrames family name port number parts) :
    ∃ part, parts[before.length]? = some part ∧
      changeFrame family name port last.number part = .ok last.frame := by
  obtain ⟨rest, hframes⟩ := h
  have hlast : (changeFrames family name port number parts)[before.length]? =
      some (last.number, .ok last.frame) := by
    rw [← hframes, List.map_append, List.append_assoc,
      List.getElem?_append_right (Nat.le_of_eq (List.length_map _)), List.length_map, Nat.sub_self]
    rfl
  rw [changeFrames, List.getElem?_mapIdx, Option.map_eq_some_iff] at hlast
  obtain ⟨part, hpart, hframe⟩ := hlast
  obtain ⟨hnumber, hwritten⟩ := Prod.mk.inj hframe
  exact ⟨part, hpart, hnumber ▸ hwritten⟩

theorem exists_changeFrame (hname : name.utf8ByteSize ≤ 65530) {part : DeviceChange}
    (hcost : part.cost ≤ DeviceChange.budget) (port number : UInt32) :
    ∃ frame, changeFrame family name port number part = .ok frame :=
  (finish_stamped_eq_ok_iff { port, sequence := number } _).mpr
    ((DeviceChange.finish_attributes_eq_ok_iff hcost name family.id
      (Flag.request ||| Flag.acknowledge) TunnelFamily.setDevice TunnelFamily.version).mpr hname)

theorem exists_transmitsAll (hname : name.utf8ByteSize ≤ 65530) {parts : List DeviceChange}
    (hcost : ∀ part ∈ parts, part.cost ≤ DeviceChange.budget) (socket : Socket) :
    ∃ transmissions outcome after,
      (applyRequests family name parts).run socket = (outcome, after) ∧
      socket.TransmitsAll transmissions after ∧
      transmissions.map (fun transmission => (transmission.number, .ok transmission.frame)) <+:
        changeFrames family name socket.port socket.sequence parts ∧
      Concludes socket.bufferSize parts.length transmissions outcome := by
  induction parts generalizing socket with
  | nil => exact ⟨[], .ok (), socket, rfl, .nil socket, List.nil_prefix, .finished⟩
  | cons part parts ih =>
      obtain ⟨hpart, hparts⟩ := List.forall_mem_cons.mp hcost
      obtain ⟨frame, hframe⟩ :=
        exists_changeFrame family hname hpart socket.port socket.sequence
      have hheaded : Header.size ≤ (commanded (.acknowledged family.id) TunnelFamily.setDevice
          TunnelFamily.version (part.attributes name)).size :=
        Draft.size_header_le_ofRecord _ _ (CommandHeader.length_bytes_mod_four _)
      obtain ⟨errno, heard, outcome, next, hfirst, houtcome, hrun⟩ :=
        exists_transmits hheaded hframe
      rw [applyRequests, changeFrames_cons, hframe]
      cases outcome with
      | error error =>
          refine ⟨_, .error error, next, run_bind_of_error hrun, .cons hfirst (.nil next), ?_,
            .failed _ houtcome⟩
          exact ⟨_, rfl⟩
      | ok =>
          obtain ⟨transmissions, outcome, after, hrest, hall, hframes, hconcludes⟩ :=
            ih hparts next
          obtain ⟨hport, hsize, hsequence⟩ := hfirst.settings_eq
          rw [hport, hsequence] at hframes
          rw [hsize] at hconcludes
          refine ⟨_, outcome, after, (run_bind_of_ok hrun).trans hrest, .cons hfirst hall, ?_,
            .acknowledged ((Transmission.acknowledged_iff _ _).mpr houtcome) hconcludes⟩
          exact (List.prefix_cons_inj _).mpr hframes

/-- The frames of a change are sent in the order of its requests, each after the one before was
acknowledged. The change succeeds if and only if all are sent and acknowledged, and otherwise ends
with the error of the request that was sent last. -/
theorem applyChange_stops_and_waits (hname : name.utf8ByteSize ≤ 65530) (change : DeviceChange)
    (socket : Socket) :
    ∃ transmissions outcome after,
      (applyChange family name change).run socket = (outcome, after) ∧
      socket.TransmitsAll transmissions after ∧
      after.trace =
        socket.trace ++ transmissions.flatMap (Transmission.events socket.bufferSize) ∧
      transmissions.map (fun transmission => (transmission.number, .ok transmission.frame)) <+:
        changeFrames family name socket.port socket.sequence change.requests ∧
      (∀ transmission ∈ transmissions.dropLast, transmission.Acknowledged socket.bufferSize) ∧
      (outcome = .ok () ↔ transmissions.length = change.requests.length ∧
        ∀ transmission ∈ transmissions, transmission.Acknowledged socket.bufferSize) ∧
      ∀ error, outcome = .error error →
        ∃ before last part, transmissions = before ++ [last] ∧
          change.requests[before.length]? = some part ∧
          changeFrame family name socket.port last.number part = .ok last.frame ∧
          ¬ last.Acknowledged socket.bufferSize ∧
          last.outcome? socket.bufferSize = some (.error error) := by
  obtain ⟨transmissions, outcome, after, hrun, hall, hframes, hconcludes⟩ :=
    exists_transmitsAll family hname change.requests_cost_le socket
  refine ⟨transmissions, outcome, after, hrun, hall, hall.trace_eq, hframes,
    hconcludes.acknowledged_of_mem_dropLast, hconcludes.eq_ok_iff, ?_⟩
  intro error herror
  obtain ⟨before, last, rfl, hlast⟩ := hconcludes.exists_last_of_error herror
  obtain ⟨part, hpart, hframe⟩ := exists_part_of_prefix family hframes
  exact ⟨before, last, part, rfl, hpart, hframe, Concludes.not_acknowledged hlast, hlast⟩

theorem applyChange_stops_and_waits_past_foreign_end :
    let foreign : Message := ⟨⟨20, 3, 2, 9, 0⟩, [0, 0, 0, 0]⟩
    let verdict : Message := ⟨⟨36, 2, 0, 1, 0⟩, List.replicate 20 0⟩
    let socket : Socket :=
      { port := 7, arrivals := [.datagram (Message.packet [foreign, verdict])] }
    "wg0".utf8ByteSize ≤ 65530 ∧
      ∃ transmission after,
        (applyChange ⟨28, 1⟩ "wg0" { listenPort := some 51820 }).run socket = (.ok (), after) ∧
        socket.TransmitsAll [transmission] after ∧ transmission.Acknowledged 32768 := by
  intro foreign verdict socket
  have hname : "wg0".utf8ByteSize ≤ 65530 := by decide
  obtain ⟨transmissions, outcome, after, hrun, hall, -, -, -, hok, -⟩ :=
    applyChange_stops_and_waits ⟨28, 1⟩ hname { listenPort := some 51820 } socket
  have houtcome : ((applyChange ⟨28, 1⟩ "wg0" { listenPort := some 51820 }).run socket).1 =
      .ok () := by decide +kernel
  rw [hrun] at houtcome
  obtain ⟨hlength, hacknowledged⟩ := hok.mp houtcome
  obtain ⟨transmission, rfl⟩ := List.length_eq_one_iff.mp hlength
  exact ⟨hname, transmission, after, by rw [hrun, ← houtcome], hall,
    hacknowledged _ List.mem_cons_self⟩

end Socket

end TunnelControl.Netlink
