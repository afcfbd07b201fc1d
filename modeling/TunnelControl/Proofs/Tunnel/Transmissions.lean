import TunnelControl.Proofs.Netlink.Acknowledgement
import TunnelControl.Proofs.Netlink.CutDatagrams
import TunnelControl.Proofs.Tunnel.SingleRequests

namespace TunnelControl

open Netlink

/-- The frame is one of the request, under the number of the transmission. -/
structure Netlink.Transmission.Carries (transmission : Transmission) (request : Request) : Prop where
  wellFormed : request.WellFormed transmission.frame
  numbered : ∃ header rest, Header.take? transmission.frame = some (header, rest) ∧
    header.sequence = transmission.number

namespace Netlink.Socket

variable {σ α : Type} {request : Request} {listener : Listener σ α} {state : σ} {value : α}
  {socket after : Socket}

theorem carries_of_finish {frame : Bytes} {errno : Int} {heard : List Arrival}
    (h : (socket.stamped request.draft).finish = .ok frame) :
    Transmission.Carries ⟨socket.sequence, frame, errno, heard⟩ request := by
  obtain ⟨header, rest, htake, hsequence, -⟩ := Draft.header_of_finish_numbered request.headed h
  exact ⟨Request.wellFormed_of_finish h, header, rest, htake, hsequence⟩

theorem exists_transmits_of_ask
    (h : (ask request.draft listener state).run socket = (.ok value, after)) :
    ∃ transmission, socket.Transmits transmission after ∧ transmission.Carries request ∧
      listener.hear transmission.number state
        (Arrival.stream socket.bufferSize transmission.heard) = .ok (.done value) := by
  obtain ⟨sent, heard, outcome, other, hasked⟩ := exists_asked request.draft listener state socket
  rw [hasked.run] at h
  cases h
  cases hasked with
  | sent hframe hsend hsupplied hhears =>
      exact ⟨_, .accepted hsend hsupplied, carries_of_finish hframe, hhears.hear_stream⟩

theorem exists_transmits_of_request
    (h : (Socket.request request.draft).run socket = (.ok (), after)) :
    ∃ transmission, socket.Transmits transmission after ∧ transmission.Carries request ∧
      transmission.Acknowledged socket.bufferSize := by
  cases hframe : (socket.stamped request.draft).finish with
  | error error =>
      rw [run_request_of_finish_error hframe] at h
      cases h
  | ok frame =>
      obtain ⟨errno, heard, outcome, other, htransmits, houtcome, hrun⟩ :=
        exists_transmits request.headed hframe
      rw [hrun] at h
      cases h
      exact ⟨_, htransmits, carries_of_finish hframe,
        (Transmission.acknowledged_iff _ _).mpr houtcome⟩

theorem exists_dump_of_device {family : FamilyInfo} {name : String} {snapshot : Snapshot}
    (h : (device family name).run socket = (.ok snapshot, after)) :
    ∃ replies middle skipped,
      (dump (Request.getDevice family.id name).draft).run socket = (.ok replies, middle) ∧
      replies ≠ [] ∧ Snapshot.ofReplies replies = .ok snapshot ∧
      after = { middle with skipped } := by
  obtain ⟨replies, middle, hreplies, hread⟩ := Exchange.exists_run_of_bind_ok h
  obtain ⟨found, dumped, hdump, hchecked⟩ := Exchange.exists_run_of_bind_ok hreplies
  obtain ⟨⟨⟩, noted, hnoted, hsnapshot⟩ := Exchange.exists_run_of_bind_ok hread
  rw [Exchange.run_lift] at hsnapshot
  cases hnoted
  obtain ⟨hofReplies, rfl⟩ := Prod.mk.inj hsnapshot
  split at hchecked
  · cases hchecked
  · rename_i hsome
    cases hchecked
    exact ⟨replies, middle, _, hdump, hsome, hofReplies, rfl⟩

theorem exists_transmits_of_device {family : FamilyInfo} {name : String} {snapshot : Snapshot}
    (h : (device family name).run socket = (.ok snapshot, after)) :
    ∃ transmission middle skipped replies, socket.Transmits transmission middle ∧
      after = { middle with skipped } ∧
      transmission.Carries (.getDevice family.id name) ∧
      Dump.Collects transmission.number
        (Arrival.stream socket.bufferSize transmission.heard) replies ∧
      replies ≠ [] ∧ Snapshot.ofReplies replies = .ok snapshot := by
  obtain ⟨replies, middle, skipped, hdump, hsome, hread, rfl⟩ := exists_dump_of_device h
  obtain ⟨transmission, htransmits, hcarries, hhears⟩ := exists_transmits_of_ask hdump
  exact ⟨transmission, middle, skipped, replies, htransmits, rfl, hcarries,
    Dump.collects_iff.mpr hhears, hsome, hread⟩

end Netlink.Socket

end TunnelControl
