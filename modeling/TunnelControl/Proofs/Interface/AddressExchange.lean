import TunnelControl.Proofs.Netlink.Awaiting
import TunnelControl.Proofs.Tunnel.SingleRequests

namespace TunnelControl

open Netlink Netlink.Attribute

namespace AddressRequest

section

variable (processId index : UInt32) (address : IPv6) (length : UInt8) (acknowledge : Bool)

def bytes : Bytes :=
  (Request.addAddress index address length acknowledge).bytes 1 processId

theorem frame_eq : frame processId index address length acknowledge =
    .ok (bytes processId index address length acknowledge) := by
  have haddress := address.size_eq
  have hfits : FitsAll (Request.addAddress index address length acknowledge).attributes := by
    simp only [Request.attributes, FitsAll, Fits, haddress]
    decide
  have hsize : (Request.addAddress index address length acknowledge).draft.size < UInt32.size := by
    rw [Request.draft, Draft.size_ofRecord _ _ (Request.length_record_mod_four _)]
    simp only [Request.attributes, Request.record, AddressHeader.length_bytes, encodeAll,
      List.length_append, length_encode_leaf, haddress]
    decide
  exact Request.finish_eq_bytes hfits hsize 1 processId

theorem read_bytes : ∃ header : Netlink.Header,
    Netlink.Header.read (bytes processId index address length acknowledge) = .ok header ∧
      header.sequence = 1 := by
  rw [bytes, Request.bytes, Netlink.Header.read, Netlink.Header.take?_bytes_append]
  exact ⟨_, rfl, rfl⟩

end

open Acknowledgement Exchange

variable {processId index : UInt32} {address : IPv6} {length : UInt8} {acknowledge : Bool}

theorem run_exchange_eq (socket : Socket) :
    (exchange processId index address length acknowledge).run socket =
      (if acknowledge then Socket.sendAcknowledged (bytes processId index address length acknowledge)
        else Socket.send (bytes processId index address length acknowledge)).run socket := by
  have hlift := run_lift (frame processId index address length acknowledge) socket
  rw [frame_eq] at hlift
  rw [exchange, frame_eq, run_bind_of_ok hlift]

theorem run_exchange_of_unsent {socket : Socket} (hsend : socket.sends.headD 0 ≠ 0) :
    ∃ after, (exchange processId index address length acknowledge).run socket =
        (.error (.io (socket.sends.headD 0)), after) ∧
      after.trace = socket.trace ++
        [.sent (bytes processId index address length acknowledge) (socket.sends.headD 0)] := by
  rw [run_exchange_eq]
  split
  · obtain ⟨header, hread, -⟩ := read_bytes processId index address length acknowledge
    exact socket.run_sendAcknowledged_of_error hread hsend
  · rw [Socket.run_send, if_neg hsend]
    exact ⟨_, rfl, rfl⟩

/-- Without an acknowledgement asked for, nothing is received and the request counts as done. -/
theorem run_exchange_of_sent {socket : Socket} (hsend : socket.sends.headD 0 = 0) :
    ∃ after, (exchange processId index address length acknowledge).run socket =
        (if acknowledge then ending 1 socket.bufferSize
            (socket.queueBehind (bytes processId index address length acknowledge)) else .ok (),
          after) ∧
      after.trace = socket.trace ++
        .sent (bytes processId index address length acknowledge) 0 ::
          if acknowledge then (awaited 1 socket.bufferSize
            (socket.queueBehind (bytes processId index address length acknowledge))).map
              (Arrival.receipt socket.bufferSize) else [] := by
  rw [run_exchange_eq]
  split
  · obtain ⟨header, hread, hsequence⟩ := read_bytes processId index address length acknowledge
    rw [← hsequence]
    exact socket.run_sendAcknowledged_of_sent hread hsend
  · rw [Socket.run_send, if_pos hsend]
    exact ⟨_, rfl, rfl⟩

end AddressRequest

end TunnelControl
