import TunnelControl.Proofs.Netlink.CutDatagrams

/-!
The failures that the kernel can report within a dump. It has two places for them: a verdict, which
aborts the dump, and the status in front of what the end of the dump carries, which nobody reads.
-/

namespace TunnelControl.Netlink

namespace Dump

/-- The message reports a failure of the dump with this number: it is a verdict on it or its end,
and the status that it starts with is not zero. -/
def Reports (sequence : UInt32) (message : Message) : Prop :=
  message.header.sequence = sequence ∧
    (message.header.type = MessageType.verdict ∨ message.header.type = MessageType.done) ∧
    4 ≤ message.payload.length ∧ Verdict.statusOf message.payload ≠ 0

variable {sequence : UInt32} {message : Message}

theorem Passes.not_reports (h : Passes sequence (.ok message)) : ¬ Reports sequence message := by
  obtain ⟨header, payload⟩ := message
  rintro ⟨hsequence, hverdict | hdone, -, hstatus⟩
  · have hrefusal := h.2
    rw [fault?, if_pos ⟨hsequence, hverdict⟩, Verdict.refusal?_eq_none_iff] at hrefusal
    exact hstatus hrefusal.2
  · exact h.1 ⟨hsequence, hdone⟩

theorem exists_messages_of_passes {items : List (Except Error Message)}
    (h : ∀ item ∈ items, Passes sequence item) :
    ∃ messages : List Message, items = messages.map .ok := by
  induction items with
  | nil => exact ⟨[], rfl⟩
  | cons item items ih =>
      obtain ⟨hitem, hitems⟩ := List.forall_mem_cons.mp h
      obtain ⟨messages, rfl⟩ := ih hitems
      cases item with
      | error error => cases hitem.2
      | ok message => exact ⟨message :: messages, rfl⟩

theorem IsEnd.reports_iff (h : IsEnd sequence (.ok message)) :
    Reports sequence message ↔
      4 ≤ message.payload.length ∧ Verdict.statusOf message.payload ≠ 0 :=
  ⟨fun hreports => hreports.2.2, fun hstatus => ⟨h.1, .inr h.2, hstatus⟩⟩

end Dump

namespace Socket

variable {draft : Draft} {socket after : Socket} {payloads : List Bytes}

theorem exists_frame_of_dump_ok (h : (dump draft).run socket = (.ok payloads, after)) :
    ∃ frame, (socket.stamped draft).finish = .ok frame ∧ socket.sends.headD 0 = 0 := by
  obtain ⟨sent, heard, outcome, other, hasked⟩ := exists_asked draft collection [] socket
  rw [dump_eq_ask, hasked.run] at h
  cases h
  cases hasked with
  | sent hframe hsend => exact ⟨_, hframe, hsend⟩

/-- A dump that succeeds has met no report of a failure before its end. The end itself may report
one: any other end behind the same messages leads to the same result. -/
theorem dump_ok_of_failed_end (h : (dump draft).run socket = (.ok payloads, after)) :
    ∃ (frame : Bytes) (front : List Message) (final : Message)
        (back : List (Except Error Message)),
      (socket.stamped draft).finish = .ok frame ∧
      socket.incoming frame = front.map .ok ++ .ok final :: back ∧
      (∀ message ∈ front, ¬ Dump.IsEnd socket.sequence (.ok message)) ∧
      Dump.IsEnd socket.sequence (.ok final) ∧
      payloads = front.filterMap (fun message => Dump.payload? socket.sequence (.ok message)) ∧
      (∀ message ∈ front, ¬ Dump.Reports socket.sequence message) ∧
      ((∃ message ∈ front ++ [final], Dump.Reports socket.sequence message) ↔
        4 ≤ final.payload.length ∧ Verdict.statusOf final.payload ≠ 0) ∧
      ∀ (packets : List (List Message)) (other : Message) (rest : List Message),
        packets.flatten = front ++ other :: rest →
        (∀ message ∈ packets.flatten, message.Framed) →
        (∀ messages ∈ packets, (Message.packet messages).length ≤ socket.bufferSize) →
        Dump.IsEnd socket.sequence (.ok other) →
          ((dump draft).run (socket.offered (packets.map Message.packet))).1 = .ok payloads := by
  obtain ⟨frame, hframe, hsend⟩ := exists_frame_of_dump_ok h
  have hresult : ((dump draft).run socket).1 = .ok payloads := congrArg Prod.fst h
  obtain ⟨items, item, back, hincoming, hitems, hend, hpayloads⟩ :=
    (run_dump_eq_ok_iff hframe hsend).mp hresult
  obtain ⟨front, rfl⟩ := Dump.exists_messages_of_passes hitems
  obtain ⟨final, rfl⟩ : ∃ final, item = .ok final := by
    cases item with
    | error error => cases hend
    | ok final => exact ⟨final, rfl⟩
  have hpasses := List.forall_mem_map.mp hitems
  have hsilent : ∀ message ∈ front, ¬ Dump.Reports socket.sequence message :=
    fun message hmem => (hpasses message hmem).not_reports
  rw [List.filterMap_map] at hpayloads
  refine ⟨frame, front, final, back, hframe, hincoming, fun message hmem =>
    (hpasses message hmem).1, hend, hpayloads, hsilent, ?_, ?_⟩
  · rw [← hend.reports_iff]
    constructor
    · rintro ⟨message, hmem, hreports⟩
      rcases List.mem_append.mp hmem with hfront | hfinal
      · exact absurd hreports (hsilent message hfront)
      · rwa [List.mem_singleton.mp hfinal] at hreports
    · exact fun hreports => ⟨final, List.mem_append_right _ List.mem_cons_self, hreports⟩
  · intro packets other rest hpackets hframed hsize hother
    have hwritten : ((socket.offered (packets.map Message.packet)).stamped draft).finish =
        .ok frame := hframe
    refine (run_dump_eq_ok_iff hwritten hsend).mpr
      ⟨front.map .ok, .ok other, rest.map .ok ++ [.error (.io Errno.wouldBlock)], ?_, hitems,
        hother, ?_⟩
    · rw [incoming_offered hframed hsize, hpackets, List.map_append, List.map_cons,
        List.append_assoc]
      rfl
    · rw [hpayloads, List.filterMap_map]
      rfl

theorem dump_ok_of_failed_end_out_of_memory :
    let link : Message := ⟨⟨20, 16, 2, 1, 0⟩, [1, 2, 3, 4]⟩
    let failed : Message := ⟨⟨20, 3, 2, 1, 0⟩, [244, 255, 255, 255]⟩
    let whole : Message := ⟨⟨20, 3, 2, 1, 0⟩, [0, 0, 0, 0]⟩
    let socket := ({ port := 7 } : Socket).offered [Message.packet [link, failed]]
    ∃ after, (dump (.dump 18)).run socket = (.ok [[1, 2, 3, 4]], after) ∧
      Dump.IsEnd 1 (.ok failed) ∧ Dump.Reports 1 failed ∧
      Verdict.statusOf failed.payload = -12 ∧
      ((dump (.dump 18)).run (socket.offered [Message.packet [link, whole]])).1 =
        .ok [[1, 2, 3, 4]] := by
  intro link failed whole socket
  let sent : Bytes := [16, 0, 0, 0, 18, 0, 1, 3, 1, 0, 0, 0, 7, 0, 0, 0]
  have hframe : (socket.stamped (.dump 18)).finish = .ok sent := by cbv
  have hframed : ∀ message ∈ [link, failed], message.Framed := by decide
  have hstream : socket.incoming sent =
      [.ok link, .ok failed, .error (.io Errno.wouldBlock)] :=
    @incoming_offered sent { port := 7 } [[link, failed]] hframed (by decide +kernel)
  have hlink : Dump.Passes 1 (.ok link) := ⟨fun hend => absurd hend.2 (by decide), rfl⟩
  have hresult : ((dump (.dump 18)).run socket).1 = .ok [[1, 2, 3, 4]] :=
    (run_dump_eq_ok_iff hframe rfl).mpr ⟨[.ok link], .ok failed, _, hstream,
      List.forall_mem_singleton.mpr hlink, ⟨rfl, rfl⟩, rfl⟩
  obtain ⟨after, hrun⟩ := Exchange.exists_run_of_fst hresult
  obtain ⟨frame, front, final, back, hwritten, hincoming, hfront, hend, -, -, hreports, hother⟩ :=
    dump_ok_of_failed_end hrun
  rw [hframe] at hwritten
  cases hwritten
  rw [hstream] at hincoming
  rcases front with _ | ⟨first, _ | ⟨second, front⟩⟩
  · cases hincoming
    exact absurd hend.2 (by decide)
  · cases hincoming
    refine ⟨after, hrun, hend, hend.reports_iff.mpr (by decide), by decide, ?_⟩
    exact hother [[link, whole]] whole [] rfl (by decide) (by decide +kernel) ⟨rfl, rfl⟩
  · injection hincoming with _ hincoming
    injection hincoming with hsecond _
    cases hsecond
    exact absurd ⟨rfl, rfl⟩ (hfront failed (List.mem_cons_of_mem _ List.mem_cons_self))

end Socket

end TunnelControl.Netlink
