import TunnelControl.Json.Forms

namespace TunnelControl

namespace Json

/-! The parts of a form. -/

theorem unique?_eq_some {members : List (String × Json)} (h : (members.map Prod.fst).Nodup)
    {name : String} {value : Json} (hmem : (name, value) ∈ members) :
    unique? members name = some (some value) := by
  have hfilter : members.filter (fun member => member.1 = name) = [(name, value)] := by
    induction members with
    | nil => cases hmem
    | cons member members ih =>
        rw [List.map_cons, List.nodup_cons] at h
        obtain ⟨hfresh, hrest⟩ := h
        rcases List.mem_cons.mp hmem with rfl | hlater
        · have hnone : members.filter (fun member => member.1 = name) = [] := by
            rw [List.filter_eq_nil_iff]
            intro other hother hsame
            have hname : other.1 = name := of_decide_eq_true hsame
            have hmember := List.mem_map_of_mem (f := Prod.fst) hother
            rw [hname] at hmember
            exact hfresh hmember
          rw [List.filter_cons, if_pos (decide_eq_true rfl), hnone]
        · have hother : member.1 ≠ name := by
            intro hsame
            exact hfresh (hsame ▸ List.mem_map_of_mem hlater)
          rw [List.filter_cons_of_neg (by simpa using hother), ih hrest hlater]
  rw [unique?, hfilter]

theorem mapM_eq_some_map {α β : Type} {read : α → Option β} {value : α → β} {items : List α}
    (h : ∀ item ∈ items, read item = some (value item)) :
    items.mapM read = some (items.map value) := by
  induction items with
  | nil => rfl
  | cons item items ih =>
      obtain ⟨hitem, hitems⟩ := List.forall_mem_cons.mp h
      rw [List.mapM_cons, hitem, ih hitems]
      rfl

/-- The fields of a record are read in the order in which they were written. -/
theorem fields?_record {members : List (String × Json)} (h : (members.map Prod.fst).Nodup) :
    (record members).fields? (members.map Prod.fst) = some (members.map (some ·.2)) := by
  have hrecord : record members = .object (members.map fun member => (some member.1, member.2)) :=
    rfl
  have hmembers :
      members? (members.map fun member => (some member.1, member.2)) = some members := by
    rw [members?, List.mapM_map]
    exact (mapM_eq_some_map fun _ _ => rfl).trans (congrArg some (List.map_id members))
  have hvalues : (members.map Prod.fst).mapM (unique? members) =
      some (members.map (some ·.2)) := by
    rw [List.mapM_map]
    exact mapM_eq_some_map fun member hmem => unique?_eq_some h hmem
  simp only [hrecord, fields?, hmembers, hvalues, Option.bind_eq_bind, Option.bind_some]

theorem word16?_natural (value : UInt16) : (natural value.toNat).word16? = some value := by
  rw [word16?, natural, below?, if_pos value.toNat_lt, Option.map_some, UInt16.ofNat_toNat]

theorem word64?_natural (value : UInt64) : (natural value.toNat).word64? = some value := by
  rw [word64?, natural, below?, if_pos value.toNat_lt, Option.map_some, UInt64.ofNat_toNat]

theorem signed64?_integer (value : Int64) : (integer value.toInt).signed64? = some value := by
  have hleast := value.le_toInt
  have hmost := value.toInt_lt
  by_cases hnegative : value.toInt < 0
  · have hmagnitude : -(value.toInt.natAbs : Int) = value.toInt := by omega
    have hrange : 0 < value.toInt.natAbs ∧ value.toInt.natAbs ≤ 0x8000000000000000 := by omega
    simp only [integer, signed64?, hnegative, decide_true, if_pos hrange, hmagnitude,
      Int64.ofInt_toInt]
  · have hmagnitude : (value.toInt.natAbs : Int) = value.toInt := by omega
    have hrange : value.toInt.natAbs < 0x8000000000000000 := by omega
    simp only [integer, signed64?, hnegative, decide_false, if_pos hrange, ← Int64.ofInt_eq_ofNat,
      hmagnitude, Int64.ofInt_toInt]

theorem list?_texts (texts : List String) :
    (array (texts.map text)).list? text? = some texts := by
  rw [list?, List.mapM_map]
  exact (mapM_eq_some_map fun _ _ => rfl).trans (congrArg some (List.map_id texts))

end Json

theorem InterfaceAddresses.ofJson?_toJson (addresses : InterfaceAddresses) :
    ofJson? addresses.toJson = some addresses := by
  have hfields : addresses.toJson.fields? ["ipv4", "ipv6"] =
      some [some (.text addresses.ipv4), some (.text addresses.ipv6)] :=
    Json.fields?_record (by simp)
  rw [ofJson?, hfields]
  rfl

theorem DeviceReport.ofJson?_toJson (report : DeviceReport) :
    ofJson? report.toJson = some report := by
  have hfields : report.toJson.fields? ["name", "listen_port", "peers", "public_key",
      "private_key"] = some [some (.text report.name), some (.natural report.listenPort.toNat),
        some (.natural report.peers.toNat), some (.text report.publicKey),
        some (.text report.privateKey)] :=
    Json.fields?_record (by simp)
  simp only [ofJson?, hfields, Json.word16?_natural, Json.word64?_natural, Option.bind_eq_bind,
    Option.bind_some]
  rfl

theorem PeerReport.ofJson?_toJson (report : PeerReport) :
    ofJson? report.toJson = some report := by
  have hfields : report.toJson.fields? ["allowed_ips", "endpoint", "last_handshake", "keepalive",
      "rx_bytes", "tx_bytes", "public_key", "private_key", "preshared_key"] =
        some [some (.array (report.allowedIps.map .text)), some (.text report.endpoint),
          some (.integer report.lastHandshake.toInt), some (.natural report.keepalive.toNat),
          some (.natural report.receivedBytes.toNat), some (.natural report.sentBytes.toNat),
          some (.text report.publicKey), some (.text report.privateKey),
          some (.text report.presharedKey)] :=
    Json.fields?_record (by simp)
  simp only [ofJson?, hfields, Json.list?_texts, Json.signed64?_integer, Json.word16?_natural,
    Json.word64?_natural, Option.bind_eq_bind, Option.bind_some]
  rfl

theorem NameList.ofJson?_toJson (names : List String) : ofJson? (toJson names) = some names :=
  Json.list?_texts names

theorem Settings.ofJson?_toJson (settings : Settings) :
    ofJson? settings.toJson = some settings := by
  have hfields : settings.toJson.fields? ["ipv6_ack", "recv_buffer_size", "wireguard_family"] =
      some [some (.bool settings.acknowledgeIPv6), some (.natural settings.receiveBuffer.toNat),
        some (.text settings.tunnelFamily)] :=
    Json.fields?_record (by simp)
  simp only [ofJson?, hfields, fieldOr, Json.word64?_natural, Option.bind_eq_bind,
    Option.bind_some]
  rfl

theorem Failure.Kind.ofJson?_toJson (kind : Kind) : ofJson? kind.toJson = some kind := by
  have hform : ofForm? kind.form = some kind := by cases kind <;> rfl
  exact hform

end TunnelControl
