import TunnelControl.Proofs.Netlink.AttributeReading

namespace TunnelControl.Netlink.Attribute

/-- An attribute is taken where its payload is all there, with its padding if that is. -/
theorem take_heading (type : UInt16) {payload : Bytes}
    (hfits : attributeHeader + payload.length ≤ attributeLimit) (rest : Bytes) :
    take ((heading type payload.length).bytes ++ (payload ++ rest)) =
      .ok (⟨type &&& typeMask, payload⟩,
        ((Bytes.cut? (Bytes.align payload.length - payload.length) rest).map (·.2)).getD rest) := by
  have hlength := toNat_length_heading type hfits
  have hsize : attributeHeader + payload.length - attributeHeader = payload.length := by
    omega
  have hcut : Bytes.cut? payload.length (payload ++ rest) = some (payload, rest) :=
    Bytes.cut?_append rfl _
  have hgap : Bytes.align (attributeHeader + payload.length) - (attributeHeader + payload.length) =
      Bytes.align payload.length - payload.length := Bytes.align_add_four_sub payload.length
  have hkind : (heading type payload.length).kind = type &&& typeMask := rfl
  rw [take, Header.take?_bytes_append]
  simp only [hlength, hsize, hcut, hgap, hkind]
  rw [if_neg (by omega)]
  cases Bytes.cut? (Bytes.align payload.length - payload.length) rest <;> rfl

structure Written where
  type : UInt16
  payload : Bytes
  filling : Bytes
  fits : attributeHeader + payload.length ≤ attributeLimit
  filled : (payload ++ filling).length = Bytes.align payload.length

namespace Written

def bytes (item : Written) : Bytes :=
  (heading item.type item.payload.length).bytes ++ (item.payload ++ item.filling)

def view (item : Written) : View :=
  ⟨item.type &&& typeMask, item.payload⟩

theorem next?_bytes_append (item : Written) (rest : Bytes) :
    next? (item.bytes ++ rest) = some (item.view, rest) := by
  rw [bytes, List.append_assoc]
  exact next?_filled item.type item.fits item.filled rest

theorem take_bytes_append (item : Written) (rest : Bytes) :
    take (item.bytes ++ rest) = .ok (item.view, rest) := by
  have hgap : item.filling.length = Bytes.align item.payload.length - item.payload.length := by
    have hfilled := item.filled
    rw [List.length_append] at hfilled
    omega
  rw [bytes, List.append_assoc, List.append_assoc, take_heading item.type item.fits,
    Bytes.cut?_append hgap]
  rfl

theorem views_bytes_append (item : Written) (rest : Bytes) :
    views (item.bytes ++ rest) = item.view :: views rest := by
  rw [views_eq, next?_bytes_append]

theorem views_flatMap_bytes_append (items : List Written) (rest : Bytes) :
    views (items.flatMap bytes ++ rest) = items.map view ++ views rest := by
  induction items with
  | nil => rfl
  | cons item items ih =>
      rw [List.flatMap_cons, List.append_assoc, views_bytes_append, ih]
      rfl

theorem views_flatMap_bytes (items : List Written) :
    views (items.flatMap bytes) = items.map view := by
  have happend := views_flatMap_bytes_append items []
  rwa [List.append_nil, views_nil, List.append_nil] at happend

end Written

end TunnelControl.Netlink.Attribute
