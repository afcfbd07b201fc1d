import TunnelControl.Interface.Addressing
import TunnelControl.Proofs.Address.MaskLength
import TunnelControl.Proofs.Address.SubnetReading

namespace TunnelControl

def InterfaceAddresses.slot (addresses : InterfaceAddresses) : Family → String
  | .v4 => addresses.ipv4
  | .v6 => addresses.ipv6

theorem InterfaceAddresses.slot_put (addresses : InterfaceAddresses) (subnet : Subnet)
    (family : Family) :
    (addresses.put subnet).slot family =
      if subnet.address.family = family then subnet.text else addresses.slot family := by
  obtain ⟨address, length⟩ := subnet
  cases address <;> cases family <;> rfl

namespace InterfaceEntry

structure Names (name : String) (family : Family) (entry : InterfaceEntry) : Prop where
  name_eq : entry.name = some name
  family_eq : entry.family = family.code
  address_ne : entry.address ≠ none

/-- The last entry that gives an address of the family to the interface. -/
def IsLast (name : String) (family : Family) (entries : List InterfaceEntry)
    (entry : InterfaceEntry) : Prop :=
  entry.Names name family ∧ ∃ front back, entries = front ++ entry :: back ∧
    ∀ later ∈ back, ¬ later.Names name family

theorem names_of_subnet? {name : String} {entry : InterfaceEntry} {subnet : Subnet}
    (hname : entry.name = some name) (h : entry.subnet? = some subnet) :
    entry.Names name subnet.address.family := by
  simp only [subnet?, Option.bind_eq_bind, Option.bind_eq_some_iff, Option.pure_def,
    Option.some.injEq] at h
  obtain ⟨data, hdata, family, hfamily, address, haddress, rfl⟩ := h
  have hkind : address.family = family := by
    cases family <;>
      obtain ⟨octets, -, rfl⟩ := Option.map_eq_some_iff.mp haddress <;> rfl
  have hnonempty : entry.address ≠ none := by
    rw [hdata]
    nofun
  refine ⟨hname, ?_, hnonempty⟩
  rw [hkind]
  rw [Family.ofCode?] at hfamily
  split at hfamily
  · rename_i hcode
    cases hfamily
    exact hcode
  · split at hfamily
    · rename_i hcode
      cases hfamily
      exact hcode
    · cases hfamily

theorem subnet?_eq {entry : InterfaceEntry} {subnet : Subnet} (hfits : subnet.Fits)
    (hfamily : entry.family = subnet.address.family.code)
    (haddress : entry.address = some subnet.address.bytes)
    (hmask : entry.mask =
      some (Mask.ofPrefixLength subnet.address.family.size subnet.length.toNat).bytes) :
    entry.subnet? = some subnet := by
  have hread := Address.leading?_bytes_append subnet.address []
  rw [List.append_nil] at hread
  have hoctets := Octets.leading?_append
    (Mask.ofPrefixLength subnet.address.family.size subnet.length.toNat) []
  rw [List.append_nil] at hoctets
  have hlength : maskLength subnet.address.family entry.mask = subnet.length.toNat := by
    rw [maskLength, hmask, Option.bind_some, hoctets]
    exact Mask.prefixLength_ofPrefixLength hfits
  simp only [subnet?, haddress, hfamily, Family.ofCode?_code, hread, hlength, Option.bind_eq_bind,
    Option.bind_some, Option.pure_def, UInt8.ofNat_toNat]

/-- The subnets that the entries give to the interface, in order. -/
def subnets (name : String) (entries : List InterfaceEntry) : List Subnet :=
  (entries.filter fun entry => entry.name = some name).filterMap subnet?

theorem slot_foldl_put {family : Family} {found : List Subnet}
    (h : ∀ subnet ∈ found, subnet.address.family ≠ family) (addresses : InterfaceAddresses) :
    (found.foldl InterfaceAddresses.put addresses).slot family = addresses.slot family := by
  induction found generalizing addresses with
  | nil => rfl
  | cons subnet found ih =>
      obtain ⟨hsubnet, hfound⟩ := List.forall_mem_cons.mp h
      rw [List.foldl_cons, ih hfound, InterfaceAddresses.slot_put, if_neg hsubnet]

theorem slot_addressesOf {name : String} {family : Family} {entries : List InterfaceEntry}
    {entry : InterfaceEntry} {subnet : Subnet} (hlast : IsLast name family entries entry)
    (hsubnet : entry.subnet? = some subnet) (hfamily : subnet.address.family = family) :
    (addressesOf name entries).slot family = subnet.text := by
  obtain ⟨hnames, front, back, rfl, hback⟩ := hlast
  have hsplit : subnets name (front ++ entry :: back) =
      subnets name front ++ subnet :: subnets name back := by
    rw [subnets, List.filter_append, List.filterMap_append, List.filter_cons,
      if_pos (decide_eq_true hnames.name_eq), List.filterMap_cons_some hsubnet]
    rfl
  have hother : ∀ later ∈ subnets name back, later.address.family ≠ family := by
    rintro later hmem rfl
    obtain ⟨other, hother, hlater⟩ := List.mem_filterMap.mp hmem
    obtain ⟨hmember, hname⟩ := List.mem_filter.mp hother
    exact hback other hmember (names_of_subnet? (of_decide_eq_true hname) hlater)
  have hread : addressesOf name (front ++ entry :: back) =
      (subnets name (front ++ entry :: back)).foldl InterfaceAddresses.put {} := rfl
  rw [hread, hsplit, List.foldl_append, List.foldl_cons, slot_foldl_put hother,
    InterfaceAddresses.slot_put, if_pos hfamily]

end InterfaceEntry

end TunnelControl
