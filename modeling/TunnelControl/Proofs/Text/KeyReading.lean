import TunnelControl.Failure
import TunnelControl.Proofs.Text.KeyText

namespace TunnelControl.Key

section

variable [Base64.Codec] (hcodec : Base64.Codec.Standard)

include hcodec

theorem exists_fault {text : String}
    (h : ∀ key : Key, Blank.strip text.toList ≠ key.text.toList) :
    ∃ fault, ofText text = .error fault ∧
      ((∀ data, Blank.strip text.toList ≠ Base64.Codec.encode data) ∧ fault = .notBase64 text ∨
        ∃ data, Blank.strip text.toList = Base64.Codec.encode data ∧ data.length ≠ 32 ∧
          fault = .wrongSize data.length) := by
  cases hdata : Base64.Codec.decode? (Blank.strip text.toList) with
  | none =>
      refine ⟨.notBase64 text, by rw [ofText, hdata], .inl ⟨?_, rfl⟩⟩
      intro data hencode
      rw [hcodec.decode?_iff_encode.mpr hencode] at hdata
      cases hdata
  | some data =>
      cases hkey : Octets.ofBytes? 32 data with
      | none =>
          refine ⟨.wrongSize data.length, by simp only [ofText, hdata, hkey], .inr ⟨data, ?_⟩⟩
          exact ⟨hcodec.decode?_iff_encode.mp hdata, Octets.ofBytes?_eq_none_iff.mp hkey, rfl⟩
      | some key =>
          have hread : ofText text = .ok key := by simp only [ofText, hdata, hkey]
          exact absurd ((ofText_eq_ok_iff hcodec).mp hread) (h key)

theorem eq_text_iff_exists_writes {key : Key} {chars : List Char} :
    chars = key.text.toList ↔ ∃ values, Base64.Writes values 1 chars key.bytes := by
  rw [text, String.toList_ofList, hcodec.eq_encode_iff]
  constructor
  · rintro ⟨values, fill, hwrites⟩
    have hlength := hwrites.length_eq
    have hfill := hwrites.fill_lt
    rw [key.size_eq] at hlength
    obtain rfl : fill = 1 := by omega
    exact ⟨values, hwrites⟩
  · rintro ⟨values, hwrites⟩
    exact ⟨values, 1, hwrites⟩

theorem length_text (key : Key) : key.text.length = 44 := by
  obtain ⟨values, hwrites⟩ := (eq_text_iff_exists_writes hcodec).mp (Eq.refl key.text.toList)
  have hlength := hwrites.length_eq
  rw [key.size_eq] at hlength
  rw [← String.length_toList, hwrites.chars_eq, List.length_append, List.length_map,
    List.length_replicate]
  omega

end

/-- A key is read from its base64 and from no other text, blanks at either end apart, and any other
text is refused as no key. The base64 of a key is 44 characters, the last a filling one. -/
theorem only_encodings_read [Base64.Codec] (hcodec : Base64.Codec.Standard) :
    (∀ text key, ofText text = .ok key ↔ Blank.strip text.toList = key.text.toList) ∧
    (∀ (key : Key) chars, chars = key.text.toList ↔
      ∃ values, Base64.Writes values 1 chars key.bytes) ∧
    (∀ key : Key, key.text.length = 44) ∧
    (∀ key : Key, ofText key.text = .ok key) ∧
    (∀ left right : Key, left.text = right.text → left = right) ∧
    (∀ left right key, ofText left = .ok key → ofText right = .ok key →
      Blank.strip left.toList = Blank.strip right.toList) ∧
    ∀ text, (∀ key : Key, Blank.strip text.toList ≠ key.text.toList) →
      ∃ fault, ofText text = .error fault ∧ (Failure.ofKeyFault fault).kind = .badKey ∧
        ((∀ data, Blank.strip text.toList ≠ Base64.Codec.encode data) ∧ fault = .notBase64 text ∨
          ∃ data, Blank.strip text.toList = Base64.Codec.encode data ∧ data.length ≠ 32 ∧
            fault = .wrongSize data.length) := by
  refine ⟨fun text key => ofText_eq_ok_iff hcodec,
    fun key chars => eq_text_iff_exists_writes hcodec, length_text hcodec, ofText_text hcodec,
    fun left right => text_injective hcodec, ?_, ?_⟩
  · intro left right key hleft hright
    rw [(ofText_eq_ok_iff hcodec).mp hleft, (ofText_eq_ok_iff hcodec).mp hright]
  · intro text h
    obtain ⟨fault, hfault, hwhy⟩ := exists_fault hcodec h
    exact ⟨fault, hfault, rfl, hwhy⟩

theorem only_encodings_read_despite_blanks :
    let key : Key := ⟨List.replicate 32 7, rfl⟩
    let text := "BwcHBwcHBwcHBwcHBwcHBwcHBwcHBwcHBwcHBwcHBwc="
    let spoilt := "BwcHBwcHBwcHBwcHBwcHBwcHBwcHBwcHBwcHBwcHBwd="
    Base64.Codec.Standard ∧ key.text = text ∧ ofText (" " ++ text ++ "\n") = .ok key ∧
      ∃ fault, ofText spoilt = .error fault ∧ (Failure.ofKeyFault fault).kind = .badKey := by
  intro key text spoilt
  have hcodec := Base64.Codec.standard
  obtain ⟨hread, -, -, -, -, -, hrefused⟩ := only_encodings_read hcodec
  have htext : key.text = text := by decide +kernel
  have hblanks : Blank.strip (" " ++ text ++ "\n").toList = key.text.toList := by decide +kernel
  have hspoilt : (ofText spoilt).toOption = none := by decide +kernel
  have hother : ∀ other : Key, Blank.strip spoilt.toList ≠ other.text.toList := by
    intro other hsame
    rw [(hread spoilt other).mpr hsame] at hspoilt
    cases hspoilt
  obtain ⟨fault, hfault, hkind, -⟩ := hrefused spoilt hother
  exact ⟨hcodec, htext, (hread _ key).mpr hblanks, fault, hfault, hkind⟩

end TunnelControl.Key
