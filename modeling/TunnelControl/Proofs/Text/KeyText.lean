import TunnelControl.Key.Basic
import TunnelControl.Proofs.Text.Base64

namespace TunnelControl

theorem Blank.strip_of_not_isBlank {chars : List Char}
    (h : ∀ char ∈ chars, isBlank char = false) : strip chars = chars := by
  have hkept : ∀ kept : List Char, (∀ char ∈ kept, isBlank char = false) →
      kept.dropWhile isBlank = kept := by
    intro kept hblank
    cases kept with
    | nil => rfl
    | cons first rest => rw [List.dropWhile_cons_of_neg (by simp [hblank])]
  rw [strip, hkept chars h, hkept chars.reverse, List.reverse_reverse]
  exact fun char hmem => h char (List.mem_reverse.mp hmem)

namespace Key

variable [Base64.Codec] (hcodec : Base64.Codec.Standard)

include hcodec

theorem ofText_eq_ok_iff {text : String} {key : Key} :
    ofText text = .ok key ↔ Blank.strip text.toList = key.text.toList := by
  rw [Key.text, String.toList_ofList, ← hcodec.decode?_iff_encode, ofText]
  cases Base64.Codec.decode? (Blank.strip text.toList) with
  | none => simp
  | some data =>
      rw [Option.some.injEq, eq_comm (a := data), ← Octets.ofBytes?_eq_some_iff]
      dsimp only
      cases Octets.ofBytes? 32 data <;> simp

theorem ofText_text (key : Key) : ofText key.text = .ok key := by
  rw [ofText_eq_ok_iff hcodec, text, String.toList_ofList]
  exact Blank.strip_of_not_isBlank hcodec.not_isBlank_of_mem_encode

theorem text_injective {left right : Key} (h : left.text = right.text) : left = right := by
  have hread := (ofText_text hcodec left).symm.trans
    ((congrArg ofText h).trans (ofText_text hcodec right))
  exact Except.ok.inj hread

end Key

end TunnelControl
