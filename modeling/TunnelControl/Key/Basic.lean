import TunnelControl.Key.Curve
import TunnelControl.Text.Base64
import TunnelControl.Text.Blank

namespace TunnelControl

abbrev Key := Octets 32

namespace Key

/-- The lowest three bits and the highest bit are cleared and the second highest is set. -/
def clampBytes (data : Bytes) : Bytes :=
  (data.modify 0 (· &&& 248)).modify 31 fun byte => byte &&& 127 ||| 64

def clamp (key : Key) : Key :=
  ⟨clampBytes key.bytes, by simp [clampBytes, key.size_eq]⟩

instance : Curve.Product where
  ofBase factor :=
    let point := Curve.multiple (Bytes.littleEndian (clampBytes factor.bytes)) Curve.base
    ⟨Bytes.ofLittleEndian 32 point, Bytes.length_ofLittleEndian _ _⟩

def publicKey [Curve.Product] (key : Key) : Key :=
  Curve.Product.ofBase key

def text [Base64.Codec] (key : Key) : String :=
  String.ofList (Base64.Codec.encode key.bytes)

inductive Fault where
  | notBase64 (text : String)
  | wrongSize (size : Nat)
deriving DecidableEq, Repr

def Fault.message : Fault → String
  | .notBase64 text => s!"{text}: base64"
  | .wrongSize size => s!"expected 32 bytes, got {size}"

/-- The key that a text writes; blanks around it do not count. -/
def ofText [Base64.Codec] (text : String) : Except Fault Key :=
  match Base64.Codec.decode? (Blank.strip text.toList) with
  | none => .error (.notBase64 text)
  | some data =>
      match Octets.ofBytes? 32 data with
      | some key => .ok key
      | none => .error (.wrongSize data.length)

end Key

end TunnelControl
