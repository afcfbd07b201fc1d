import TunnelControl.Address.Printer

/-!
The far end of a tunnel: an address, a port and, for the newer family, a flow and a scope that
are not part of the written form.
-/

namespace TunnelControl

inductive Endpoint where
  | v4 (address : IPv4) (port : UInt16)
  | v6 (address : IPv6) (port : UInt16) (flow scope : UInt32)
deriving DecidableEq, Repr

namespace Endpoint

def chars : Endpoint → List Char
  | .v4 address port => IPv4.chars address ++ ':' :: Decimal.digits port.toNat
  | .v6 address port _ _ =>
      '[' :: IPv6.chars address ++ ']' :: ':' :: Decimal.digits port.toNat

def text (endpoint : Endpoint) : String :=
  String.ofList endpoint.chars

def bytes : Endpoint → Bytes
  | .v4 address port =>
      Bytes.word16 Family.v4.code ++ Bytes.ofBigEndian 2 port.toNat ++ address.bytes ++
        List.replicate 8 0
  | .v6 address port flow scope =>
      Bytes.word16 Family.v6.code ++ Bytes.ofBigEndian 2 port.toNat ++
        Bytes.ofBigEndian 4 flow.toNat ++ address.bytes ++ Bytes.word32 scope

/-- The endpoint of a kernel record. A record of no known family, or one cut short, names none;
a scope that is not there is zero. -/
def ofBytes? (data : Bytes) : Option Endpoint := do
  let (code, rest) ← Bytes.word16? data
  let (port, rest) ← Bytes.cut? 2 rest
  let port := UInt16.ofNat (Bytes.bigEndian port)
  match ← Family.ofCode? code with
  | .v4 => return .v4 (← Octets.leading? 4 rest) port
  | .v6 =>
      let (flow, rest) ← Bytes.cut? 4 rest
      let address ← Octets.leading? 16 rest
      let scope := ((Bytes.word32? (rest.drop 16)).map (·.1)).getD 0
      return .v6 address port (UInt32.ofNat (Bytes.bigEndian flow)) scope

end Endpoint

end TunnelControl
