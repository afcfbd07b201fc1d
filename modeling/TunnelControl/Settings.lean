namespace TunnelControl

structure Settings where
  /-- Requests that assign an address of the newer family wait for an acknowledgement. -/
  acknowledgeIPv6 : Bool := false
  receiveBuffer : UInt64 := 32768
  tunnelFamily : String := "wireguard"
deriving DecidableEq, Repr

end TunnelControl
