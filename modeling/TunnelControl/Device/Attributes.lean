import TunnelControl.Bytes

namespace TunnelControl

/-! The family. -/

namespace TunnelFamily

def version : UInt8 := 1

def getDevice : UInt8 := 0

def setDevice : UInt8 := 1

end TunnelFamily

/-! Attributes of a device. -/

namespace DeviceAttribute

def index : UInt16 := 1

def name : UInt16 := 2

def privateKey : UInt16 := 3

def publicKey : UInt16 := 4

def listenPort : UInt16 := 6

def peers : UInt16 := 8

end DeviceAttribute

/-! Attributes of a peer. -/

namespace PeerAttribute

def publicKey : UInt16 := 1

def presharedKey : UInt16 := 2

def flags : UInt16 := 3

def endpoint : UInt16 := 4

def keepalive : UInt16 := 5

def lastHandshake : UInt16 := 6

def receivedBytes : UInt16 := 7

def sentBytes : UInt16 := 8

def allowedIps : UInt16 := 9

end PeerAttribute

/-! Attributes of an allowed address range. -/

namespace SubnetAttribute

def family : UInt16 := 1

def address : UInt16 := 2

def length : UInt16 := 3

end SubnetAttribute

end TunnelControl
