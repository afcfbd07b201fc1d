import TunnelControl.Device.Change
import TunnelControl.Device.Reply
import TunnelControl.Netlink.Family

namespace TunnelControl.Netlink.Socket

/-- The replies to a request for a device. A dump without any reply means that there is no such
device. -/
def deviceReplies (family : FamilyInfo) (name : String) : Exchange (List Bytes) := do
  let replies ← commandDump family.id TunnelFamily.getDevice TunnelFamily.version
    [.text DeviceAttribute.name name]
  if replies = [] then throw (.ofStatus Errno.noDevice)
  return replies

def device (family : FamilyInfo) (name : String) : Exchange Snapshot := do
  let replies ← deviceReplies family name
  modify fun socket => { socket with skipped := socket.skipped ++ Snapshot.skipped {} replies }
  Snapshot.ofReplies replies

def applyRequests (family : FamilyInfo) (name : String) : List DeviceChange → Exchange Unit
  | [] => return ()
  | change :: rest => do
      command family.id TunnelFamily.setDevice TunnelFamily.version (change.attributes name)
      applyRequests family name rest

def applyChange (family : FamilyInfo) (name : String) (change : DeviceChange) : Exchange Unit :=
  applyRequests family name change.requests

def removePeer (family : FamilyInfo) (name : String) (publicKey : Key) : Exchange Unit :=
  applyChange family name { peers := [{ publicKey, remove := true }] }

end TunnelControl.Netlink.Socket
