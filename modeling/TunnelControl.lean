import TunnelControl.Address.Endpoint
import TunnelControl.Address.Mask
import TunnelControl.Address.Subnet
import TunnelControl.Device.Channel
import TunnelControl.Interface.Addressing
import TunnelControl.Json.Forms
import TunnelControl.Key.Basic
import TunnelControl.Link
import TunnelControl.Netlink.Family
import TunnelControl.Tunnel.Management
import TunnelControl.Tunnel.NameList
import TunnelControl.Proofs.Netlink.AttributeReading
import TunnelControl.Proofs.Netlink.Framing
import TunnelControl.Proofs.Netlink.Command
import TunnelControl.Proofs.Device.Packing
import TunnelControl.Proofs.Netlink.ExchangeRun
import TunnelControl.Proofs.Device.RequestSize
import TunnelControl.Proofs.Device.PeerJoining
import TunnelControl.Proofs.Device.RequestReading
import TunnelControl.Proofs.Device.RequestReadBack
import TunnelControl.Proofs.Device.RequestEffect
import TunnelControl.Proofs.Device.FixedRecords
import TunnelControl.Proofs.Device.DumpReading
import TunnelControl.Proofs.Netlink.Asking
import TunnelControl.Proofs.Netlink.DumpStream
import TunnelControl.Proofs.Netlink.Session
import TunnelControl.Proofs.Netlink.Acknowledgement
import TunnelControl.Proofs.Device.StopAndWait
import TunnelControl.Proofs.Netlink.Frames
import TunnelControl.Proofs.Tunnel.Requests
import TunnelControl.Proofs.Tunnel.RequestMaking
import TunnelControl.Proofs.Tunnel.SentFrames
import TunnelControl.Proofs.Netlink.TreeReading
import TunnelControl.Proofs.Netlink.DraftCalls
import TunnelControl.Proofs.Netlink.PackedMessages
import TunnelControl.Proofs.Netlink.CutDatagrams
import TunnelControl.Proofs.Netlink.DumpFailures
import TunnelControl.Proofs.Netlink.WrittenAttributes
import TunnelControl.Proofs.Text.Base64
import TunnelControl.Proofs.Text.KeyText
import TunnelControl.Proofs.Text.Numerals
import TunnelControl.Proofs.Address.AddressReading
import TunnelControl.Proofs.Address.SubnetReading
import TunnelControl.Proofs.Address.AddressSize
import TunnelControl.Proofs.Interface.AddressListing
import TunnelControl.Proofs.Tunnel.ChangeFrames
import TunnelControl.Proofs.Tunnel.PeerRemoval
import TunnelControl.Proofs.Device.PeerRecords
import TunnelControl.Proofs.Tunnel.PeerAddition
import TunnelControl.Proofs.Netlink.AttributeTaking
import TunnelControl.Proofs.Tunnel.LinkReading
import TunnelControl.Proofs.Tunnel.LinkListing
import TunnelControl.Proofs.Interface.Assignment
import TunnelControl.Proofs.Tunnel.Stages
import TunnelControl.Proofs.Tunnel.Courses
import TunnelControl.Proofs.Host.HostRun
import TunnelControl.Proofs.Netlink.Awaiting
import TunnelControl.Proofs.Interface.AddressExchange
import TunnelControl.Proofs.Interface.NamedInterface
import TunnelControl.Proofs.Interface.AssignmentSteps
import TunnelControl.Proofs.Interface.AssignmentCourse
import TunnelControl.Proofs.Tunnel.Transmissions
import TunnelControl.Proofs.Tunnel.TunnelCreation
import TunnelControl.Proofs.Netlink.SteadyAnswers
import TunnelControl.Proofs.Tunnel.SteadyExchanges
import TunnelControl.Proofs.Tunnel.DeviceListing
import TunnelControl.Proofs.Device.PeerRuns
import TunnelControl.Proofs.Device.UnknownAttributes
import TunnelControl.Proofs.Device.FullRequests
import TunnelControl.Proofs.Address.SubnetGrammar
import TunnelControl.Proofs.Address.MaskLength
import TunnelControl.Proofs.Text.KeyReading
import TunnelControl.Proofs.Text.ReplacedText
import TunnelControl.Proofs.Tunnel.NameListReading
import TunnelControl.Proofs.Interface.SlotReading
import TunnelControl.Proofs.Netlink.PackedAttributes
import TunnelControl.Proofs.Device.HandshakeTimes
import TunnelControl.Proofs.Tunnel.FamilySearch
import TunnelControl.Proofs.Json.FormReading
import TunnelControl.Proofs.Json.TokenReading
import TunnelControl.Proofs.Json.TextReading
