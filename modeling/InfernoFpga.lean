import InfernoFpga.Packetizer.RingLevel
import InfernoFpga.Packetizer.Priming
import InfernoFpga.Packetizer.Due
import InfernoFpga.Packetizer.Pacing
import InfernoFpga.Packetizer.Payload
import InfernoFpga.Packetizer.Overtaken
import InfernoFpga.Firmware.FlowControl
import InfernoFpga.Firmware.FlowIds
import InfernoFpga.Firmware.Shape
import InfernoFpga.Firmware.FlowKeys
import InfernoFpga.Firmware.Eviction
import InfernoFpga.Firmware.PtpLock
import InfernoFpga.Firmware.Outliers
import InfernoFpga.Firmware.StepCount
import InfernoFpga.Firmware.Seeding
import InfernoFpga.Firmware.Rebind
import InfernoFpga.Firmware.WireFrame
import InfernoFpga.Mdns.RoundTrip
import InfernoFpga.Firmware.ArcRoundTrip
import InfernoFpga.Netload.Agreement
import InfernoFpga.Netload.LoaderSafe
import InfernoFpga.Mdns.Query
import InfernoFpga.Mdns.Browse
import InfernoFpga.Firmware.NetRx
import InfernoFpga.Mac.TxArbiter
import InfernoFpga.Mac.DstFilter
import InfernoFpga.Mac.RxStamps
import InfernoFpga.Firmware.NcoOwner
import InfernoFpga.Firmware.TalkerGate
import InfernoFpga.Firmware.GuardPhase
import InfernoFpga.Firmware.ArcProps
import InfernoFpga.Firmware.FlowRequest
import InfernoFpga.Firmware.CreatedGroups
import InfernoFpga.Mdns.Bundle
import InfernoFpga.Mdns.Budget
import InfernoFpga.Mdns.Oversize
import InfernoFpga.Firmware.UdpRoundTrip
import InfernoFpga.Firmware.Anchor
import InfernoFpga.Firmware.PtpArith
import InfernoFpga.Firmware.Uptime
import InfernoFpga.Firmware.PhaseArith
import InfernoFpga.Firmware.Telem
import InfernoFpga.Firmware.Capture
import InfernoFpga.Netload.ImageCrc
import InfernoFpga.Firmware.Subscribe
import InfernoFpga.Mdns.NameScan
import InfernoFpga.Packetizer.Ingress
import InfernoFpga.Packetizer.Integrity
import InfernoFpga.Firmware.ArpCache
import InfernoFpga.Firmware.LockStreak
import InfernoFpga.Firmware.MedianFilter
import InfernoFpga.Firmware.NcoRate
import InfernoFpga.Firmware.RxGateCtl
import InfernoFpga.Lib.Records
import InfernoFpga.Firmware.Info
import InfernoFpga.Firmware.Heartbeat
import InfernoFpga.Lib.Timer
import InfernoFpga.Firmware.InfoPoll
import InfernoFpga.Netload.Delivery
import InfernoFpga.Mdns.Announce
import InfernoFpga.Packetizer.Audio
import InfernoFpga.Firmware.Identity
import InfernoFpga.Firmware.ArcDelete
