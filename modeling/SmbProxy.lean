import SmbProxy.Analysis.AndxBounds
import SmbProxy.Analysis.AndxChain
import SmbProxy.Analysis.CompoundContainment
import SmbProxy.Analysis.ReceiveBounds
import SmbProxy.Analysis.Forwarding
import SmbProxy.Analysis.FrameRoom
import SmbProxy.Analysis.Framing
import SmbProxy.Analysis.Pool
import SmbProxy.Analysis.Handover
import SmbProxy.Analysis.Passthrough
import SmbProxy.Analysis.Url
import SmbProxy.Analysis.DefaultPort
import SmbProxy.Analysis.BareUrl
import SmbProxy.Analysis.UrlPort
import SmbProxy.Analysis.UrlBounds
import SmbProxy.Analysis.Utf8
import SmbProxy.Analysis.Base64
import SmbProxy.Analysis.HandlerCalls
import SmbProxy.Analysis.Normalize
import SmbProxy.Analysis.Base64Bounds
import SmbProxy.Analysis.HexEscape
import SmbProxy.Analysis.Regions
import SmbProxy.Analysis.Utf8Input
import SmbProxy.Analysis.Init
import SmbProxy.Analysis.Options
import SmbProxy.Analysis.Mime
import SmbProxy.Analysis.DateRoundTrip
import SmbProxy.Analysis.DateText
import SmbProxy.Analysis.Relaying
import SmbProxy.Analysis.Screening
import SmbProxy.Analysis.Verdict
import SmbProxy.Analysis.StartCall
import SmbProxy.Analysis.Recovery
import SmbProxy.Analysis.Descriptors
import SmbProxy.Analysis.CommandLine
import SmbProxy.Analysis.UrlMeaning
import SmbProxy.Analysis.Main
import SmbProxy.Analysis.Isolation
import SmbProxy.Analysis.Delivery
import SmbProxy.Analysis.Buffers
import SmbProxy.Analysis.Base64Number
import SmbProxy.Analysis.TakeUp
import SmbProxy.Analysis.Dialling
