import NetworkCmds.Cfilutil.Delay
import NetworkCmds.Cfilutil.Offsets
import NetworkCmds.Ecnprobe.Accesses
import NetworkCmds.Ecnprobe.Checksum
import NetworkCmds.Ecnprobe.Options
import NetworkCmds.Ecnprobe.Translate
import NetworkCmds.Ecnprobe.Verdict
import NetworkCmds.FrameDelay
import NetworkCmds.Kdumpd.Integrity
import NetworkCmds.Kdumpd.Netascii
import NetworkCmds.Kdumpd.Request
import NetworkCmds.Masks
import NetworkCmds.Netstat.Interval
import NetworkCmds.Netstat.Lladdr
import NetworkCmds.Netstat.Pcblist
import NetworkCmds.Ping.Bitrange
import NetworkCmds.Ping.Intact
import NetworkCmds.Ping.Names
import NetworkCmds.Ping.Reply6
import NetworkCmds.Ping.Sweep6
import NetworkCmds.Rarpd.Interfaces
import NetworkCmds.Rtadvd.Area
import NetworkCmds.Rtadvd.Batch
import NetworkCmds.Rtadvd.Compare
import NetworkCmds.Rtadvd.Fallback
import NetworkCmds.Rtadvd.Fields
import NetworkCmds.Rtadvd.Iflist
import NetworkCmds.Rtadvd.Lifetimes
import NetworkCmds.Rtadvd.Match
import NetworkCmds.Rtadvd.Minimum
import NetworkCmds.Rtadvd.SearchList
import NetworkCmds.Rtmsg.Network
import NetworkCmds.Rtmsg.Raw
import NetworkCmds.Rtmsg.Space
import NetworkCmds.Rtsold.Solicit
import NetworkCmds.Traceroute.AsLookup
import NetworkCmds.Traceroute.Checksum
import NetworkCmds.Traceroute.Stale
import NetworkCmds.Traceroute6.Matching
