import ComputerNetworks.Rdtp.Checksum
import ComputerNetworks.Rdtp.Table
import ComputerNetworks.Rdtp.Agreement
import ComputerNetworks.Rdtp.Progress
import ComputerNetworks.Rdtp.Isolation
import ComputerNetworks.Rdtp.Wrap
import ComputerNetworks.Lib.Walk
import ComputerNetworks.Dns.Soundness
import ComputerNetworks.Dns.NameSafety
import ComputerNetworks.Dns.RoundTrip
import ComputerNetworks.Dns.Validation
import ComputerNetworks.Dns.Referral
import ComputerNetworks.Smtp.Framing
import ComputerNetworks.Smtp.Lockstep
import ComputerNetworks.Smtp.Transparency
import ComputerNetworks.Smtp.Injection
import ComputerNetworks.Proxy.Forward
import ComputerNetworks.Proxy.Frame
import ComputerNetworks.Proxy.Transparent
import ComputerNetworks.Proxy.Hits
import ComputerNetworks.Proxy.Statistics
import ComputerNetworks.Proxy.Refinement
import ComputerNetworks.Proxy.Confined
import ComputerNetworks.Proxy.Reading
import ComputerNetworks.Web.Responses
import ComputerNetworks.Web.Segments
import ComputerNetworks.Pinger.Deaths
import ComputerNetworks.Pinger.Heartbeat
import ComputerNetworks.Pinger.Matching
import ComputerNetworks.Exchange.Session
import ComputerNetworks.Exchange.Shutdown
import ComputerNetworks.Exchange.Serving
import ComputerNetworks.Rdtp.Timing
import ComputerNetworks.Rdtp.Counters
import ComputerNetworks.Web.Delivery
import ComputerNetworks.Proxy.Sending
import ComputerNetworks.Dns.Contacts
import ComputerNetworks.Rdtp.Distance
import ComputerNetworks.Smtp.Mailbox
import ComputerNetworks.Dns.Trails
import ComputerNetworks.Pinger.Together
import ComputerNetworks.Rdtp.Arguments
import ComputerNetworks.Pinger.Arguments
import ComputerNetworks.Dns.Program
import ComputerNetworks.Proxy.Descriptors
import ComputerNetworks.Proxy.Apart
