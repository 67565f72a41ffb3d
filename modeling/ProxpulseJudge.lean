import ProxpulseJudge.Lib.Text
import ProxpulseJudge.Lib.Scan
import ProxpulseJudge.Lib.Utf8
import ProxpulseJudge.Lib.Table
import ProxpulseJudge.Lib.Seq
import ProxpulseJudge.Lib.Steps
import ProxpulseJudge.Lib.Meter
import ProxpulseJudge.Lib.Shared
import ProxpulseJudge.Lib.Permit
import ProxpulseJudge.Lib.Json
import ProxpulseJudge.Lib.Exposition
import ProxpulseJudge.Lib.Program
import ProxpulseJudge.Lib.Owned
import ProxpulseJudge.Headers
import ProxpulseJudge.App
import ProxpulseJudge.SignedAnswer
import ProxpulseJudge.EdgeChain
import ProxpulseJudge.ClientIdentity
import ProxpulseJudge.ConfigLoad
import ProxpulseJudge.Http
import ProxpulseJudge.Metrics
import ProxpulseJudge.HostGrammar
import ProxpulseJudge.LeakScan
import ProxpulseJudge.LeakForms
import ProxpulseJudge.ForwardedLeak
import ProxpulseJudge.VerdictOrder
import ProxpulseJudge.Topology
import ProxpulseJudge.RateRuns
import ProxpulseJudge.Rdns
import ProxpulseJudge.RdnsRepeat
import ProxpulseJudge.Middleware
import ProxpulseJudge.Server
import ProxpulseJudge.RateExact
import ProxpulseJudge.BucketKey
import ProxpulseJudge.PublicUnicast
import ProxpulseJudge.EdgeNames
import ProxpulseJudge.HealthCheck
import ProxpulseJudge.Classify
import ProxpulseJudge.GeoPairs
import ProxpulseJudge.GeoOpen
import ProxpulseJudge.Attribution
import ProxpulseJudge.Answer
import ProxpulseJudge.Scrape
import ProxpulseJudge.RdnsAnswers
import ProxpulseJudge.Handlers
import ProxpulseJudge.Service
import ProxpulseJudge.ServiceAnswers
import ProxpulseJudge.ServiceLimits
import ProxpulseJudge.ServiceProgress
import ProxpulseJudge.ServiceScope
import ProxpulseJudge.Startup
import ProxpulseJudge.ServiceSigned
