import Mitigador.Lib.Run
import Mitigador.Lib.Streak
import Mitigador.Flow.Record
import Mitigador.Lib.KeyedMap
import Mitigador.Lib.SlotRing
import Mitigador.Aggregate.Bucket
import Mitigador.Aggregate.History
import Mitigador.Aggregate.LateTick
import Mitigador.Aggregate.Window
import Mitigador.Api.Channels
import Mitigador.Detect.Average
import Mitigador.Detect.Flicker
import Mitigador.Detect.Flood
import Mitigador.Detect.Grace
import Mitigador.Detect.LoadCatalog
import Mitigador.Detect.Protocol
import Mitigador.Ingest.Health
import Mitigador.Ingest.Producer
import Mitigador.Ingest.Sampling
import Mitigador.Aggregate.Skipped
import Mitigador.Api.Shutdown
import Mitigador.Detect.AddressForm
import Mitigador.Detect.Isolation
import Mitigador.Incident.Restart
import Mitigador.Incident.Drain
import Mitigador.Incident.Consistency
import Mitigador.Web.LiveTable
import Mitigador.Alert.FanOut
import Mitigador.Web.Convergence
import Mitigador.Aggregate.Views
import Mitigador.Detect.UpdateRule
import Mitigador.Detect.FullWindow
import Mitigador.Incident.ReadBack
import Mitigador.Api.RouterRows
import Mitigador.Api.Revocation
import Mitigador.Ingest.PoolRecords
import Mitigador.Config.Diff
import Mitigador.Detect.Interference
import Mitigador.Detect.Cooldown
import Mitigador.Detect.Lookup
import Mitigador.Ingest.Expansion
import Mitigador.Ingest.Accounting
import Mitigador.Ingest.HealthOrder
import Mitigador.Incident.Pagination
import Mitigador.Alert.Format
import Mitigador.Alert.Delivery
import Mitigador.Dns.Bound
import Mitigador.Flow.Recent
import Mitigador.Subscriber.Uptime
import Mitigador.Netowner.Owners
import Mitigador.Subscriber.AsValue
import Mitigador.Subscriber.AsValueText
import Mitigador.Subscriber.Host
import Mitigador.Subscriber.Poller
import Mitigador.Api.Analytics
import Mitigador.Api.SessionOrigin
import Mitigador.Api.CsrfToken
import Mitigador.Api.SessionEnd
import Mitigador.Web.Client
import Mitigador.Serve.Supervision
import Mitigador.Flowgen.Collector
import Mitigador.Serve.Traffic
import Mitigador.Dns.Freshness
import Mitigador.Web.TrafficPolling
import Mitigador.Serve.Subscribers
import Mitigador.Config.InForce
import Mitigador.Detect.Seconds
