import CirisPersist.Audit.Entry
import CirisPersist.Ceg.PrefixBounds
import CirisPersist.Federation.Blobs.Children
import CirisPersist.Federation.Blobs.Range
import CirisPersist.Federation.Consensus.Monotone
import CirisPersist.Federation.Consent.Covering
import CirisPersist.Federation.Consent.Frame
import CirisPersist.Federation.Consent.Partial
import CirisPersist.Federation.Consent.Range
import CirisPersist.Federation.Consent.Windows
import CirisPersist.Federation.Delegation.AsOf
import CirisPersist.Federation.Delegation.Chain
import CirisPersist.Federation.Delegation.Targets
import CirisPersist.Federation.Delegation.Term
import CirisPersist.Federation.Lineage.CacheKey
import CirisPersist.Federation.Lineage.Grow
import CirisPersist.Federation.LoadBearing.Exact
import CirisPersist.Federation.MeshConfig.Relief
import CirisPersist.Federation.MeshConfig.Restrict
import CirisPersist.Federation.Namespace.Fences
import CirisPersist.Federation.Quarantine.Door
import CirisPersist.Federation.Query.Walk
import CirisPersist.Federation.ReverseQuorum.Escalation
import CirisPersist.Federation.Roster.Authority
import CirisPersist.Federation.Roster.LoneRemover
import CirisPersist.Federation.Roster.Spans
import CirisPersist.Federation.Stream.ReadBack
import CirisPersist.Federation.Transform.Redaction
import CirisPersist.Federation.TrustRoot.Transit
import CirisPersist.Federation.TwoPath.DecideAll
import CirisPersist.Federation.TwoPath.Table
import CirisPersist.Ledgers.Balance
import CirisPersist.Ledgers.Witness
import CirisPersist.MaintenanceLocks
