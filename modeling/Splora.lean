import Splora.NewIndex.AddressSearch
import Splora.NewIndex.Crash
import Splora.NewIndex.CrashRecovery
import Splora.NewIndex.FollowTip
import Splora.NewIndex.Outspend
import Splora.NewIndex.BlkFile
import Splora.Rest.AddressSummary
import Splora.FrontAuth
import Splora.Queue.Caps
import Splora.Queue.Rate
import Splora.Queue.Interleaving
import Splora.Util.Fees
import Splora.Electrum.Transports
import Splora.NewIndex.SaneStats
import Splora.Util.Sigops
import Splora.Elements.ReportedSupply
import Splora.Elements.Registry
import Splora.Electrum.Headers
import Splora.Mwck.Notifications
import Splora.Electrum.Discovery
import Splora.Rest.BlockPages
import Splora.Electrum.History
import Splora.Frontend.Nip98
import Splora.Frontend.AddressParts
import Splora.Frontend.Calculator
import Splora.Frontend.Search
import Splora.NewIndex.Status
