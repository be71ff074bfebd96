import Orbot.Foundation.System
import Orbot.Foundation.Disk
import Orbot.Foundation.DiskOperations
import Orbot.Foundation.DiskChanges
import Orbot.Foundation.DiskRemoval
import Orbot.Foundation.JavaString
import Orbot.Foundation.Directives
import Orbot.Foundation.TextParts
import Orbot.Foundation.UrlDecoder
import Orbot.Foundation.SortedSearch
import Orbot.Foundation.Table
import Orbot.Foundation.CommonSuffix
import Orbot.Foundation.Counting
import Orbot.Foundation.HashTable
import Orbot.Foundation.PrefixCode
import Orbot.Foundation.PartialFolds
import Orbot.OnionService.Columns
import Orbot.OnionService.Torrc
import Orbot.OnionService.Platform
import Orbot.OnionService.Hostnames
import Orbot.OnionService.Zip
import Orbot.OnionService.Backup
import Orbot.OnionService.TreeRemoval
import Orbot.OnionService.Dialogs
import Orbot.OnionService.Services
import Orbot.OnionService.Names
import Orbot.OnionService.DirectoryUniqueness
import Orbot.OnionService.Stability
import Orbot.OnionService.NameRefresh
import Orbot.OnionService.Deletion
import Orbot.OnionService.Archives
import Orbot.OnionService.RoundTrip
import Orbot.OnionService.RestoreV2
import Orbot.OnionService.Credentials
import Orbot.OnionService.ListAdapters
import Orbot.OnionService.Providers
import Orbot.OnionService.Addresses
import Orbot.OnionService.FailedRestore
import Orbot.OnionService.RestoreFrame
import Orbot.OnionService.Confinement
import Orbot.OnionService.ClientAuths
import Orbot.OnionService.CredentialBackups
import Orbot.OnionService.AppRequests
import Orbot.OnionService.PortMigration
import Orbot.Vpn.TorifiedApp
import Orbot.Vpn.AppRouting
import Orbot.Vpn.VpnManager
import Orbot.Vpn.Tunnel
import Orbot.Vpn.DnsHelper
import Orbot.Vpn.CurrentPorts
import Orbot.Vpn.AppManager
import Orbot.Vpn.MiniApps
import Orbot.Service.OrbotService
import Orbot.Service.Bridges
import Orbot.Service.Transports
import Orbot.Service.Settings
import Orbot.Service.ClientAuthFiles
import Orbot.Service.BridgeTransports
import Orbot.Service.BridgeText
import Orbot.Service.StoredTexts
import Orbot.Service.Injection
import Orbot.Service.Binding
import Orbot.Service.Connection
import Orbot.Service.Publication
import Orbot.Service.Listeners
import Orbot.Service.Bandwidth
import Orbot.Service.ExitNodes
import Orbot.Service.OutboundProxy
import Orbot.Service.TorrcFile
import Orbot.Service.ListenerPorts
import Orbot.Service.Reload
import Orbot.Onboarding.BridgeSharing
import Orbot.Onboarding.BridgeImport
import Orbot.Onboarding.Moat
import Orbot.Pdnsd.NameHash
import Orbot.Pdnsd.Names
import Orbot.Pdnsd.NameTexts
import Orbot.Pdnsd.Decompression
import Orbot.Pdnsd.Answers
import Orbot.Pdnsd.CacheLock
import Orbot.Pdnsd.Compression
import Orbot.Pdnsd.Composition
import Orbot.Pdnsd.ComposedAnswers
import Orbot.Pdnsd.Queries
import Orbot.Pdnsd.Records
import Orbot.Pdnsd.Replies
import Orbot.Foundation.MergeSort
import Orbot.Pdnsd.CacheLinks
import Orbot.Pdnsd.CacheRuns
