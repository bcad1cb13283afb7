import Mst5Client.RecordAdversary
import Mst5Client.MediaWidths
import Mst5Client.StreamEnds
import Mst5Client.RequestOrder
import Mst5Client.RequestDeadlines
import Mst5Client.CborDecoding
import Mst5Client.EndpointGrammar
import Mst5Client.TransportSelection
import Mst5Client.RequestTargets
import Mst5Client.CommandRouting
import Mst5Client.QueryStrings
import Mst5Client.HeadReads
import Mst5Client.TransportGrammar
import Mst5Client.TunnelDelivery
import Mst5Client.TunnelDownload
import Mst5Client.AccountCredentials
import Mst5Client.AccountFailures
import Mst5Client.AccountCommands
import Mst5Client.AccountShutdown
import Mst5Client.OutboxSnapshots
import Mst5Client.IdentityRaces
import Mst5Client.SessionCell
import Mst5Client.BrowserOverlap
import Mst5Client.GroupMessages
import Mst5Client.HandshakeStreams
import Mst5Client.PendingOwners
import Mst5Client.FrameChannel
import Mst5Client.SendLimits
import Mst5Client.MapLookups
import Mst5Client.IdentitySaves
import Mst5Client.UploadExactness
import Mst5Client.MediaDiscipline
import Mst5Client.SealedDownloads
import Mst5Client.BrowserChunking
import Mst5Client.ImagePreviews
