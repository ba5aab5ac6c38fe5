import Bourse.Main
import Bourse.Service.Datagram
import Bourse.Service.Relay
import Bourse.Proofs.Amounts
import Bourse.Proofs.Moves
import Bourse.Proofs.NestedExecution
import Bourse.Proofs.Runs
import Bourse.Proofs.Requests
import Bourse.Proofs.Soundness
import Bourse.Proofs.Uncrossed
import Bourse.Proofs.WaitingStops
import Bourse.Proofs.Trades
import Bourse.Proofs.Lifecycle
import Bourse.Proofs.FaithfulReports
import Bourse.Proofs.Conservation
import Bourse.Proofs.NoFault
import Bourse.Proofs.Termination
import Bourse.Proofs.QueueContents
import Bourse.Proofs.StopReleases
import Bourse.Proofs.MirroredRuns
import Bourse.Proofs.Rejections
import Bourse.Proofs.TimePriority
import Bourse.Proofs.Publication
import Bourse.Proofs.Disclosure
import Bourse.Proofs.Pictures
import Bourse.Proofs.Deliveries
import Bourse.Proofs.Bystanders
import Bourse.Proofs.ByteOrder
import Bourse.Proofs.Registries
import Bourse.Proofs.Answers
import Bourse.Proofs.PriceRange
import Bourse.Proofs.Messages
import Bourse.Proofs.ClientRequests
import Bourse.Proofs.ReadBack
import Bourse.Proofs.PublishedDepth
import Bourse.Proofs.QuantityChanges
import Bourse.Proofs.IndexedQueues
import Bourse.Proofs.GreedyMatching
import Bourse.Proofs.Withdrawals
import Bourse.Proofs.OrderAccounts
import Bourse.Proofs.ReportStreams
import Bourse.Proofs.AddressedSecurities
import Bourse.Proofs.ConsoleSessions
