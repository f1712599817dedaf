import Bongo.AuthLimitBound
import Bongo.BayesLedger
import Bongo.BlobPull
import Bongo.BlobSweep
import Bongo.ComposeSend
import Bongo.ConnLimit
import Bongo.DavConfined
import Bongo.DavWrites
import Bongo.DeliverCopies
import Bongo.DnssecRecovery
import Bongo.FeedSecrecy
import Bongo.FsmReplay
import Bongo.Grants
import Bongo.ImapExpunge
import Bongo.ImapMailbox
import Bongo.ImapNumbers
import Bongo.ImapWindows
import Bongo.ImapSearch
import Bongo.InternalAuth
import Bongo.MailSweep
import Bongo.MailboxCreation
import Bongo.MailboxHistory
import Bongo.MailboxReceipts
import Bongo.MboxScan
import Bongo.MessageUpdates
import Bongo.MtaSts
import Bongo.PopLines
import Bongo.QueueClients
import Bongo.RaftStore
import Bongo.RawMessage
import Bongo.RecurrenceReaders
import Bongo.RelayTLS
import Bongo.SecondFactors
import Bongo.SendAsClaims
import Bongo.SeriesWalks
import Bongo.SmtpRelay
import Bongo.SpoolRuns
import Bongo.SrsTokens
import Bongo.Threads
import Bongo.WebSessions
import Bongo.Worker
