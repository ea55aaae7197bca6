import Konduit.Lib.Trace
import Konduit.Lib.Cursor
import Konduit.Lib.Cbor
import Konduit.Lib.Plutus
import Konduit.Lib.Encoding
import Konduit.Lib.Codec
import Konduit.Lib.Arrays
import Konduit.Lib.Constrs
import Konduit.Crypto
import Konduit.Kernel.Types
import Konduit.Kernel.Common
import Konduit.Kernel.Sub
import Konduit.Kernel.Respond
import Konduit.Kernel.Evidence
import Konduit.Kernel.SubAccount
import Konduit.Kernel.Pends
import Konduit.Kernel.Lifecycle
import Konduit.Kernel.SubRuns
import Konduit.Kernel.RespondedRuns
import Konduit.Lib.Search
import Konduit.Kernel.Transaction
import Konduit.Kernel.Spend
import Konduit.Kernel.Coverage
import Konduit.Kernel.Batch
import Konduit.Kernel.ConsumerRuns
import Konduit.Data.Duration
import Konduit.Lib.BinarySearch
import Konduit.Data.Indexes
import Konduit.Data.SquashBody
import Konduit.Lib.Exposure
import Konduit.Data.SquashOrder
import Konduit.Data.Cheque
import Konduit.Data.SquashExact
import Konduit.Data.Squash
import Konduit.Data.Stage
import Konduit.Tx.Channel
import Konduit.Tx.Unlock
import Konduit.Data.Signed
import Konduit.Data.Messages
import Konduit.Tx2.Channel
import Konduit.Tx.Claim
import Konduit.Tx2.Sub
import Konduit.Tx2.Respond
import Konduit.Tx2.Unlock
import Konduit.Cardano.Slots
import Konduit.Data.Datum
import Konduit.Data.OnChain
import Konduit.Data.RoundTrip
import Konduit.Data.Codecs
import Konduit.Data.Decoders
import Konduit.Cardano.Transaction
import Konduit.Lib.OrdMap
import Konduit.Cardano.Value
import Konduit.Cardano.CheckedSub
import Konduit.Cardano.Cover
import Konduit.Cardano.Output
import Konduit.Cardano.Builder
import Konduit.Cardano.Balance
import Konduit.Cardano.FeeLoop
import Konduit.Tx.Batch
import Konduit.Tx2.Consumer
import Konduit.Tx.SteppedUtxos
import Konduit.Lib.Checked
import Konduit.Tx.Steps
import Konduit.Tx2.Totals
import Konduit.Tx.Totals
import Konduit.Tx2.StagedTx
import Konduit.Server.Channel
import Konduit.Data.Json
import Konduit.Bln.Client
import Konduit.Bln.Reveal
import Konduit.Lib.Reader
import Konduit.Bln.Stream
import Konduit.Tmp.PayBody
import Konduit.Tmp.ReceiptRuns
import Konduit.Tmp.Proposals
import Konduit.Server.Commitments
import Konduit.Server.Squashes
import Konduit.Lib.ByKey
import Konduit.Server.Retainers
import Konduit.Tx2.Fuel
import Konduit.Tx.ExpireRuns
import Konduit.Server.Solvency
import Konduit.Server.Quotes
import Konduit.Server.Proposals
import Konduit.Server.Store
import Konduit.Server.Unlocks
import Konduit.Client.L2
import Konduit.Round
import Konduit.Lib.Bignum
import Konduit.Cardano.PlutusData
import Konduit.Lib.Ratio
import Konduit.Cardano.ReferencedScripts
import Konduit.Cardano.MinValue
import Konduit.Cardano.Mint
import Konduit.Data.IndexesRuns
import Konduit.Server.CoIter
import Konduit.Server.SyncRetainers
import Konduit.Kernel.Life
import Konduit.Lib.Register
import Konduit.Lib.Signed
import Konduit.Tx.Agree
import Konduit.Tx2.Funding
import Konduit.Tx2.Staging
import Konduit.Lib.Greedy
import Konduit.Tx.Fuel
import Konduit.Tx.Funding
import Konduit.Server.Evidence
import Konduit.Kernel.Layout
import Konduit.Tx.ChannelUtxos
import Konduit.Tx.AnySub
import Konduit.Tx.Adaptor
import Konduit.Server.Claims
import Konduit.Tx.Consumer
import Konduit.Session.Addressbook
import Konduit.Session.Session
import Konduit.Tx2.Settling
import Konduit.Session.Staging
import Konduit.Kernel.Exit
