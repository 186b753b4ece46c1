import TeeProxy.Authority
import TeeProxy.Backends
import TeeProxy.Boot
import TeeProxy.Custody
import TeeProxy.Direct
import TeeProxy.Forward
import TeeProxy.Gcs.Calls
import TeeProxy.Gcs.Mirror
import TeeProxy.Gcs.Storage
import TeeProxy.Indexer
import TeeProxy.Info.Attestation
import TeeProxy.Info.Refresh
import TeeProxy.Lib.Ballot
import TeeProxy.Lib.Expiry
import TeeProxy.Lib.Fallible
import TeeProxy.Lib.GoMap
import TeeProxy.Lib.GoPanic
import TeeProxy.Lib.GoTime
import TeeProxy.Lib.HashChain
import TeeProxy.Lib.Hex
import TeeProxy.Lib.History
import TeeProxy.Lib.Lts
import TeeProxy.Lib.Redelivery
import TeeProxy.Lib.Redis
import TeeProxy.Lib.RwMutex
import TeeProxy.Lib.Scan
import TeeProxy.Lib.Watermark
import TeeProxy.MachinePath.Governed
import TeeProxy.MachinePath.Lists
import TeeProxy.MachinePath.Order
import TeeProxy.MachinePath.Polling
import TeeProxy.MachinePath.Safe
import TeeProxy.MachinePath.Signatures
import TeeProxy.Meta
import TeeProxy.Meta.Roster
import TeeProxy.Policy.Initialize
import TeeProxy.Policy.Lockstep
import TeeProxy.Policy.PublicKeys
import TeeProxy.Policy.Restart
import TeeProxy.Policy.Signatures
import TeeProxy.Policy.Update
import TeeProxy.Policy.Windows
import TeeProxy.Queue.ActionQueues
import TeeProxy.Queue.Bodies
import TeeProxy.Queue.Conservation
import TeeProxy.Queue.Fifo
import TeeProxy.Queue.Outcomes
import TeeProxy.Queue.Provenance
import TeeProxy.Queue.Shared
import TeeProxy.RedisKeys
import TeeProxy.RedisStorage
import TeeProxy.Result.Deadline
import TeeProxy.Result.Override
import TeeProxy.Result.Pipeline
import TeeProxy.Result.Process
import TeeProxy.Result.SecondDelivery
import TeeProxy.Result.Wait
import TeeProxy.Rollover
import TeeProxy.Server.KeyOrder
import TeeProxy.Server.Polls
import TeeProxy.Server.Requests
import TeeProxy.Server.Results
import TeeProxy.Server.Served
import TeeProxy.Storage
import TeeProxy.Types
import TeeProxy.Voting.Actions
import TeeProxy.Voting.Admission
import TeeProxy.Voting.Authorised
import TeeProxy.Voting.Box
import TeeProxy.Voting.Deadlock
import TeeProxy.Voting.Effects
import TeeProxy.Voting.Emission
import TeeProxy.Voting.Evolution
import TeeProxy.Voting.Heap
import TeeProxy.Voting.History
import TeeProxy.Voting.Interleaving
import TeeProxy.Voting.Life
import TeeProxy.Voting.Limiter
import TeeProxy.Voting.Linear
import TeeProxy.Voting.Locks
import TeeProxy.Voting.Order
import TeeProxy.Voting.Participation
import TeeProxy.Voting.Receipts
import TeeProxy.Voting.Rejected
import TeeProxy.Voting.Residency
import TeeProxy.Voting.Round
import TeeProxy.Voting.Slots
import TeeProxy.Voting.Status
import TeeProxy.Voting.Statuses
import TeeProxy.Voting.Storage
import TeeProxy.Voting.Tally
import TeeProxy.Voting.Totals
import TeeProxy.Voting.Traced
import TeeProxy.Wallets.Backups
import TeeProxy.Wallets.Cache
import TeeProxy.Wallets.Cycle
import TeeProxy.Wallets.Loop
import TeeProxy.Wallets.Races
import TeeProxy.Wallets.Representation
import TeeProxy.Wallets.Sync
