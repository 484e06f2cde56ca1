import MedorCoin.Abi.Encode
import MedorCoin.Accounts.Commit
import MedorCoin.Accounts.Keys
import MedorCoin.Accounts.Updates
import MedorCoin.ApiKey.Lifecycle
import MedorCoin.ApiKey.Manager
import MedorCoin.Auth.Sessions
import MedorCoin.Bridge.Payment
import MedorCoin.Bridge.Relayer
import MedorCoin.Cache.Forgetting
import MedorCoin.Codec.Canonical
import MedorCoin.Codec.Checksum
import MedorCoin.Codec.Frame
import MedorCoin.Codec.Payload
import MedorCoin.ConnectionPool.Callbacks
import MedorCoin.ConnectionPool.Custody
import MedorCoin.ConnectionPool.Pool
import MedorCoin.Consensus.Targets
import MedorCoin.Cpp.BigEndian
import MedorCoin.Cpp.Checked
import MedorCoin.Cpp.Keccak
import MedorCoin.Cpp.LittleEndian
import MedorCoin.Cpp.Loop
import MedorCoin.Cpp.Numbers
import MedorCoin.Cpp.Text
import MedorCoin.Crash.FileSystem
import MedorCoin.Crash.Prog
import MedorCoin.Crc.Residue
import MedorCoin.Evm.FeeSettlement
import MedorCoin.Evm.Records
import MedorCoin.Evm.Selfdestruct
import MedorCoin.Evm.Slots
import MedorCoin.Js.BigInt
import MedorCoin.Js.Buffer
import MedorCoin.Js.Bytes
import MedorCoin.Js.Error
import MedorCoin.Js.Json
import MedorCoin.Js.JsonParse
import MedorCoin.Js.Lines
import MedorCoin.Js.Map
import MedorCoin.Js.Sha256
import MedorCoin.Js.Text
import MedorCoin.Js.Utf8Decoder
import MedorCoin.Keccak.Divergence
import MedorCoin.Keccak.Lanes
import MedorCoin.Keccak.Reference
import MedorCoin.Ledger.Disk
import MedorCoin.Ledger.Outputs
import MedorCoin.Ledger.Table
import MedorCoin.Locker.Contract
import MedorCoin.Locker.Solvency
import MedorCoin.Logger.HashChain
import MedorCoin.Medac.Block
import MedorCoin.Medac.Chain
import MedorCoin.Medac.Issuance
import MedorCoin.Medac.Journal
import MedorCoin.Medac.Ledger
import MedorCoin.Medac.Limits
import MedorCoin.Medac.LongChain
import MedorCoin.Medac.Mempool
import MedorCoin.Medac.Mine
import MedorCoin.Medac.Miners
import MedorCoin.Medac.Nonces
import MedorCoin.Medac.PeerTable
import MedorCoin.Medac.Peers
import MedorCoin.Medac.Prefix
import MedorCoin.Medac.Reachable
import MedorCoin.Medac.Replay
import MedorCoin.Medac.Retarget
import MedorCoin.Medac.Session
import MedorCoin.Medac.State
import MedorCoin.Medac.Store
import MedorCoin.Medac.StoreCrash
import MedorCoin.Medac.StoreOpen
import MedorCoin.Medac.StoreReopen
import MedorCoin.Medac.StoreReplace
import MedorCoin.Medac.StoreWrite
import MedorCoin.Medac.StoredChain
import MedorCoin.Medac.Supply
import MedorCoin.Medac.Sync
import MedorCoin.Medac.Target
import MedorCoin.Medac.TipHash
import MedorCoin.Medac.Transaction
import MedorCoin.Merkle.Fold
import MedorCoin.Merkle.Pool
import MedorCoin.Merkle.Proof
import MedorCoin.Merkle.Roots
import MedorCoin.Mining.Commitment
import MedorCoin.Mining.Confirmations
import MedorCoin.Mining.Orchestrator
import MedorCoin.Mining.Work
import MedorCoin.Net.Base64
import MedorCoin.Net.BlockMessage
import MedorCoin.Net.Broadcast
import MedorCoin.Net.Dedup
import MedorCoin.Net.Handler
import MedorCoin.Net.PeerStore
import MedorCoin.Net.PeerStoreChecksum
import MedorCoin.Net.PeerStoreFile
import MedorCoin.Net.RelayText
import MedorCoin.Net.ReplayTrace
import MedorCoin.Net.ReplayWindow
import MedorCoin.Net.ShardGrowth
import MedorCoin.Net.StaleEviction
import MedorCoin.Net.WireCommitment
import MedorCoin.Net.WireTransaction
import MedorCoin.NetManager.ConnectionCount
import MedorCoin.NetManager.LockDiscipline
import MedorCoin.Network.Inbound
import MedorCoin.Network.LockDiscipline
import MedorCoin.Network.Peers
import MedorCoin.Network.PendingQueue
import MedorCoin.Network.Sha256
import MedorCoin.Network.WorkerPool
import MedorCoin.Node.AccountDB
import MedorCoin.Node.Application
import MedorCoin.Node.Authorisation
import MedorCoin.Node.Balances
import MedorCoin.Node.BaseFee
import MedorCoin.Node.Block
import MedorCoin.Node.BlockParse
import MedorCoin.Node.BlockText
import MedorCoin.Node.Blockchain
import MedorCoin.Node.Coinbase
import MedorCoin.Node.Commitment
import MedorCoin.Node.Completeness
import MedorCoin.Node.Effect
import MedorCoin.Node.FailedBlock
import MedorCoin.Node.ForkChoice
import MedorCoin.Node.HeaderHash
import MedorCoin.Node.Inflation
import MedorCoin.Node.Mempool
import MedorCoin.Node.MempoolAccounting
import MedorCoin.Node.MempoolCapacity
import MedorCoin.Node.MempoolLocks
import MedorCoin.Node.MempoolOrder
import MedorCoin.Node.MempoolPersist
import MedorCoin.Node.MempoolValue
import MedorCoin.Node.NetworkFee
import MedorCoin.Node.NonceSearch
import MedorCoin.Node.ParallelSearch
import MedorCoin.Node.ProofOfWork
import MedorCoin.Node.Reachable
import MedorCoin.Node.Restart
import MedorCoin.Node.Supply
import MedorCoin.Node.Transaction
import MedorCoin.Node.UtxoSet
import MedorCoin.Node.Validation
import MedorCoin.P2p.Framing
import MedorCoin.Payment.Commit
import MedorCoin.PaymentWatcher.Custody
import MedorCoin.PaymentWatcher.Watcher
import MedorCoin.RateLimit.Excess
import MedorCoin.RedisEngine.Engine
import MedorCoin.Rlp.Canonical
import MedorCoin.Rlp.Coding
import MedorCoin.Rlp.Grammar
import MedorCoin.Rlp.Safety
import MedorCoin.Search.Loops
import MedorCoin.Solidity.Call
import MedorCoin.Solidity.Erc20
import MedorCoin.Storage.Engine
import MedorCoin.Storage.Recovery
import MedorCoin.Storage.Snapshot
import MedorCoin.Storage.Wal
import MedorCoin.Token.Contract
import MedorCoin.Token.Rewards
import MedorCoin.TransactionEngine.Confirmation
import MedorCoin.TransactionEngine.Engine
import MedorCoin.TransactionEngine.Queue
import MedorCoin.TransactionEngine.Recovery
import MedorCoin.TransactionEngine.Rollback
import MedorCoin.Transition.LockTrace
import MedorCoin.Transition.Run
import MedorCoin.Transition.Tasks
import MedorCoin.Transition.Workers
import MedorCoin.Utxo.Block
import MedorCoin.Utxo.Caches
import MedorCoin.Utxo.Calls
import MedorCoin.Utxo.Ledger
import MedorCoin.Utxo.Progress
import MedorCoin.Wallet.Base58
import MedorCoin.Wallet.Bip39
import MedorCoin.Wallet.EvmSign
