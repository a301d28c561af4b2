import GoBinacoin.Chain.HeaderMarkers
import GoBinacoin.Chain.Insertions
import GoBinacoin.Clique.Seal
import GoBinacoin.Clique.Tally
import GoBinacoin.Consensus.BaseFee
import GoBinacoin.Consensus.DifficultyU256
import GoBinacoin.Consensus.Uncles
import GoBinacoin.Core.BlockHash
import GoBinacoin.Core.Canary
import GoBinacoin.Discover.Runs
import GoBinacoin.Fetcher.Limits
import GoBinacoin.Fetcher.TxFetcher
import GoBinacoin.Freezer.Refinement
import GoBinacoin.Les.FlowControl
import GoBinacoin.Miner.Worker
import GoBinacoin.Params.Compatible
import GoBinacoin.Params.Rules
import GoBinacoin.Rlp.Reader
import GoBinacoin.Trie.Keys
import GoBinacoin.TrieSync.StateSync
import GoBinacoin.TxPool.ReorgCover
import GoBinacoin.Types.Envelope
import GoBinacoin.Types.Replay
import GoBinacoin.Vm.ReturnData
import GoBinacoin.Vm.StaticCalls
import GoBinacoin.Vm.Halting
