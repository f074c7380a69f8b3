import KubeSafeScheduler.Lib.Exact
import KubeSafeScheduler.Lib.Enumeration
import KubeSafeScheduler.Lib.Exchange
import KubeSafeScheduler.Lib.Overwrite
import KubeSafeScheduler.Lib.CountedLoop
import KubeSafeScheduler.Lib.Moments
import KubeSafeScheduler.Lib.Continuants
import KubeSafeScheduler.Lib.StringMap
import KubeSafeScheduler.Lib.GoFloat
import KubeSafeScheduler.Lib.BetaOrder
import KubeSafeScheduler.Lib.DecimalText
import KubeSafeScheduler.Lib.BinaryRounding
import KubeSafeScheduler.Lib.PyDecimal
import KubeSafeScheduler.Lib.PyText
import KubeSafeScheduler.Pigeon.Entities
import KubeSafeScheduler.Pigeon.Matrix
import KubeSafeScheduler.Pigeon.Inverse
import KubeSafeScheduler.Pigeon.DemandStats
import KubeSafeScheduler.Pigeon.CloudSystem
import KubeSafeScheduler.Pigeon.TableSystem
import KubeSafeScheduler.Pigeon.StateUpdater
import KubeSafeScheduler.Pigeon.Objective
import KubeSafeScheduler.Pigeon.Evaluator
import KubeSafeScheduler.Pigeon.History
import KubeSafeScheduler.Pigeon.Units
import KubeSafeScheduler.Pigeon.Sessions
import KubeSafeScheduler.Pigeon.Refusal
import KubeSafeScheduler.Pigeon.Accounting
import KubeSafeScheduler.Pigeon.Placements
import KubeSafeScheduler.Pigeon.Ranking
import KubeSafeScheduler.Pigeon.Policies
import KubeSafeScheduler.Pigeon.AdaptivePacking
import KubeSafeScheduler.Pigeon.Adapter
import KubeSafeScheduler.Pigeon.Requests
import KubeSafeScheduler.Pigeon.Views
import KubeSafeScheduler.Pigeon.Unbalance
import KubeSafeScheduler.Pigeon.Recorder
import KubeSafeScheduler.Pigeon.SessionChanges
import KubeSafeScheduler.Pigeon.Agent
import KubeSafeScheduler.Pigeon.RequestOrder
import KubeSafeScheduler.Pigeon.Reader
import KubeSafeScheduler.Pigeon.Blanks
import KubeSafeScheduler.Pigeon.Parser
import KubeSafeScheduler.Pigeon.Encoding
import KubeSafeScheduler.Pigeon.Accesses
import KubeSafeScheduler.Pigeon.Configuration
import KubeSafeScheduler.Pigeon.Concurrent
import KubeSafeScheduler.Safe.Stats
import KubeSafeScheduler.Safe.Overload
import KubeSafeScheduler.Safe.Monotonicity
import KubeSafeScheduler.Safe.Requests
import KubeSafeScheduler.Beta.BetaFunc
import KubeSafeScheduler.Beta.BetaDist
import KubeSafeScheduler.Beta.Convergents
import KubeSafeScheduler.KubeRL.Etcd
import KubeSafeScheduler.KubeRL.Monitor
import KubeSafeScheduler.KubeRL.Restarts
import KubeSafeScheduler.KubeRL.Rewards
import KubeSafeScheduler.KubeRL.Extender
import KubeSafeScheduler.KubeRL.Interleaving
import KubeSafeScheduler.Annotator.Quantity
import KubeSafeScheduler.Annotator.Assessor
import KubeSafeScheduler.Annotator.RequestedText
import KubeSafeScheduler.Annotator.Usage
import KubeSafeScheduler.Utils.Hashmap
import KubeSafeScheduler.Utils.PrimeSearch
import KubeSafeScheduler.Utils.HashmapRefinement
import KubeSafeScheduler.Utils.Hashset
import KubeSafeScheduler.Utils.Stringbuffer
import KubeSafeScheduler.Pigeon.Encoders
import KubeSafeScheduler.Pigeon.TableUpdater
import KubeSafeScheduler.Utils.Vector
import KubeSafeScheduler.Pigeon.HostedVectors
import KubeSafeScheduler.Server.Replies
