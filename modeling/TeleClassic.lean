import TeleClassic.Proof.Map.Dirty
import TeleClassic.Proof.Server.Players
import TeleClassic.Proof.Server.Assertions
import TeleClassic.Proof.Cache.Loads
import TeleClassic.Proof.Cache.Memory
import TeleClassic.Proof.Cache.Edits
import TeleClassic.Proof.Cache.References
import TeleClassic.Proof.SendMap.References
import TeleClassic.Proof.Tasks.Stale
import TeleClassic.Proof.Tasks.Joins
import TeleClassic.Proof.Server.Completion
import TeleClassic.Proof.SendMap.Chunks
import TeleClassic.Proof.SendMap.Conditions
import TeleClassic.Proof.ThreadPool.Wakeups
import TeleClassic.Proof.Cache.SecondChance
import TeleClassic.Proof.Protocol.Integers
import TeleClassic.Proof.Protocol.Positions
import TeleClassic.Proof.Protocol.Strings
import TeleClassic.Proof.Compress
import TeleClassic.Proof.Map.Storage
import TeleClassic.Proof.Server.Buffer
import TeleClassic.Proof.Map.Order
import TeleClassic.Proof.Map.Agreement
import TeleClassic.Proof.ThreadPool.Fifo
import TeleClassic.Proof.ThreadPool.Fairness
import TeleClassic.Proof.Backlog.Chain
import TeleClassic.Proof.JoinRouter
import TeleClassic.Proof.AvlTree.Heartbeat
