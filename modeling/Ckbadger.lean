import Ckbadger.Store.SporeOutpoints
import Ckbadger.Writer.DaoObservation
import Ckbadger.Writer.EntityStatsPartition
import Ckbadger.Writer.StableppDetector
import Ckbadger.Sync.CellPayloads
import Ckbadger.Sync.DaoRollback
import Ckbadger.Sync.DerivedRows
import Ckbadger.Sync.FiberRollbackTheorems
import Ckbadger.Sync.LiveRollbackTheorems
import Ckbadger.Sync.RollbackEpochs
import Ckbadger.Sync.RollbackMiners
import Ckbadger.Sync.SummaryRuns
import Ckbadger.Sync.TokenRollback
import Ckbadger.Api.Broadcaster
import Ckbadger.Api.PoolMirror
import Ckbadger.Api.StoreReadinessTheorems
import Ckbadger.Bulk.DaoOwnerTheorems
import Ckbadger.Bulk.DaoTimelineTheorems
import Ckbadger.Bulk.FiberHistory
import Ckbadger.Bulk.SequencerRun
import Ckbadger.Cli.IndexerSequencer
import Ckbadger.Common.DaoTheorems
