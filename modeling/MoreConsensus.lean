import MoreConsensus.Bootstrap.Failures
import MoreConsensus.Conflicts.Exact
import MoreConsensus.Conflicts.Intervals
import MoreConsensus.Conflicts.Retired
import MoreConsensus.Conflicts.Walks
import MoreConsensus.Deferral
import MoreConsensus.KV.Migration
import MoreConsensus.KV.Reads
import MoreConsensus.RecordLoads
import MoreConsensus.ReleaseOrder
import MoreConsensus.StoredCheckpoints
import MoreConsensus.Timers
import MoreConsensus.Wire.Chunks
import MoreConsensus.Wire.Scratch
