import ChiffonDB.Schema.TypeIdRun
import ChiffonDB.Storage.TornTail
import ChiffonDB.Storage.Discarded
import ChiffonDB.Storage.FlushCrash
import ChiffonDB.Storage.Prog
import ChiffonDB.Api.DeclaredCache
import ChiffonDB.Storage.WriteLengths
import ChiffonDB.Schema.RoundTrip
import ChiffonDB.Storage.LabelSpace
import ChiffonDB.Storage.LabelCut
import ChiffonDB.Cypher.MatchRows
import ChiffonDB.Storage.Corrupt
import ChiffonDB.Graph.View
import ChiffonDB.Graph.Linked
import ChiffonDB.Graph.Rewrites
import ChiffonDB.Graph.Pathfinding
import ChiffonDB.Cypher.PathRows
import ChiffonDB.Cypher.Return
import ChiffonDB.Schema.Conversion
import ChiffonDB.Graph.Effects
import ChiffonDB.Storage.CacheRun
import ChiffonDB.Storage.DirectoryRun
import ChiffonDB.Storage.SlottedRun
import ChiffonDB.Storage.HintRun
import ChiffonDB.Storage.SlotRun
import ChiffonDB.Storage.IndexRun
import ChiffonDB.Storage.RecordCodec
import ChiffonDB.Schema.ConvertBack
import ChiffonDB.Schema.StoredRun
import ChiffonDB.Traversal.Repeat
import ChiffonDB.Traversal.GroupBy
import ChiffonDB.Graph.PurgeEffects
import ChiffonDB.Graph.System
import ChiffonDB.Graph.Finding
import ChiffonDB.Graph.Unique
import ChiffonDB.Graph.Verify
import ChiffonDB.Database.Invariants
import ChiffonDB.Graph.Runs
import ChiffonDB.Commands.CsvDates
import ChiffonDB.Commands.InMemory
import ChiffonDB.Commands.CsvRun
import ChiffonDB.Commands.JsonRun
