import ObsBench.Bench.CsvRecords
import ObsBench.Bench.DebugBuild
import ObsBench.Bench.Percentile
import ObsBench.Bench.ResultsFile
import ObsBench.Client.Config
import ObsBench.Client.DeletionBatches
import ObsBench.Client.DeletionService
import ObsBench.Client.ErrorDetails
import ObsBench.Client.KeyView
import ObsBench.Client.ListingHeaders
import ObsBench.Client.Progress
import ObsBench.Client.SharedAppend
import ObsBench.Client.SharedDeletion
import ObsBench.Client.TestSuite
import ObsBench.Log.ConfigLog
