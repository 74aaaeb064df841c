import BuildboxCommon.ReloadTokenAuthenticator
import BuildboxCommon.Metrics.ParseHostPort
import BuildboxCommon.FileUtils.FileMtime
import BuildboxCommon.FileUtils.AtomicWrites
import BuildboxCommon.Posix.Agreement
import BuildboxCommon.FileUtils.DeleteRecursively
import BuildboxCommon.Shared.DirectoryTree
import BuildboxCommon.Posix.UnlinkAt
import BuildboxCommon.FileUtils.CopyFile
import BuildboxCommon.FileUtils.BelowDirectory
import BuildboxCommon.Runner.CreateOutputDirectories
import BuildboxCommon.FileUtils.CreateDirectoriesInPath
import BuildboxCommon.CommandLine.Faithful
import BuildboxCommon.CommandLine.Vectors
import BuildboxCommon.CommandLine.Spelling
import BuildboxCommon.Runner.UploadOutputs
import BuildboxCommon.Shared.Simulation
import BuildboxCommon.LogStream.ClientContexts
import BuildboxCommon.Client.DownloadBlobsToMap
import BuildboxCommon.FileUtils.MinimalRelative
import BuildboxCommon.FileUtils.RelativeSegments
import BuildboxCommon.FileUtils.MakePathRelative
import BuildboxCommon.MergeUtil.Associativity
import BuildboxCommon.MergeUtil.NewBlobs
import BuildboxCommon.MergeUtil.MeetingOrder
import BuildboxCommon.Merklize.Rebuilt
import BuildboxCommon.MergeUtil.Neutral
import BuildboxCommon.MergeUtil.Failures
import BuildboxCommon.StandardOutput.CompleteDelivery
import BuildboxCommon.StandardOutput.ReadBuffer
import BuildboxCommon.FileUtils.CreateDirectory
import BuildboxCommon.Runner.ExecuteAndStore
import BuildboxCommon.FileUtils.JoinPathSegments
import BuildboxCommon.StagedDirectory.CaptureAllOutputs
import BuildboxCommon.StagedDirectory.OpenInInputRoot
import BuildboxCommon.MergeUtil.Symmetry
import BuildboxCommon.Merklize.ToTree
import BuildboxCommon.Merklize.FromDigest
import BuildboxCommon.Merklize.OperationOrder
import BuildboxCommon.Merklize.CanonicalForm
import BuildboxCommon.Client.DownloadBlobs
import BuildboxCommon.Client.BatchLimits
import BuildboxCommon.DigestGenerator
import BuildboxCommon.Client.DownloadToFile
import BuildboxCommon.Client.DigestAgreement
import BuildboxCommon.Merklize.MakeNestedDirectory
import BuildboxCommon.Client.UploadDirectory
import BuildboxCommon.Client.FindMissingBlobs
import BuildboxCommon.StagedDirectory.FallbackStagedDirectory
import BuildboxCommon.StagedDirectory.Confinement
import BuildboxCommon.Client.ReplaceFile
import BuildboxCommon.Client.DownloadedTree
import BuildboxCommon.Client.GrpcRetry
import BuildboxCommon.LogStream.LogStreamWriter
import BuildboxCommon.LogStream.StreamProtocol
import BuildboxCommon.StandardOutput.StatFileMonitor
import BuildboxCommon.StandardOutput.StandardOutputStreamer
import BuildboxCommon.StagedDirectory.CapturedOutputs
import BuildboxCommon.StagedDirectory.LocalCasStagedDirectory
import BuildboxCommon.StagedDirectory.CaptureAgreement
import BuildboxCommon.CommandLine.CommandLineTypes
import BuildboxCommon.CommandLine.Parse
import BuildboxCommon.CommandLine.Grammar
import BuildboxCommon.Client.RecapturedTree
import BuildboxCommon.Client.TemporaryNames
import BuildboxCommon.CommandLine.Occurrences
import BuildboxCommon.CommandLine.StoredValues
import BuildboxCommon.CommandLine.Positionals
import BuildboxCommon.CommandLine.BoundVariables
import BuildboxCommon.ConnectionOptions.PutArgs
import BuildboxCommon.CommandLine.Acceptance
import BuildboxCommon.ConnectionOptions.ConfigureChannel
import BuildboxCommon.Client.Attempts
import BuildboxCommon.Client.DownloadRetries
import BuildboxCommon.Client.UploadAttempts
import BuildboxCommon.Client.UploadRetries
import BuildboxCommon.Metrics.MetricCollector
import BuildboxCommon.Metrics.MetricValues
import BuildboxCommon.Metrics.StatsD
import BuildboxCommon.FileUtils.Frontier
import BuildboxCommon.FileUtils.JoinNormalized
import BuildboxCommon.StagedDirectory.FileInInputRoot
import BuildboxCommon.StagedDirectory.OpenSubdirectories
import BuildboxCommon.FileUtils.RelativePath
import BuildboxCommon.FileUtils.RelativeLocation
import BuildboxCommon.Blake3.FileDigests
import BuildboxCommon.ReloadTokenAuthenticator.TokenHistory
import BuildboxCommon.ReloadTokenAuthenticator.Progress
import BuildboxCommon.Metrics.DaemonShutDown
import BuildboxCommon.StandardOutput.InotifyConstructor
import BuildboxCommon.Runner.RecursivelyChmodDirectories
import BuildboxCommon.FileUtils.FileSystemStreams
import BuildboxCommon.FileUtils.DirectoryStreams
