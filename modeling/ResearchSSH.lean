import ResearchSSH.Library.Scanner
import ResearchSSH.Library.Transition
import ResearchSSH.Library.KeyedList
import ResearchSSH.Library.Lines
import ResearchSSH.Library.FileTree
import ResearchSSH.Library.Store
import ResearchSSH.Library.Relocation
import ResearchSSH.Library.TreeWrites
import ResearchSSH.Library.FoldedMap
import ResearchSSH.Library.Glob
import ResearchSSH.Library.TokenText
import ResearchSSH.Library.Blocks
import ResearchSSH.Library.ShellLexer
import ResearchSSH.Library.FirstMatch
import ResearchSSH.Library.Tally
import ResearchSSH.Library.Binary64
import ResearchSSH.Library.Cells
import ResearchSSH.Library.SequentialObject
import ResearchSSH.Library.Quiescence
import ResearchSSH.Library.Conveyor
import ResearchSSH.Library.Recent
import ResearchSSH.Core.Event
import ResearchSSH.Core.Driver
import ResearchSSH.Core.DriverLifecycle
import ResearchSSH.Core.DriverRequests
import ResearchSSH.Core.DriverAttempts
import ResearchSSH.Core.EventBatches
import ResearchSSH.Core.Teardown
import ResearchSSH.Core.HostKeyGate
import ResearchSSH.Core.MockFs
import ResearchSSH.Core.MockMoves
import ResearchSSH.Core.MockTree
import ResearchSSH.Core.MockFrame
import ResearchSSH.Core.FileCapability
import ResearchSSH.Core.MockSession
import ResearchSSH.Core.FileService
import ResearchSSH.Core.RequestQueue
import ResearchSSH.Core.DriverProgress
import ResearchSSH.Core.ByteStream
import ResearchSSH.Core.ShutdownQueue
import ResearchSSH.Core.KnownHosts
import ResearchSSH.Core.SftpRemove
import ResearchSSH.Core.SftpFiles
import ResearchSSH.Core.SftpOutcomes
import ResearchSSH.Core.SftpRuns
import ResearchSSH.Core.Ffi
import ResearchSSH.Core.TextDecoding
import ResearchSSH.Core.FfiRequests
import ResearchSSH.Core.HostPatterns
import ResearchSSH.Core.IdentityTokens
import ResearchSSH.Core.SshConfig
import ResearchSSH.Core.Authentication
import ResearchSSH.App.QString
import ResearchSSH.App.Utf8
import ResearchSSH.App.Numerals
import ResearchSSH.App.ControlFilter
import ResearchSSH.App.ControlGrammar
import ResearchSSH.App.Terminal
import ResearchSSH.App.RemotePath
import ResearchSSH.App.PathAlgebra
import ResearchSSH.App.RemoteFileTree
import ResearchSSH.App.TreeLinks
import ResearchSSH.App.TreeIndex
import ResearchSSH.App.EditorViewModel
import ResearchSSH.App.RemoteCommands
import ResearchSSH.App.PackageText
import ResearchSSH.App.AppController
import ResearchSSH.App.ControllerTasks
import ResearchSSH.App.ControllerSessions
import ResearchSSH.App.UiThread
import ResearchSSH.App.RustCoreBridge
import ResearchSSH.App.ControllerFrame
import ResearchSSH.App.SessionIsolation
import ResearchSSH.App.ServerActions
import ResearchSSH.App.SavedServers
import ResearchSSH.App.ControllerTraffic
import ResearchSSH.App.BridgeCalls
import ResearchSSH.App.Application
import ResearchSSH.App.UserChanges
import ResearchSSH.App.StatusDelivery
import ResearchSSH.App.Settling
import ResearchSSH.App.TerminalStream
import ResearchSSH.App.SavedText
import ResearchSSH.App.SessionRow
import ResearchSSH.App.ConnectionStatus
import ResearchSSH.App.PlaceMarkers
import ResearchSSH.App.CredentialKeys
import ResearchSSH.App.ServerCredentials
import ResearchSSH.App.NewFile
import ResearchSSH.App.CodeEditorPane
import ResearchSSH.App.PairEditing
import ResearchSSH.App.TypedText
import ResearchSSH.App.TerminalPane
import ResearchSSH.App.PaneCoherence
import ResearchSSH.App.UnsavedEdits
import ResearchSSH.App.PaneBuffer
import ResearchSSH.App.PaneFrame
import ResearchSSH.App.PanePaths
import ResearchSSH.App.PaneReads
import ResearchSSH.App.ControllerDesk
import ResearchSSH.App.PaneMarks
import ResearchSSH.App.Workspace
import ResearchSSH.App.WorkspaceSaves
import ResearchSSH.App.WorkspaceMarks
import ResearchSSH.App.ControllerShelf
import ResearchSSH.App.PackageBusy
import ResearchSSH.App.TreeLoading
import ResearchSSH.App.TreeKinds
import ResearchSSH.App.DirectoryLoading
import ResearchSSH.App.QuietApplication
import ResearchSSH.App.RequestIds
import ResearchSSH.App.ClipboardMoves
import ResearchSSH.App.ShellQuoting
import ResearchSSH.App.ProcessGroups
import ResearchSSH.App.ResourceSnapshot
import ResearchSSH.App.SnapshotRows
import ResearchSSH.App.SnapshotText
import ResearchSSH.App.ResourceOutput
