import ZeroVault.AccountDeletion
import ZeroVault.TenantIsolation
import ZeroVault.PagedPull
import ZeroVault.RecoverySingleUse
import ZeroVault.RecoveryAuthorised
import ZeroVault.AuthEpochFencing
import ZeroVault.OneAccountPerEmail
import ZeroVault.LockIsFinal
import ZeroVault.NoSelfConflict
import ZeroVault.NativeHandles
import ZeroVault.RecoveryProofs
import ZeroVault.RecoveryRecords
import ZeroVault.DesktopPull
import ZeroVault.DesktopWrites
import ZeroVault.OfflinePush
import ZeroVault.LegacyEdits
import ZeroVault.MobileRuns
import ZeroVault.RecoveryTranscript
import ZeroVault.DevicePackets
import ZeroVault.PushAnswers
import ZeroVault.RecoveryPackets
import ZeroVault.Autofill
import ZeroVault.TokenSearch
import ZeroVault.AckedDeletes
import ZeroVault.ConflictResolved
import ZeroVault.LegacyConflicts
import ZeroVault.WebRecovery
import ZeroVault.MobileBackup
import ZeroVault.MobileSync
import ZeroVault.DesktopVault
import ZeroVault.DesktopResolution
import ZeroVault.MobilePull
import ZeroVault.Base32
import ZeroVault.PasswordGenerators
import ZeroVault.OriginMatching
import ZeroVault.CsvRoundTrip
import ZeroVault.JsonImport
import ZeroVault.DeviceRegistration
import ZeroVault.DeviceList
import ZeroVault.RateLimit
import ZeroVault.StatementLimit
import ZeroVault.ConfirmedWrites
import ZeroVault.KeyPackets
import ZeroVault.VersionHistory
