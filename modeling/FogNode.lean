import FogNode.Library.BatchedRegistry
import FogNode.Library.CodePoints
import FogNode.Library.Dict
import FogNode.Library.Double
import FogNode.Library.Growth
import FogNode.Library.Hex
import FogNode.Library.Json
import FogNode.Library.JsonRoundTrip
import FogNode.Library.JsonText
import FogNode.Library.Linked
import FogNode.Library.Lists
import FogNode.Library.Pattern
import FogNode.Library.ReplacedFile
import FogNode.Library.Runs
import FogNode.Library.Sha256
import FogNode.Library.SingleUse
import FogNode.Library.Table
import FogNode.Library.Threads
import FogNode.Library.Tower
import FogNode.Library.TowerRoot
import FogNode.Library.TowerShape
import FogNode.Proofs.AbandonedOnboarding
import FogNode.Proofs.AccessRace
import FogNode.Proofs.AccessRights
import FogNode.Proofs.Alone
import FogNode.Proofs.Authorization
import FogNode.Proofs.AutoClose
import FogNode.Proofs.CarriedEntries
import FogNode.Proofs.Decisions
import FogNode.Proofs.DeviceAccess
import FogNode.Proofs.DeviceOnboarding
import FogNode.Proofs.Effects
import FogNode.Proofs.EpochAtomicity
import FogNode.Proofs.EpochNumbering
import FogNode.Proofs.Finalize
import FogNode.Proofs.Identities
import FogNode.Proofs.Instance
import FogNode.Proofs.Invariant
import FogNode.Proofs.Issued
import FogNode.Proofs.LedgerChain
import FogNode.Proofs.LedgerFile
import FogNode.Proofs.LedgerReading
import FogNode.Proofs.LedgerRuns
import FogNode.Proofs.LedgerTampering
import FogNode.Proofs.LedgerText
import FogNode.Proofs.LostRevocation
import FogNode.Proofs.Members
import FogNode.Proofs.Membership
import FogNode.Proofs.MerkleCompleteness
import FogNode.Proofs.MerkleRefinement
import FogNode.Proofs.MerkleShape
import FogNode.Proofs.MerkleSoundness
import FogNode.Proofs.Messages
import FogNode.Proofs.NonceBook
import FogNode.Proofs.Nonces
import FogNode.Proofs.Onboarding
import FogNode.Proofs.OnboardingRace
import FogNode.Proofs.OneSignature
import FogNode.Proofs.PackageVerdict
import FogNode.Proofs.PackageVerification
import FogNode.Proofs.Possession
import FogNode.Proofs.ProofService
import FogNode.Proofs.Queue
import FogNode.Proofs.RawPackage
import FogNode.Proofs.Reachable
import FogNode.Proofs.RecursiveRoot
import FogNode.Proofs.Registry
import FogNode.Proofs.RegistryRefinement
import FogNode.Proofs.RequestBinding
import FogNode.Proofs.Revocation
import FogNode.Proofs.RevokeFrame
import FogNode.Proofs.RootCommitment
import FogNode.Proofs.SessionFrame
import FogNode.Proofs.Sessions
import FogNode.Proofs.SignedMessages
import FogNode.Proofs.SignedText
import FogNode.Proofs.Steps
import FogNode.Proofs.Successes
import FogNode.Proofs.TokenAccess
import FogNode.Proofs.TokenRace
import FogNode.Proofs.TokenSignature
import FogNode.Proofs.UntrustedProof
import FogNode.Proofs.Validation
import FogNode.Proofs.VerifyAccess
import FogNode.Source.AccessPolicy
import FogNode.Source.AccessRace
import FogNode.Source.AutoClose
import FogNode.Source.Canonical
import FogNode.Source.Concurrency
import FogNode.Source.Context
import FogNode.Source.CryptoUtils
import FogNode.Source.Device
import FogNode.Source.DeviceClient
import FogNode.Source.DeviceStore
import FogNode.Source.EpochManager
import FogNode.Source.EpochRoutes
import FogNode.Source.Ledger
import FogNode.Source.LedgerFile
import FogNode.Source.LedgerText
import FogNode.Source.Main
import FogNode.Source.MerkleTree
import FogNode.Source.OnboardingRace
import FogNode.Source.Platform
import FogNode.Source.Pop
import FogNode.Source.ProofPackage
import FogNode.Source.Psk
import FogNode.Source.RawPackage
import FogNode.Source.RegistrationRoutes
import FogNode.Source.RevocationRoutes
import FogNode.Source.RuntimeClient
import FogNode.Source.Schemas
import FogNode.Source.TokenRoutes
import FogNode.Source.TokenStore
import FogNode.Source.Tokens
import FogNode.Source.UntrustedProof
import FogNode.Source.Validation
import FogNode.Source.VerificationRoutes
