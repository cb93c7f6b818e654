import AuditChain.Masternode.StatusLoop
import AuditChain.Proofs.Acceptance
import AuditChain.Proofs.ConfFile
import AuditChain.Proofs.PingSpacing
import AuditChain.Proofs.SharedCache
import AuditChain.Proofs.StartedNode
import AuditChain.Proofs.MerkleLeaves
import AuditChain.Proofs.MerkleBranches
import AuditChain.Proofs.Commitments
import AuditChain.Proofs.PingAtomicity
import AuditChain.Proofs.Polls
import AuditChain.Proofs.ReceivedBlocks
import AuditChain.Proofs.RegularPings
import AuditChain.Proofs.SelfDelimiting
import AuditChain.Proofs.UnlockingScripts
import AuditChain.Proofs.TransactionIds
import AuditChain.Proofs.RateLimit
import AuditChain.Proofs.RegistryStart
import AuditChain.Proofs.ControllerStart
import AuditChain.Proofs.ResetNode
import AuditChain.Proofs.RegistryHistory
import AuditChain.Proofs.SigningEffects
import AuditChain.Proofs.BlockStructure
import AuditChain.Proofs.CompactSizes
import AuditChain.Proofs.RecentSignatures
import AuditChain.Proofs.ConfText
import AuditChain.Proofs.ConfLists
import AuditChain.Proofs.ServiceAddresses
