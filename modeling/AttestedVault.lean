import AttestedVault.Attestation.Attestor
import AttestedVault.Credential.Fingerprint
import AttestedVault.Credential.Setup
import AttestedVault.Host.Disturbance
import AttestedVault.Host.Schedule
import AttestedVault.Proofs.Leases
import AttestedVault.Proofs.Survival
import AttestedVault.Proofs.Clock
import AttestedVault.Proofs.PinnedRoot
import AttestedVault.Proofs.Spelling
import AttestedVault.Proofs.Wrapping
import AttestedVault.Proofs.CredentialFormat
import AttestedVault.Proofs.Labels
import AttestedVault.Proofs.Succession
import AttestedVault.Host.Fleet
import AttestedVault.Proofs.Ledger
import AttestedVault.Proofs.SharedStore
import AttestedVault.Proofs.Visibility
import AttestedVault.Proofs.History
import AttestedVault.Proofs.Interchange
import AttestedVault.Proofs.Agreement
import AttestedVault.Proofs.CertificateCache
import AttestedVault.Proofs.SignedIdentity
import AttestedVault.Proofs.Acceptance
import AttestedVault.Proofs.RecordText
import AttestedVault.Proofs.ReceivedBody
import AttestedVault.Proofs.Corruption
import AttestedVault.Proofs.Reencryption
import AttestedVault.Proofs.Rewrapping
import AttestedVault.Proofs.InitialValues
import AttestedVault.Proofs.Duplicates
import AttestedVault.Proofs.RecordFields
import AttestedVault.Proofs.ReportLayout
import AttestedVault.Proofs.Diagnosis
import AttestedVault.Proofs.Locations
import AttestedVault.Proofs.MetadataBodies
import AttestedVault.Proofs.Reopening
import AttestedVault.Proofs.Disturbance
