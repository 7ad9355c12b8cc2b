import ResolverRecovery.Recovery.Engine
import ResolverRecovery.Proofs.QuickLz.OffsetMatch
import ResolverRecovery.Proofs.QuickLz.BucketMatch
import ResolverRecovery.Proofs.Recovery.RoundTrip
import ResolverRecovery.Proofs.Metadata.Rewritten
import ResolverRecovery.Proofs.Recovery.Framing
import ResolverRecovery.Proofs.Recovery.Succeeding
import ResolverRecovery.Proofs.Recovery.Ending
import ResolverRecovery.Proofs.Recovery.Preserving
import ResolverRecovery.Proofs.Recovery.Justifying
import ResolverRecovery.Proofs.Cil.Padding
import ResolverRecovery.Proofs.Recovery.Redetecting
import ResolverRecovery.Proofs.Recovery.Repeating
import ResolverRecovery.Proofs.Recovery.Retrying
import ResolverRecovery.Proofs.Recovery.Relocating
import ResolverRecovery.Proofs.QuickLz.Parts
import ResolverRecovery.Proofs.Metadata.Consistency
import ResolverRecovery.Proofs.Recovery.Repadding
import ResolverRecovery.Proofs.Recovery.Recording
import ResolverRecovery.Proofs.Cil.Scanning
import ResolverRecovery.Proofs.Recovery.Visiting
import ResolverRecovery.Proofs.Recovery.Reloading
import ResolverRecovery.Proofs.QuickLz.Bounds
import ResolverRecovery.Proofs.QuickLz.Checked
import ResolverRecovery.Proofs.QuickLz.Safety
import ResolverRecovery.Proofs.QuickLz.Halting
import ResolverRecovery.Proofs.QuickLz.Expansion
import ResolverRecovery.Proofs.QuickLz.Writing
import ResolverRecovery.Proofs.Recovery.Caching
import ResolverRecovery.Proofs.Cil.Repadding
import ResolverRecovery.Proofs.Detection.FieldShape
import ResolverRecovery.Proofs.Recovery.Protector.Reactor
import ResolverRecovery.Proofs.Cil.Pairs
import ResolverRecovery.Proofs.Recovery.Protector.SmartAssembly
import ResolverRecovery.Proofs.Recovery.FirstFit
import ResolverRecovery.Proofs.Metadata.Upserts
import ResolverRecovery.Proofs.Metadata.Fields
import ResolverRecovery.Proofs.Recovery.Respelling
import ResolverRecovery.Proofs.Recovery.Relaxing
import ResolverRecovery.Proofs.QuickLz.Lookahead
import ResolverRecovery.Proofs.QuickLz.Copying
import ResolverRecovery.Proofs.Metadata.AssemblyNames
import ResolverRecovery.Proofs.Recovery.Summary
