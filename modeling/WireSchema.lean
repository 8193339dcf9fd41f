import WireSchema.Bytes.Session
import WireSchema.Main
import WireSchema.Proofs.Archive.RoundTrip
import WireSchema.Proofs.Catalog.Canonical
import WireSchema.Proofs.Catalog.Representation
import WireSchema.Proofs.Groups
import WireSchema.Proofs.Hex
import WireSchema.Proofs.Layout.Agreement
import WireSchema.Proofs.Resuming
import WireSchema.Proofs.Schema.Blame
import WireSchema.Proofs.Schema.Modelled
import WireSchema.Proofs.Schema.Recursion
import WireSchema.Proofs.Schema.Relayout
import WireSchema.Proofs.Session
import WireSchema.Proofs.Value.Acceptance
import WireSchema.Proofs.Value.Canonical
import WireSchema.Proofs.Value.Deletion
import WireSchema.Proofs.Value.Deprecation
import WireSchema.Proofs.Value.Extension
import WireSchema.Proofs.Value.Json
import WireSchema.Proofs.Value.Members
import WireSchema.Proofs.Value.Rearrangement
import WireSchema.Proofs.Value.Restatement
import WireSchema.Proofs.Value.Safety
import WireSchema.Proofs.Value.Shortfall
import WireSchema.Proofs.Value.Stream
import WireSchema.Proofs.Value.ZeroWidth
