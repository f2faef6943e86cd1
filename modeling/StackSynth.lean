import StackSynth.Main
import StackSynth.Manifest.Reading
import StackSynth.Proofs.Construct.Ancestry
import StackSynth.Proofs.Construct.WellFormed
import StackSynth.Proofs.Construct.Growth
import StackSynth.Proofs.Application.Building
import StackSynth.Proofs.Construct.Traversal
import StackSynth.Proofs.Construct.StackChain
import StackSynth.Proofs.Wiring.Journey
import StackSynth.Proofs.Wiring.Direction
import StackSynth.Proofs.Deferred.Resolution
import StackSynth.Proofs.Synthesis.Rendering
import StackSynth.Proofs.Wiring.Record
import StackSynth.Proofs.Synthesis.Asking
import StackSynth.Proofs.Wiring.Finding
import StackSynth.Proofs.Synthesis.Preparation
import StackSynth.Proofs.Synthesis.Completeness
import StackSynth.Proofs.Synthesis.Documents
import StackSynth.Proofs.Synthesis.Chains
import StackSynth.Proofs.Naming.Ids
import StackSynth.Proofs.Synthesis.Keeping
import StackSynth.Proofs.Json.Quoting
import StackSynth.Proofs.Template.Writing
import StackSynth.Proofs.Template.Sections
import StackSynth.Proofs.Wiring.Standing
import StackSynth.Proofs.Synthesis.Merging
import StackSynth.Proofs.Synthesis.Aliasing
import StackSynth.Proofs.Asset.Registry
import StackSynth.Proofs.Asset.Registration
import StackSynth.Proofs.Synthesis.Finality
import StackSynth.Proofs.Synthesis.Provenance
import StackSynth.Proofs.Deferred.Referring
import StackSynth.Proofs.Synthesis.SelfReference
import StackSynth.Proofs.Deployment.Cycles
import StackSynth.Proofs.Deployment.Accumulation
import StackSynth.Proofs.Synthesis.Dependencies
import StackSynth.Proofs.Synthesis.Uses
import StackSynth.Proofs.Asset.Identity
import StackSynth.Proofs.Construct.Assets
import StackSynth.Proofs.Application.Accounting
import StackSynth.Proofs.Definition.Offering
import StackSynth.Proofs.Definition.Building
import StackSynth.Proofs.Synthesis.Publishing
import StackSynth.Proofs.Construct.Preorder
import StackSynth.Proofs.Synthesis.Presence
import StackSynth.Proofs.Deferred.Linking
import StackSynth.Proofs.Synthesis.Linking
import StackSynth.Proofs.Synthesis.Designation
import StackSynth.Proofs.Synthesis.Exports
import StackSynth.Proofs.Concurrence
import StackSynth.Proofs.Deferred.Renumbering
import StackSynth.Proofs.Construct.Renumbering
import StackSynth.Proofs.Construct.Resemblance
import StackSynth.Proofs.Deployment.Renumbering
import StackSynth.Proofs.Wiring.Renumbering
import StackSynth.Proofs.Asset.Renumbering
import StackSynth.Proofs.Synthesis.Renumbering
import StackSynth.Proofs.Application.Admission
import StackSynth.Proofs.Definition.Evaluation
import StackSynth.Proofs.Definition.Arrangement
import StackSynth.Proofs.Definition.Inclusion
import StackSynth.Proofs.Definition.Declaring
import StackSynth.Proofs.Definition.Completing
import StackSynth.Proofs.Definition.Reordering
import StackSynth.Proofs.Definition.Renumbering
import StackSynth.Proofs.Definition.Independence
import StackSynth.Proofs.Construct.Addition
import StackSynth.Proofs.Application.Coherence
import StackSynth.Proofs.Application.History
import StackSynth.Proofs.Wiring.Addition
import StackSynth.Proofs.Synthesis.Locality
import StackSynth.Proofs.Synthesis.Noninterference
import StackSynth.Proofs.Fields
import StackSynth.Proofs.Json.Canonical
import StackSynth.Proofs.Definition.Proper
import StackSynth.Proofs.Definition.Placing
import StackSynth.Proofs.Definition.Faithfulness
import StackSynth.Proofs.Json.Outlining
import StackSynth.Proofs.Json.Rereading
import StackSynth.Proofs.Definition.Reading
import StackSynth.Proofs.Manifest.Reading
import StackSynth.Proofs.Formats
import StackSynth.Proofs.Wiring.Calls
import StackSynth.Proofs.Wiring.Effect
import StackSynth.Proofs.Wiring.Orderly
import StackSynth.Proofs.Wiring.Reordering
import StackSynth.Proofs.Synthesis.Listing
import StackSynth.Proofs.Deferred.Occurring
import StackSynth.Proofs.Wiring.Paths
import StackSynth.Proofs.Wiring.Discovery
import StackSynth.Proofs.Deployment.Registration
import StackSynth.Proofs.Deployment.Interleaving
import StackSynth.Proofs.FileSystem.Contents
import StackSynth.Proofs.FileSystem.Exclusion
import StackSynth.Proofs.Synthesis.Rejection
import StackSynth.Proofs.Definition.Expressions
import StackSynth.Proofs.Definition.Rewriting
import StackSynth.Proofs.Deferred.Places
import StackSynth.Proofs.FileSystem.Separation
import StackSynth.Proofs.Synthesis.Identifiers
import StackSynth.Proofs.CommandLine.Planning
import StackSynth.Proofs.Application.Faultless
import StackSynth.Proofs.Construct.Enumeration
import StackSynth.Proofs.Naming.Separation
