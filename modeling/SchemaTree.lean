import SchemaTree.Command.Run
import SchemaTree.Main
import SchemaTree.Proofs.Command.Directory
import SchemaTree.Proofs.Loader.FieldOrder
import SchemaTree.Proofs.Loader.ValueOrder
import SchemaTree.Proofs.Tree.Rebuild
import SchemaTree.Proofs.Loader.DefaultFound
import SchemaTree.Descriptor.Writer
import SchemaTree.Proofs.Descriptor.Decoded
import SchemaTree.Proofs.Descriptor.Depth
import SchemaTree.Proofs.Descriptor.Equality
import SchemaTree.Proofs.Descriptor.Reads
import SchemaTree.Proofs.Descriptor.RoundTrip
import SchemaTree.Proofs.Loader.Agreement
import SchemaTree.Proofs.Loader.Complete
import SchemaTree.Proofs.Walk.Traversal
import SchemaTree.Proofs.Loader.Resolved
import SchemaTree.Proofs.Loader.Kinds
import SchemaTree.Proofs.Loader.Packed
import SchemaTree.Proofs.Registry.History
import SchemaTree.Proofs.Loader.Order
import SchemaTree.Proofs.Outline.Document
import SchemaTree.Proofs.Loader.Optional
import SchemaTree.Proofs.Loader.ByName
import SchemaTree.Proofs.Snapshot.Nesting
import SchemaTree.Proofs.Loader.LineBreak
import SchemaTree.Proofs.Schema.Clause
import SchemaTree.Proofs.Command.Delivery
import SchemaTree.Proofs.Tree.Margin
import SchemaTree.Proofs.Outline.Count
import SchemaTree.Proofs.Tree.Segment
