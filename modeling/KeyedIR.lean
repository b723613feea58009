import KeyedIR.Forest.Access
import KeyedIR.Main
import KeyedIR.Program.Equality
import KeyedIR.Proofs.Arena
import KeyedIR.Proofs.CommandLine.Relabel
import KeyedIR.Proofs.Forest.Grammar
import KeyedIR.Proofs.Forest.History
import KeyedIR.Proofs.Forest.Reachable
import KeyedIR.Proofs.Listing.Colors
import KeyedIR.Proofs.Program.SameTree
import KeyedIR.Proofs.Record.Dangling
import KeyedIR.Proofs.Record.Relabelled
import KeyedIR.Proofs.Record.Reordered
import KeyedIR.Proofs.Record.Replace
import KeyedIR.Proofs.Record.Resolution
import KeyedIR.Proofs.Record.Skipped
import KeyedIR.Proofs.Record.Writes
import KeyedIR.Storage.FileTree
import KeyedIR.Proofs.Forest.Overlay
import KeyedIR.Proofs.CommandLine.Effects
import KeyedIR.Proofs.Record.Inserted
import KeyedIR.Proofs.Record.Truthful
import KeyedIR.Proofs.Record.Operations
