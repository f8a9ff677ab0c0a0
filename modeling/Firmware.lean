import Firmware.Cbor.Gather
import Firmware.Cbor.Value
import Firmware.Configuration
import Firmware.Registry
import Firmware.Simulation.Cells
import Firmware.Simulation.Lending
import Firmware.Simulation.Machine
import Firmware.Simulation.Outlet
import Firmware.Proofs.Flash.Slice
import Firmware.Stream.Channel
import Firmware.Proofs.Flash.Mutation
import Firmware.Proofs.Flash.Writer
import Firmware.Proofs.Flash.Programming
import Firmware.Proofs.Storage.Record
import Firmware.Proofs.Storage.Layout
import Firmware.Proofs.Storage.VariableArea
import Firmware.Proofs.Storage.PowerLoss
import Firmware.Proofs.Storage.Operations
import Firmware.Proofs.Storage.Healthy
import Firmware.Proofs.Storage.Registers
import Firmware.Proofs.Processor.Account
import Firmware.Proofs.Processor.Pass
import Firmware.Proofs.Hash.Sound
import Firmware.Proofs.Processor.Authentication
import Firmware.Proofs.Processor.Gate
import Firmware.Proofs.Cbor.Extent
import Firmware.Proofs.Cbor.Skip
import Firmware.Proofs.Flash.Journal
import Firmware.Proofs.Storage.Installed
import Firmware.Proofs.Processor.Rollback
import Firmware.Proofs.Stream.Entry
import Firmware.Proofs.Stream.Length
import Firmware.Proofs.Stream.Partition
import Firmware.Proofs.Stream.OpenEntry
import Firmware.Proofs.Stream.Opening
import Firmware.Proofs.Stream.Directory
import Firmware.Proofs.Stream.Delivery
import Firmware.Proofs.Processor.Commit
import Firmware.Proofs.Processor.Mediation
import Firmware.Proofs.Processor.Validation
import Firmware.Proofs.Processor.Agreement
import Firmware.Proofs.Cbor.Canonical
import Firmware.Proofs.Cbor.Lookup
import Firmware.Proofs.Processor.Decoding
import Firmware.Proofs.Processor.Transfer
import Firmware.Proofs.Processor.Course
import Firmware.Proofs.Stream.Foreign
import Firmware.Proofs.Processor.Engines
import Firmware.Proofs.Processor.Balance
import Firmware.Proofs.Processor.Prediction
import Firmware.Proofs.Manifest.Capacity
import Firmware.Proofs.Processor.Bounds
import Firmware.Proofs.Storage.Durability
import Firmware.Proofs.Processor.Reports
import Firmware.Proofs.Processor.Recovery
import Firmware.Proofs.Processor.Isolation
import Firmware.Proofs.Storage.Repair
import Firmware.Proofs.Storage.Mirror
import Firmware.Proofs.Storage.Capacity
import Firmware.Proofs.Processor.Payload
import Firmware.Proofs.Flash.Chunking
import Firmware.Proofs.Storage.Refusal
import Firmware.Proofs.Storage.Candidate
import Firmware.Proofs.Stream.Refusal
import Firmware.Proofs.Flash.Seeking
import Firmware.Proofs.Flash.Scattered
import Firmware.Proofs.Stream.Turn
import Firmware.Proofs.Stream.Boundary
import Firmware.Proofs.Stream.Protocol
import Firmware.Proofs.Stream.Courier
import Firmware.Proofs.Stream.Reordering
import Firmware.Proofs.Cbor.Bytewise
import Firmware.Proofs.Cbor.Truncation
import Firmware.Proofs.Manifest.Sequences
import Firmware.Proofs.Processor.Blindness
import Firmware.Proofs.Processor.Fallback
import Firmware.Proofs.Words
import Firmware.Proofs.Variables
import Firmware.Proofs.Processor.Whereabouts
import Firmware.Proofs.Processor.Contents
import Firmware.Proofs.Stream.Lending
import Firmware.Proofs.Flash.Twin
import Firmware.Proofs.Stream.Erasure
import Firmware.Proofs.Processor.Signature
import Firmware.Proofs.Flash.Window
