import RegIR.Main
import RegIR.Memory.Lemmas
import RegIR.Module.InPlace
import RegIR.Session
import RegIR.X64.CodeRegion
import RegIR.X64.Disassembler
import RegIR.Proofs.Words
import RegIR.Proofs.Placement
import RegIR.Proofs.Construction
import RegIR.Proofs.ControlFlow
import RegIR.Proofs.Linking
import RegIR.Proofs.Accesses
import RegIR.Proofs.Discipline
import RegIR.Proofs.Availability
import RegIR.Proofs.Resolution
import RegIR.Proofs.Safety
import RegIR.Proofs.Cells
import RegIR.Proofs.Pointers
import RegIR.Proofs.Fuel
import RegIR.Proofs.Reference
import RegIR.Proofs.Simulation
import RegIR.Proofs.Agreement
import RegIR.Proofs.Provenance
import RegIR.Proofs.Separation
import RegIR.Proofs.Confinement
import RegIR.Proofs.Initialization
import RegIR.Proofs.Transfers
import RegIR.Proofs.SingleAssignment
import RegIR.Proofs.Declarations
import RegIR.Proofs.WellFormed
import RegIR.Proofs.NativeCalls
import RegIR.Proofs.EntryStub
import RegIR.Proofs.CallDepth
import RegIR.Proofs.Ackermann
import RegIR.Proofs.Refusals
import RegIR.Proofs.Leftovers
import RegIR.Proofs.History
import RegIR.Proofs.Disassembly
import RegIR.Proofs.SlotLookup
import RegIR.Proofs.Bursts
import RegIR.Proofs.ExternalCalls
import RegIR.Proofs.Termination
import RegIR.Proofs.TightLayouts
import RegIR.Proofs.Alignment
import RegIR.Proofs.ArgumentPlaces
import RegIR.Proofs.Listings
import RegIR.Proofs.DominatorRows
import RegIR.Proofs.StackBounds
