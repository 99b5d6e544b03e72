import Y86Toolkit.Debugger.Screen
import Y86Toolkit.Session
import Y86Toolkit.Main
import Y86Toolkit.Proofs.Encoding
import Y86Toolkit.Proofs.Fetch
import Y86Toolkit.Proofs.StepTable
import Y86Toolkit.Proofs.StepFaults
import Y86Toolkit.Proofs.Numerals
import Y86Toolkit.Proofs.Fragments
import Y86Toolkit.Proofs.ListingLines
import Y86Toolkit.Proofs.ListingRoundTrip
import Y86Toolkit.Proofs.Layouts
import Y86Toolkit.Proofs.Emission
import Y86Toolkit.Proofs.PassAgreement
import Y86Toolkit.Proofs.SignedWords
import Y86Toolkit.Proofs.Comparison
import Y86Toolkit.Proofs.LoadedSource
import Y86Toolkit.Proofs.Reassembly
import Y86Toolkit.Proofs.LargerMemory
import Y86Toolkit.Proofs.InstructionTable
import Y86Toolkit.Proofs.SessionLoading
import Y86Toolkit.Proofs.DebuggerRuns
import Y86Toolkit.Proofs.DebuggerReports
import Y86Toolkit.Proofs.FreshStart
import Y86Toolkit.Proofs.SessionRecord
import Y86Toolkit.Proofs.Snapshots
import Y86Toolkit.Proofs.SavedRegisters
import Y86Toolkit.Proofs.CallReturn
import Y86Toolkit.Proofs.OppositeConditions
import Y86Toolkit.Proofs.OneReading
import Y86Toolkit.Proofs.WordArithmetic
import Y86Toolkit.Proofs.DisassemblyListing
import Y86Toolkit.Proofs.SavedImages
import Y86Toolkit.Proofs.LocationCounter
import Y86Toolkit.Proofs.LiteralGrammar
import Y86Toolkit.Proofs.ListingGrammar
import Y86Toolkit.Proofs.EmittedBytes
import Y86Toolkit.Proofs.DebuggerListing
import Y86Toolkit.Proofs.AppendedSources
import Y86Toolkit.Proofs.Culprits
import Y86Toolkit.Proofs.LabelAddresses
import Y86Toolkit.Proofs.MemoryAccess
import Y86Toolkit.Proofs.ScreenMarks
import Y86Toolkit.Proofs.LineEdits
