import DwarfLines.Files.Tree
import DwarfLines.Main
import DwarfLines.Proofs.Decoder
import DwarfLines.Proofs.Line.Reduction
import DwarfLines.Proofs.Leb128
import DwarfLines.Proofs.Line.Instruction
import DwarfLines.Proofs.Line.Assembly
import DwarfLines.Proofs.Outcomes
import DwarfLines.Proofs.Line.UnitHeader
import DwarfLines.Proofs.Line.Program
import DwarfLines.Proofs.Elf.Image
import DwarfLines.Proofs.Elf.Container
import DwarfLines.Proofs.Elf.Steps
import DwarfLines.Proofs.Elf.Arrangement
import DwarfLines.Proofs.Elf.Settling
import DwarfLines.Proofs.Elf.Placing
import DwarfLines.Proofs.Info.CompileUnit
import DwarfLines.Proofs.Info.Walk
import DwarfLines.Proofs.Shrink.Stages
import DwarfLines.Proofs.Shrink.Serving
import DwarfLines.Proofs.Shrink.Patching
import DwarfLines.Proofs.Shrink.Output
import DwarfLines.Proofs.Elf.Tables
import DwarfLines.Proofs.Shrink.Frame
import DwarfLines.Proofs.Elf.Reopening
import DwarfLines.Proofs.Shrink.Reopening
import DwarfLines.Proofs.Line.Section
import DwarfLines.Proofs.Shrink.Refinement
import DwarfLines.Proofs.Line.Restatement
import DwarfLines.Proofs.Line.Spelling
import DwarfLines.Proofs.Line.Unbounded
import DwarfLines.Proofs.Line.Reduced
import DwarfLines.Proofs.Elf.Runs
import DwarfLines.Proofs.Elf.Retracing
import DwarfLines.Proofs.Elf.RetracedSteps
import DwarfLines.Proofs.Shrink.Retracing
import DwarfLines.Proofs.Shrink.Idempotence
import DwarfLines.Proofs.Shrink.Contents
import DwarfLines.Proofs.Text
import DwarfLines.Proofs.Paragraph
import DwarfLines.Proofs.Listing
import DwarfLines.Proofs.Shrink.Listed
import DwarfLines.Proofs.Info.References
import DwarfLines.Proofs.Guarded.Basic
import DwarfLines.Proofs.Guarded.Reader
import DwarfLines.Proofs.Guarded.UnitHeader
import DwarfLines.Proofs.Guarded.Machine
import DwarfLines.Proofs.Guarded.Reduction
import DwarfLines.Proofs.Guarded.Assembly
import DwarfLines.Proofs.Guarded.Section
import DwarfLines.Proofs.Guarded.References
import DwarfLines.Proofs.Guarded.Region
import DwarfLines.Proofs.Guarded.Container
import DwarfLines.Proofs.Guarded.Layout
import DwarfLines.Proofs.Guarded.Shrink
import DwarfLines.Proofs.Guarded.Listing
import DwarfLines.Proofs.Elf.Overwriting
import DwarfLines.Proofs.Shrink.Overwriting
import DwarfLines.Proofs.Elf.Parts
import DwarfLines.Proofs.Elf.Repacking
import DwarfLines.Proofs.Elf.Fitting
import DwarfLines.Proofs.Line.Encodability
import DwarfLines.Proofs.Shrink.Success
import DwarfLines.Proofs.Line.Shortest
import DwarfLines.Proofs.Line.Thinning
import DwarfLines.Proofs.Line.Spending
import DwarfLines.Proofs.Line.Distances
import DwarfLines.Proofs.Line.Closing
import DwarfLines.Proofs.Line.Stretches
import DwarfLines.Proofs.Line.RowLength
import DwarfLines.Proofs.Line.Growth
import DwarfLines.Proofs.Line.NormalForm
import DwarfLines.Proofs.Line.Sequences
import DwarfLines.Proofs.Files.Laws
import DwarfLines.Proofs.Files.Tree
import DwarfLines.Proofs.Files.Faults
import DwarfLines.Proofs.Files.Replacement
import DwarfLines.Proofs.Line.PlainForm
import DwarfLines.Proofs.Info.Attributes
import DwarfLines.Proofs.Info.Abbreviation
import DwarfLines.Proofs.Line.HeaderGrammar
import DwarfLines.Proofs.Line.Extent
import DwarfLines.Proofs.Line.VersionFour
import DwarfLines.Proofs.Line.Continuation
import DwarfLines.Proofs.Line.SpecialOpcode
import DwarfLines.Proofs.SectionListing
import DwarfLines.Proofs.Cursor
import DwarfLines.Proofs.Leb128.Shortest
import DwarfLines.Proofs.Leb128.Digits
import DwarfLines.Proofs.Elf.Operations
import DwarfLines.Proofs.Elf.Fields
import DwarfLines.Proofs.Elf.Opening
import DwarfLines.Proofs.DebugSections
import DwarfLines.Proofs.Line.Attempts
import DwarfLines.Proofs.Elf.LatestWrite
