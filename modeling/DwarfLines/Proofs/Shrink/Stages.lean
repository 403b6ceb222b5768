import DwarfLines.Proofs.DebugFile
import DwarfLines.Proofs.Elf.Steps
import DwarfLines.Shrink

/-!
# The stages of shrinking a file

A file that is shrunk goes through all stages of it: it is opened, its fixed part and its compile
units are copied, its line section is written, the other sections follow, and the tables come last.
`Stages` names what each stage leaves to the next.
-/

namespace DwarfLines

open Outcome

namespace Elf.Placing

variable {α : Type} {step : Placing α} {layout after : Layout} {a : α}

theorem result_traced_eq_ok_iff {events : Layout → Layout → List Event} :
    (step.traced events layout).result = .ok (a, after) ↔ step layout = .ok a after := by
  unfold traced
  cases step layout <;> simp

theorem result_silent_eq_ok_iff :
    (step.silent layout).result = .ok (a, after) ↔ step layout = .ok a after :=
  result_traced_eq_ok_iff

end Elf.Placing

/-- What each stage of shrinking a file leaves. -/
structure Stages (data out : Bytes) (stats : Stats) where
  file : DebugFile
  opened : (DebugFile.ofBytes data).result = .ok file
  unloaded : file.container.fixedStop ≤ file.sections.line.offset
  /-- Where the front ends, and the layout that shows just the front. -/
  frontStop : UInt32
  frontLayout : Elf.Layout
  copyFixed : Elf.Placing.copyFixed (.start file.container) = .ok frontStop frontLayout
  /-- Where the compile units end, and the layout with them. -/
  infoStop : UInt32
  infoLayout : Elf.Layout
  copyInfo : Elf.Placing.copySection frontStop file.sections.info.index frontLayout =
    .ok infoStop infoLayout
  /-- The section of compile units in its place. -/
  placedInfo : Elf.Section
  findInfo : infoLayout.container.sections[file.sections.info.index]? = some placedInfo
  /-- Where the line section starts, and the layout that says so. -/
  start : UInt32
  alignLine : Elf.alignUp? infoStop file.sections.line.alignment = some start
  lineLayout : Elf.Layout
  markLine : Elf.Placing.markPlaced file.sections.line.index start infoLayout = .ok () lineLayout
  output : LineOutput
  serveAll : ((LineOutput.start lineLayout start).serveAll
    { line := file.line, info := placedInfo.header.offset, start }
    (walk file.info file.abbreviations)).result = .ok output
  /-- The layout with the final size of the line section. -/
  sizeLayout : Elf.Layout
  setSize : Elf.Placing.setSize file.sections.line.index (output.stop - start) output.layout =
    .ok () sizeLayout
  /-- Where the last section ends, and the layout with all sections. -/
  stop : UInt32
  fullLayout : Elf.Layout
  copySections : Elf.Placing.copySections output.stop sizeLayout = .ok stop fullLayout
  segmentLayout : Elf.Layout
  writeSegments : Elf.Placing.writeSegments fullLayout = .ok () segmentLayout
  finalLayout : Elf.Layout
  writeHeaders : Elf.Placing.writeSectionHeaders stop segmentLayout =
    .ok stats.fileSize finalLayout
  out_eq : out = finalLayout.image.bytes
  stats_eq : stats = { stats with
    units := output.units
    rowsDecoded := output.rowsDecoded
    rowsKept := output.rowsKept
    oldLineSize := file.sections.line.size
    newLineSize := output.stop - start }

/-- A file that is shrunk went through all stages. -/
theorem nonempty_stages {data out : Bytes} {stats : Stats}
    (h : (shrink data).result = .ok (out, stats)) : Nonempty (Stages data out stats) := by
  unfold shrink at h
  simp only [Traced.result_bind, bind_eq_ok_iff] at h
  obtain ⟨file, hfile, h⟩ := h
  -- a line section in the fixed part ends the run at once
  by_cases hunloaded : file.sections.line.offset < file.container.fixedStop
  · simp only [hunloaded, if_true, Traced.result_bind, bind_eq_ok_iff] at h
    obtain ⟨_, hfail, -⟩ := h
    exact absurd hfail result_fail_ne_ok
  · simp only [hunloaded, if_false, Traced.result_bind, bind_eq_ok_iff,
      Elf.Placing.result_silent_eq_ok_iff, Elf.Placing.result_traced_eq_ok_iff, Traced.result_tell,
      result_orFail_eq_ok_iff, result_ofElf_eq_ok_iff, Traced.result_pure, Except.ok.injEq,
      Prod.exists] at h
    -- the names are those of the fields: what each stage returned and left
    obtain ⟨frontStop, frontLayout, hfront, -, -, infoStop, infoLayout, hinfo, placedInfo, hplaced,
      start, hstart, _, lineLayout, hline, output, houtput, _, sizeLayout, hsize, stop, fullLayout,
      hfull, _, segmentLayout, hsegments, fileSize, finalLayout, hheaders, -, -, h⟩ := h
    obtain ⟨rfl, rfl⟩ := Prod.mk.inj h
    exact ⟨{
      file
      opened := hfile
      unloaded := UInt32.not_lt.mp hunloaded
      frontStop
      frontLayout
      copyFixed := hfront
      infoStop
      infoLayout
      copyInfo := hinfo
      placedInfo
      findInfo := Elf.Container.section?_eq_ok_iff.mp hplaced
      start
      alignLine := hstart
      lineLayout
      markLine := hline
      output
      serveAll := houtput
      sizeLayout
      setSize := hsize
      stop
      fullLayout
      copySections := hfull
      segmentLayout
      writeSegments := hsegments
      finalLayout
      writeHeaders := hheaders
      out_eq := rfl
      stats_eq := rfl }⟩

/-- A file that goes through all stages is shrunk. -/
theorem Stages.result_eq {data out : Bytes} {stats : Stats} (run : Stages data out stats) :
    (shrink data).result = .ok (out, stats) := by
  unfold shrink
  simp only [Traced.result_bind, bind_eq_ok_iff]
  refine ⟨run.file, run.opened, ?_⟩
  simp only [UInt32.not_lt.mpr run.unloaded, if_false, Traced.result_bind, bind_eq_ok_iff,
    Elf.Placing.result_silent_eq_ok_iff, Elf.Placing.result_traced_eq_ok_iff, Traced.result_tell,
    result_orFail_eq_ok_iff, result_ofElf_eq_ok_iff, Traced.result_pure, Except.ok.injEq,
    Prod.exists]
  refine ⟨run.frontStop, run.frontLayout, run.copyFixed, (), trivial, run.infoStop, run.infoLayout,
    run.copyInfo, run.placedInfo, Elf.Container.section?_eq_ok_iff.mpr run.findInfo, run.start,
    run.alignLine, (), run.lineLayout, run.markLine, run.output, run.serveAll, (), run.sizeLayout,
    run.setSize, run.stop, run.fullLayout, run.copySections, (), run.segmentLayout,
    run.writeSegments, stats.fileSize, run.finalLayout, run.writeHeaders, (), trivial, ?_⟩
  exact Prod.ext run.out_eq.symm run.stats_eq.symm

end DwarfLines
