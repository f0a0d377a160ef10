import ReservoirDeck.Proofs.Reading.Progress
import ReservoirDeck.Proofs.RoundTrip.Keywords

/-!
Bodies of keywords as sequences of calls, layout by layout. A line of text is the one body that is not
read item by item.
-/

namespace ReservoirDeck

namespace ReadM

variable {α : Type}

theorem calls_namedRecords {fields : String → RecordM α} (h : ∀ leader, (fields leader).FieldCalls) :
    Calls (namedRecords fields) :=
  .iterate (calls_namedStep h) (namedStep_progresses h) []

theorem calls_rows {fields : RecordM α} (h : fields.FieldCalls) (hprogress : fields.Progresses) :
    Calls (rows fields) := by
  refine .bind (.iterate (calls_rowStep h) (rowStep_progresses hprogress) []) fun rows => ?_
  split
  · exact .malformed _
  · exact .pure _

theorem calls_regionTable {columns : Nat} (hcolumns : columns ≠ 0) : Calls (regionTable columns) := by
  refine .bind (.iterate (calls_tableStep columns) (tableStep_progresses hcolumns) _) fun regions => ?_
  split
  · exact .malformed _
  · exact .pure _

theorem calls_pvtTable : Calls pvtTable := by
  refine .bind (.iterate calls_pvtStep pvtStep_progresses _) fun regions => ?_
  split
  · exact .malformed _
  · exact .pure _

theorem calls_endpointTable {layout : DepthLayout} (hwidth : layout.width ≠ 0) :
    Calls (endpointTable layout) := by
  refine .bind (.iterate (calls_depthStep layout) (depthStep_progresses hwidth) _) fun t => ?_
  dsimp only
  split
  case' isTrue => refine .bind (.pure t) fun t => ?_
  case' isFalse => refine (calls_closeDepthRegion layout t).bind fun t => ?_
  all_goals
    split
    · exact .malformed _
    · split
      · exact .pure _
      · exact .malformed _

end ReadM

theorem Layout.calls_read [Calendar] {layout : Layout} (hw : layout.isWritable = true) (htitle : layout ≠ .title) :
    layout.read.Calls := by
  cases layout with
  | record fields => exact .record (Record.calls_read "" fields)
  | named leader fields =>
    exact ReadM.calls_namedRecords fun leader => (Record.calls_read leader fields).bind fun _ => .pure _
  | rows fields =>
    rw [isWritable, Bool.and_eq_true] at hw
    exact ReadM.calls_rows (Record.calls_read "" fields) (Record.read_progresses hw.2 "")
  | title => exact absurd rfl htitle
  | startDate => exact ReadM.calls_startDate
  | dates => exact ReadM.calls_namedRecords Date.calls_read
  | steps => exact .items itemCalls_readValues
  | table columns units => exact ReadM.calls_regionTable (by simpa [isWritable] using hw)
  | pvt lead first second third => exact ReadM.calls_pvtTable
  | depth layout => exact ReadM.calls_endpointTable (isOrdered_of_isWritable hw).width_ne_zero

theorem Layout.orderly_read [Calendar] {layout : Layout} (hw : layout.isWritable = true) :
    layout.read.Orderly := by
  by_cases htitle : layout = .title
  · subst htitle
    exact ReadM.orderly_title
  · exact (calls_read hw htitle).orderly

end ReservoirDeck
