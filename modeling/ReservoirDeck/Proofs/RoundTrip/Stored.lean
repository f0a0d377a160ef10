import ReservoirDeck.Deck.Basic

/-! The reals that keywords hold, the defaults of fields that were left out among them. -/

namespace ReservoirDeck

variable {R : Type}

def RealSlot.stored : (slot : RealSlot) → slot.Value R → List R
  | .tagged .., v => [Defaulted.value v]
  | .index _, _ => []
  | .needed .., v => [v]
  | .optional .., v => [v]
  | .unused, _ => []

def Field.stored : (field : Field) → field.Value R → List R
  | .name .., _ => []
  | .requiredName .., _ => []
  | .answer _, _ => []
  | .reals _ _, v => Row.collect RealSlot.stored v
  | .ints _ _, _ => []
  | .companions .., v => [v.1, Defaulted.value v.2]
  | .skipped _, _ => []

def Record.stored {fields : List Field} (r : Record R fields) : List R :=
  Row.collect Field.stored r

def RegionTable.stored (t : RegionTable R) : List R :=
  t.regions.flatten.flatten

def Layout.stored : (layout : Layout) → layout.Body R → List R
  | .record _, body => Record.stored body
  | .named _ _, body => body.flatMap fun r => Record.stored r.2
  | .rows _, body => body.flatMap Record.stored
  | .title, _ => []
  | .startDate, _ => []
  | .dates, _ => []
  | .steps, body => body
  | .table _ _, body => RegionTable.stored body
  | .pvt .., body => (body : PvtTable R).regions.flatten.flatten
  | .depth _, body => RegionTable.stored (body : EndpointTable R).table

def Keyword.stored : Keyword R → List R
  | .typed kind body => kind.layout.stored body
  | .ignored _ _ => []

def Deck.stored (d : Deck R) : List R :=
  d.keywords.flatMap Keyword.stored

end ReservoirDeck
