import ReservoirDeck.Keyword.Layout

/-!
The keywords that are understood, and the layout of each.
-/

namespace ReservoirDeck

inductive Kind
  -- The grid.
  | specgrid | faults | multflt
  -- The run and its schedule.
  | title | start | dates | tstep
  -- Properties of fluids and rock.
  | density | pvtw | pvcdo | rock | pvdg | pvdo | rocktab | pvto | pvtg
  -- Saturation functions and their end points.
  | swof | sgof | endscale | scalecrs | enptvd | enkrvd
  -- Equilibration.
  | equil
  -- Wells and groups.
  | welspecs | compdat | wconinje | wconprod | weltarg | welopen | wgrupcon
  | gconinje | gconprod | gruptree
  -- Polymer flooding.
  | wpolymer | plyvisc | plyads | plyrock | plymax | tlmixpar
  deriving Repr, DecidableEq

namespace Kind

def all : List Kind :=
  [.specgrid, .faults, .multflt, .title, .start, .dates, .tstep, .density, .pvtw, .pvcdo, .rock,
    .pvdg, .pvdo, .rocktab, .pvto, .pvtg, .swof, .sgof, .endscale, .scalecrs, .enptvd, .enkrvd,
    .equil, .welspecs, .compdat, .wconinje, .wconprod, .weltarg, .welopen, .wgrupcon, .gconinje,
    .gconprod, .gruptree, .wpolymer, .plyvisc, .plyads, .plyrock, .plymax, .tlmixpar]

def name : Kind → String
  | .specgrid => "SPECGRID"
  | .faults => "FAULTS"
  | .multflt => "MULTFLT"
  | .title => "TITLE"
  | .start => "START"
  | .dates => "DATES"
  | .tstep => "TSTEP"
  | .density => "DENSITY"
  | .pvtw => "PVTW"
  | .pvcdo => "PVCDO"
  | .rock => "ROCK"
  | .pvdg => "PVDG"
  | .pvdo => "PVDO"
  | .rocktab => "ROCKTAB"
  | .pvto => "PVTO"
  | .pvtg => "PVTG"
  | .swof => "SWOF"
  | .sgof => "SGOF"
  | .endscale => "ENDSCALE"
  | .scalecrs => "SCALECRS"
  | .enptvd => "ENPTVD"
  | .enkrvd => "ENKRVD"
  | .equil => "EQUIL"
  | .welspecs => "WELSPECS"
  | .compdat => "COMPDAT"
  | .wconinje => "WCONINJE"
  | .wconprod => "WCONPROD"
  | .weltarg => "WELTARG"
  | .welopen => "WELOPEN"
  | .wgrupcon => "WGRUPCON"
  | .gconinje => "GCONINJE"
  | .gconprod => "GCONPROD"
  | .gruptree => "GRUPTREE"
  | .wpolymer => "WPOLYMER"
  | .plyvisc => "PLYVISC"
  | .plyads => "PLYADS"
  | .plyrock => "PLYROCK"
  | .plymax => "PLYMAX"
  | .tlmixpar => "TLMIXPAR"

def ofName? (name : String) : Option Kind :=
  all.find? (·.name == name)

theorem ofName?_name (k : Kind) : ofName? k.name = some k := by
  cases k <;> decide

end Kind

def noLimit : Float := -1.0e20

def unsetDensity : Float := -1.0e100

namespace Scale

def length : Scale := .fixed (.base .length)
def pressure : Scale := .fixed (.base .pressure)
def density : Scale := .fixed (.base .density)
def concentration : Scale := .fixed (.base .polymerDensity)
def compressibility : Scale := .fixed (.base .compressibility)
def liquidRate : Scale := .fixed .liquidRate
def gasRate : Scale := .fixed .gasRate
def reservoirRate : Scale := .fixed .reservoirRate

end Scale

namespace Kind

/-- A pressure and the properties of water or oil at it. -/
def referenceRow : List Field :=
  [.reals
    [.needed "reference_pressure" .pressure,
     .needed "volume_factor" (.fixed .liquidVolume),
     .needed "compressibility" .compressibility,
     .needed "viscosity" (.fixed (.base .viscosity)),
     .optional "viscosibility" 0 .compressibility]
    .incompleteReference]

def specgridFields : List Field :=
  [.ints
    [.tagged "dimensions" 1, .tagged "dimensions" 1, .tagged "dimensions" 1, .tagged "numres" 1]
    .required,
   .name "coord" "F"]

def scalecrsFields : List Field :=
  [.answer "value"]

def wgrupconFields : List Field :=
  [.name "available" "YES", .real "guide_rate" 1.0e20 .unscaled, .name "phase" ""]

def gruptreeFields : List Field :=
  [.name "parent" "FIELD"]

def layout : Kind → Layout
  | .specgrid => .record specgridFields
  | .faults => .named "name"
    [.ints
      [.needed "ijk", .needed "ijk", .needed "ijk", .needed "ijk", .needed "ijk", .needed "ijk"]
      .incompleteBox,
     .requiredName "face" "fault face"]
  | .multflt => .named "fault"
    [.run [.tagged "transmissibility" 1 .unscaled, .tagged "diffusivity" 1 .unscaled]]
  | .title => .title
  | .start => .startDate
  | .dates => .dates
  | .tstep => .steps
  | .density => .rows
    [.run
      [.tagged "oil" unsetDensity .density,
       .tagged "water" unsetDensity .density,
       .tagged "gas" unsetDensity .density]]
  | .pvtw => .rows referenceRow
  | .pvcdo => .rows referenceRow
  | .rock => .rows
    [.requiredReal "reference_pressure" "reference pressure" .pressure,
     .requiredReal "compressibility" "rock compressibility" .compressibility]
  | .pvdg => .table 3 [(0, .base .pressure), (1, .gasVolume), (2, .base .viscosity)]
  | .pvdo => .table 3 [(0, .base .pressure), (1, .liquidVolume), (2, .base .viscosity)]
  | .rocktab => .table 3 [(0, .base .pressure)]
  | .pvto => .pvt .gasInLiquid (.base .pressure) .liquidVolume (.base .viscosity)
  | .pvtg => .pvt (.base .pressure) .liquidInGas .gasVolume (.base .viscosity)
  | .swof => .table 4 [(3, .base .pressure)]
  | .sgof => .table 4 [(3, .base .pressure)]
  | .endscale => .record
    [.name "direction" "NODIR",
     .name "reversibility" "REVERS",
     .int "num_tables" 1,
     .int "num_nodes" 20]
  | .scalecrs => .record scalecrsFields
  -- Depth, SWL, SWCR, SWU and SOWCR.
  | .enptvd => .depth ⟨9, [0, 1, 2, 3, 7]⟩
  -- Depth, KRW, KRO, KRWR and KRORG.
  | .enkrvd => .depth ⟨8, [0, 1, 3, 4, 7]⟩
  | .equil => .rows
    [.run
      [.tagged "datum_depth" 0 .length,
       .tagged "datum_pressure" 0 .pressure,
       .tagged "water_oil_contact" 0 .length,
       .tagged "water_oil_capillary_pressure" 0 .pressure,
       .tagged "gas_oil_contact" 0 .length,
       .tagged "gas_oil_capillary_pressure" 0 .pressure,
       .index "live_oil_init",
       .index "wet_gas_init",
       .index "accuracy"]]
  | .welspecs => .named "well"
    [.requiredName "group" "group name",
     .ints [.tagged "i" 1, .tagged "j" 1] .required,
     .real "datum_depth" (-1) .length,
     .requiredName "preferred_phase" "preferred phase",
     .real "drainage_radius" 0 .length,
     .name "inflow_equation" "STD",
     .name "shut_in" "SHUT",
     .name "crossflow" "YES",
     .int "pvt_table" 0,
     .name "density_calculation" "SEG",
     .int "fip_region" 0]
  | .compdat => .named "well"
    [.ints
      [.tagged "location" 0, .tagged "location" 0, .tagged "location" 0, .tagged "location" 0]
      .required,
     .name "state" "OPEN",
     .int "sat_table" (-1),
     .run
      [.tagged "transmissibility_factor" 0 (.fixed (.base .transmissibility)),
       .tagged "diameter" 0 .length,
       .tagged "kh" (-1) (.fixed (.product .permeability .length)),
       .tagged "skin" 0 .unscaled,
       .tagged "d_factor" (-1.0e100) .unscaled],
     .name "direction" "Z",
     .real "r0" (-1) .length]
  | .wconinje => .named "well"
    [.requiredName "injector_type" "injector type",
     .name "state" "OPEN",
     .requiredName "control" "control mode",
     .run
      [.tagged "surface_rate" noLimit .injected,
       .tagged "reservoir_rate" noLimit .reservoirRate,
       .tagged "bhp" 6891 .pressure,
       .tagged "thp" noLimit .pressure,
       .index "vfp_table",
       .tagged "concentration" 0 (.fixed .gasInLiquid)]]
  | .wconprod => .named "well"
    [.name "state" "OPEN",
     .requiredName "control" "control mode",
     .run
      [.tagged "oil_rate" noLimit .liquidRate,
       .tagged "water_rate" noLimit .liquidRate,
       .tagged "gas_rate" noLimit .gasRate,
       .tagged "liquid_rate" noLimit .liquidRate,
       .tagged "reservoir_rate" noLimit .reservoirRate,
       .tagged "bhp" 1 .pressure,
       .tagged "thp" 0 .pressure,
       .index "vfp_table",
       .tagged "alq" 0 .unscaled,
       .unused, .unused, .unused, .unused, .unused]]
  | .weltarg => .named "well"
    [.requiredName "control" "control quantity",
     .real "value" (-1) .controlled]
  | .welopen => .named "well" [.name "state" "OPEN"]
  | .wgrupcon => .named "well" wgrupconFields
  | .gconinje => .named "group"
    [.requiredName "injector_type" "injector type",
     .requiredName "control" "control mode",
     .run
      [.tagged "surface_rate" noLimit .injected,
       .tagged "reservoir_rate" noLimit .reservoirRate,
       .tagged "reinjection_fraction" noLimit .unscaled,
       .tagged "voidage_fraction" noLimit .unscaled]]
  | .gconprod => .named "group"
    [.name "control" "NONE",
     .run
      [.tagged "oil_rate" noLimit .liquidRate,
       .tagged "water_rate" noLimit .liquidRate,
       .tagged "gas_rate" noLimit .gasRate,
       .tagged "liquid_rate" noLimit .liquidRate],
     .name "procedure" "NONE",
     .skipped 6,
     .real "reservoir_rate" noLimit .reservoirRate]
  | .gruptree => .named "child" gruptreeFields
  | .wpolymer => .named "well"
    [.requiredReal "polymer_concentration" "polymer concentration" .concentration,
     .requiredReal "salt_concentration" "salt concentration" .concentration,
     .name "polymer_group" "",
     .name "salt_group" ""]
  | .plyvisc => .table 2 [(0, .base .polymerDensity)]
  | .plyads => .table 2 [(0, .base .polymerDensity)]
  | .plyrock => .rows
    [.run
      [.tagged "dead_pore_volume" (-1) .unscaled,
       .tagged "residual_resistance" (-1) .unscaled,
       .tagged "rock_density" (-1) .concentration,
       .tagged "adsorption_index" 1 .unscaled,
       .tagged "max_adsorption" (-1) .unscaled]]
  | .plymax => .rows
    [.requiredReal "polymer_concentration" "polymer concentration" .concentration,
     .requiredReal "salt_concentration" "salt concentration" .concentration]
  | .tlmixpar => .rows [.companions "viscosity" "viscosity mixing parameter" "density"]

end Kind

end ReservoirDeck
