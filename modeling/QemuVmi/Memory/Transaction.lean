import QemuVmi.Memory.TopologyUpdate

/-!
# Transactions

The functions of `memory.c` that change the hierarchy. Each one runs in a transaction and
says by `memory_region_update_pending` if the flat views may have changed. When the
outermost transaction commits and an update is pending, the topology of all address spaces
is generated again.

Left out are the reference counts, the coalesced and ioeventfd ranges and the global
callbacks of the listeners. `none` stands for a failed assertion and for undefined
behaviour of a queue (an address space that is registered twice, or not at all).
-/

namespace QemuVmi.Memory

structure MemoryState where
  regions : Regions
  /-- `memory_region_transaction_depth`. -/
  transactionDepth : Nat
  /-- `memory_region_update_pending`. -/
  updatePending : Bool
  /-- `address_spaces`, with the root and the current map of each. -/
  addressSpaces : List AsId
  root : AsId → Option Rid
  currentMap : AsId → FlatView
  events : List Event

def MemoryState.assign (s : MemoryState) (mr : Rid) (f : MemoryRegion → MemoryRegion) : MemoryState :=
  { s with regions := Function.update s.regions mr (f (s.regions mr)) }

/-- `memory_region_update_pending |= pending`. -/
def MemoryState.pend (s : MemoryState) (pending : Bool) : MemoryState :=
  { s with updatePending := s.updatePending || pending }

def memoryRegionTransactionBegin (s : MemoryState) : MemoryState :=
  { s with transactionDepth := s.transactionDepth + 1 }

section
variable (fuel : Nat)

def addressSpaceUpdateTopology (s : MemoryState) (as : AsId) : Option MemoryState := do
  let new ← generateMemoryTopology s.regions fuel (s.root as)
  let events ← addressSpaceUpdateTopologyEvents as (s.currentMap as) new
  return { s with currentMap := Function.update s.currentMap as new, events := s.events ++ events }

def memoryRegionTransactionCommit (s : MemoryState) : Option MemoryState :=
  if s.transactionDepth = 0 then none
  else
    let s := { s with transactionDepth := s.transactionDepth - 1 }
    if s.transactionDepth = 0 ∧ s.updatePending = true then
      s.addressSpaces.foldlM (addressSpaceUpdateTopology fuel) { s with updatePending := false }
    else some s

section
variable (mr : Rid)

/-- The transaction in which an attribute is set: the update is pending if the region is
enabled. -/
def setAttribute (f : MemoryRegion → MemoryRegion) (s : MemoryState) : Option MemoryState :=
  let s := (memoryRegionTransactionBegin s).assign mr f
  memoryRegionTransactionCommit fuel (s.pend (s.regions mr).enabled)

/-- `memory_region_set_log`. A client is less than 32. -/
def memoryRegionSetLog (log : Bool) (client : Nat) (s : MemoryState) :
    Option MemoryState :=
  let mask := BitVec.ofNat 8 (1 <<< client)
  setAttribute fuel mr (fun m => { m with
    dirtyLogMask := (m.dirtyLogMask &&& ~~~mask) ||| (if log then mask else 0#8) }) s

def memoryRegionSetReadonly (readonly : Bool) (s : MemoryState) :
    Option MemoryState :=
  if (s.regions mr).readonly ≠ readonly then
    setAttribute fuel mr (fun m => { m with readonly := readonly }) s
  else some s

def memoryRegionRomDeviceSetRomd (romdMode : Bool) (s : MemoryState) :
    Option MemoryState :=
  if (s.regions mr).romdMode ≠ romdMode then
    setAttribute fuel mr (fun m => { m with romdMode := romdMode }) s
  else some s

section
variable (offset : HwAddr)

def memoryRegionSetAliasOffset (s : MemoryState) :
    Option MemoryState :=
  if (s.regions mr).aliasMr = none then none
  else if offset = (s.regions mr).aliasOffset then some s
  else setAttribute fuel mr (fun m => { m with aliasOffset := offset }) s

def memoryRegionSetEnabled (enabled : Bool) (s : MemoryState) :
    Option MemoryState :=
  if enabled = (s.regions mr).enabled then some s
  else
    let s := (memoryRegionTransactionBegin s).assign mr fun m => { m with enabled := enabled }
    memoryRegionTransactionCommit fuel { s with updatePending := true }

/-- The second loop of `memory_region_add_subregion_common`: `subregion` goes before the
first one whose priority is not higher. -/
def insertSubregion (regions : Regions) (subregion : Rid) : List Rid → List Rid
  | [] => [subregion]
  | other :: rest =>
      if (regions subregion).priority ≥ (regions other).priority then subregion :: other :: rest
      else other :: insertSubregion regions subregion rest

/-- `memory_region_add_subregion_common`. Its first loop only looks for collisions. -/
def memoryRegionAddSubregionCommon (subregion : Rid)
    (s : MemoryState) : Option MemoryState :=
  let s := memoryRegionTransactionBegin s
  if (s.regions subregion).parent ≠ none then none
  else
    let s := s.assign subregion fun m => { m with parent := some mr, addr := offset }
    let s := s.assign mr fun m => { m with
      subregions := insertSubregion s.regions subregion m.subregions }
    memoryRegionTransactionCommit fuel
      (s.pend ((s.regions mr).enabled && (s.regions subregion).enabled))

def memoryRegionAddSubregion (subregion : Rid)
    (s : MemoryState) : Option MemoryState :=
  memoryRegionAddSubregionCommon fuel mr offset subregion
    (s.assign subregion fun m => { m with mayOverlap := false, priority := 0 })

def memoryRegionAddSubregionOverlap (subregion : Rid)
    (priority : Int) (s : MemoryState) : Option MemoryState :=
  memoryRegionAddSubregionCommon fuel mr offset subregion
    (s.assign subregion fun m => { m with mayOverlap := true, priority := priority })
end

def memoryRegionDelSubregion (subregion : Rid) (s : MemoryState) :
    Option MemoryState :=
  let s := memoryRegionTransactionBegin s
  if (s.regions subregion).parent ≠ some mr then none
  else
    let s := s.assign subregion fun m => { m with parent := none }
    let s := s.assign mr fun m => { m with subregions := m.subregions.erase subregion }
    memoryRegionTransactionCommit fuel
      (s.pend ((s.regions mr).enabled && (s.regions subregion).enabled))

def memoryRegionSetAddress (addr : HwAddr) (s : MemoryState) :
    Option MemoryState :=
  let m := s.regions mr
  match m.parent with
  | none => some (s.assign mr fun m => { m with addr := addr })
  | some parent =>
      if addr = m.addr then some s
      else do
        let s ← memoryRegionDelSubregion fuel parent mr (memoryRegionTransactionBegin s)
        let s ←
          if m.mayOverlap then memoryRegionAddSubregionOverlap fuel parent addr mr m.priority s
          else memoryRegionAddSubregion fuel parent addr mr s
        memoryRegionTransactionCommit fuel s
end

def addressSpaceInit (as : AsId) (root : Rid) (s : MemoryState) : Option MemoryState :=
  if as ∈ s.addressSpaces then none
  else
    let s := memoryRegionTransactionBegin s
    let s := { s with
      root := Function.update s.root as (some root)
      currentMap := Function.update s.currentMap as []
      addressSpaces := s.addressSpaces ++ [as] }
    memoryRegionTransactionCommit fuel (s.pend (s.regions root).enabled)

def addressSpaceDestroy (as : AsId) (s : MemoryState) : Option MemoryState :=
  if as ∉ s.addressSpaces then none
  else
    let s := memoryRegionTransactionBegin s
    let s := { s with root := Function.update s.root as none }
    (memoryRegionTransactionCommit fuel s).map fun s =>
      { s with addressSpaces := s.addressSpaces.erase as }

inductive Op
  | begin
  | commit
  | addSubregion (mr : Rid) (offset : HwAddr) (subregion : Rid)
  | addSubregionOverlap (mr : Rid) (offset : HwAddr) (subregion : Rid) (priority : Int)
  | delSubregion (mr subregion : Rid)
  | setEnabled (mr : Rid) (enabled : Bool)
  | setAddress (mr : Rid) (addr : HwAddr)
  | setAliasOffset (mr : Rid) (offset : HwAddr)
  | setReadonly (mr : Rid) (readonly : Bool)
  | romDeviceSetRomd (mr : Rid) (romdMode : Bool)
  | setLog (mr : Rid) (log : Bool) (client : Nat)
  | addressSpaceInit (as : AsId) (root : Rid)
  | addressSpaceDestroy (as : AsId)

def Op.step : Op → MemoryState → Option MemoryState
  | .begin, s => some (memoryRegionTransactionBegin s)
  | .commit, s => memoryRegionTransactionCommit fuel s
  | .addSubregion mr offset subregion, s => memoryRegionAddSubregion fuel mr offset subregion s
  | .addSubregionOverlap mr offset subregion priority, s =>
      memoryRegionAddSubregionOverlap fuel mr offset subregion priority s
  | .delSubregion mr subregion, s => memoryRegionDelSubregion fuel mr subregion s
  | .setEnabled mr enabled, s => memoryRegionSetEnabled fuel mr enabled s
  | .setAddress mr addr, s => memoryRegionSetAddress fuel mr addr s
  | .setAliasOffset mr offset, s => memoryRegionSetAliasOffset fuel mr offset s
  | .setReadonly mr readonly, s => memoryRegionSetReadonly fuel mr readonly s
  | .romDeviceSetRomd mr romdMode, s => memoryRegionRomDeviceSetRomd fuel mr romdMode s
  | .setLog mr log client, s => memoryRegionSetLog fuel mr log client s
  | .addressSpaceInit as root, s => Memory.addressSpaceInit fuel as root s
  | .addressSpaceDestroy as, s => Memory.addressSpaceDestroy fuel as s
end

end QemuVmi.Memory
