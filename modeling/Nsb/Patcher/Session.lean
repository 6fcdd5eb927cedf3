import Nsb.Patcher.Patch

/-!
# Runs of nsb

`patch_process` and `unpatch_process` of `patcher/patch.c`, from the point where
the threads are stopped and the stacks are checked.  Every run starts from
nothing: it maps its scratch region, reads the mappings of the process, puts them
together to objects, looks for applied patches among these, and then applies or
reverts one patch.

An `Invocation` is what a run depends on besides the process.  The scratch region
and the mappings of the service are nsb's own and are gone when the run ends, so
they are in the lists of nsb and not in `World.vmas`.  The link map of the
process is given by the addresses that `process_needed_list` finds in it.

`p` is NULL in the error message of `unpatch_process` for a patch that is not
there; the model returns `-EFAULT`, as the next line of the source says.
-/

namespace Nsb

/-! ## Collecting -/

/-- `create_vma`: the link to an object is not there yet. -/
def createVma (template : Vma) : Vma := { template with dlm := none }

/-- `collect_vma` for some lines of `/proc/PID/maps`. -/
def collectVmaLines (maps : List Vma) : Except Int (List Vma) :=
  spliceVmaListsSorted (maps.map createVma) []

/-- `collect_vmas`: `iter_map_files` without any line returns -1. -/
def collectVmas (maps : List Vma) : Except Int (List Vma) :=
  if maps.isEmpty then .error (-1) else collectVmaLines maps

/-- `process_collect_vmas`: the mappings, the objects and the applied patches. -/
def processCollectVmas (ft : Faults) (maps : List Vma) :
    Except Int (List Vma × List DlMap × List Patch) :=
  match collectVmas maps with
  | .error err => .error err
  | .ok vmas =>
      let (vmas, dlMaps, err) := collectDlMaps vmas
      if err ≠ 0 then .error err
      else
        let ((applied, _), err) := collectPatches ft dlMaps
        if err ≠ 0 then .error err else .ok (vmas, dlMaps, applied)

/-- `create_dl_map`, for the mappings of one file. -/
def createDlMap (id : Nat) (vmas : List Vma) : Except Int (List Vma × Option DlMap) :=
  let (vmas, dlMaps, err) := collectDlMaps vmas
  if err ≠ 0 then .error err
  else
    .ok (vmas.map fun v => { v with dlm := v.dlm.map fun _ => id },
      dlMaps.getLast?.map fun dlm => { dlm with id := id })

/-- `service_collect_vmas` for the lines that have the path of the service. -/
def serviceCollectVmas (id : Nat) (serviceMaps vmas : List Vma) :
    Except Int (List Vma × Option DlMap) :=
  match collectVmaLines serviceMaps with
  | .error err => .error err
  | .ok serviceVmas =>
      if serviceVmas.isEmpty then .error (-ENOENT)
      else
        match createDlMap id serviceVmas with
        | .error err => .error err
        | .ok (serviceVmas, dlm) =>
            (spliceVmaListsSorted serviceVmas vmas).map fun vmas => (vmas, dlm)

/-- `compare_addr`. -/
def compareAddr (addr : Addr) (dlm : DlMap) : Bool :=
  if addr < dlMapStart dlm then false else if addr > dlMapEnd dlm then false else true

/-- `find_dl_map_by_addr`. -/
def findDlMapByAddr (dlMaps : List DlMap) (addr : Addr) : Option DlMap :=
  dlMaps.find? (compareAddr addr)

/-- The loop of `process_collect_needed`. -/
def collectNeededLoop (dlMaps : List DlMap) : List Addr → Except Int (List DlMap)
  | [] => .ok []
  | address :: l =>
      match findDlMapByAddr dlMaps address with
      | none => .error (-ENOENT)
      | some dlm =>
          if dlm.execVma.isNone then .error (-EFAULT)
          else (collectNeededLoop dlMaps l).map (dlm :: ·)

/-- `process_collect_needed`: without any address it returns the `-ENOENT` that
it starts from. -/
def processCollectNeeded (dlMaps : List DlMap) (needed : List Addr) : Except Int (List DlMap) :=
  if needed.isEmpty then .error (-ENOENT) else collectNeededLoop dlMaps needed

/-! ## A run -/

/-- What a run depends on besides the process.  `remote` is where the kernel puts
the scratch region, `service` are the mappings of the service library, `none`
when the run goes without it. -/
structure Invocation where
  patchfile : String
  patchEi : ElfInfo
  dryRun : Bool := false
  remote : Addr
  service : Option (List Vma) := none
  needed : List Addr
  sentinel : Addr := 0

def MAP_ANONYMOUS : BitVec 32 := 32

/-- `remote_vma`. -/
def remoteVma (addr : Addr) : Vma :=
  { addr := addr, length := 4096, flags := MAP_ANONYMOUS ||| MAP_PRIVATE
    prot := PROT_READ ||| PROT_WRITE ||| PROT_EXEC }

/-- `/proc/PID/maps` after `process_link`. -/
def Invocation.maps (inv : Invocation) (w : World) : List Vma :=
  insertMapping (remoteVma inv.remote) w.vmas

variable (ft : Faults)

/-- The steps of `patch_process` in front of `apply_dyn_binpatch`. -/
def patchContext (inv : Invocation) (w : World) :
    Except Int (Ctx × List ExternSymbol × List ExternSymbol) :=
  match elfInfoBinpatch inv.patchEi with
  | .error _ => .error 1
  | .ok pi =>
      match processCollectVmas ft (inv.maps w) with
      | .error err => .error err
      | .ok (vmas, dlMaps, applied) =>
          if (findPatchByBid applied pi.patchBid).isSome then .error (-EEXIST)
          else
            match findDlMapByBid dlMaps pi.targetBid with
            | none => .error (-ENOENT)
            | some target =>
                match inv.service.elim (.ok (vmas, none))
                    fun l => serviceCollectVmas dlMaps.length l vmas with
                | .error err => .error err
                | .ok (vmas, serviceDlm) =>
                    match processCollectNeeded dlMaps inv.needed with
                    | .error err => .error err
                    | .ok needed =>
                        let ctx : Ctx :=
                          { dryRun := inv.dryRun
                            serviceLoaded := inv.service.isSome
                            patchfile := inv.patchfile
                            patchEi := inv.patchEi
                            vmas := vmas
                            dlMaps := dlMaps
                            serviceDlm := serviceDlm
                            sentinel := inv.sentinel
                            appliedPatches := applied
                            neededList := needed
                            pi := pi
                            targetDlm := target }
                        let (relas, err) :=
                          resolveRelocations ctx (collectRelocations inv.patchEi).1
                        if err ≠ 0 then .error err else .ok (ctx, relas)

/-- `patch_process`. -/
def patchProcess (inv : Invocation) (w : World) : World × Int :=
  match patchContext ft inv w with
  | .error err => (w, err)
  | .ok (ctx, relas) =>
      let r := applyDynBinpatch ft ctx relas w
      (r.world, r.err)

/-- The steps of `unpatch_process` in front of `revert_dyn_binpatch`.  Nothing
behind them reads `TDLM(ctx)`, which is not set. -/
def unpatchContext (inv : Invocation) (w : World) : Except Int (Ctx × Patch) :=
  match elfInfoBinpatch inv.patchEi with
  | .error _ => .error 1
  | .ok pi =>
      match processCollectVmas ft (inv.maps w) with
      | .error err => .error err
      | .ok (vmas, dlMaps, applied) =>
          match findPatchByBid applied pi.patchBid with
          | none => .error (-EFAULT)
          | some p =>
              .ok ({ dryRun := inv.dryRun
                     patchfile := inv.patchfile
                     patchEi := inv.patchEi
                     vmas := vmas
                     dlMaps := dlMaps
                     sentinel := inv.sentinel
                     appliedPatches := applied
                     pi := pi
                     targetDlm := p.targetDlm.getD p.patchDlm }, p)

/-- `unpatch_process`. -/
def unpatchProcess (inv : Invocation) (w : World) : World × Int :=
  match unpatchContext ft inv w with
  | .error err => (w, err)
  | .ok (ctx, p) => revertDynBinpatch ft ctx p w

/-- A run of nsb. -/
inductive Command where
  | patch (inv : Invocation)
  | unpatch (inv : Invocation)

def Command.inv : Command → Invocation
  | .patch inv => inv
  | .unpatch inv => inv

def Command.run : Command → World → World × Int
  | .patch inv, w => patchProcess ft inv w
  | .unpatch inv, w => unpatchProcess ft inv w

/-- A run in which no call fails, which is no dry run, and which returns zero. -/
def Step (w : World) (c : Command) (w' : World) : Prop :=
  c.inv.dryRun = false ∧ c.run {} w = (w', 0)

/-! ## What was applied -/

/-- The build ID of a patch file. -/
def patchBidOf (ei : ElfInfo) : Option String :=
  match ei.vzpatch with
  | some (.ok pi) => some pi.patchBid
  | _ => none

/-- The jumps of a patch file. -/
def jumpsOf (ei : ElfInfo) : List FuncJump :=
  match ei.vzpatch with
  | some (.ok pi) => pi.funcJumps
  | _ => []

/-- A patch has a jump for a function. -/
def coversFunc (ei : ElfInfo) (f : BitVec 64) : Bool :=
  (jumpsOf ei).any fun fj => fj.funcValue == f

/-- One more run: `patch_process` applies its patch, `unpatch_process` takes back
the one with the build ID. -/
def record (applied : List Invocation) : Command → List Invocation
  | .patch inv => applied ++ [inv]
  | .unpatch inv => applied.filter fun p => patchBidOf p.patchEi != patchBidOf inv.patchEi

/-- The patches that are applied after a sequence of runs, in the order of their
application. -/
def history (cs : List Command) : List Invocation := cs.foldl record []

theorem history_snoc (cs : List Command) (c : Command) :
    history (cs ++ [c]) = record (history cs) c := by
  rw [history, List.foldl_append]
  rfl

end Nsb
