import Paging.Machine.Hart
import Paging.Log.Prefix
/-!
# Boot

The boot sequence sends the log to the console, hands the frames of RAM above the hypervisor
image to a frame allocator, prints a map of memory with every line tagged `[kmain] `, and sets
up the boot hart. It never comes back: if setting up the hart fails it halts with that error,
and otherwise with `Fault.bootReturned`. An image that leaves no frame of RAM above it halts
before anything is allocated.
-/

namespace Paging

open Run

namespace Machine

/-- The tag in front of each line of the memory map. -/
def bootTag : String := "[kmain] "

/-- An address as the memory map prints it: hexadecimal, padded with spaces to ten digits. -/
def mapAddress (a : UInt64) : String :=
  "0x" ++ Numeral.padLeft 10 (Numeral.hex a.toNat)

/-- The lines of the memory map, one text per write. -/
def memoryMapLines (memStart memEnd kernelStart kernelEnd : PhysAddr) (free watermark : UInt64) :
    List String :=
  [ "physical memory map:\n",
    "  RAM   [" ++ mapAddress memStart ++ " - " ++ mapAddress memEnd ++ "], size: " ++
      Numeral.decimal ((memEnd - memStart) / 1024).toNat ++ "Kb\n",
    "  image [" ++ mapAddress kernelStart ++ " - " ++ mapAddress kernelEnd ++ "], size: " ++
      Numeral.decimal ((kernelEnd - kernelStart) / 1024).toNat ++ "Kb\n",
    "free memory: " ++ Numeral.decimal (Mode.sv39.framesSize free / 1024).toNat ++ "Kb (" ++
      Numeral.decimal free.toNat ++ " frames from 0x" ++ Numeral.hex watermark.toNat ++ ")\n" ]

/-- Writes the texts to the current sink, each line tagged. -/
def printTagged (tag : String) (texts : List String) : Run Unit :=
  modify fun m =>
    match m.log.current with
    | none => m
    | some i =>
      let put (l : Logger) (chunk : List UInt8) : (Nat × Option Empty) × Logger :=
        ((chunk.length, none), l.writeTo i ⟨chunk.toArray⟩)
      let (_, log) := texts.foldl (fun (acc : LineTagger × Logger) text =>
        let (_, t, l) := acc.1.write put acc.2 text.toUTF8.toList
        (t, l)) (({ tag := tag.toUTF8.toList } : LineTagger), m.log)
      { m with log := log }

/-- Boots hart `hartId` with RAM `[memStart, memEnd)` and the image `[kernelStart, kernelEnd)`.
It always halts. -/
def boot (hartId memStart memEnd kernelStart kernelEnd : UInt64) : Run Unit := do
  modify fun m => { m with log := m.log.attach (some consoleSink) }
  let sv39 := Mode.sv39
  let firstFree := sv39.ppnOf (Word.alignUp kernelEnd (← ofHalting (sv39.pageSize Level.leaf)))
  let stop := sv39.ppnOf memEnd
  if firstFree ≥ stop then
    halt (Halt.withNote ("[kmain] image end 0x" ++ Numeral.hex kernelEnd.toNat ++
      " leaves no frames below 0x" ++ Numeral.hex memEnd.toNat ++ "\n") .noUsableMemory)
  let a ← newAllocator firstFree stop
  let frames := (← cell a).frames
  printTagged bootTag
    (memoryMapLines memStart memEnd kernelStart kernelEnd frames.freeFrames frames.watermark)
  match ← setupHart hartId a memStart memEnd with
  | .error f => halt (Halt.silent f)
  | .ok _ => halt (Halt.silent .bootReturned)

end Machine

end Paging
